import NfcPolling.Proofs.Settings.FirstBinding
import NfcPolling.Proofs.Settings.Spelling

/-! The layout of a configuration has no meaning. Blanks around a line and around its
first equals sign, and whole lines that are blank or comments, change nothing of what
is bound and of the answer; lines that are rejected stay rejected. -/
namespace NfcPolling.Layout
open NfcPolling.Settings Bytes LineMeaning

instance (text : Bytes) : Decidable (Blank text) :=
  List.decidableBAll _ text

/-- The line with blanks put in: at its ends, and before and behind its first equals
sign where it has one. -/
inductive Spaced : Bytes → Bytes → Prop where
  | ends {line front back : Bytes} (opens : Blank front) (closes : Blank back) :
      Spaced line (front ++ line ++ back)
  | sign {line before after front left right back : Bytes}
      (divided : DividedAt line before after) (opens : Blank front) (leads : Blank left)
      (follows : Blank right) (closes : Blank back) :
      Spaced line (front ++ (before ++ left ++ ofChar '=' :: (right ++ after)) ++ back)

/-- The line is blank, or a number sign or a NUL comes first behind its blanks. -/
inductive Idle : Bytes → Prop where
  | blank {line : Bytes} (all : Blank line) : Idle line
  | comment {front rest : Bytes} (opens : Blank front) : Idle (front ++ ofChar '#' :: rest)
  | nul {front rest : Bytes} (opens : Blank front) : Idle (front ++ 0 :: rest)

/-- The lines of a text, and those of the text laid out anew: blanks are put into its
lines, and idle lines between them. -/
inductive Relaid : List Bytes → List Bytes → Prop where
  | done : Relaid [] []
  | line {line other : Bytes} {lines others : List Bytes} (spaced : Spaced line other)
      (rest : Relaid lines others) : Relaid (line :: lines) (other :: others)
  | inserted {line : Bytes} {lines others : List Bytes} (idle : Idle line)
      (rest : Relaid lines others) : Relaid lines (line :: others)

theorem Spaced.back (line : Bytes) {back : Bytes} (closes : Blank back) :
    Spaced line (line ++ back) :=
  @Spaced.ends line [] back (by decide) closes

theorem Spaced.refl (line : Bytes) : Spaced line line := by
  have same : Spaced line (line ++ []) := .back line (by decide)
  rwa [List.append_nil] at same

/-- The first byte of the line that is not blank. -/
def opening (line : Bytes) : Option UInt8 := line.find? (!isBlank ·)

theorem opening_blank {line : Bytes} (blank : Blank line) : opening line = none := by
  rw [opening, List.find?_eq_none]
  intro b member
  simp [(blank_iff line).mp blank b member]

theorem opening_behind {front : Bytes} (blank : Blank front) {b : UInt8}
    (solid : isBlank b = false) (rest : Bytes) : opening (front ++ b :: rest) = some b := by
  rw [opening, List.find?_append, ← opening, opening_blank blank]
  simp [solid]

theorem head_trim (line : Bytes) : (trim line).head? = opening line := by
  obtain ⟨front, back, frontBlank, backBlank, whole⟩ := trim_pads line
  cases trimmed : trim line with
  | nil =>
    rw [trimmed, List.append_nil] at whole
    rw [whole, opening, List.find?_append, ← opening, ← opening, opening_blank frontBlank,
      opening_blank backBlank]
    rfl
  | cons first rest =>
    rw [trimmed, List.append_assoc] at whole
    rw [whole]
    exact (opening_behind frontBlank (trim_opens trimmed) _).symm

theorem significant_iff (line : Bytes) :
    Significant line ↔ ∃ b, opening line = some b ∧ b ≠ ofChar '#' ∧ b ≠ 0 := by
  rw [significant_trim, ← head_trim]
  cases trim line with
  | nil => simp
  | cons first rest => simp

theorem idle_ignored [Dialect] {line : Bytes} (idle : Idle line) : Line.read line = .ignored := by
  apply read_insignificant
  rw [significant_iff]
  rintro ⟨b, opens, comment, nul⟩
  cases idle with
  | blank all =>
    rw [opening_blank all] at opens
    cases opens
  | comment blank =>
    rw [opening_behind blank (by decide)] at opens
    exact comment (Option.some.inj opens).symm
  | nul blank =>
    rw [opening_behind blank (by decide)] at opens
    exact nul (Option.some.inj opens).symm

/-- The lines do the same to a table; of faults only the text may differ. -/
inductive Alike : Line → Line → Prop where
  | ignored : Alike .ignored .ignored
  | rejected (fault other : LineFault) : Alike (.rejected fault) (.rejected other)
  | binding (key text : Bytes) (value : Value) :
      Alike (.binding key text value) (.binding key text value)

theorem Alike.refl (line : Line) : Alike line line := by
  cases line with
  | ignored => exact .ignored
  | rejected fault => exact .rejected fault fault
  | binding key text value => exact .binding key text value

theorem read_padded [Dialect] {front back : Bytes} (opens : Blank front) (closes : Blank back)
    (line : Bytes) : Line.read (front ++ line ++ back) = Line.read line := by
  rw [Line.read, trim_back closes, trim_front opens, Line.read]

/-- The sign is no blank, so it opens the line where no byte of the key does. -/
theorem opening_apart {left : Bytes} (leads : Blank left) (before rest other : Bytes) :
    opening (before ++ left ++ ofChar '=' :: rest) = opening (before ++ ofChar '=' :: other) := by
  have silent : left.find? (!isBlank ·) = none := opening_blank leads
  have sign : isBlank (ofChar '=') = false := by decide
  simp [opening, List.find?_append, silent, sign]

section Apart
variable {line before after left right : Bytes} (divided : DividedAt line before after)
  (leads : Blank left) (follows : Blank right)
include divided leads

theorem divided_apart : DividedAt (before ++ left ++ ofChar '=' :: (right ++ after))
    (before ++ left) (right ++ after) := by
  refine ⟨rfl, ?_⟩
  rw [List.mem_append, not_or]
  exact ⟨divided.first, fun member => absurd (leads _ member) (by decide)⟩

theorem significant_apart (rest : Bytes) :
    Significant (before ++ left ++ ofChar '=' :: rest) ↔ Significant line := by
  rw [significant_iff, significant_iff, opening_apart leads before rest after, ← divided.whole]

include follows

/-- Blanks around the sign are trimmed off key and value, and do not decide whether
the line says anything. -/
theorem read_apart [Dialect] :
    Alike (Line.read line) (Line.read (before ++ left ++ ofChar '=' :: (right ++ after))) := by
  have same := significant_apart divided leads (right ++ after)
  by_cases significant : Significant line
  · rw [read_divided significant divided,
      read_divided (same.mpr significant) (divided_apart divided leads), trim_back leads,
      trim_front follows]
    split
    · exact .rejected _ _
    · exact .refl _
  · rw [read_insignificant significant, read_insignificant (mt same.mp significant)]
    exact .ignored

end Apart

theorem read_spaced [Dialect] {line other : Bytes} (spaced : Spaced line other) :
    Alike (Line.read line) (Line.read other) := by
  cases spaced with
  | ends opens closes =>
    rw [read_padded opens closes]
    exact .refl _
  | sign divided opens leads follows closes =>
    rw [read_padded opens closes]
    exact read_apart divided leads follows

theorem add_alike {line other : Line} (alike : Alike line other) (t : Table) :
    (t.add other).1 = (t.add line).1 ∧ (t.add other).2.isValid = (t.add line).2.isValid := by
  cases alike with
  | ignored => exact ⟨rfl, rfl⟩
  | rejected fault other => exact ⟨rfl, rfl⟩
  | binding key text value => exact ⟨rfl, rfl⟩

/-- Lines laid out anew fill every table in the same way and are valid together. -/
theorem addAll_relaid [Dialect] {lines others : List Bytes} (relaid : Relaid lines others) (t : Table) :
    (t.addAll (others.map Line.read)).1 = (t.addAll (lines.map Line.read)).1 ∧
      (t.addAll (others.map Line.read)).2.all Table.Verdict.isValid =
        (t.addAll (lines.map Line.read)).2.all Table.Verdict.isValid := by
  induction relaid generalizing t with
  | done => exact ⟨rfl, rfl⟩
  | line spaced rest ih =>
    obtain ⟨table, valid⟩ := add_alike (read_spaced spaced) t
    simp only [List.map_cons, Table.addAll, List.all_cons, table, valid, ih]
    exact ⟨trivial, trivial⟩
  | inserted idle rest ih =>
    simp only [List.map_cons, Table.addAll, List.all_cons, idle_ignored idle, Table.add,
      Table.Verdict.isValid, Bool.true_and]
    exact ih t

theorem read_relaid [Dialect] {text other : Bytes} (relaid : Relaid (pieces 10 text) (pieces 10 other))
    (t : Table) : (t.read other).value = (t.read text).value := by
  obtain ⟨table, valid⟩ := addAll_relaid relaid t
  exact Prod.ext table valid

/-- The text with a carriage return before every newline. -/
def withReturns (text : Bytes) : Bytes := text.flatMap fun b => if b = 10 then [13, 10] else [b]

theorem returns_single {line : Bytes} (single : 10 ∉ line) : withReturns line = line := by
  induction line with
  | nil => rfl
  | cons b rest ih =>
    rw [List.mem_cons, not_or] at single
    have other : b ≠ 10 := Ne.symm single.1
    change (if b = 10 then [13, 10] else [b]) ++ withReturns rest = b :: rest
    rw [if_neg other, ih single.2]
    rfl

theorem returns_joined {lines : List Bytes} (filled : lines ≠ [])
    (single : ∀ line ∈ lines, 10 ∉ line) :
    Relaid lines (pieces 10 (withReturns ([10].intercalate lines))) := by
  induction lines with
  | nil => exact absurd rfl filled
  | cons line rest ih =>
    have own := single line (by simp)
    cases rest with
    | nil =>
      have last : pieces 10 line = [line] := by
        rw [Spelling.pieces_eq_splitOn, List.splitOn_eq_singleton own]
      have joined : ([10].intercalate [line] : Bytes) = line := by simp
      rw [joined, returns_single own, last]
      exact .line (.refl line) .done
    | cons next more =>
      have later := ih (by simp) fun other member => single other (by simp [member])
      have joined : withReturns ([10].intercalate (line :: next :: more)) =
          (line ++ [13]) ++ 10 :: withReturns ([10].intercalate (next :: more)) := by
        have inner := returns_single own
        rw [withReturns] at inner
        simp [withReturns, inner]
      have ended : 10 ∉ line ++ [13] := by simp [own]
      rw [joined, Spelling.pieces_eq_splitOn, List.splitOn_append_cons_self_of_not_mem ended,
        ← Spelling.pieces_eq_splitOn]
      exact .line (.back line (by decide)) later

theorem relaid_returns (text : Bytes) : Relaid (pieces 10 text) (pieces 10 (withReturns text)) := by
  have whole : [10].intercalate (pieces 10 text) = text := by
    rw [Spelling.pieces_eq_splitOn, List.intercalate_splitOn]
  have filled : pieces 10 text ≠ [] := by
    rw [Spelling.pieces_eq_splitOn]
    exact List.splitOn_ne_nil _ _
  have relaid := returns_joined filled fun _ member => Spelling.piece_apart member
  rw [whole] at relaid
  exact relaid

/-- Whatever a store holds, a text that is laid out anew leaves the same bindings and
gets the same answer. So does a text whose lines are given other line ends. -/
theorem layout_changes_nothing [Dialect] (s : Store) {text other : Bytes}
    (relaid : Relaid (pieces 10 text) (pieces 10 other)) :
    (s.step (.read other)).value = (s.step (.read text)).value ∧
      (s.step (.read (withReturns text))).value = (s.step (.read text)).value := by
  have same {laid : Bytes} (relaid : Relaid (pieces 10 text) (pieces 10 laid)) :
      (s.step (.read laid)).value = (s.step (.read text)).value :=
    congrArg (fun read : Table × Bool => ({ s with table := read.1 }, Answer.flag read.2))
      (read_relaid relaid s.table)
  exact ⟨same relaid, same (relaid_returns text)⟩

/-- A binding, a line without a key and a quoted text, close together. -/
def dense : Bytes := ascii "A=1\n=2\nB=\x22x =\x22"

/-- The same lines with room around them. -/
def airy : Bytes := ascii "#A=3\n\tA = 1\r\n \r\n =\t2 \nB =\x22x =\x22\n\x00"

theorem airy_layout_changes_nothing :
    Relaid (pieces 10 dense) (pieces 10 airy) ∧
      (Store.initial.step (.read airy)).value = (Store.initial.step (.read dense)).value ∧
      (Store.initial.step (.read airy)).value =
        (⟨⟨[(ascii "A", .unsigned 1), (ascii "B", .string (ascii "x ="))]⟩, .empty⟩,
          .flag false) := by
  have relaid : Relaid (pieces 10 dense) (pieces 10 airy) := by
    have first : Spaced (ascii "A=1") (ascii "\tA = 1\r") :=
      @Spaced.sign _ (ascii "A") (ascii "1") (ascii "\t") (ascii " ") (ascii " ") (ascii "\r")
        ⟨rfl, by decide⟩ (by decide) (by decide) (by decide) (by decide)
    have second : Spaced (ascii "=2") (ascii " =\t2 ") :=
      @Spaced.sign _ [] (ascii "2") (ascii " ") [] (ascii "\t") (ascii " ")
        ⟨rfl, by decide⟩ (by decide) (by decide) (by decide) (by decide)
    have third : Spaced (ascii "B=\x22x =\x22") (ascii "B =\x22x =\x22") :=
      @Spaced.sign _ (ascii "B") (ascii "\x22x =\x22") [] (ascii " ") [] []
        ⟨rfl, by decide⟩ (by decide) (by decide) (by decide) (by decide)
    have comment : Idle (ascii "#A=3") := @Idle.comment [] (ascii "A=3") (by decide)
    have nul : Idle (ascii "\x00") := @Idle.nul [] [] (by decide)
    have empty : Idle (ascii " \r") := .blank (by decide)
    have denseLines : pieces 10 dense = [ascii "A=1", ascii "=2", ascii "B=\x22x =\x22"] := by
      decide
    have airyLines : pieces 10 airy = [ascii "#A=3", ascii "\tA = 1\r", ascii " \r",
        ascii " =\t2 ", ascii "B =\x22x =\x22", ascii "\x00"] := by decide
    rw [denseLines, airyLines]
    exact .inserted comment (.line first (.inserted empty
      (.line second (.line third (.inserted nul .done)))))
  have same := (layout_changes_nothing .initial relaid).1
  exact ⟨relaid, same, same.trans (by decide)⟩

end NfcPolling.Layout
