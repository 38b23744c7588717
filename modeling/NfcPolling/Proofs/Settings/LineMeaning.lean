import Mathlib.Data.List.DropRight
import NfcPolling.Settings.Line

/-! What a line of a configuration says, told from the line as it stands. The
reader trims the line before it looks for the equals sign and trims both sides
again; only what is left and right of the first sign of the whole line matters. -/
namespace NfcPolling.LineMeaning
open NfcPolling.Settings Bytes

/-- Spaces, tabs and carriage returns only. -/
def Blank (text : Bytes) : Prop := ∀ b ∈ text, b = ofChar ' ' ∨ b = 9 ∨ b = 13

/-- What is left of a text without the blanks around it: only blanks stand before and
behind it, and none of them at its own ends. -/
structure Trimmed (text rest : Bytes) : Prop where
  padded : ∃ front back, Blank front ∧ Blank back ∧ text = front ++ rest ++ back
  opens : ∀ b ∈ rest.head?, ¬ Blank [b]
  closes : ∀ b ∈ rest.getLast?, ¬ Blank [b]

theorem blank_iff (text : Bytes) : Blank text ↔ ∀ b ∈ text, isBlank b = true := by
  simp only [Blank, isBlank, Bool.or_eq_true, beq_iff_eq, or_assoc]

theorem solid_iff (b : UInt8) : ¬ Blank [b] ↔ isBlank b = false := by
  rw [blank_iff, List.forall_mem_singleton, Bool.not_eq_true]

theorem trim_front {front : Bytes} (blank : Blank front) (text : Bytes) :
    trim (front ++ text) = trim text := by
  rw [trim, List.dropWhile_append_of_pos ((blank_iff front).mp blank), trim]

theorem trim_back {back : Bytes} (blank : Blank back) (text : Bytes) :
    trim (text ++ back) = trim text := by
  have gone : back.dropWhile isBlank = [] :=
    List.dropWhile_eq_nil_iff.mpr ((blank_iff back).mp blank)
  rw [trim, List.dropWhile_append, trim]
  cases inner : text.dropWhile isBlank with
  | nil => simp [gone]
  | cons first rest =>
    have reversed : ∀ b ∈ back.reverse, isBlank b = true := by
      intro b member
      exact (blank_iff back).mp blank b (List.mem_reverse.mp member)
    rw [if_neg (by simp), List.reverse_append, List.dropWhile_append_of_pos reversed]

/-- Trimming takes blanks off both ends and nothing else. -/
theorem trim_pads (text : Bytes) :
    ∃ front back, Blank front ∧ Blank back ∧ text = front ++ trim text ++ back := by
  refine ⟨text.takeWhile isBlank, (text.dropWhile isBlank).rtakeWhile isBlank,
    (blank_iff _).mpr fun b member => List.mem_takeWhile_imp member,
    (blank_iff _).mpr fun b member => List.mem_rtakeWhile_imp member, ?_⟩
  have ends : trim text ++ (text.dropWhile isBlank).rtakeWhile isBlank =
      text.dropWhile isBlank := List.rdropWhile_append_rtakeWhile
  rw [List.append_assoc, ends, List.takeWhile_append_dropWhile]

/-- No blank opens a trimmed text. -/
theorem trim_opens {text rest : Bytes} {first : UInt8} (opens : trim text = first :: rest) :
    isBlank first = false := by
  obtain ⟨back, whole⟩ : trim text <+: text.dropWhile isBlank := List.rdropWhile_prefix _ _
  have solid := List.head?_dropWhile_not isBlank text
  rw [← whole, opens] at solid
  exact solid

theorem trim_closes {text : Bytes} {last : UInt8} (closes : last ∈ (trim text).getLast?) :
    isBlank last = false := by
  have solid := List.head?_dropWhile_not isBlank (text.dropWhile isBlank).reverse
  rw [trim, List.getLast?_reverse, Option.mem_def] at closes
  rw [closes] at solid
  exact solid

/-- A text that no blank opens or closes is trimmed. -/
theorem trim_solid {text : Bytes} (opens : ∀ b ∈ text.head?, isBlank b = false)
    (closes : ∀ b ∈ text.getLast?, isBlank b = false) : trim text = text := by
  have kept {text : Bytes} (first : ∀ b ∈ text.head?, isBlank b = false) :
      text.dropWhile isBlank = text := by
    cases text with
    | nil => rfl
    | cons b rest =>
      have solid : isBlank b = false := first b rfl
      rw [List.dropWhile_cons_of_neg (by simp [solid])]
  rw [List.getLast?_eq_head?_reverse] at closes
  rw [trim, kept opens, kept closes, List.reverse_reverse]

/-- Trimming a text leaves what stands between the blanks around it, and there is only
one such rest. -/
theorem trimmed_iff (text rest : Bytes) : Trimmed text rest ↔ trim text = rest := by
  constructor
  · rintro ⟨⟨front, back, before, behind, rfl⟩, opens, closes⟩
    rw [trim_back behind, trim_front before]
    exact trim_solid (fun b first => (solid_iff b).mp (opens b first))
      fun b last => (solid_iff b).mp (closes b last)
  · rintro rfl
    refine ⟨trim_pads text, fun b first => ?_, fun b last => (solid_iff b).mpr (trim_closes last)⟩
    obtain ⟨rest, opens⟩ := List.head?_eq_some_iff.mp first
    exact (solid_iff b).mpr (trim_opens opens)

/-- The line is divided at its first equals sign. -/
structure DividedAt (line before after : Bytes) : Prop where
  whole : line = before ++ ofChar '=' :: after
  first : ofChar '=' ∉ before

theorem divided_of_mem {line : Bytes} (member : ofChar '=' ∈ line) :
    ∃ before after, DividedAt line before after := by
  obtain ⟨before, after, whole, first⟩ := List.eq_append_cons_of_mem member
  exact ⟨before, after, whole, first⟩

private theorem divided_reads {line before after : Bytes} (divided : DividedAt line before after) :
    line.takeWhile (· != ofChar '=') = before ∧
      line.dropWhile (· != ofChar '=') = ofChar '=' :: after := by
  have other : ∀ b ∈ before, (b != ofChar '=') = true := by
    intro b member
    rw [bne_iff_ne]
    rintro rfl
    exact divided.first member
  rw [divided.whole, List.takeWhile_append_of_pos other, List.dropWhile_append_of_pos other]
  simp

theorem divided_unique {line before after otherBefore otherAfter : Bytes}
    (divided : DividedAt line before after) (other : DividedAt line otherBefore otherAfter) :
    before = otherBefore ∧ after = otherAfter := by
  obtain ⟨front, back⟩ := divided_reads divided
  obtain ⟨otherFront, otherBack⟩ := divided_reads other
  rw [front] at otherFront
  rw [back] at otherBack
  exact ⟨otherFront, (List.cons.inj otherBack).2⟩

private theorem blank_without_equals {text : Bytes} (blank : Blank text) : ofChar '=' ∉ text := by
  intro member
  exact absurd (blank _ member) (by decide)

/-- Dividing the trimmed line and trimming the parts gives what dividing the
line itself gives. -/
theorem divided_trimmed {line before after : Bytes} (divided : DividedAt line before after) :
    ∃ inner outer, DividedAt (trim line) inner outer ∧ trim inner = trim before ∧
      trim outer = trim after := by
  obtain ⟨front, back, frontBlank, backBlank, whole⟩ := trim_pads line
  have inside : ofChar '=' ∈ trim line := by
    have member : ofChar '=' ∈ line := by
      rw [divided.whole]
      simp
    rw [whole, List.mem_append, List.mem_append] at member
    rcases member with (left | inside) | right
    · exact absurd left (blank_without_equals frontBlank)
    · exact inside
    · exact absurd right (blank_without_equals backBlank)
  obtain ⟨inner, outer, parts⟩ := divided_of_mem inside
  have padded : DividedAt line (front ++ inner) (outer ++ back) := by
    constructor
    · rw [whole, parts.whole]
      simp
    · rw [List.mem_append, not_or]
      exact ⟨blank_without_equals frontBlank, parts.first⟩
  obtain ⟨rfl, rfl⟩ := divided_unique divided padded
  exact ⟨inner, outer, parts, (trim_front frontBlank inner).symm, (trim_back backBlank outer).symm⟩

/-- Trimmed, the line is neither empty nor a comment. -/
def Significant (line : Bytes) : Prop :=
  ∃ first rest, Trimmed line (first :: rest) ∧ first ≠ ofChar '#' ∧ first ≠ 0

variable [Dialect]

/-- The line binds the key to the value. -/
def Binds (line key : Bytes) (value : Value) : Prop :=
  Significant line ∧ ∃ before after text, DividedAt line before after ∧ Trimmed before key ∧
    key ≠ [] ∧ Trimmed after text ∧ Value.read? text = some value

omit [Dialect] in
theorem significant_trim (line : Bytes) : Significant line ↔
    trim line ≠ [] ∧ (trim line).head? ≠ some (ofChar '#') ∧ (trim line).head? ≠ some 0 := by
  simp only [Significant, trimmed_iff]
  cases trim line with
  | nil => simp
  | cons first rest => simp

instance (line : Bytes) : Decidable (Significant line) := decidable_of_iff' _ (significant_trim line)

theorem binds_trim (line key : Bytes) (value : Value) : Binds line key value ↔
    Significant line ∧ ∃ before after, DividedAt line before after ∧ trim before = key ∧
      key ≠ [] ∧ Value.read? (trim after) = some value := by
  simp only [Binds, trimmed_iff, exists_and_left, exists_eq_left']

theorem read_insignificant {line : Bytes} (idle : ¬ Significant line) :
    Line.read line = .ignored := by
  rw [Line.read]
  cases trimmed : trim line with
  | nil => rfl
  | cons first rest =>
    have skipped : first = ofChar '#' ∨ first = 0 := by
      apply Classical.byContradiction
      intro kept
      rw [not_or] at kept
      apply idle
      rw [significant_trim, trimmed]
      simpa using kept
    rw [Line.ofTrimmed, if_pos skipped]

theorem read_undivided {line : Bytes} (significant : Significant line)
    (absent : ofChar '=' ∉ line) :
    Line.read line = .rejected (.missingEquals (trim line)) := by
  obtain ⟨nonempty, comment, nul⟩ := (significant_trim line).mp significant
  have none : (trim line).dropWhile (· != ofChar '=') = [] := by
    rw [List.dropWhile_eq_nil_iff]
    intro b member
    rw [bne_iff_ne]
    rintro rfl
    obtain ⟨front, back, _, _, whole⟩ := trim_pads line
    apply absent
    rw [whole]
    simp [member]
  rw [Line.read]
  cases trimmed : trim line with
  | nil => exact absurd trimmed nonempty
  | cons first rest =>
    rw [trimmed] at comment nul none
    have kept : ¬ (first = ofChar '#' ∨ first = 0) := by
      rw [not_or]
      exact ⟨by simpa using comment, by simpa using nul⟩
    rw [Line.ofTrimmed, if_neg kept]
    simp only [none]

/-- A significant line with an equals sign binds the text before the sign to the
value after it, unless the key is empty or the value is none. -/
theorem read_divided {line before after : Bytes} (significant : Significant line)
    (divided : DividedAt line before after) :
    Line.read line =
      if trim before = [] then .rejected (.emptyKey (trim line))
      else
        match Value.read? (trim after) with
        | none => .rejected (.invalidValue (trim before) (trim after))
        | some value => .binding (trim before) (trim after) value := by
  obtain ⟨nonempty, comment, nul⟩ := (significant_trim line).mp significant
  obtain ⟨inner, outer, parts, key, text⟩ := divided_trimmed divided
  obtain ⟨front, back⟩ := divided_reads parts
  rw [Line.read]
  cases trimmed : trim line with
  | nil => exact absurd trimmed nonempty
  | cons first rest =>
    rw [trimmed] at comment nul front back
    have kept : ¬ (first = ofChar '#' ∨ first = 0) := by
      rw [not_or]
      exact ⟨by simpa using comment, by simpa using nul⟩
    rw [Line.ofTrimmed, if_neg kept]
    by_cases named : trim before = []
    · simp [front, back, key, named]
    · cases valued : Value.read? (trim after) with
      | none => simp [front, back, key, text, named, valued]
      | some value => simp [front, back, key, text, named, valued]

theorem binding_iff (line key : Bytes) (value : Value) :
    (∃ text, Line.read line = .binding key text value) ↔ Binds line key value := by
  rw [binds_trim]
  constructor
  · rintro ⟨text, read⟩
    by_cases significant : Significant line
    · by_cases member : ofChar '=' ∈ line
      · obtain ⟨before, after, divided⟩ := divided_of_mem member
        rw [read_divided significant divided] at read
        split at read
        · cases read
        · rename_i named
          split at read
          · cases read
          · rename_i found valued
            cases read
            exact ⟨significant, before, after, divided, rfl, named, valued⟩
      · rw [read_undivided significant member] at read
        cases read
    · rw [read_insignificant significant] at read
      cases read
  · rintro ⟨significant, before, after, divided, rfl, named, valued⟩
    refine ⟨trim after, ?_⟩
    rw [read_divided significant divided, if_neg named, valued]

theorem ignored_iff (line : Bytes) : Line.read line = .ignored ↔ ¬ Significant line := by
  constructor
  · intro read significant
    by_cases member : ofChar '=' ∈ line
    · obtain ⟨before, after, divided⟩ := divided_of_mem member
      rw [read_divided significant divided] at read
      split at read
      · cases read
      · split at read <;> cases read
    · rw [read_undivided significant member] at read
      cases read
  · exact read_insignificant

end NfcPolling.LineMeaning
