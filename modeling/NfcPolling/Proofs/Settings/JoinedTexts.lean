import NfcPolling.Proofs.Journal.WrittenLines
import NfcPolling.Proofs.Settings.Spelling

/-! A configuration may be cut at any of its newlines and read piece by piece. What
is bound afterwards, what is written on the way and whether all of it was valid are
the same, since a line is judged by the bindings in front of it and not by the text
that holds it. -/
namespace NfcPolling.JoinedTexts
open NfcPolling.Settings Journal Transcript WrittenLines

variable [Dialect]

theorem lines_joined (front back : Bytes) :
    lines (front ++ 10 :: back) = lines front ++ lines back := by
  simp only [lines, Spelling.pieces_eq_splitOn, List.splitOn_append_cons_self, List.map_append]

omit [Dialect] in
/-- Later lines find the table that the earlier ones leave. -/
theorem addAll_append (t : Table) (earlier later : List Line) :
    t.addAll (earlier ++ later) =
      (((t.addAll earlier).1.addAll later).1,
        (t.addAll earlier).2 ++ ((t.addAll earlier).1.addAll later).2) := by
  induction earlier generalizing t with
  | nil => rfl
  | cons line rest ih => simp only [List.cons_append, Table.addAll, ih]

/-- Bindings, validity and remarks of a text from those of its two parts. -/
theorem read_joined (t : Table) (front back : Bytes) :
    let first := t.read front
    let second := first.value.1.read back
    t.read (front ++ 10 :: back) =
      ⟨(second.value.1, first.value.2 && second.value.2), first.notes ++ second.notes⟩ := by
  simp only [Table.read, lines_joined, addAll_append, List.all_append, List.filterMap_append]

theorem step_read (s : Store) (text : Bytes) :
    s.step (.read text) =
      ⟨({ s with table := (s.table.read text).value.1 }, .flag (s.table.read text).value.2),
        (s.table.read text).notes⟩ :=
  congrArg (Noted.mk _) (List.append_nil _)

/-- A text was answered with true. -/
def isValid (outcome : Noted Notice (Store × Answer)) : Bool := outcome.value.2 = .flag true

omit [Dialect] in
theorem isValid_flag (s : Store) (valid : Bool) (notes : List Notice) :
    isValid ⟨(s, .flag valid), notes⟩ = valid := by
  cases valid <;> rfl

theorem step_parted (s : Store) (front back : Bytes) :
    let first := s.step (.read front)
    let second := first.value.1.step (.read back)
    s.step (.read (front ++ 10 :: back)) =
      ⟨(second.value.1, .flag (isValid first && isValid second)),
        first.notes ++ second.notes⟩ := by
  intro first second
  simp only [second, first, step_read, isValid_flag, read_joined]

/-- Texts joined by newlines are read like the texts one after the other: the store is
the same in the end, the remarks follow each other, and all of it is valid when each
text is. -/
theorem step_joined (s : Store) (texts : List Bytes) :
    let apart := s.run (texts.map .read)
    s.step (.read ([10].intercalate texts)) =
      ⟨(s.after (texts.map .read), .flag (apart.all isValid)), apart.flatMap Noted.notes⟩ := by
  induction texts generalizing s with
  | nil => rfl
  | cons text rest ih =>
    cases rest with
    | nil =>
      have single : ([10].intercalate [text] : Bytes) = text := by simp
      simp only [single, List.map_cons, List.map_nil, Store.run, Store.after, List.foldl_cons,
        List.foldl_nil, List.all_cons, List.all_nil, List.flatMap_cons, List.flatMap_nil,
        step_read, isValid_flag, Bool.and_true, List.append_nil]
    | cons next more =>
      have parted : ([10].intercalate (text :: next :: more) : Bytes) =
          text ++ 10 :: [10].intercalate (next :: more) := by simp
      rw [parted, step_parted, ih, isValid_flag]
      rfl

/-- What a run writes follows from its remarks in order, however they fall on the steps. -/
theorem lines_of_remarks (levels : Levels) (s : Store) (steps : List Store.Step) :
    (lookups levels s steps).flatMap linesOf =
      (levels.written (((s.run steps).flatMap Noted.notes).map Entry.config)).filterMap
        Entry.line := by
  simp only [Transcripts.lookups_filtered, Levels.written, List.flatMap_map, List.map_flatMap,
    List.filter_flatMap, List.filterMap_flatMap]
  rfl

/-- Whatever a store holds, a text with a newline in it is read like what stands before
the newline and what stands behind it, one after the other. The bindings are the same
afterwards, the same lines are written in the same order at all levels, and the answer
is true exactly when both answers are. -/
theorem joined_texts_read_apart (levels : Levels) (s : Store) (front back : Bytes) :
    let whole : List Store.Step := [.read (front ++ 10 :: back)]
    let halves : List Store.Step := [.read front, .read back]
    s.after whole = s.after halves ∧
      (lookups levels s whole).flatMap linesOf = (lookups levels s halves).flatMap linesOf ∧
      ∃ first second, (lookups levels s halves).map (·.value.2) = [.flag first, .flag second] ∧
        (lookups levels s whole).map (·.value.2) = [.flag (first && second)] := by
  intro whole halves
  have joined : ([10].intercalate [front, back] : Bytes) = front ++ 10 :: back := by simp
  have parted := step_joined s [front, back]
  rw [joined] at parted
  refine ⟨congrArg (·.value.1) parted, ?lines, ?answers⟩
  case lines =>
    have remarks : (s.run whole).flatMap Noted.notes = (s.run halves).flatMap Noted.notes :=
      (List.append_nil _).trans (congrArg Noted.notes parted)
    rw [lines_of_remarks, lines_of_remarks, remarks]
  case answers =>
    simp only [Transcripts.lookups_filtered]
    refine ⟨(s.table.read front).value.2,
      ((s.table.read front).value.1.read back).value.2, rfl, ?_⟩
    exact congrArg (fun valid => [Answer.flag valid]) (congrArg (·.value.2) (read_joined _ _ _))

end NfcPolling.JoinedTexts
