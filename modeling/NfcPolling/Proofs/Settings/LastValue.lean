import Mathlib.Data.List.Induction
import NfcPolling.Proofs.Journal.Transcripts
import NfcPolling.Settings.Cell

/-! A cell in which values are stored one after the other shows the last of them only.
Fields that do not count keep old contents, and no question reaches them; a text that
is refused writes nothing, wherever the reading of it fails. -/
namespace NfcPolling.LastValue
open NfcPolling.Settings Journal Transcript

/-- Nobody who asks can tell the cells apart: they have the same type, and each
question is answered alike, with the same remark or none. -/
structure Alike (left right : Cell) : Prop where
  kind : left.kind = right.kind
  unsigned : left.asUnsigned = right.asUnsigned
  string : left.asString = right.asString
  bytes : left.asBytes = right.asBytes

/-- The last change that takes place, if any does. -/
def lastDone [Dialect] (changes : List Value.Change) : Option Value.Change :=
  changes.reverse.find? Value.Change.succeeds

/-- A new cell with no more than this change made to it. -/
def fresh [Dialect] (done : Option Value.Change) : Cell :=
  done.elim .initial fun change => (Cell.initial.change change).1

/-- A cell looked at from all sides, as a value is. -/
def inspectionOf (levels : Levels) (cell : Cell) : Noted Entry Held :=
  let noted := (cell.readings.entries Entry.config).atLevels levels
  ⟨⟨cell.value, noted.value⟩, noted.notes⟩

@[simp] theorem value_new (value : Value) : (Cell.new value).value = value := by
  cases value <;> rfl

section Asking
variable (cell : Cell)

/-- Only the field that counts is read. -/
theorem asUnsigned_value : cell.asUnsigned = cell.value.asUnsigned := by
  unfold Cell.asUnsigned Cell.value
  cases cell.kind <;> rfl

theorem asString_value : cell.asString = cell.value.asString := by
  unfold Cell.asString Cell.value
  cases cell.kind <;> rfl

theorem asBytes_value : cell.asBytes = cell.value.asBytes := by
  unfold Cell.asBytes Cell.value
  cases cell.kind <;> rfl

theorem readings_value : cell.readings = cell.value.readings := by
  simp only [Cell.readings, Value.readings, asUnsigned_value, asString_value, asBytes_value]

end Asking

section Changes
variable [Dialect]

omit [Dialect] in
/-- What a cell shows is decided by the value in the field that counts. -/
theorem alike_of_value {left right : Cell} (same : left.value = right.value) :
    Alike left right where
  kind := by
    -- A value of one type is none of another.
    obtain ⟨kind, number, text, content⟩ := left
    obtain ⟨kind', number', text', content'⟩ := right
    cases kind <;> cases kind' <;> first | rfl | cases same
  unsigned := by simp only [asUnsigned_value, same]
  string := by simp only [asString_value, same]
  bytes := by simp only [asBytes_value, same]

/-- A text that denotes no value is refused and leaves all fields; any other text
makes its value the one that counts. -/
theorem parse_cases (cell : Cell) (text : Bytes) :
    (Value.read? text = none ∧ cell.parse text = (cell, false)) ∨
      ∃ value stored, Value.read? text = some value ∧ cell.parse text = (stored, true) ∧
        stored.value = value := by
  unfold Value.read? Cell.parse
  cases Value.enclosed? (Bytes.ofChar '\x22') (Bytes.ofChar '\x22') text with
  | some quoted =>
    by_cases empty : quoted = []
    · exact .inl (by simp only [empty, ↓reduceIte, and_self])
    · exact .inr ⟨.string quoted, { cell with kind := .string, text := quoted },
        by simp only [empty, ↓reduceIte], by simp only [empty, ↓reduceIte], rfl⟩
  | none =>
    dsimp only
    cases Value.enclosed? (Bytes.ofChar '\x7b') (Bytes.ofChar '\x7d') text with
    | some groups =>
      dsimp only
      cases Value.byteGroups? groups with
      | none => exact .inl ⟨rfl, rfl⟩
      | some content =>
        exact .inr ⟨.bytes content, { cell with kind := .bytes, content := content },
          rfl, rfl, rfl⟩
    | none =>
      dsimp only
      cases Numeral.read? text with
      | none => exact .inl ⟨rfl, rfl⟩
      | some number =>
        exact .inr ⟨.unsigned number, { cell with kind := .unsigned, number := number },
          rfl, rfl, rfl⟩

theorem parse_refused {cell : Cell} {text : Bytes} (refused : (cell.parse text).2 = false) :
    (cell.parse text).1 = cell := by
  rcases parse_cases cell text with ⟨_, kept⟩ | ⟨value, stored, _, done, _⟩
  · rw [kept]
  · rw [done] at refused
    cases refused

/-- A change of a cell is the change of the value that it holds. -/
theorem change_value (cell : Cell) (change : Value.Change) :
    (cell.change change).1.value = cell.value.apply change ∧
      (cell.change change).2 = change.succeeds := by
  cases change with
  | replace value => exact ⟨value_new value, rfl⟩
  | parse text =>
    rcases parse_cases cell text with ⟨none, kept⟩ | ⟨value, stored, read, done, holds⟩
    · simp [Cell.change, Value.apply, Value.Change.succeeds, none, kept]
    · simp [Cell.change, Value.apply, Value.Change.succeeds, read, done, holds]

theorem apply_refused {change : Value.Change} (refused : change.succeeds = false)
    (held : Value) : held.apply change = held := by
  cases change with
  | replace value => cases refused
  | parse text =>
    have unread : Value.read? text = none := Option.isNone_iff_eq_none.mp (by
      simpa [Value.Change.succeeds] using refused)
    simp [Value.apply, unread]

/-- A change that takes place does not look at the value before it. -/
theorem apply_done {change : Value.Change} (done : change.succeeds = true)
    (held other : Value) : held.apply change = other.apply change := by
  cases change with
  | replace value => rfl
  | parse text =>
    obtain ⟨value, read⟩ := Option.isSome_iff_exists.mp done
    simp [Value.apply, read]

theorem after_append (cell : Cell) (earlier later : List Value.Change) :
    cell.after (earlier ++ later) = (cell.after earlier).after later := List.foldl_append

/-- Of all changes the last one that takes place decides the value. -/
theorem value_after (cell : Cell) (changes : List Value.Change) :
    (cell.after changes).value =
      (lastDone changes).elim cell.value fun change => Value.initial.apply change := by
  -- The last change either takes place and covers all before it, or leaves them be.
  induction changes using List.reverseRecOn with
  | nil => rfl
  | append_singleton earlier last ih =>
    have step : (cell.after (earlier ++ [last])).value = (cell.after earlier).value.apply last := by
      rw [after_append]
      exact (change_value _ last).1
    rw [step, lastDone, List.reverse_concat, List.find?_cons]
    cases done : last.succeeds with
    | true => exact apply_done done _ _
    | false =>
      rw [apply_refused done, ih]
      rfl

theorem fresh_value (done : Option Value.Change) :
    (fresh done).value = done.elim .initial fun change => Value.initial.apply change := by
  cases done with
  | none => rfl
  | some change => exact (change_value _ change).1

/-- The transcript of a value that is changed is that of a cell. -/
theorem inspections_of_cell (levels : Levels) (cell : Cell) (changes : List Value.Change) :
    inspections levels cell.value changes =
      (cell.run changes).map fun (done, held) => (done, inspectionOf levels held) := by
  induction changes generalizing cell with
  | nil => rfl
  | cons next rest ih =>
    obtain ⟨holds, done⟩ := change_value cell next
    have seen : inspection levels (cell.change next).1.value =
        inspectionOf levels (cell.change next).1 := by
      simp only [Transcripts.inspection_filtered, inspectionOf, readings_value]
    rw [inspections, ← holds, ← done, seen, ih]
    rfl

theorem outcomes_of_run (cell : Cell) (changes : List Value.Change) :
    (cell.run changes).map Prod.fst = changes.map Value.Change.succeeds := by
  induction changes generalizing cell with
  | nil => rfl
  | cons next rest ih =>
    rw [Cell.run, List.map_cons, List.map_cons, ih, (change_value cell next).2]

/-- However a cell came to its contents, it answers as a new cell does in which only the
last change that took place was made, and as an untouched one if none did. A text that
is refused leaves every field of it. The transcripts of a value, at any levels, are those
of a cell. -/
theorem last_change_is_all_that_shows (changes : List Value.Change) :
    let cell := Cell.initial.after changes
    (Cell.initial.run changes).map Prod.fst = changes.map Value.Change.succeeds ∧
      Alike cell (fresh (lastDone changes)) ∧
      (∀ text, (cell.parse text).2 = false → (cell.parse text).1 = cell) ∧
      ∀ levels, inspections levels .initial changes =
        (Cell.initial.run changes).map fun (done, held) => (done, inspectionOf levels held) := by
  intro cell
  refine ⟨outcomes_of_run _ changes, alike_of_value ?same, fun _ => parse_refused, ?transcript⟩
  case same =>
    rw [value_after, fresh_value, Cell.initial, value_new]
  case transcript =>
    intro levels
    exact inspections_of_cell levels .initial changes

end Changes

/-- Bytes, a text and a number in turn, with two refusals. -/
def mixedChanges : List Value.Change :=
  [.replace (.bytes [1, 2]), .parse (Bytes.ascii "\x22A\x22"), .parse (Bytes.ascii "\x22\x22"),
    .parse (Bytes.ascii "7"), .parse (Bytes.ascii "-7")]

/-- The cell still holds the old text and the old bytes, and shows neither. -/
theorem old_contents_do_not_show :
    let cell := Cell.initial.after mixedChanges
    let cut := Bytes.ascii "\x7b01:0\x7d"
    cell = ⟨.unsigned, 7, Bytes.ascii "A", [1, 2]⟩ ∧ Alike cell (.new (.unsigned 7)) ∧
      (cell.parse cut).2 = false ∧ (cell.parse cut).1 = cell := by
  intro cell cut
  obtain ⟨_, alike, kept, _⟩ := last_change_is_all_that_shows mixedChanges
  have holds : cell = ⟨.unsigned, 7, Bytes.ascii "A", [1, 2]⟩ := by decide +kernel
  have last : fresh (lastDone mixedChanges) = .new (.unsigned 7) := by decide +kernel
  have refused : (cell.parse cut).2 = false := by decide +kernel
  exact ⟨holds, last ▸ alike, refused, kept cut refused⟩

end NfcPolling.LastValue
