import NfcPolling.Proofs.Settings.LineMeaning
import NfcPolling.Proofs.Settings.Spelling
import NfcPolling.Settings.Store

/-! A table keeps, for every key, the value of the first line that binds it. What
counts are the lines read since the table was last cleared, in order and whatever
text they came from; a line that is rejected has no part in it. -/
namespace NfcPolling.FirstBinding
open NfcPolling.Settings LineMeaning

section Read
variable [Dialect]

/-- The value that a line binds to a key, if it does. -/
def boundTo (key line : Bytes) : Option Value :=
  match Line.read line with
  | .binding other _ value => if other = key then some value else none
  | _ => none

theorem bound_iff (key line : Bytes) (value : Value) :
    boundTo key line = some value ↔ Binds line key value := by
  rw [← binding_iff, boundTo]
  cases read : Line.read line with
  | ignored => simp
  | rejected fault => simp
  | binding other text found =>
    by_cases same : other = key
    · simp [same]
    · simp [same]

theorem unbound_iff (key line : Bytes) :
    boundTo key line = none ↔ ∀ value, ¬ Binds line key value := by
  simp only [Option.eq_none_iff_forall_ne_some, ne_eq, bound_iff]

/-- The first line that binds the key binds it to the value. -/
def FirstBinds (lines : List Bytes) (key : Bytes) (value : Value) : Prop :=
  ∃ earlier line later, lines = earlier ++ line :: later ∧ Binds line key value ∧
    ∀ other ∈ earlier, ∀ shadowed, ¬ Binds other key shadowed

theorem first_bound_iff (lines : List Bytes) (key : Bytes) (value : Value) :
    lines.findSome? (boundTo key) = some value ↔ FirstBinds lines key value := by
  simp only [List.findSome?_eq_some_iff, bound_iff, unbound_iff, FirstBinds]

theorem never_bound_iff (lines : List Bytes) (key : Bytes) :
    lines.findSome? (boundTo key) = none ↔ ∀ line ∈ lines, ∀ value, ¬ Binds line key value := by
  simp only [List.findSome?_eq_none_iff, unbound_iff]

/-- A line adds what it binds, but only to a table that does not bind the key. -/
theorem find_add (t : Table) (key line : Bytes) :
    (t.add (Line.read line)).1.find? key = (t.find? key).or (boundTo key line) := by
  rw [boundTo]
  cases Line.read line with
  | ignored => simp [Table.add]
  | rejected fault => simp [Table.add]
  | binding other text value =>
    by_cases bound : t.has other = true
    · simp only [Table.add, bound, ↓reduceIte]
      by_cases same : other = key
      · subst same
        obtain ⟨held, found⟩ := Option.isSome_iff_exists.mp bound
        simp [found]
      · simp [same]
    · simp only [Table.add, bound, Bool.false_eq_true, ↓reduceIte, Table.bind, Table.find?,
        List.lookup_append]
      by_cases same : other = key
      · simp [same]
      · have apart : (key == other) = false := beq_eq_false_iff_ne.mpr (Ne.symm same)
        simp [same, List.lookup_cons, apart]

theorem find_addAll (t : Table) (lines : List Bytes) (key : Bytes) :
    (t.addAll (lines.map Line.read)).1.find? key =
      (t.find? key).or (lines.findSome? (boundTo key)) := by
  induction lines generalizing t with
  | nil => simp [Table.addAll]
  | cons line rest ih =>
    change ((t.add (Line.read line)).1.addAll (rest.map Line.read)).1.find? key = _
    rw [ih, find_add, Option.or_assoc, List.findSome?_cons]
    cases boundTo key line <;> rfl

/-- A table that was empty holds what the lines say first. -/
theorem find_lines (lines : List Bytes) (key : Bytes) :
    (Table.empty.addAll (lines.map Line.read)).1.find? key = lines.findSome? (boundTo key) :=
  (find_addAll .empty lines key).trans Option.none_or

theorem find_read (text key : Bytes) :
    (Table.empty.read text).value.1.find? key = (Bytes.pieces 10 text).findSome? (boundTo key) :=
  find_lines _ key

/-- Nothing is wrong with a line when it says nothing, or binds a key that is
still free. -/
def Accepts (free : Bytes → Prop) (line : Bytes) : Prop :=
  Significant line → ∃ key value, Binds line key value ∧ free key

theorem verdict_valid_iff (t : Table) (line : Bytes) :
    (t.add (Line.read line)).2.isValid = true ↔ Accepts (fun key => t.find? key = none) line := by
  cases read : Line.read line with
  | ignored =>
    have idle := (ignored_iff line).mp read
    simp only [Table.add, Table.Verdict.isValid, true_iff]
    exact fun significant => absurd significant idle
  | rejected fault =>
    simp only [Table.add, Table.Verdict.isValid, Bool.false_eq_true, false_iff]
    intro accepted
    have significant : Significant line := by
      apply Classical.byContradiction
      intro idle
      rw [read_insignificant idle] at read
      cases read
    obtain ⟨key, value, binds, _⟩ := accepted significant
    obtain ⟨text, bound⟩ := (binding_iff line key value).mpr binds
    rw [read] at bound
    cases bound
  | binding key text value =>
    have binds : Binds line key value := (binding_iff line key value).mp ⟨text, read⟩
    constructor
    · intro valid _
      refine ⟨key, value, binds, ?_⟩
      by_cases bound : t.has key = true
      · simp [Table.add, bound, Table.Verdict.isValid] at valid
      · simpa [Table.has] using bound
    · intro accepted
      obtain ⟨other, found, otherBinds, free⟩ := accepted binds.1
      obtain ⟨_, otherRead⟩ := (binding_iff line other found).mpr otherBinds
      rw [read] at otherRead
      cases otherRead
      simp [Table.add, Table.has, free, Table.Verdict.isValid]

/-- All lines of a text are valid when each of them is, given those before it. -/
theorem verdicts_valid_iff (t : Table) (lines : List Bytes) :
    (t.addAll (lines.map Line.read)).2.all Table.Verdict.isValid = true ↔
      ∀ earlier line later, lines = earlier ++ line :: later →
        Accepts (fun key => (t.addAll (earlier.map Line.read)).1.find? key = none) line := by
  induction lines generalizing t with
  | nil =>
    simp only [List.map_nil, Table.addAll, List.all_nil, true_iff]
    intro earlier line later split
    simp at split
  | cons first rest ih =>
    have divide : (t.addAll ((first :: rest).map Line.read)).2.all Table.Verdict.isValid = true ↔
        (t.add (Line.read first)).2.isValid = true ∧
          ((t.add (Line.read first)).1.addAll (rest.map Line.read)).2.all
            Table.Verdict.isValid = true := by
      rw [← Bool.and_eq_true]
      rfl
    rw [divide, verdict_valid_iff, ih]
    constructor
    · rintro ⟨head, tail⟩ earlier line later split
      cases earlier with
      | nil =>
        obtain ⟨rfl, rfl⟩ := List.cons.inj split
        exact head
      | cons before earlier =>
        obtain ⟨rfl, inner⟩ := List.cons.inj split
        exact tail earlier line later inner
    · intro all
      refine ⟨all [] first rest rfl, fun earlier line later split => ?_⟩
      exact all (first :: earlier) line later (congrArg (first :: ·) split)

/-- The lines of the text that a step reads, if it reads one. -/
def linesRead (s : Store) : Store.Step → List Bytes
  | .read text => text.splitOn 10
  | .load path => (s.files.read? path).elim [] (List.splitOn 10)
  | _ => []

/-- All lines that steps read, in order. -/
def linesReadBy (s : Store) : List Store.Step → List Bytes
  | [] => []
  | next :: rest => linesRead s next ++ linesReadBy (s.step next).value.1 rest

/-- A store without bindings, where these files are. -/
def emptyIn (files : Files) : Store := ⟨.empty, files⟩

/-- The lines read since the last step that cleared the table. -/
def linesSinceClear (files : Files) (steps : List Store.Step) : List Bytes :=
  linesReadBy ((emptyIn files).after (steps.rdropWhile (· ≠ .clear)))
    (steps.rtakeWhile (· ≠ .clear))

theorem find_read_onto (t : Table) (text key : Bytes) :
    (t.read text).value.1.find? key =
      (t.find? key).or ((text.splitOn 10).findSome? (boundTo key)) := by
  rw [← Spelling.pieces_eq_splitOn]
  exact find_addAll t (Bytes.pieces 10 text) key

/-- A step that does not clear the table adds the lines that it reads. -/
theorem find_step (s : Store) {next : Store.Step} (kept : next ≠ .clear) (key : Bytes) :
    (s.step next).value.1.table.find? key =
      (s.table.find? key).or ((linesRead s next).findSome? (boundTo key)) := by
  cases next with
  | clear => exact absurd rfl kept
  | read text => exact find_read_onto s.table text key
  | load path =>
    simp only [Store.step, Table.load, linesRead]
    cases s.files.read? path with
    | none => simp
    | some text => exact find_read_onto s.table text key
  | has key => simp [Store.step, linesRead]
  | string key => simp [Store.step, linesRead]
  | unsigned key => simp [Store.step, linesRead]
  | bytes key => simp [Store.step, linesRead]
  | change change => simp [Store.step, linesRead]

theorem find_after (s : Store) {steps : List Store.Step} (kept : ∀ next ∈ steps, next ≠ .clear)
    (key : Bytes) :
    (s.after steps).table.find? key =
      (s.table.find? key).or ((linesReadBy s steps).findSome? (boundTo key)) := by
  induction steps generalizing s with
  | nil => simp [Store.after, linesReadBy]
  | cons next rest ih =>
    have first := find_step s (kept next (by simp)) key
    have later := ih (s.step next).value.1 fun other member => kept other (by simp [member])
    rw [linesReadBy, List.findSome?_append, ← Option.or_assoc, ← first]
    exact later

/-- Behind a clearing step, as at the start, no key is bound. -/
theorem cleared (files : Files) (steps : List Store.Step) (key : Bytes) :
    ((emptyIn files).after (steps.rdropWhile (· ≠ .clear))).table.find? key = none := by
  by_cases never : steps.rdropWhile (· ≠ .clear) = []
  · rw [never]
    rfl
  · have last : (steps.rdropWhile (· ≠ .clear)).getLast never = .clear := by
      simpa using List.rdropWhile_last_not _ _ never
    rw [← List.dropLast_append_getLast never, last, Store.after_append]
    rfl

/-- What the table holds after any run is what the lines read since it was last
cleared bind first. -/
theorem find_since_clear (files : Files) (steps : List Store.Step) (key : Bytes) :
    ((emptyIn files).after steps).table.find? key =
      (linesSinceClear files steps).findSome? (boundTo key) := by
  have kept : ∀ next ∈ steps.rtakeWhile (· ≠ .clear), next ≠ .clear := by
    intro next member
    simpa using List.mem_rtakeWhile_imp member
  have whole := find_after ((emptyIn files).after (steps.rdropWhile (· ≠ .clear))) kept key
  rw [← Store.after_append, List.rdropWhile_append_rtakeWhile, cleared, Option.none_or] at whole
  exact whole

/-- A key is bound when a line read since the table was cleared binds it. -/
theorem has_iff (files : Files) (steps : List Store.Step) (key : Bytes) :
    ((emptyIn files).after steps).table.has key = true ↔
      ∃ line ∈ linesSinceClear files steps, ∃ value, Binds line key value := by
  rw [Table.has, find_since_clear, List.findSome?_isSome_iff]
  simp only [Option.isSome_iff_exists, bound_iff]

private theorem free_within_iff (files : Files) (steps : List Store.Step) (earlier : List Bytes)
    (key : Bytes) :
    (((emptyIn files).after steps).table.addAll (earlier.map Line.read)).1.find? key = none ↔
      ∀ line ∈ linesSinceClear files steps ++ earlier, ∀ value, ¬ Binds line key value := by
  rw [find_addAll, find_since_clear, ← List.findSome?_append, never_bound_iff]

/-- A text is answered with true when every line that says anything binds a key
that no line before it binds, in this text or in those read earlier. -/
theorem read_valid_iff (files : Files) (steps : List Store.Step) (text : Bytes) :
    (((emptyIn files).after steps).table.read text).value.2 = true ↔
      ∀ earlier line later, text.splitOn 10 = earlier ++ line :: later → Significant line →
        ∃ key value, Binds line key value ∧
          ∀ other ∈ linesSinceClear files steps ++ earlier, ∀ shadowed,
            ¬ Binds other key shadowed := by
  have verdicts := verdicts_valid_iff ((emptyIn files).after steps).table (Bytes.pieces 10 text)
  simp only [Accepts, free_within_iff] at verdicts
  rw [← Spelling.pieces_eq_splitOn]
  exact verdicts

end Read

/-- The first line reserves nothing, and the last one comes too late. -/
example : (Table.empty.read (Bytes.ascii "A=x\nA=1\nA=2")).value =
    (⟨[(Bytes.ascii "A", .unsigned 1)]⟩, false) := by decide

section Steps
variable [Dialect]

/-- Steps that only ask. -/
def Asks : Store.Step → Prop
  | .has _ | .string _ | .unsigned _ | .bytes _ => True
  | _ => False

theorem asking_keeps (s : Store) {next : Store.Step} (asks : Asks next) :
    (s.step next).value.1 = s := by
  cases next with
  | has key => rfl
  | string key => rfl
  | unsigned key => rfl
  | bytes key => rfl
  | read text => exact asks.elim
  | load path => exact asks.elim
  | clear => exact asks.elim
  | change change => exact asks.elim

/-- A file that can be opened is read like a text. -/
theorem load_opened (s : Store) {path text : Bytes} (opened : s.files.read? path = some text) :
    (s.step (.load path)).value = (s.step (.read text)).value := by
  simp only [Store.step, Table.load, opened]
  rfl

theorem load_unopened (s : Store) {path : Bytes} (closed : s.files.read? path = none) :
    (s.step (.load path)).value = (s, .flag false) := by
  simp only [Store.step, Table.load, closed]
  rfl

/-- Whatever files there are, and whatever was read, loaded, cleared, asked and changed
before: a key has the value of the first line since the last clearing that binds it, and
none without such a line. A text is answered with true exactly when all its lines that say
anything bind keys which were free until then; a file is answered like its text. -/
theorem first_valid_binding_wins (files : Files) (steps : List Store.Step) :
    let s := (emptyIn files).after steps
    let lines := linesSinceClear files steps
    (∀ next, ((emptyIn files).run (steps ++ [next])).getLast? = some (s.step next)) ∧
    (∀ key value, s.table.find? key = some value ↔ FirstBinds lines key value) ∧
    (∀ key, s.table.has key = true ↔ ∃ line ∈ lines, ∃ value, Binds line key value) ∧
    (∀ text, ∃ valid, (s.step (.read text)).value.2 = .flag valid ∧
      (valid = true ↔
        ∀ earlier line later, text.splitOn 10 = earlier ++ line :: later →
          Significant line → ∃ key value, Binds line key value ∧
            ∀ other ∈ lines ++ earlier, ∀ shadowed, ¬ Binds other key shadowed)) ∧
    (∀ path text, s.files.read? path = some text →
      (s.step (.load path)).value = (s.step (.read text)).value) ∧
    (∀ path, s.files.read? path = none → (s.step (.load path)).value = (s, .flag false)) ∧
    (∀ next, Asks next → (s.step next).value.1 = s) := by
  intro s lines
  refine ⟨?runs, ?values, has_iff files steps, ?texts, ?opened, ?unopened, ?questions⟩
  case runs =>
    intro next
    rw [Store.run_append]
    exact List.getLast?_concat
  case values =>
    intro key value
    rw [← first_bound_iff, find_since_clear]
  case texts =>
    intro text
    exact ⟨(s.table.read text).value.2, rfl, read_valid_iff files steps text⟩
  case opened =>
    intro path text opened
    exact load_opened s opened
  case unopened =>
    intro path closed
    exact load_unopened s closed
  case questions =>
    intro next asks
    exact asking_keeps s asks

end Steps

end NfcPolling.FirstBinding
