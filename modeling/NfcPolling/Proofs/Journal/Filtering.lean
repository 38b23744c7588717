import NfcPolling.Journal.Entry

/-! Writing as one goes is making all entries first and holding them against the
levels afterwards. That is kept by every step a computation is put together from, so
it holds of a whole run as soon as it holds of each remark. -/
namespace NfcPolling.Filtering
open NfcPolling.Journal

variable {α β ν : Type}

@[simp] theorem written_append (levels : Levels) (earlier later : List Entry) :
    levels.written (earlier ++ later) = levels.written earlier ++ levels.written later :=
  List.filter_append _ _

theorem written_verbose (entries : List Entry) : Levels.verbose.written entries = entries := by
  have all : ∀ entry ∈ entries, entry.isWritten .verbose = true := by
    intro entry _
    rw [Entry.isWritten, Levels.admits]
    cases entry.severity <;> cases entry.source <;> rfl
  exact List.filter_eq_self.mpr all

theorem written_global (levels : Levels) (other : UInt8) :
    Levels.written { levels with global := other } = levels.written := by
  funext entries
  refine List.filter_congr fun entry _ => ?_
  rw [Entry.isWritten, Entry.isWritten, Levels.admits, Levels.admits]
  cases entry.source <;> rfl

/-- At all levels the computation comes to the same result, and of its entries it
writes those that the levels admit. -/
def Filters (logged : Logged α) (full : Noted Entry α) : Prop :=
  ∀ levels, logged levels = full.atLevels levels

theorem filters_pure (a : α) : Filters (pure a) (pure a) := fun _ => rfl

/-- A remark is where the levels are looked at. -/
theorem filters_note (entry : Entry) : Filters (Logged.note entry) (Noted.note entry) := by
  intro levels
  rw [Logged.note, Noted.atLevels, Levels.written, Noted.note, List.filter_cons, List.filter_nil]

/-- What comes later may depend on a result, but not on what was written. -/
theorem filters_bind {first : Logged α} {fullFirst : Noted Entry α} {next : α → Logged β}
    {fullNext : α → Noted Entry β} (earlier : Filters first fullFirst)
    (later : ∀ a, Filters (next a) (fullNext a)) :
    Filters (first >>= next) (fullFirst >>= fullNext) := by
  intro levels
  rw [Logged.at_bind, earlier levels]
  have rest := later fullFirst.value levels
  simp only [Noted.atLevels, bind, rest, written_append]

theorem filters_ite {condition : Prop} [Decidable condition] {yes no : Logged α}
    {fullYes fullNo : Noted Entry α} (holds : condition → Filters yes fullYes)
    (fails : ¬ condition → Filters no fullNo) :
    Filters (if condition then yes else no) (if condition then fullYes else fullNo) := by
  split
  · exact holds (by assumption)
  · exact fails (by assumption)

/-- A result that is only taken further has nothing to remark on. -/
theorem filters_map {first : Logged α} {full : Noted Entry α} (earlier : Filters first full)
    (f : α → β) : Filters (do return f (← first)) ⟨f full.value, full.notes⟩ := by
  intro levels
  rw [Logged.at_bind, earlier levels]
  simp only [Noted.atLevels, bind, Logged.at_pure, Noted.notes_pure, Noted.value_pure,
    List.append_nil]

/-- A result that is remarked on once. -/
theorem filters_noted (entry : Entry) (a : α) :
    Filters (do Logged.note entry; return a) ⟨a, [entry]⟩ :=
  filters_bind (filters_note entry) fun _ => filters_pure a

end NfcPolling.Filtering
