import Mathlib.Data.List.DropRight
import Mathlib.Data.List.TakeWhile
import NfcPolling.Proofs.Service.ProcessSteps

/-! The configuration of a process is what its file said when it was first asked for.
Clearing it, or stopping the service, ends an epoch; within one, whatever becomes of the
files and of the directory, every answer is given from the one table that the first
question found. What is read is put to bindings that are held already, and there are none
of these when an epoch begins. -/
namespace NfcPolling.ConfigurationEpochs
open NfcPolling.Service Process Settings Journal ProcessFrames ProcessSteps

def withSlash (directory : Bytes) : Bytes :=
  if directory.getLast? = some Files.separator then directory
  else directory ++ [Files.separator]

section Reading
variable [Dialect]

/-- The table of the configuration file as it stands: what its bytes bind, and
nothing when the named directory or the file in it is missing. -/
def snapshot (s : Surroundings) : Table :=
  let directory := Bytes.untilNul (s.directory.getD [])
  if s.files.find? directory = some .directory then
    match s.files.find? (withSlash directory ++ Surroundings.fileName) with
    | some (.file content) => (Table.empty.read content).value.1
    | _ => .empty
  else .empty

/-- There is no configuration file in the default directory. -/
def NoDefault (s : Surroundings) : Prop :=
  s.files.isFile (Surroundings.defaultDirectory ++ Surroundings.fileName) = false

instance (s : Surroundings) : Decidable (NoDefault s) := inferInstanceAs (Decidable (_ = _))

omit [Dialect] in
theorem not_file {files : Files} {path : Bytes} (other : files.isFile path = false)
    (content : Bytes) : files.find? path ≠ some (.file content) := by
  intro found
  simp [Files.isFile, found] at other

theorem load_file (s : Surroundings) :
    s.load.value =
      match s.files.find? s.configurationPath with
      | some (.file content) => (Table.empty.read content).value.1
      | _ => .empty := by
  rw [Surroundings.load]
  cases found : s.files.find? s.configurationPath with
  | none => simp [Surroundings.locate, Files.isFile, found]
  | some node =>
    cases node with
    | directory => simp [Surroundings.locate, Files.isFile, found]
    | file content =>
      simp only [Surroundings.locate, Files.isFile, found, ↓reduceIte, Table.load, Files.read?,
        Option.map_some, Noted.value_bind]
      split <;> rfl

theorem load_snapshot {s : Surroundings} (missing : NoDefault s) : s.load.value = snapshot s := by
  rw [load_file, Surroundings.configurationPath, Surroundings.configurationDirectory, snapshot]
  by_cases named : s.files.find? (Bytes.untilNul (s.directory.getD [])) = some .directory
  · simp only [Files.isDirectory, named, decide_true, ↓reduceIte, withSlash]
  · simp only [Files.isDirectory, named, decide_false, Bool.false_eq_true, ↓reduceIte]
    cases found : s.files.find? (Surroundings.defaultDirectory ++ Surroundings.fileName) with
    | none => rfl
    | some node =>
      cases node with
      | directory => rfl
      | file content => exact absurd found (not_file missing content)

end Reading

/-- Steps that end an epoch. -/
def endsEpoch : Session.Step → Bool
  | .configuration .forget | .stop => true
  | _ => false

/-- Steps that need the configuration. -/
def accesses : Session.Step → Bool
  | .configuration .start | .configuration .readLevels | .configuration (.has _)
  | .configuration (.unsigned _ _) => true
  | _ => false

/-- A run up to the end of an epoch, the steps of the next epoch before its first
access, and those from that access on. -/
structure Epoch (before idle since : List Session.Step) : Prop where
  opened : ∀ last, before.getLast? = some last → endsEpoch last = true
  waits : ∀ step ∈ idle, endsEpoch step = false ∧ accesses step = false
  fixed : ∀ first, since.head? = some first → accesses first = true
  stays : ∀ step ∈ since, endsEpoch step = false

/-- Every run ends in some epoch. -/
theorem epoch_exists (steps : List Session.Step) :
    ∃ before idle since, steps = before ++ idle ++ since ∧ Epoch before idle since := by
  let before := steps.rdropWhile (!endsEpoch ·)
  let current := steps.rtakeWhile (!endsEpoch ·)
  let idle := current.takeWhile (!accesses ·)
  let since := current.dropWhile (!accesses ·)
  have whole : before ++ current = steps := List.rdropWhile_append_rtakeWhile
  have parts : idle ++ since = current := List.takeWhile_append_dropWhile
  have unended : ∀ step ∈ idle ++ since, endsEpoch step = false := by
    intro step member
    rw [parts] at member
    simpa using List.mem_rtakeWhile_imp member
  refine ⟨before, idle, since, by rw [List.append_assoc, parts, whole], ?_⟩
  constructor
  case opened =>
    intro last ending
    have nonempty : before ≠ [] := by
      intro empty
      rw [empty] at ending
      cases ending
    rw [List.getLast?_eq_some_getLast nonempty, Option.some.injEq] at ending
    rw [← ending]
    simpa using List.rdropWhile_last_not _ _ nonempty
  case waits =>
    intro step member
    exact ⟨unended step (List.mem_append_left since member),
      by simpa using List.mem_takeWhile_imp member⟩
  case fixed =>
    intro first head
    rw [← List.find?_eq_head?_dropWhile_not] at head
    exact List.find?_some head
  case stays =>
    intro step member
    exact unended step (List.mem_append_right idle member)

section Epochs
variable [Dialect] {p : Process}

/-- A step that ends no epoch keeps what is loaded, and an access loads the
configuration when nothing is. -/
theorem loaded_step (settled : Settled p) (next : Session.Step) :
    (configuration (p.step next).1).loaded =
      if endsEpoch next then none
      else if accesses next then some (configuration p).table.value
      else (configuration p).loaded := by
  have after : configuration (p.step next).1 = ((session p).step next).1.configuration :=
    congrArg Session.configuration (step_matches settled next).after
  rw [after]
  cases next with
  | hub step => rfl
  | stop => rfl
  | configuration step => cases step <;> rfl

theorem unloaded_before (surroundings : Surroundings) {before : List Session.Step}
    (opened : ∀ last, before.getLast? = some last → endsEpoch last = true) :
    (configuration ((fresh surroundings).after before)).loaded = none := by
  induction before using List.reverseRecOn with
  | nil => rfl
  | append_singleton earlier last _ =>
    have ends : endsEpoch last = true := opened last List.getLast?_concat
    have settled := settled_after (settled_fresh surroundings) earlier
    rw [Process.after_append]
    exact (loaded_step settled last).trans (if_pos ends)

theorem unloaded_after (settled : Settled p) (unloaded : (configuration p).loaded = none)
    {idle : List Session.Step}
    (waits : ∀ step ∈ idle, endsEpoch step = false ∧ accesses step = false) :
    (configuration (p.after idle)).loaded = none := by
  induction idle generalizing p with
  | nil => exact unloaded
  | cons next rest ih =>
    obtain ⟨unended, quiet⟩ := waits next (by simp)
    have still : (configuration (p.step next).1).loaded = none := by
      rw [loaded_step settled, unended, quiet]
      exact unloaded
    exact ih (step_matches settled next).settled still fun step member =>
      waits step (by simp [member])

/-- Within an epoch the loaded table stays, whatever else happens. -/
theorem loaded_after (settled : Settled p) {table : Table}
    (loaded : (configuration p).loaded = some table) {since : List Session.Step}
    (stays : ∀ step ∈ since, endsEpoch step = false) :
    (configuration (p.after since)).loaded = some table := by
  induction since generalizing p with
  | nil => exact loaded
  | cons next rest ih =>
    have held : (configuration p).table.value = table := by
      rw [Configuration.table, loaded]
      rfl
    have still : (configuration (p.step next).1).loaded = some table := by
      rw [loaded_step settled, stays next (by simp), loaded, held]
      cases accesses next <;> rfl
    exact ih (step_matches settled next).settled still fun step member =>
      stays step (by simp [member])

variable {surroundings : Surroundings} {before idle since : List Session.Step}

theorem unloaded_at_access (epoch : Epoch before idle since) :
    (configuration ((fresh surroundings).after (before ++ idle))).loaded = none := by
  rw [Process.after_append]
  exact unloaded_after (settled_after (settled_fresh surroundings) before)
    (unloaded_before surroundings epoch.opened) epoch.waits

/-- The first access of an epoch loads what the file says at that moment. -/
theorem table_at_access (epoch : Epoch before idle since) :
    let first := (fresh surroundings).after (before ++ idle)
    NoDefault first.surroundings →
      (configuration first).table.value = snapshot first.surroundings := by
  intro first missing
  rw [Configuration.table, unloaded_at_access epoch]
  exact load_snapshot missing

/-- From the first access on, the configuration is the table found then. -/
theorem loaded_since (epoch : Epoch before idle since) (asked : since ≠ []) :
    let first := (fresh surroundings).after (before ++ idle)
    (configuration (first.after since)).loaded = some (configuration first).table.value := by
  intro first
  have settled : Settled first := settled_after (settled_fresh surroundings) _
  cases since with
  | nil => exact absurd rfl asked
  | cons access rest =>
    have opening : accesses access = true := epoch.fixed access rfl
    have kept : endsEpoch access = false := epoch.stays access (by simp)
    have loaded : (configuration (first.step access).1).loaded =
        some (configuration first).table.value := by
      rw [loaded_step settled, kept, opening]
      rfl
    exact loaded_after (step_matches settled access).settled loaded fun step member =>
      epoch.stays step (List.mem_cons_of_mem access member)

theorem table_fixed (epoch : Epoch before idle since) :
    let first := (fresh surroundings).after (before ++ idle)
    (configuration (first.after since)).table.value = (configuration first).table.value := by
  intro first
  by_cases asked : since = []
  · rw [asked]
    rfl
  · rw [Configuration.table, loaded_since epoch asked]
    rfl

end Epochs

theorem unsigned_bound {table : Table} {key : Bytes} {number : UInt32}
    (bound : table.find? key = some (.unsigned number)) :
    (table.unsigned key).value = number := by
  rw [Table.unsigned, Noted.value_bind, Table.value, bound]
  rfl

theorem unsigned_otherwise {table : Table} {key : Bytes}
    (other : ∀ number, table.find? key ≠ some (.unsigned number)) :
    (table.unsigned key).value = 0 := by
  rw [Table.unsigned, Noted.value_bind, Table.value]
  cases held : table.find? key with
  | none => rfl
  | some value =>
    cases value with
    | unsigned number => exact absurd held (other number)
    | string text => rfl
    | bytes content => rfl

theorem number_with_default (table : Table) (key : Bytes) (default : UInt32) :
    (Configuration.number table key (some default)).value =
      if table.find? key = none then default else (table.unsigned key).value := by
  by_cases free : table.find? key = none
  · have unbound : table.has key = false := by
      rw [Table.has, free]
      rfl
    simp [Configuration.number, Table.unsigned?, unbound, free]
  · have bound : table.has key = true := Option.isSome_iff_ne_none.mpr free
    simp only [Configuration.number, Table.unsigned?, bound, free, ↓reduceIte]
    rfl

/-- Every run ends in an epoch, and an epoch begins with nothing loaded and nothing bound.
Where the default directory holds no configuration file, the first access fixes the table:
what the file in the named directory says at that moment, and no other state, decides
every answer and the levels until the epoch ends. -/
theorem answers_fixed_by_first_access [Dialect] :
    (∀ steps, ∃ before idle since, steps = before ++ idle ++ since ∧ Epoch before idle since) ∧
    (∀ surroundings steps, let p := (fresh surroundings).after steps
      p.loaded = false → p.config = .empty) ∧
    ∀ surroundings before idle since, Epoch before idle since →
      let first := (fresh surroundings).after (before ++ idle)
      NoDefault first.surroundings →
      let p := first.after since
      let outcome (step : Configuration.Step) := (p.step (.configuration step)).2
      let table := snapshot first.surroundings
      first.loaded = false ∧ first.config = .empty ∧
      (since ≠ [] → p.loaded = true ∧ p.config = table) ∧
      (∀ step, ((fresh surroundings).run
        (before ++ idle ++ since ++ [.configuration step])).getLast? = some (outcome step)) ∧
      (∀ key, (outcome (.has key)).answer = .flag (table.find? key).isSome) ∧
      (∀ key number, table.find? key = some (.unsigned number) →
        (outcome (.unsigned key none)).answer = .number number.toNat) ∧
      (∀ key, (∀ number, table.find? key ≠ some (.unsigned number)) →
        (outcome (.unsigned key none)).answer = .number 0) ∧
      (∀ key default, (outcome (.unsigned key (some default))).answer =
        if table.find? key = none then .number default.toNat
        else (outcome (.unsigned key none)).answer) ∧
      (outcome .start).verbosity = table.verbosity.value ∧
      (outcome .readLevels).verbosity = table.verbosity.value := by
  refine ⟨epoch_exists, fun surroundings => settled_after (settled_fresh surroundings), ?_⟩
  intro surroundings before idle since epoch first missing p outcome table
  have settledFirst : Settled first := settled_after (settled_fresh surroundings) _
  have settled : Settled p := settled_after settledFirst since
  have unloaded : first.loaded = false := unloaded_iff.mp (unloaded_at_access epoch)
  have found : (configuration first).table.value = table := table_at_access epoch missing
  have fixed : (configuration p).table.value = table := (table_fixed epoch).trans found
  have told : ∀ step, outcome step = ((session p).step (.configuration step)).2 :=
    fun step => (step_matches settled _).outcome
  have plain : ∀ key, (outcome (.unsigned key none)).answer =
      .number (table.unsigned key).value.toNat := by
    intro key
    rw [told, ← fixed]
    rfl
  refine ⟨unloaded, settledFirst unloaded, ?kept, ?runs, ?keys, ?numbers, ?others, ?defaults,
    ?start, ?levels⟩
  case kept =>
    intro asked
    exact found ▸ loaded_iff.mp (loaded_since epoch asked)
  case runs =>
    intro step
    rw [Process.run_append, Process.after_append]
    exact List.getLast?_concat
  case keys =>
    intro key
    rw [told, ← fixed]
    rfl
  case numbers =>
    intro key number bound
    rw [plain, unsigned_bound bound]
  case others =>
    intro key other
    rw [plain, unsigned_otherwise other]
    rfl
  case defaults =>
    intro key default
    have answered : (outcome (.unsigned key (some default))).answer =
        .number (Configuration.number table key (some default)).value.toNat := by
      rw [told, ← fixed]
      rfl
    rw [answered, number_with_default, plain]
    split <;> rfl
  case start =>
    rw [told, ← fixed]
    rfl
  case levels =>
    rw [told, ← fixed]
    rfl

/-- A file that is replaced behind a clearing is read anew, and then kept although
it is removed and its directory is no longer named. -/
theorem answer_kept_without_file :
    let directory := Bytes.ascii "/tmp/conf"
    let path := Bytes.ascii "/tmp/conf/libnfc-plf.conf"
    let key := Bytes.ascii "A"
    let before : List Session.Step :=
      [.configuration (.change (.makeDirectory directory)),
        .configuration (.change (.write path (Bytes.ascii "A=1\nB=1"))),
        .configuration (.setDirectory (some directory)), .configuration (.has key),
        .configuration .forget]
    let idle : List Session.Step := [.configuration (.change (.write path (Bytes.ascii "A=2")))]
    let since : List Session.Step :=
      [.configuration .readLevels, .configuration (.change (.remove path)),
        .configuration (.setDirectory none)]
    let first := (fresh Surroundings.initial).after (before ++ idle)
    Epoch before idle since ∧ NoDefault first.surroundings ∧
      (snapshot first.surroundings).find? key = some (.unsigned 2) ∧
      ((first.after since).step (.configuration (.unsigned key none))).2.answer = .number 2 ∧
      ((first.after since).step (.configuration (.has (Bytes.ascii "B")))).2.answer =
        .flag false := by
  intro directory path key before idle since first
  have epoch : Epoch before idle since := by
    constructor <;> simp [before, idle, since, endsEpoch, accesses]
  have missing : NoDefault first.surroundings := by decide +kernel
  have bound : (snapshot first.surroundings).find? key = some (.unsigned 2) := by decide +kernel
  have forgotten : (snapshot first.surroundings).find? (Bytes.ascii "B") = none := by
    decide +kernel
  obtain ⟨_, _, _, _, keys, numbers, _⟩ :=
    answers_fixed_by_first_access.2.2 Surroundings.initial before idle since epoch missing
  refine ⟨epoch, missing, bound, numbers key 2 bound, ?_⟩
  rw [keys, forgotten]
  rfl

end NfcPolling.ConfigurationEpochs
