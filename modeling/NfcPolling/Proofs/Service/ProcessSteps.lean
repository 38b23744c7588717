import NfcPolling.Proofs.Service.ProcessFrames

/-! What a step of a process comes to. A process is settled while nothing is bound that is
not loaded, and every step keeps it so, although loading adds to the bindings that are held
and clearing resets two fields one by one. The steps of a settled process are those of the
session in which the table is there when it is loaded and not otherwise. -/
namespace NfcPolling.ProcessSteps
open NfcPolling.Service Process Settings Journal Filtering Transcripts ProcessFrames

variable {α β : Type}

/-- Nothing is bound that is not loaded. -/
def Settled (p : Process) : Prop := p.loaded = false → p.config = .empty

/-- The process with this table loaded. -/
def holding (p : Process) (t : Table) : Process := { p with config := t, loaded := true }

theorem logged_done {logged : Logged α} {noted : Noted Settings.Notice α}
    (tells : Tells logged noted) (p : Process) :
    Act.logged logged p = ⟨noted.value, p, p.levels.written (noted.notes.map .config), []⟩ := by
  rw [Act.logged, tells p.levels]
  rfl

theorem remark_done (notice : Settings.Notice) (p : Process) :
    Act.logged (Settings.remark notice) p = ⟨(), p, p.levels.written [.config notice], []⟩ :=
  logged_done (tells_note notice) p

theorem spoken_done (notice : Service.Notice) (p : Process) :
    Act.logged (Service.remark notice) p = ⟨(), p, p.levels.written [.api notice], []⟩ :=
  follows_remark notice p

section Asking
variable [Dialect] {p : Process}

theorem parseFile_done (path : Bytes) :
    let read := p.config.load p.surroundings.files path
    parseFile path p =
      ⟨read.value.2, { p with config := read.value.1 },
        p.levels.written (read.notes.map .config), []⟩ := by
  simp [parseFile, Act.at_bind, Act.look, Act.change, logged_done (load_tells _ _ _)]

/-- Into an empty table the file is read as it stands. -/
theorem loadConfig_done (bare : p.config = .empty) :
    loadConfig p = ⟨(), holding p p.surroundings.load.value,
      p.levels.written (p.surroundings.load.notes.map .config), []⟩ := by
  unfold loadConfig Surroundings.load
  simp only [Act.at_bind, Act.look, Act.change, remark_done, logged_done (locate_tells _ _),
    Noted.value_bind, Noted.notes_bind, Noted.notes_note, List.map_append, written_append]
  cases found : (p.surroundings.locate .configuration).value with
  | none => simp [remark_done, holding, bare]
  | some path =>
    simp only [Act.at_bind, parseFile_done, bare]
    cases valid : (Table.empty.load p.surroundings.files path).value.2 with
    | false =>
      simp only [Act.at_bind, remark_done, holding, valid, Bool.not_false, ↓reduceIte,
        Noted.value_bind, Noted.notes_bind, Noted.value_pure, Noted.notes_pure, Noted.notes_note,
        List.map_append, List.map_cons, List.map_nil, written_append, List.append_nil,
        List.nil_append]
    | true => simp [remark_done, holding, valid]

/-- The action asks a configuration that is loaded, and leaves the process as it is. -/
def Reads (action : Act α) (question : Table → Noted Settings.Notice α) : Prop :=
  ∀ p : Process, p.loaded = true →
    action p = ⟨(question p.config).value, p,
      p.levels.written ((question p.config).notes.map .config), []⟩

/-- The action asks the configuration, which is loaded for it when that has not been done. -/
def Asks (action : Act α) (question : Table → Noted Settings.Notice α) : Prop :=
  ∀ p, Settled p →
    let asked := (configuration p).table >>= question
    action p = ⟨asked.value, holding p (configuration p).table.value,
      p.levels.written (asked.notes.map .config), []⟩

omit [Dialect] in
theorem reads_pure (a : α) : Reads (pure a) fun _ => pure a := fun _ _ => rfl

omit [Dialect] in
theorem reads_bind {first : Act α} {question : Table → Noted Settings.Notice α} {next : α → Act β}
    {later : α → Table → Noted Settings.Notice β} (earlier : Reads first question)
    (rest : ∀ a, Reads (next a) (later a)) :
    Reads (first >>= next) fun t => question t >>= fun a => later a t := by
  intro p loaded
  rw [Act.at_bind, earlier p loaded]
  simp only [rest _ _ loaded, Noted.value_bind, Noted.notes_bind, List.map_append, written_append,
    List.append_nil]

theorem table_loaded (loaded : p.loaded = true) : (configuration p).table = pure p.config := by
  rw [Configuration.table, configuration, loaded]
  rfl

theorem table_bare (unloaded : p.loaded = false) :
    (configuration p).table = p.surroundings.load := by
  rw [Configuration.table, configuration, unloaded]
  rfl

omit [Dialect] in
theorem holding_loaded (loaded : p.loaded = true) : holding p p.config = p := by
  rw [holding, ← loaded]

theorem asks_reads {action : Act α} {question : Table → Noted Settings.Notice α}
    (asks : Asks action question) : Reads action question := by
  intro p loaded
  have settled : Settled p := fun unloaded => absurd (loaded.symm.trans unloaded) (by decide)
  have asked := asks p settled
  rw [table_loaded loaded] at asked
  rwa [Noted.value_pure, holding_loaded loaded] at asked

theorem asks_bind {first : Act α} {question : Table → Noted Settings.Notice α} {next : α → Act β}
    {later : α → Table → Noted Settings.Notice β} (earlier : Asks first question)
    (rest : ∀ a, Reads (next a) (later a)) :
    Asks (first >>= next) fun t => question t >>= fun a => later a t := by
  intro p settled
  have loaded : (holding p (configuration p).table.value).loaded = true := rfl
  have kept : (holding p (configuration p).table.value).levels = p.levels := rfl
  rw [Act.at_bind, earlier p settled]
  simp only [rest _ _ loaded, kept, Noted.value_bind, Noted.notes_bind, List.map_append,
    written_append, List.append_assoc, List.append_nil]
  rfl

theorem access_asks : Asks access fun _ => pure () := by
  intro p settled
  cases loaded : p.loaded with
  | true =>
    rw [table_loaded loaded]
    simp only [access, Act.at_bind, Act.look, loaded, Bool.not_true, Bool.false_eq_true,
      ↓reduceIte, Noted.value_bind, Noted.value_pure, holding_loaded]
    rfl
  | false =>
    rw [table_bare loaded]
    simp [access, Act.at_bind, Act.look, loaded, loadConfig_done (settled loaded)]

theorem hasKey_asks (key : Bytes) : Asks (hasKey key) fun t => pure (t.has key) := by
  have found : Reads (do return (← Act.look).config.has key) fun t => pure (t.has key) :=
    fun _ _ => rfl
  exact asks_bind access_asks fun _ => found

theorem getUnsigned_asks (key : Bytes) : Asks (getUnsigned key) fun t => t.unsigned key := by
  have read : Reads (do Act.logged ((← Act.look).config.unsignedInPlace key))
      fun t => t.unsigned key :=
    fun p _ => logged_done (unsigned_tells p.config key) p
  exact asks_bind access_asks fun _ => read

theorem getSetting_asks (key : Bytes) : Asks (getSetting key) fun t => t.unsigned? key := by
  have read : ∀ bound : Bool,
      Reads (if bound then do return some (← getUnsigned key) else return none)
        fun t => if bound then some <$> t.unsigned key else pure none := by
    intro bound
    cases bound with
    | false => exact reads_pure none
    | true =>
      exact reads_bind (asks_reads (getUnsigned_asks key)) fun number => reads_pure (some number)
  exact asks_bind (hasKey_asks key) read

omit [Dialect] in
/-- Remarks on the configuration are held against the level of that source alone. -/
theorem written_config {levels other : Levels} (same : levels.config = other.config)
    (notes : List Settings.Notice) :
    levels.written (notes.map Entry.config) = other.written (notes.map Entry.config) := by
  refine List.filter_congr fun entry member => ?_
  obtain ⟨notice, -, rfl⟩ := List.mem_map.mp member
  rw [Entry.isWritten, Entry.isWritten, Levels.admits, Levels.admits]
  exact congrArg (decide <| notice.severity.rank ≤ ·) same

/-- A process in which the configuration is loaded first, for what is done in it. -/
def Loads (action : Act α) : Prop :=
  ∀ p, Settled p →
    let table := (configuration p).table
    let done := action (holding p table.value)
    action p = ⟨done.value, done.process,
      p.levels.written (table.notes.map .config) ++ done.entries, done.reports⟩

theorem asks_loads {action : Act α} {question : Table → Noted Settings.Notice α}
    (asks : Asks action question) : Loads action := by
  intro p settled
  have loaded : (holding p (configuration p).table.value).loaded = true := rfl
  simp only [asks p settled, asks_reads asks _ loaded, Noted.value_bind, Noted.notes_bind,
    List.map_append, written_append]
  rfl

theorem loads_bind {first : Act α} (next : α → Act β) (loads : Loads first) :
    Loads (first >>= next) := by
  intro p settled
  simp only [Act.at_bind, loads p settled, List.append_assoc]

section Levels
variable (loaded : p.loaded = true)
include loaded

theorem setGlobalLevel_loaded :
    let debug := p.config.unsigned? Verbosity.debugKey
    let setting := p.config.unsigned? Verbosity.globalKey
    let debugging := decide (debug.value.getD 0 ≠ 0)
    let level := Verbosity.globalLevel debugging setting.value
    setGlobalLevel p = ⟨level, { p with debugging := debugging, levels.global := level },
      p.levels.written ((debug.notes ++ setting.notes).map .config), []⟩ := by
  intro debug setting debugging level
  have first := asks_reads (getSetting_asks Verbosity.debugKey) p loaded
  have second := asks_reads (getSetting_asks Verbosity.globalKey)
    { p with debugging := debugging } loaded
  simp only [setGlobalLevel, Act.at_bind, Act.look, Act.change, Act.at_pure, first]
  rw [second]
  simp [debug, setting, level]

/-- What is remarked meanwhile may be held against any levels that agree on the
configuration's own. -/
theorem setSourceLevel_loaded (levels : Levels) (same : p.levels.config = levels.config)
    (source : Source) (level : UInt8) :
    let setting := p.config.unsigned? (Verbosity.sourceKey source)
    setSourceLevel source level p =
      ⟨(), { p with levels := p.levels.put source (Verbosity.sourceLevel level setting.value) },
        levels.written (setting.notes.map .config), []⟩ := by
  simp [setSourceLevel, Act.at_bind, Act.change, asks_reads (getSetting_asks _) p loaded,
    written_config same]

/-- The levels that the configuration asks for, all set. -/
theorem readLevels_loaded :
    let asked := p.config.verbosity
    readLevels p = ⟨(), { p with levels := asked.value.levels, debugging := asked.value.debugging },
      p.levels.written (asked.notes.map .config) ++
        asked.value.levels.written [.api (.verbosity asked.value.levels)], []⟩ := by
  intro asked
  -- Each source is set behind the global level, in a process whose bindings stay the same.
  unfold readLevels
  rw [Act.bind_done (setGlobalLevel_loaded loaded),
    Act.bind_done (setSourceLevel_loaded (by exact loaded) p.levels (by rfl) .decoder _),
    Act.bind_done (setSourceLevel_loaded (by exact loaded) p.levels (by rfl) .api _),
    Act.bind_done (setSourceLevel_loaded (by exact loaded) p.levels (by rfl) .config _),
    Act.at_bind, Act.look]
  dsimp only
  rw [spoken_done]
  simp only [asked, Table.verbosity, Noted.notes_bind, Noted.notes_pure, List.map_append,
    written_append, List.append_assoc, List.append_nil]
  rfl

end Levels

theorem setGlobalLevel_loads : Loads setGlobalLevel :=
  loads_bind _ (asks_loads (getSetting_asks Verbosity.debugKey))

/-- What a step about the configuration comes to: what it comes to for a configuration
whose table is there or not, and nothing on the other side. -/
structure Configures (p : Process) (step : Configuration.Step) (done : Done Answer) : Prop where
  answer : done.value = ((configuration p).step step).answer
  entries : done.entries = ((configuration p).step step).entries
  silent : done.reports = []
  after : configuration done.process = ((configuration p).step step).configuration
  hub : hub done.process = hub p
  settled : Settled done.process

theorem asks_configures {action : Act Answer} {question : Table → Noted Settings.Notice Answer}
    (asks : Asks action question) {step : Configuration.Step}
    (asked : (configuration p).step step = (configuration p).ask question) (settled : Settled p) :
    Configures p step (action p) := by
  have done := asks p settled
  constructor
  case answer =>
    rw [done, asked]
    rfl
  case entries =>
    rw [done, asked]
    simp only [Configuration.ask, Configuration.answered, Noted.notes_bind, Noted.notes_pure,
      List.map_append, written_append, List.append_nil]
    rfl
  case silent => rw [done]
  case after =>
    rw [done, asked]
    rfl
  case hub =>
    rw [done]
    rfl
  case settled =>
    rw [done]
    exact nofun

/-- The process with the levels that its configuration asks for. -/
def adopting (p : Process) : Process :=
  let table := (configuration p).table
  { holding p table.value with
    levels := table.value.verbosity.value.levels
    debugging := table.value.verbosity.value.debugging }

theorem readLevels_done (settled : Settled p) :
    let asked := (configuration p).table >>= Table.verbosity
    readLevels p =
      ⟨(), adopting p, p.levels.written (asked.notes.map .config) ++
        (adopting p).levels.written [.api (.verbosity (adopting p).levels)], []⟩ := by
  intro asked
  have loads : Loads readLevels := loads_bind _ setGlobalLevel_loads
  have loaded : (holding p (configuration p).table.value).loaded = true := rfl
  rw [loads p settled, readLevels_loaded loaded, Noted.notes_bind, List.map_append, written_append,
    List.append_assoc]
  rfl

/-- A step that sets the levels and then writes what closes it. -/
theorem adopts_configures {step : Configuration.Step} {answer : Answer} {closing : List Entry}
    (adopted : (configuration p).step step = (configuration p).adoptLevels answer closing)
    {last : Act Answer} (closes : ∀ q, last q = ⟨answer, q, q.levels.written closing, []⟩)
    (settled : Settled p) : Configures p step ((readLevels >>= fun _ => last) p) := by
  rw [Act.bind_done (readLevels_done settled), closes, List.append_assoc, ← written_append]
  constructor
  case answer => rw [adopted, Configuration.adoptLevels]
  case entries =>
    rw [adopted]
    rfl
  case silent => rfl
  case after =>
    rw [adopted]
    rfl
  case hub => rfl
  case settled => exact nofun

theorem act_configures (settled : Settled p) (step : Configuration.Step) :
    Configures p step (act (.configuration step) p) := by
  cases step with
  | change change => exact ⟨rfl, rfl, rfl, rfl, rfl, settled⟩
  | setDirectory directory => exact ⟨rfl, rfl, rfl, rfl, rfl, settled⟩
  | setLevels levels => exact ⟨rfl, rfl, rfl, rfl, rfl, settled⟩
  | forget => exact ⟨rfl, rfl, rfl, rfl, rfl, fun _ => rfl⟩
  | has key =>
    have asks := asks_bind (hasKey_asks key) fun bound => reads_pure (Answer.flag bound)
    exact asks_configures asks rfl settled
  | unsigned key default =>
    cases default with
    | none =>
      have asks := asks_bind (getUnsigned_asks key) fun number =>
        reads_pure (Answer.number number.toNat)
      exact asks_configures asks rfl settled
    | some default =>
      have asks := asks_bind (getSetting_asks key) fun setting =>
        reads_pure (Answer.number (setting.getD default).toNat)
      refine asks_configures asks ?_ settled
      simp [Configuration.step, Configuration.number, bind, pure]
  | locate kind =>
    have located := Act.bind_done (logged_done (locate_tells p.surroundings kind) p) fun path =>
      pure (Answer.text (path.getD []))
    have done : act (.configuration (.locate kind)) p = _ := located
    rw [done]
    constructor
    case entries =>
      simp only [Act.at_pure, List.append_nil, Configuration.step, Configuration.answered,
        Noted.notes_bind, Noted.notes_pure]
      rfl
    case settled => exact settled
    all_goals rfl
  | readLevels =>
    have adopted : (configuration p).step .readLevels = (configuration p).adoptLevels .nothing [] :=
      rfl
    exact adopts_configures adopted (fun _ => rfl) settled
  | start =>
    have adopted : (configuration p).step .start =
        (configuration p).adoptLevels (.number 0) [.api .starting] := rfl
    have started : act (.configuration .start) = _ := Act.bind_assoc readLevels _ _
    rw [started]
    refine adopts_configures adopted (fun q => ?_) settled
    simp [Act.at_bind, spoken_done]

theorem stop_done (p : Process) :
    act .stop p =
      ⟨.number 0, { p with registered := none, config := .empty, loaded := false },
        p.levels.written [.api .stopping], []⟩ := by
  simp [act, Process.stop, Act.at_bind, spoken_done, setCallback, clear, Act.change]

/-- A step of a settled process is a step of its session. -/
structure Matches (p : Process) (next : Session.Step) : Prop where
  outcome : (p.step next).2 = ((session p).step next).2
  after : session (p.step next).1 = ((session p).step next).1
  settled : Settled (p.step next).1

theorem step_matches (settled : Settled p) (next : Session.Step) : Matches p next := by
  cases next with
  | hub step =>
    have done := act_follows step p
    constructor
    case outcome =>
      rw [Process.step, done]
      rfl
    case after =>
      rw [Process.step, done]
      rfl
    case settled =>
      rw [Process.step, done]
      exact settled
  | configuration step =>
    obtain ⟨answer, entries, silent, after, hub, settled⟩ := act_configures settled step
    refine ⟨?_, congrArg₂ Session.mk hub after, settled⟩
    rw [Process.step, answer, entries, silent]
    exact congrArg (fun c : Configuration => Session.Outcome.mk _ _ _ c.verbosity) after
  | stop =>
    have done := stop_done p
    constructor
    case outcome =>
      rw [Process.step, done]
      rfl
    case after =>
      rw [Process.step, done]
      rfl
    case settled =>
      rw [Process.step, done]
      exact fun _ => rfl

theorem settled_after (settled : Settled p) (steps : List Session.Step) :
    Settled (p.after steps) := by
  induction steps generalizing p with
  | nil => exact settled
  | cons next rest ih => exact ih (step_matches settled next).settled

theorem run_session (settled : Settled p) (steps : List Session.Step) :
    p.run steps = (session p).run steps := by
  induction steps generalizing p with
  | nil => rfl
  | cons next rest ih =>
    have step := step_matches settled next
    rw [Process.run, Session.run, step.outcome, ih step.settled, step.after]

omit [Dialect] in
theorem settled_fresh (surroundings : Surroundings) : Settled (fresh surroundings) := fun _ => rfl

/-- The session that is run is that of a process that has just begun. -/
theorem run_fresh (steps : List Session.Step) :
    (fresh Surroundings.initial).run steps = Session.initial.run steps :=
  run_session (settled_fresh _) steps

end Asking

end NfcPolling.ProcessSteps
