import Mathlib.Data.List.Basic
import NfcPolling.Proofs.Journal.Transcripts

/-! Levels leave lines out and do nothing else. Every line names the severity and
the source it was held against, so what is written at some levels can be told
from the full journal line by line, and no result depends on the levels. -/
namespace NfcPolling.WrittenLines
open NfcPolling.Journal NfcPolling.Transcript Bytes Filtering Transcripts

/-- The lowest level at which a line is written, told from its first letter. -/
def rankShown (line : Bytes) : Nat :=
  if line.head? = some (ofChar 'E') then 1
  else if line.head? = some (ofChar 'W') then 2
  else 3

/-- The level of the source that a line names behind the letter and the slash. -/
def levelNamed (levels : Levels) (line : Bytes) : Nat :=
  if (ascii "PlfDecoder ").isPrefixOf (line.drop 2) then levels.decoder.toNat
  else if (ascii "PlfApi ").isPrefixOf (line.drop 2) then levels.api.toNat
  else levels.config.toNat

def passes (levels : Levels) (line : Bytes) : Bool := rankShown line ≤ levelNamed levels line

/-- The lines of a result, in order. -/
def linesOf (noted : Noted Entry α) : List Bytes := noted.notes.filterMap Entry.line

/-- At all levels the results are those of the full transcript, and the lines are
those of its lines that pass. The global level has no part in it. -/
structure OnlyFilters (transcript : Levels → List (Noted Entry α)) : Prop where
  values : ∀ levels, (transcript levels).map Noted.value = (transcript .verbose).map Noted.value
  lines : ∀ levels, (transcript levels).map linesOf =
    (transcript .verbose).map fun full => (linesOf full).filter (passes levels)
  global : ∀ levels other, transcript { levels with global := other } = transcript levels

theorem rank_shown (severity : Severity) (rest : Bytes) :
    rankShown (severity.letter :: rest) = severity.rank.toNat := by
  cases severity <;> rfl

/-- No label continues another one. -/
theorem level_named (levels : Levels) (source : Source) (first second : UInt8) (body : Bytes) :
    levelNamed levels (first :: second :: (source.label ++ body)) = (levels.of source).toNat := by
  have own (label : Bytes) : label.isPrefixOf (label ++ body) = true :=
    List.isPrefixOf_iff_prefix.mpr (List.prefix_append label body)
  have api : (ascii "PlfDecoder ").isPrefixOf (ascii "PlfApi " ++ body) = false := rfl
  have configDecoder : (ascii "PlfDecoder ").isPrefixOf (ascii "PlfConfig " ++ body) = false := rfl
  have configApi : (ascii "PlfApi ").isPrefixOf (ascii "PlfConfig " ++ body) = false := rfl
  -- A later label is tried only where the earlier ones do not stand.
  cases source with
  | decoder => simp [levelNamed, Source.label, Levels.of, own]
  | api => simp [levelNamed, Source.label, Levels.of, own, api]
  | config => simp [levelNamed, Source.label, Levels.of, configDecoder, configApi]

theorem line_rank {entry : Entry} {line : Bytes} (shown : entry.line = some line) :
    rankShown line = entry.severity.rank.toNat := by
  obtain ⟨body, -, rfl⟩ := Option.map_eq_some_iff.mp shown
  exact rank_shown entry.severity (ofChar '/' :: (entry.source.label ++ body))

theorem line_level {entry : Entry} {line : Bytes} (shown : entry.line = some line)
    (levels : Levels) : levelNamed levels line = (levels.of entry.source).toNat := by
  obtain ⟨body, -, rfl⟩ := Option.map_eq_some_iff.mp shown
  exact level_named levels entry.source entry.severity.letter (ofChar '/') body

/-- A line shows whether its entry is written. -/
theorem line_passes {entry : Entry} {line : Bytes} (shown : entry.line = some line)
    (levels : Levels) : passes levels line = entry.isWritten levels := by
  simp only [passes, Entry.isWritten, Levels.admits, UInt8.le_iff_toNat_le, line_rank shown,
    line_level shown]

/-- The lines of the entries that are written are the lines that pass. -/
theorem lines_written (levels : Levels) (entries : List Entry) :
    (levels.written entries).filterMap Entry.line =
      (entries.filterMap Entry.line).filter (passes levels) := by
  rw [Levels.written, List.filterMap_filter, List.filter_filterMap]
  refine List.filterMap_congr fun entry _ => ?_
  cases shown : entry.line with
  | none => simp
  | some line => simp [Option.filter, line_passes shown]

/-- It is enough that the entries are filtered, from one full list for all levels. -/
theorem only_filters (full : List (Noted Entry α)) {transcript : Levels → List (Noted Entry α)}
    (filtered : ∀ levels, transcript levels = full.map (Noted.atLevels levels)) :
    OnlyFilters transcript where
  values levels := by
    rw [filtered, filtered, List.map_map, List.map_map]
    rfl
  lines levels := by
    rw [filtered, filtered, List.map_map, List.map_map]
    refine List.map_congr_left fun noted _ => ?_
    simp only [Function.comp_apply, linesOf, Noted.atLevels, written_verbose, lines_written]
  global levels other := by
    rw [filtered, filtered]
    refine List.map_congr_left fun noted _ => ?_
    rw [Noted.atLevels, written_global, Noted.atLevels]

/-- The inspections of a value that is changed, each with the outcome of its change. -/
def inspected [Settings.Dialect] (levels : Levels) (held : Settings.Value)
    (changes : List Settings.Value.Change) : List (Noted Entry (Bool × Held)) :=
  (inspections levels held changes).map fun (done, noted) => ⟨(done, noted.value), noted.notes⟩

theorem inspection_verbose (levels : Levels) (value : Settings.Value) :
    inspection levels value = (inspection .verbose value).atLevels levels := by
  simp only [inspection_filtered, Noted.atLevels, written_verbose]

theorem inspected_verbose [Settings.Dialect] (levels : Levels) (held : Settings.Value)
    (changes : List Settings.Value.Change) :
    inspected levels held changes =
      (inspected .verbose held changes).map (Noted.atLevels levels) := by
  induction changes generalizing held with
  | nil => rfl
  | cons change rest ih =>
    have first := inspection_verbose levels (held.apply change)
    have later := ih (held.apply change)
    rw [inspected] at later ⊢
    rw [inspections, List.map_cons, first, later]
    rfl

/-- Levels decide which lines are written and nothing else. Frames decoded in turn,
arrivals at a listener, a value that is changed and a store that is asked come to
the same results at all levels. The lines of each step are those of the full
journal whose own severity is at most the level of the source they name. -/
theorem levels_only_filter [Settings.Dialect] :
    (∀ held frames, OnlyFilters fun levels => decodings levels held frames) ∧
      (∀ arrivals, OnlyFilters fun levels => deliveries levels arrivals) ∧
      (∀ value, OnlyFilters fun levels => [inspection levels value]) ∧
      (∀ held changes, OnlyFilters fun levels => inspected levels held changes) ∧
      ∀ store steps, OnlyFilters fun levels => lookups levels store steps := by
  refine ⟨?decoded, ?delivered, ?seen, ?changed, ?asked⟩
  case decoded =>
    intro held frames
    refine only_filters ((Frame.decodeAll held frames).map LoopProgress.entered) fun levels => ?_
    rw [decodings_filtered, List.map_map]
    rfl
  case delivered =>
    intro arrivals
    refine only_filters (arrivals.map Service.Delivery.ofArrival) fun levels => ?_
    rw [deliveries_filtered, List.map_map]
    rfl
  case seen =>
    intro value
    exact only_filters [inspection .verbose value] fun levels =>
      congrArg ([·]) (inspection_verbose levels value)
  case changed =>
    intro held changes
    exact only_filters _ fun levels => inspected_verbose levels held changes
  case asked =>
    intro store steps
    refine only_filters ((store.run steps).map (Noted.entries Entry.config)) fun levels => ?_
    rw [lookups_filtered, List.map_map]
    rfl

/-- The level of the source that speaks takes out the line that is not grave enough. -/
example :
    let steps : List Settings.Store.Step := [.read (ascii "A=1\nA=x"), .unsigned (ascii "A")]
    let kept := ascii "D/PlfConfig parseFromString: A=1"
    let rejected := ascii "E/PlfConfig parseFromString: invalid value for A: x"
    (lookups .verbose .initial steps).map linesOf = [[kept, rejected], []] ∧
      (lookups ⟨3, 3, 3, 2⟩ .initial steps).map linesOf = [[rejected], []] := by
  decide

end NfcPolling.WrittenLines
