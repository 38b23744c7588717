import NfcPolling.Journal.Entry
import NfcPolling.Settings.Location
import NfcPolling.Settings.Verbosity

/-! The configuration side of the service. The configuration is loaded when it
is first asked for and then kept until it is forgotten, whatever becomes of the
file it came from. -/
namespace NfcPolling.Service

open Journal (Entry Levels Noted)
open Settings (Dialect FileKind Surroundings Table Verbosity)

variable [Dialect]

/-- The surroundings, the configuration once it is loaded, and the levels. -/
structure Configuration where
  surroundings : Surroundings
  loaded : Option Table
  verbosity : Verbosity
  deriving DecidableEq, Repr

namespace Configuration

def initial : Configuration := ⟨Surroundings.initial, none, Verbosity.initial⟩

def levels (c : Configuration) : Levels := c.verbosity.levels

/-- The configuration, loaded now if it has not been loaded before. -/
def table (c : Configuration) : Noted Settings.Notice Table :=
  match c.loaded with
  | some table => pure table
  | none => c.surroundings.load

def forget (c : Configuration) : Configuration := { c with loaded := none }

/-- The number of a key, or the default when one is given and the key is not bound. -/
def number (t : Table) (key : Bytes) (default : Option UInt32) :
    Noted Settings.Notice UInt32 :=
  match default with
  | none => t.unsigned key
  | some value => do return (← t.unsigned? key).getD value

inductive Step where
  | change (change : Files.Change)
  /-- Names the directory of the configuration, or none. -/
  | setDirectory (directory : Option Bytes)
  | setLevels (levels : Levels)
  | start
  | readLevels
  | has (key : Bytes)
  | unsigned (key : Bytes) (default : Option UInt32)
  | forget
  | locate (kind : FileKind)
  deriving DecidableEq, Repr

structure Outcome where
  configuration : Configuration
  answer : Answer
  /-- The entries that were written. -/
  entries : List Entry
  deriving DecidableEq, Repr

/-- Remarks on the configuration are held against the levels before the step. -/
def answered (c : Configuration) (answer : Noted Settings.Notice (Configuration × Answer)) :
    Outcome :=
  ⟨answer.value.1, answer.value.2, c.levels.written (answer.notes.map .config)⟩

/-- Asks the configuration, which is loaded afterwards. -/
def ask (c : Configuration) (question : Table → Noted Settings.Notice Answer) : Outcome :=
  c.answered do
    let table ← c.table
    return ({ c with loaded := some table }, ← question table)

/-- Sets the levels that the configuration asks for. What the service itself has
to say, `closing` at the end, is held against the new levels. -/
def adoptLevels (c : Configuration) (answer : Answer) (closing : List Entry) : Outcome :=
  let table := c.table
  let verbosity := table.value.verbosity
  let asked := (table.notes ++ verbosity.notes).map Entry.config
  ⟨{ c with loaded := some table.value, verbosity := verbosity.value }, answer,
    c.levels.written asked
      ++ verbosity.value.levels.written (.api (.verbosity verbosity.value.levels) :: closing)⟩

def step (c : Configuration) : Step → Outcome
  | .change change =>
    ⟨{ c with surroundings.files := c.surroundings.files.apply change }, .nothing, []⟩
  | .setDirectory directory =>
    ⟨{ c with surroundings.directory := directory }, .nothing, []⟩
  | .setLevels levels => ⟨{ c with verbosity.levels := levels }, .nothing, []⟩
  | .start => c.adoptLevels (.number 0) [.api .starting]
  | .readLevels => c.adoptLevels .nothing []
  | .has key => c.ask fun table => pure (.flag (table.has key))
  | .unsigned key default => c.ask fun table => do
    return .number (← number table key default).toNat
  | .forget => ⟨c.forget, .nothing, []⟩
  | .locate kind => c.answered do
    return (c, .text ((← c.surroundings.locate kind).getD []))

end Configuration

end NfcPolling.Service
