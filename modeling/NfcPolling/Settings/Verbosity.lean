import NfcPolling.Settings.Table

/-! The journal levels that a configuration asks for. The global level is at most
debug, and is debug when debugging is on; it is at least warning except where
the low byte of a large setting says less. A source's own setting can only
raise it. -/
namespace NfcPolling.Settings

open Journal (Levels Noted Severity)

/-- The levels of the journal, and whether debugging is on. -/
structure Verbosity where
  levels : Levels
  debugging : Bool
  deriving DecidableEq, Repr

namespace Verbosity

/-- Before any configuration is read. -/
def initial : Verbosity := ⟨Levels.initial, false⟩

def debugKey : Bytes := Bytes.ascii "NFC_DEBUG_ENABLED"

def globalKey : Bytes := Bytes.ascii "PLFLOG_GLOBAL_LOGLEVEL"

def sourceKey : Journal.Source → Bytes
  | .decoder => Bytes.ascii "PLFLOG_DECODER_LOGLEVEL"
  | .api => Bytes.ascii "PLFLOG_API_LOGLEVEL"
  | .config => Bytes.ascii "PLFLOG_CONFIG_LOGLEVEL"

/-- The global level for what is set. A setting above the lowest level is kept
in a single byte before it is held against the highest one. -/
def globalLevel (debugging : Bool) (setting : Option UInt32) : UInt8 :=
  if debugging then Severity.debug.rank
  else
    match setting with
    | none => Severity.warning.rank
    | some number =>
      if number < 2 then Severity.warning.rank
      else min number.toUInt8 Severity.debug.rank

/-- The level of a source for what is set, given the global one. -/
def sourceLevel (globally : UInt8) (setting : Option UInt32) : UInt8 :=
  match setting with
  | none => globally
  | some number => max globally (min number 3).toUInt8

end Verbosity

/-- The levels that the table asks for. Settings of another type count as zero. -/
def Table.verbosity (t : Table) : Noted Notice Verbosity := do
  let debugSetting ← t.unsigned? Verbosity.debugKey
  let debugging := decide (debugSetting.getD 0 ≠ 0)
  let globally := Verbosity.globalLevel debugging (← t.unsigned? Verbosity.globalKey)
  let decoder := Verbosity.sourceLevel globally (← t.unsigned? (Verbosity.sourceKey .decoder))
  let api := Verbosity.sourceLevel globally (← t.unsigned? (Verbosity.sourceKey .api))
  let config := Verbosity.sourceLevel globally (← t.unsigned? (Verbosity.sourceKey .config))
  return ⟨⟨globally, decoder, api, config⟩, debugging⟩

end NfcPolling.Settings
