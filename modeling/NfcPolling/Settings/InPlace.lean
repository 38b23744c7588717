import NfcPolling.Journal.Entry
import NfcPolling.Settings.Store

/-! Reading and asking a configuration in place. Every remark is held against the
levels in force where it is made: between two lines of a text, between the question
for a key and the look at its type. -/
namespace NfcPolling.Settings

open Journal (Logged)

variable [Dialect]

/-- Writes what the configuration has to say. -/
def remark (notice : Notice) : Logged Unit := .note (.config notice)

namespace Value

def unsignedInPlace : Value → Logged UInt32
  | unsigned number => return number
  | _ => do
    remark .notUnsigned
    return 0

def stringInPlace : Value → Logged Bytes
  | string text => return text
  | _ => do
    remark .notString
    return []

def bytesInPlace : Value → Logged Bytes
  | bytes content => return content
  | _ => do
    remark .notBytes
    return []

/-- All three readings, one after the other. -/
def readingsInPlace (value : Value) : Logged Readings := do
  let number ← value.unsignedInPlace
  let text ← value.stringInPlace
  let content ← value.bytesInPlace
  return ⟨number, text, content⟩

end Value

namespace Table

/-- Takes in a line, and says whether it was valid. -/
def addInPlace (t : Table) : Line → Logged (Table × Bool)
  | .ignored => return (t, true)
  | .rejected fault => do
    remark fault.notice
    return (t, false)
  | .binding key text value =>
    if t.has key then do
      remark (.duplicateKey key)
      return (t, false)
    else do
      remark (.bound key text)
      return (t.bind key value, true)

/-- Reads line after line. An invalid one is remembered and keeps no later one out. -/
def addAllInPlace (t : Table) (valid : Bool) : List Bytes → Logged (Table × Bool)
  | [] => return (t, valid)
  | line :: rest => do
    let (next, kept) ← t.addInPlace (Line.read line)
    next.addAllInPlace (valid && kept) rest

def readInPlace (t : Table) (text : Bytes) : Logged (Table × Bool) :=
  t.addAllInPlace true (Bytes.pieces 10 text)

def loadInPlace (t : Table) (files : Files) (path : Bytes) : Logged (Table × Bool) :=
  match files.read? path with
  | none => do
    remark (.cannotOpen path)
    return (t, false)
  | some text => do
    remark (.loading path)
    t.readInPlace text

def valueInPlace (t : Table) (key : Bytes) : Logged Value :=
  match t.find? key with
  | some value => return value
  | none => do
    remark (.unknownKey key)
    return .initial

def unsignedInPlace (t : Table) (key : Bytes) : Logged UInt32 :=
  t.valueInPlace key >>= Value.unsignedInPlace

def stringInPlace (t : Table) (key : Bytes) : Logged Bytes :=
  t.valueInPlace key >>= Value.stringInPlace

def bytesInPlace (t : Table) (key : Bytes) : Logged Bytes :=
  t.valueInPlace key >>= Value.bytesInPlace

end Table

/-- The path of a file of the kind, when there is such a file. -/
def Surroundings.locateInPlace (s : Surroundings) (kind : FileKind) : Logged (Option Bytes) := do
  remark (.findingFile kind.number)
  match kind with
  | .configuration =>
    remark (.lookingAt s.configurationPath)
    return if s.files.isFile s.configurationPath then some s.configurationPath else none
  | .other _ =>
    remark .unknownFileKind
    return none

def Store.stepInPlace (s : Store) : Store.Step → Logged (Store × Answer)
  | .read text => do
    let (table, valid) ← s.table.readInPlace text
    return ({ s with table := table }, .flag valid)
  | .load path => do
    let (table, valid) ← s.table.loadInPlace s.files path
    return ({ s with table := table }, .flag valid)
  | .has key => return (s, .flag (s.table.has key))
  | .string key => return (s, .text (← s.table.stringInPlace key))
  | .unsigned key => return (s, .number (← s.table.unsignedInPlace key).toNat)
  | .bytes key => return (s, .octets (← s.table.bytesInPlace key))
  | .clear => return ({ s with table := .empty }, .nothing)
  | .change change => return ({ s with files := s.files.apply change }, .nothing)

end NfcPolling.Settings
