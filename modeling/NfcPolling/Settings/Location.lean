import NfcPolling.Files
import NfcPolling.Settings.Table

/-! Where the configuration file is looked for, and what is read from it. The file
lies in the directory that the environment names, if there is one, and otherwise in
the default directory. A configuration that cannot be found is an empty one, and
lines that are rejected do not keep the others out. -/
namespace NfcPolling.Settings

open Journal (Noted)

variable [Dialect]

/-- What the location of the configuration depends on. -/
structure Surroundings where
  files : Files
  /-- The directory that the environment names. -/
  directory : Option Bytes
  deriving DecidableEq, Repr

/-- The kinds of file that can be asked for. -/
inductive FileKind where
  | configuration
  /-- A kind that has no path. -/
  | other (number : Nat)
  deriving DecidableEq, Repr

def FileKind.number : FileKind → Nat
  | configuration => 0
  | other number => number

namespace Surroundings

/-- An empty working directory, and no directory named. -/
def initial : Surroundings := ⟨Files.empty, none⟩

/-- The directory that is used when no other one is. -/
def defaultDirectory : Bytes := Bytes.ascii "/usr/local/etc/"

def fileName : Bytes := Bytes.ascii "libnfc-plf.conf"

/-- The directory that is used, with a slash at its end. -/
def configurationDirectory (s : Surroundings) : Bytes :=
  let named := Bytes.untilNul (s.directory.getD [])
  if s.files.isDirectory named then
    if named.getLast? = some Files.separator then named else named ++ [Files.separator]
  else defaultDirectory

/-- The path at which the configuration file is looked for. -/
def configurationPath (s : Surroundings) : Bytes := s.configurationDirectory ++ fileName

/-- The path of a file of the kind, when there is such a file. -/
def locate (s : Surroundings) (kind : FileKind) : Noted Notice (Option Bytes) :=
  match kind with
  | .configuration =>
    ⟨if s.files.isFile s.configurationPath then some s.configurationPath else none,
      [.findingFile kind.number, .lookingAt s.configurationPath]⟩
  | .other number => ⟨none, [.findingFile number, .unknownFileKind]⟩

end Surroundings

/-- The table after the text of a file, and whether the file could be opened and
all of its lines were valid. -/
def Table.load (t : Table) (files : Files) (path : Bytes) : Noted Notice (Table × Bool) :=
  match files.read? path with
  | none => ⟨(t, false), [.cannotOpen path]⟩
  | some text => do
    Noted.note (.loading path)
    t.read text

/-- The configuration as it stands in the surroundings. -/
def Surroundings.load (s : Surroundings) : Noted Notice Table := do
  Noted.note .loadBegins
  match ← s.locate .configuration with
  | none =>
    Noted.note .noFile
    return .empty
  | some path =>
    let (table, valid) ← Table.empty.load s.files path
    if !valid then Noted.note (.invalidEntries path)
    Noted.note .loadEnds
    return table

end NfcPolling.Settings
