import NfcPolling.Bytes

/-! The files of a system, named by paths. A path that starts with a slash begins at
the root, any other one at the working directory. It is followed name by name; each
name is looked up in a directory that exists, so a missing directory stays missing
even when the next name leads back out of it. -/
namespace NfcPolling

inductive Node where
  | directory
  | file (content : Bytes)
  deriving DecidableEq, Repr

structure Files where
  /-- Everything below the root, by the names that lead to it. -/
  nodes : List (List Bytes × Node)
  /-- The names that lead from the root to the working directory. -/
  working : List Bytes
  deriving DecidableEq, Repr

namespace Files

/-- A working directory below the root and nothing else. -/
def empty : Files := ⟨[([Bytes.ascii "work"], .directory)], [Bytes.ascii "work"]⟩

/-- The byte between the names of a path. -/
def separator : UInt8 := Bytes.ofChar '/'

/-- The most bytes of one name. -/
def maxName : Nat := 255

/-- The most bytes of a path. -/
def maxPath : Nat := 4095

/-- What the names lead to; without any name that is the root. -/
def node? (files : Files) (names : List Bytes) : Option Node :=
  if names = [] then some .directory else files.nodes.lookup names

/-- Does the name stay in a directory or lead back out of it? -/
def isStep (name : Bytes) : Bool :=
  name = [] ∨ name = Bytes.ascii "." ∨ name = Bytes.ascii ".."

/-- The place that a name leads to from a directory. The empty name and a single
dot stay there, two dots go to the directory above, and at the root nowhere. -/
def follow (files : Files) (place : List Bytes) (name : Bytes) : Option (List Bytes) :=
  if files.node? place ≠ some .directory then none
  else if isStep name then some (if name = Bytes.ascii ".." then place.dropLast else place)
  else if maxName < name.length then none
  else if (files.node? (place ++ [name])).isSome then some (place ++ [name])
  else none

/-- The names in a path with the place where the first of them is looked up. A
path ends at its first NUL; an empty one and one that is too long lead nowhere. -/
def route? (files : Files) (path : Bytes) : Option (List Bytes × List Bytes) :=
  let text := Bytes.untilNul path
  if text = [] ∨ maxPath < text.length then none
  else
    some (if text.head? = some separator then [] else files.working, Bytes.pieces separator text)

def place? (files : Files) (path : Bytes) : Option (List Bytes) :=
  (files.route? path).bind fun (start, names) => names.foldlM files.follow start

def find? (files : Files) (path : Bytes) : Option Node := (files.place? path).bind files.node?

def isDirectory (files : Files) (path : Bytes) : Bool := files.find? path = some .directory

def isFile (files : Files) (path : Bytes) : Bool :=
  match files.find? path with
  | some (.file _) => true
  | _ => false

/-- The bytes read from a path: those of a file, none of a directory. -/
def read? (files : Files) (path : Bytes) : Option Bytes :=
  (files.find? path).map fun
    | .directory => []
    | .file content => content

/-- The files with a node put in place of what the names led to. -/
def put (files : Files) (names : List Bytes) (node : Node) : Files :=
  { files with nodes := (names, node) :: files.nodes.filter (·.1 ≠ names) }

/-- Can something be put into the place by this name? -/
def hasRoom (files : Files) (place : List Bytes) (name : Bytes) : Bool :=
  files.node? place = some .directory ∧ ¬ isStep name ∧ name.length ≤ maxName

/-- Follows a name, and makes a directory of it when it is missing. -/
def open? (state : Files × List Bytes) (name : Bytes) : Option (Files × List Bytes) :=
  let (files, place) := state
  match files.follow place name with
  | some next => some (files, next)
  | none =>
    if files.hasRoom place name then
      some (files.put (place ++ [name]) .directory, place ++ [name])
    else none

inductive Change where
  /-- Creates or overwrites a file in a directory that exists. -/
  | write (path content : Bytes)
  /-- Makes a directory with all directories that lead to it. -/
  | makeDirectory (path : Bytes)
  /-- Removes a file, or a directory with all it holds. What leads to the working
  directory stays. -/
  | remove (path : Bytes)
  deriving DecidableEq, Repr

/-- The files after a change; one that cannot be made leaves them alone. -/
def apply (files : Files) : Change → Files
  | .write path content =>
    match files.route? path with
    | none => files
    | some (start, names) =>
      match names.dropLast.foldlM files.follow start, names.getLast? with
      | some place, some name =>
        if files.hasRoom place name ∧ files.node? (place ++ [name]) ≠ some .directory then
          files.put (place ++ [name]) (.file content)
        else files
      | _, _ => files
  | .makeDirectory path =>
    match files.route? path with
    | none => files
    | some (start, names) => ((names.foldlM open? (files, start)).map (·.1)).getD files
  | .remove path =>
    match files.place? path with
    | none => files
    | some names =>
      { files with nodes := files.nodes.filter fun (key, _) =>
          !names.isPrefixOf key || key.isPrefixOf files.working }

end Files

end NfcPolling
