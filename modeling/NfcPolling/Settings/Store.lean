import NfcPolling.Settings.Location

/-! A table of bindings that is filled and asked step by step, beside the files
it can be filled from. Questions never change it. -/
namespace NfcPolling.Settings

open Journal (Noted)

variable [Dialect]

structure Store where
  table : Table
  files : Files
  deriving DecidableEq, Repr

namespace Store

def initial : Store := ⟨Table.empty, Files.empty⟩

inductive Step where
  | read (text : Bytes)
  | load (path : Bytes)
  | has (key : Bytes)
  | string (key : Bytes)
  | unsigned (key : Bytes)
  | bytes (key : Bytes)
  | clear
  | change (change : Files.Change)
  deriving DecidableEq, Repr

def step (s : Store) : Step → Noted Notice (Store × Answer)
  | .read text => do
    let (table, valid) ← s.table.read text
    return ({ s with table := table }, .flag valid)
  | .load path => do
    let (table, valid) ← s.table.load s.files path
    return ({ s with table := table }, .flag valid)
  | .has key => return (s, .flag (s.table.has key))
  | .string key => return (s, .text (← s.table.string key))
  | .unsigned key => return (s, .number (← s.table.unsigned key).toNat)
  | .bytes key => return (s, .octets (← s.table.bytes key))
  | .clear => return ({ s with table := .empty }, .nothing)
  | .change change => return ({ s with files := s.files.apply change }, .nothing)

/-- The store, the answer and the remarks after each step. -/
def run (s : Store) : List Step → List (Noted Notice (Store × Answer))
  | [] => []
  | next :: rest => s.step next :: (s.step next).value.1.run rest

def after (s : Store) (steps : List Step) : Store :=
  steps.foldl (fun s next => (s.step next).value.1) s

@[simp] theorem after_append (s : Store) (earlier later : List Step) :
    s.after (earlier ++ later) = (s.after earlier).after later := List.foldl_append

theorem run_append (s : Store) (earlier later : List Step) :
    s.run (earlier ++ later) = s.run earlier ++ (s.after earlier).run later := by
  induction earlier generalizing s with
  | nil => rfl
  | cons next rest ih => exact congrArg (_ :: ·) (ih (s.step next).value.1)

end Store

end NfcPolling.Settings
