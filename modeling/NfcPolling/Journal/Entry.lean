import NfcPolling.Frame.Notice
import NfcPolling.Journal.Line
import NfcPolling.Service.Notice
import NfcPolling.Settings.Notice

/-! Journal entries: the remarks of the decoder, of the service and of the
configuration under one roof. A computation either makes all of its entries, for
the levels to be applied to afterwards, or it holds each entry against the levels
at the moment it is made and writes it or leaves it out. -/
namespace NfcPolling.Journal

/-- A remark together with where it comes from. -/
inductive Entry where
  | decoder (notice : Frame.Notice)
  | api (notice : Service.Notice)
  | config (notice : Settings.Notice)
  deriving DecidableEq, Repr

namespace Entry

def source : Entry → Source
  | decoder _ => .decoder
  | api _ => .api
  | config _ => .config

def severity : Entry → Severity
  | decoder notice => notice.severity
  | api notice => notice.severity
  | config notice => notice.severity

def text : Entry → Bytes
  | decoder notice => notice.text
  | api notice => notice.text
  | config notice => notice.text

/-- The written line of the entry, without moment and newline. -/
def line (entry : Entry) : Option Bytes := Journal.line entry.severity entry.source.label entry.text

def isWritten (levels : Levels) (entry : Entry) : Bool :=
  levels.admits entry.source entry.severity

end Entry

/-- The entries that are written at these levels, in order. -/
def Levels.written (levels : Levels) (entries : List Entry) : List Entry :=
  entries.filter (Entry.isWritten levels)

/-- A result with those of its entries that are written at these levels. -/
def Noted.atLevels {α : Type} (levels : Levels) (noted : Noted Entry α) : Noted Entry α :=
  ⟨noted.value, levels.written noted.notes⟩

/-- A result with every remark turned into an entry. -/
def Noted.entries {ν α : Type} (entry : ν → Entry) (noted : Noted ν α) : Noted Entry α :=
  ⟨noted.value, noted.notes.map entry⟩

/-- A computation that writes as it goes, at the levels it is given. -/
abbrev Logged (α : Type) : Type := Levels → Noted Entry α

namespace Logged

variable {α β : Type}

/-- Writes the entry if the levels admit it. -/
def note (entry : Entry) : Logged Unit := fun levels =>
  ⟨(), if entry.isWritten levels then [entry] else []⟩

instance : Monad Logged where
  pure value := fun _ => pure value
  bind first next := fun levels => do next (← first levels) levels

@[simp] theorem at_pure (a : α) (levels : Levels) : (pure a : Logged α) levels = pure a := rfl

@[simp] theorem at_bind (first : Logged α) (next : α → Logged β) (levels : Levels) :
    (first >>= next) levels = first levels >>= fun a => next a levels := rfl

end Logged

end NfcPolling.Journal
