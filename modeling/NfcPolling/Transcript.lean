import NfcPolling.Frame.Encode
import NfcPolling.Service.Notification
import NfcPolling.Settings.InPlace

/-! Runs of the single parts with what they write at given levels: frames
decoded over one event, arrivals at one listener, changes of one configured
value and steps on one store of bindings. -/
namespace NfcPolling.Transcript

open Journal (Entry Levels Noted)
open Settings (Dialect Store Value)

variable [Dialect]

/-- Frames decoded one after the other over an event: for each of them whether
it was accepted, and the event afterwards. -/
def decodings (levels : Levels) (held : Event) :
    List Frame → List (Noted Entry (Bool × Event))
  | [] => []
  | frame :: rest =>
    let decoding := frame.decodeInPlace held levels
    decoding :: decodings levels decoding.value.2 rest

def deliveries (levels : Levels) (arrivals : List Service.Arrival) :
    List (Noted Entry Service.Delivery) :=
  arrivals.map fun arrival => Service.Delivery.ofArrivalInPlace arrival levels

/-- A value that is held, with all of its readings. -/
structure Held where
  value : Value
  readings : Value.Readings
  deriving DecidableEq, Repr

/-- A value looked at from all sides. -/
def inspection (levels : Levels) (value : Value) : Noted Entry Held :=
  let noted := value.readingsInPlace levels
  ⟨⟨value, noted.value⟩, noted.notes⟩

/-- A value after each of its changes, and whether the change took place. -/
def inspections (levels : Levels) (held : Value) :
    List Value.Change → List (Bool × Noted Entry Held)
  | [] => []
  | change :: rest =>
    (change.succeeds, inspection levels (held.apply change))
      :: inspections levels (held.apply change) rest

/-- Steps on a store: the store afterwards and the answer. -/
def lookups (levels : Levels) (store : Store) :
    List Store.Step → List (Noted Entry (Store × Answer))
  | [] => []
  | next :: rest =>
    let outcome := store.stepInPlace next levels
    outcome :: lookups levels outcome.value.1 rest

end NfcPolling.Transcript
