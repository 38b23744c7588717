import NfcPolling.Frame.Record

/-! Decoding a polling frame: its records are read one after the other until
the frame is used up or a record cannot be read, and the event is what the
records say, the last one first. A frame of fewer than five bytes is dropped
and leaves the event alone. -/
namespace NfcPolling.Frame

/-- The fewest bytes a frame can have: the header and a record's first three. -/
def minLength : Nat := 5

/-- The records of a frame from some position on, and the fault that ended the
reading, if one did. -/
structure Scan where
  records : List Record
  fault : Option Fault
  deriving DecidableEq, Repr

def scan (c : Cursor) : Scan :=
  if _ : c.position < c.length then
    match Record.read c with
    | .error fault => ⟨[], some fault⟩
    | .ok record =>
      let rest := scan (c.advance record.size)
      ⟨record :: rest.records, rest.fault⟩
  else ⟨[], none⟩
termination_by c.length - c.position
decreasing_by
  have moved := Cursor.position_advance (by assumption)
    (Nat.le_trans record.size_le (by decide : 257 ≤ maxFrameLength))
  have grown := record.size_pos
  simp only [Cursor.length_advance]
  omega

namespace Scan

/-- What all records together say. -/
def event (s : Scan) : Event := s.records.foldl Record.apply .empty

/-- The remarks on the records in order, then the one on the fault. -/
def notices (s : Scan) : List Notice :=
  s.records.filterMap (fun r => r.observation.notice) ++ (s.fault.map Fault.notice).toList

end Scan

/-- The records of a frame, which follow its header. -/
def records (frame : Frame) : Scan := scan ((Cursor.ofFrame frame).advance headerLength)

/-- The outcome of handing a frame to the decoder. -/
structure Decoding where
  /-- Was the frame long enough to be decoded? -/
  accepted : Bool
  event : Event
  notices : List Notice
  deriving DecidableEq, Repr

/-- Decodes a frame over an event that is already held. A dropped frame keeps
that event; any other frame replaces it as a whole. -/
def decode (frame : Frame) (held : Event) : Decoding :=
  match frame with
  | absent _ => ⟨false, held, [.tooShort frame.length]⟩
  | present bytes _ =>
    if bytes.length < minLength then ⟨false, held, [.tooShort frame.length]⟩
    else
      let found := frame.records
      ⟨true, found.event, found.notices ++ [.decoded frame.length found.event]⟩

/-- The outcomes of frames decoded one after the other over the same event. -/
def decodeAll (held : Event) : List Frame → List Decoding
  | [] => []
  | frame :: rest => frame.decode held :: decodeAll (frame.decode held).event rest

end NfcPolling.Frame
