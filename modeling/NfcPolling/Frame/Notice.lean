import NfcPolling.Event
import NfcPolling.Journal.Basic

/-! What decoding a frame has to say besides the event: why a frame was
dropped, why reading stopped, what a record left out, and the event itself. -/
namespace NfcPolling.Frame

open Journal (Severity)

inductive Notice where
  /-- The frame has no data or too few bytes; nothing is decoded. -/
  | tooShort (length : Nat)
  /-- A record claims more bytes than the frame holds. -/
  | recordTooLong
  /-- The frame ends before the tag of the record at this position. -/
  | tagMissing (position : Nat)
  /-- A field change does not say whether the field is on or off. -/
  | fieldStateMissing
  /-- A frame of unknown technology comes without its bytes. -/
  | dataMissing
  /-- The record is of a kind that has no meaning here. -/
  | unknownTag (tag : UInt8)
  /-- The frame has been decoded, with this event as the result. -/
  | decoded (length : Nat) (event : Event)
  deriving DecidableEq, Repr

namespace Notice

/-- A record that ends the reading is an error, a record that says nothing a warning. -/
def severity : Notice → Severity
  | recordTooLong | tagMissing _ => .error
  | fieldStateMissing | unknownTag _ => .warning
  | tooShort _ | dataMissing | decoded _ _ => .debug

def text : Notice → Bytes
  | tooShort length =>
    Bytes.ascii "decode: frame too short (" ++ Bytes.decimal length ++ Bytes.ascii "), dropped"
  | recordTooLong =>
    Bytes.ascii "decodeRecord: Polling frame data is longer than buffer data length"
  | tagMissing position =>
    Bytes.ascii "decodeRecord: Polling frame TLV type missing at " ++ Bytes.decimal position
  | fieldStateMissing => Bytes.ascii "decodeType: field change TLV without field state"
  | dataMissing => Bytes.ascii "decodeType: unknown frame without data"
  | unknownTag tag =>
    Bytes.ascii "decodeType: Unknown polling loop tag type 0x" ++ Bytes.hex 2 tag.toNat
  | decoded length event =>
    Bytes.ascii "decode: len=" ++ Bytes.decimal length ++ Bytes.ascii " event=" ++ event.render

end Notice

end NfcPolling.Frame
