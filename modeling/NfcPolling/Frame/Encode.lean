import NfcPolling.Frame.Record

/-! Writing polling frames: records are appended to a header of two zero bytes.
The length byte of a record counts six bytes and the data, and only its low
eight bits are kept. -/
namespace NfcPolling.Frame

/-- The content of a record to be written. -/
structure Content where
  tag : UInt8
  gain : Int8
  timestamp : UInt32
  data : Bytes
  deriving DecidableEq, Repr

namespace Content

/-- The length byte: the data and the six bytes between the flags and it. -/
def lengthByte (content : Content) : UInt8 := UInt8.ofNat (6 + content.data.length)

/-- The bytes of the record, with zero flags. -/
def encode (content : Content) : Bytes :=
  [content.lengthByte, 0, content.tag] ++ Bytes.toLittleEndian 4 content.timestamp.toNat
    ++ [content.gain.toUInt8] ++ content.data

/-- The record for an event. Parts that are not known are written as zero, and a
type that no tag stands for becomes a frame of unknown technology. -/
def ofEvent (e : Event) : Content :=
  let kind : UInt8 × Bytes :=
    match e.type with
    | none => (7, e.payload.getD [])
    | some letter =>
      if letter = Bytes.ofChar 'O' then (0, [1])
      else if letter = Bytes.ofChar 'X' then (0, [0])
      else if letter = Bytes.ofChar 'A' then (1, [])
      else if letter = Bytes.ofChar 'B' then (2, [])
      else if letter = Bytes.ofChar 'F' then (3, [])
      else (7, e.payload.getD [])
  ⟨kind.1, e.gain.getD 0, e.timestamp.getD 0, kind.2⟩

end Content

/-- A frame under construction. -/
structure Draft where
  bytes : Bytes
  deriving DecidableEq, Repr

namespace Draft

def empty : Draft := ⟨List.replicate headerLength 0⟩

/-- The draft with bytes of any meaning at its end. -/
def raw (draft : Draft) (bytes : Bytes) : Draft := ⟨draft.bytes ++ bytes⟩

def record (draft : Draft) (content : Content) : Draft := draft.raw content.encode

def event (draft : Draft) (e : Event) : Draft := draft.record (.ofEvent e)

/-- The finished frame. Its length is a sixteen-bit number, so of a draft that is
too long only that many bytes are read. -/
def frame (draft : Draft) : Frame := ofData (some draft.bytes) (UInt16.ofNat draft.bytes.length)

end Draft

end NfcPolling.Frame
