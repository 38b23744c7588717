import NfcPolling.Journal.Basic

/-! What the entry points of the service have to say: which notifications were
not meant for it or could not be delivered, and when it starts and stops. -/
namespace NfcPolling.Service

open Journal (Levels Severity)

inductive Notice where
  /-- A vendor notification of another group. -/
  | foreignNotification (identifier : UInt8)
  /-- A vendor notification without the byte that tells what it is. -/
  | notificationTooShort (length : Nat)
  /-- A vendor notification that is not about polling. -/
  | unknownNotification (opcode : UInt8)
  /-- The frame in a vendor notification was dropped. -/
  | frameDropped
  /-- The caller handed over no proper frame. -/
  | invalidFrame (length : Nat)
  /-- The caller handed over no proper notification. -/
  | invalidNotification (length : Nat)
  /-- Nobody would listen to the frame, so it was not decoded. -/
  | unheardFrame
  /-- Nobody listens to the event that was decoded. -/
  | unheardEvent
  /-- The levels that a configuration asked for. -/
  | verbosity (levels : Levels)
  | starting
  | stopping
  deriving DecidableEq, Repr

namespace Notice

/-- What the caller did wrong is an error, the rest is debug. -/
def severity : Notice → Severity
  | notificationTooShort _ | invalidFrame _ | invalidNotification _ => .error
  | _ => .debug

def text : Notice → Bytes
  | foreignNotification identifier =>
    Bytes.ascii "onVendorSpecificNtf: not an Android notification, oid=0x"
      ++ Bytes.hex 2 identifier.toNat
  | notificationTooShort length =>
    Bytes.ascii "onVendorSpecificNtf: Android notification too short ("
      ++ Bytes.decimal length ++ Bytes.ascii ")"
  | unknownNotification opcode =>
    Bytes.ascii "onVendorSpecificNtf: Unknown Android sub opcode " ++ Bytes.hex 1 opcode.toNat
  | frameDropped => Bytes.ascii "onVendorSpecificNtf: polling frame dropped"
  | invalidFrame length =>
    Bytes.ascii "nativePollingLoop_notifyFrame: invalid frame, len=" ++ Bytes.decimal length
  | invalidNotification length =>
    Bytes.ascii "nativePollingLoop_onVendorSpecificNtf: invalid notification, len="
      ++ Bytes.decimal length
  | unheardFrame =>
    Bytes.ascii "nativePollingLoop_notifyFrame: no callback registered, frame dropped"
  | unheardEvent => Bytes.ascii "onPollingLoopDetected: no callback registered"
  | verbosity levels =>
    Bytes.ascii "phPlfLog_InitializeLogLevel: global =" ++ Bytes.decimal levels.global.toNat
      ++ Bytes.ascii ", decoder =" ++ Bytes.decimal levels.decoder.toNat
      ++ Bytes.ascii ", api =" ++ Bytes.decimal levels.api.toNat
      ++ Bytes.ascii ", config =" ++ Bytes.decimal levels.config.toNat
  | starting => Bytes.ascii "nativePollingLoop_doInitialize: enter"
  | stopping => Bytes.ascii "nativePollingLoop_doDeinitialize: enter"

end Notice

end NfcPolling.Service
