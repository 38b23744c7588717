import NfcPolling.Journal.Basic

/-! What reading and asking a configuration has to say: which lines were kept or
rejected and why, where the file was looked for, and which questions had no
proper answer. Every text that is quoted is cut at its first NUL. -/
namespace NfcPolling.Settings

open Journal (Severity)

inductive Notice where
  /-- A value was asked for as something it is not. -/
  | notString
  | notUnsigned
  | notBytes
  /-- A key without a binding was asked for. -/
  | unknownKey (key : Bytes)
  | cannotOpen (path : Bytes)
  | loading (path : Bytes)
  /-- A line was rejected. -/
  | missingEquals (line : Bytes)
  | emptyKey (line : Bytes)
  | invalidValue (key text : Bytes)
  | duplicateKey (key : Bytes)
  /-- A line was kept. -/
  | bound (key text : Bytes)
  /-- The path of a kind of file was asked for. -/
  | findingFile (kind : Nat)
  | lookingAt (path : Bytes)
  | unknownFileKind
  /-- The configuration is loaded when it is first needed. -/
  | loadBegins
  | noFile
  | invalidEntries (path : Bytes)
  | loadEnds
  deriving DecidableEq, Repr

namespace Notice

/-- What is lost is an error, what is missing a warning, the rest is debug. -/
def severity : Notice → Severity
  | notString | notUnsigned | notBytes | unknownKey _ | missingEquals _ | emptyKey _
  | invalidValue _ _ | duplicateKey _ | invalidEntries _ => .error
  | cannotOpen _ | unknownFileKind | noFile => .warning
  | loading _ | bound _ _ | findingFile _ | lookingAt _ | loadBegins | loadEnds => .debug

def text : Notice → Bytes
  | notString => Bytes.ascii "getString: value is not a string"
  | notUnsigned => Bytes.ascii "getUnsigned: value is not an unsigned"
  | notBytes => Bytes.ascii "getBytes: value is not a byte array"
  | unknownKey key => Bytes.ascii "getValue: unknown key " ++ Bytes.untilNul key
  | cannotOpen path => Bytes.ascii "parseFromFile: failed to open " ++ Bytes.untilNul path
  | loading path => Bytes.ascii "parseFromFile: loading " ++ Bytes.untilNul path
  | missingEquals line =>
    Bytes.ascii "parseFromString: missing '=' in line: " ++ Bytes.untilNul line
  | emptyKey line => Bytes.ascii "parseFromString: empty key in line: " ++ Bytes.untilNul line
  | invalidValue key text =>
    Bytes.ascii "parseFromString: invalid value for " ++ Bytes.untilNul key ++ Bytes.ascii ": "
      ++ Bytes.untilNul text
  | duplicateKey key =>
    Bytes.ascii "parseFromString: duplicate key " ++ Bytes.untilNul key
      ++ Bytes.ascii ", keeping the first value"
  | bound key text =>
    Bytes.ascii "parseFromString: " ++ Bytes.untilNul key ++ Bytes.ascii "="
      ++ Bytes.untilNul text
  | findingFile kind => Bytes.ascii "getFilePath: enter FileType:0x" ++ Bytes.hex 2 kind
  | lookingAt path => Bytes.ascii "getFilePath: path: " ++ Bytes.untilNul path
  | unknownFileKind => Bytes.ascii "getFilePath: Unknown FileType"
  | loadBegins => Bytes.ascii "loadConfig: Entry"
  | noFile => Bytes.ascii "loadConfig: no configuration file found, using defaults"
  | invalidEntries path =>
    Bytes.ascii "loadConfig: " ++ Bytes.untilNul path ++ Bytes.ascii " contains invalid entries"
  | loadEnds => Bytes.ascii "loadConfig: Exit"

end Notice

end NfcPolling.Settings
