import NfcPolling.Service.Process
import NfcPolling.Service.Session
import NfcPolling.Transcript
import NfcPolling.Proofs.Frame.ScanView
import NfcPolling.Proofs.Frame.EventMerge
import NfcPolling.Proofs.Frame.RecordStarts
import NfcPolling.Proofs.Frame.CompleteRecords
import NfcPolling.Proofs.Frame.WrittenFrames
import NfcPolling.Proofs.Frame.RestorableEvents
import NfcPolling.Proofs.Service.Deliveries
import NfcPolling.Proofs.Service.RegistrationHistory
import NfcPolling.Proofs.Service.EntryPoints
import NfcPolling.Proofs.Settings.FirstBinding
import NfcPolling.Proofs.Service.ProcessFrames
import NfcPolling.Proofs.Service.ProcessSteps
import NfcPolling.Proofs.Service.ConfigurationEpochs
import NfcPolling.Proofs.Settings.Spelling
import NfcPolling.Proofs.Settings.NumeralSyntax
import NfcPolling.Proofs.Settings.ValueSyntax
import NfcPolling.Proofs.Settings.PrintedSettings
import NfcPolling.Proofs.Settings.HiddenBytes
import NfcPolling.Proofs.Settings.LeadingZeros
import NfcPolling.Proofs.Service.SeparatePaths
import NfcPolling.Proofs.Journal.Filtering
import NfcPolling.Proofs.Journal.Transcripts
import NfcPolling.Proofs.Journal.WrittenLines
import NfcPolling.Proofs.Service.Restart
import NfcPolling.Proofs.Service.AdoptedLevels
import NfcPolling.Proofs.Frame.UnreadBytes
import NfcPolling.Proofs.Frame.StoredFields
import NfcPolling.Proofs.Frame.KnownParts
import NfcPolling.Proofs.Journal.DecoderLines
import NfcPolling.Proofs.Service.NestedFrames
import NfcPolling.Proofs.Service.SourceLevels
import NfcPolling.Proofs.Settings.JoinedTexts
import NfcPolling.Proofs.Settings.Layout
import NfcPolling.Proofs.Settings.LastValue
import NfcPolling.Proofs.Frame.ReusedEvents
import NfcPolling.Proofs.Journal.CalendarDays
import NfcPolling.Proofs.Journal.StampTexts
import NfcPolling.Proofs.Frame.EventTexts
import NfcPolling.Proofs.Journal.TraceLine
import NfcPolling.Proofs.Frame.BoundedReads
import NfcPolling.Proofs.Frame.LoopProgress
