import NfcPolling.Proofs.Frame.LoopProgress
import NfcPolling.Proofs.Journal.Filtering
import NfcPolling.Transcript

/-! What is written in place, in the middle of decoding, of reading lines or of asking,
is what the remarks of the whole come to when they are held against the levels in the
end. There is one lemma for each function that writes; the two loops, over the records
of a frame and over the lines of a text, are inductions. -/
namespace NfcPolling.Transcripts
open NfcPolling.Journal Filtering Settings Service

variable {α β : Type}

/-- Remarks on the configuration, written in place as they are listed. -/
def Tells (logged : Logged α) (noted : Noted Settings.Notice α) : Prop :=
  Filters logged (noted.entries Entry.config)

theorem tells_pure (a : α) : Tells (pure a) (pure a) := filters_pure a

theorem tells_note (notice : Settings.Notice) :
    Tells (Settings.remark notice) (Noted.note notice) :=
  filters_note (.config notice)

/-- A remark in front of all others. -/
theorem tells_first (notice : Settings.Notice) {logged : Logged α}
    {noted : Noted Settings.Notice α} (rest : Tells logged noted) :
    Tells (do Settings.remark notice; logged) ⟨noted.value, notice :: noted.notes⟩ :=
  filters_bind (tells_note notice) fun _ => rest

theorem tells_remark (notice : Settings.Notice) (a : α) :
    Tells (do Settings.remark notice; return a) ⟨a, [notice]⟩ :=
  tells_first notice (tells_pure a)

theorem tells_bind {first : Logged α} {noted : Noted Settings.Notice α} {next : α → Logged β}
    {later : α → Noted Settings.Notice β} (earlier : Tells first noted)
    (rest : ∀ a, Tells (next a) (later a)) : Tells (first >>= next) (noted >>= later) := by
  have both : (noted >>= later).entries Entry.config =
      noted.entries Entry.config >>= fun a => (later a).entries Entry.config :=
    congrArg (Noted.mk _) List.map_append
  rw [Tells, both]
  exact filters_bind earlier rest

section Questions
variable (value : Value) (t : Table) (key : Bytes)

theorem unsigned_value : Tells value.unsignedInPlace value.asUnsigned := by
  cases value with
  | unsigned number => exact tells_pure number
  | string text => exact tells_remark _ _
  | bytes content => exact tells_remark _ _

theorem string_value : Tells value.stringInPlace value.asString := by
  cases value with
  | unsigned number => exact tells_remark _ _
  | string text => exact tells_pure text
  | bytes content => exact tells_remark _ _

theorem bytes_value : Tells value.bytesInPlace value.asBytes := by
  cases value with
  | unsigned number => exact tells_remark _ _
  | string text => exact tells_remark _ _
  | bytes content => exact tells_pure content

theorem readings_tell : Tells value.readingsInPlace value.readings :=
  tells_bind (unsigned_value value) fun _ =>
    tells_bind (string_value value) fun _ =>
      tells_bind (bytes_value value) fun _ => tells_pure _

theorem value_tells : Tells (t.valueInPlace key) (t.value key) := by
  rw [Table.valueInPlace, Table.value]
  cases t.find? key with
  | none => exact tells_remark _ _
  | some value => exact tells_pure value

theorem unsigned_tells : Tells (t.unsignedInPlace key) (t.unsigned key) :=
  tells_bind (value_tells t key) unsigned_value

theorem string_tells : Tells (t.stringInPlace key) (t.string key) :=
  tells_bind (value_tells t key) string_value

theorem bytes_tells : Tells (t.bytesInPlace key) (t.bytes key) :=
  tells_bind (value_tells t key) bytes_value

end Questions

/-- What a line comes to, said at once. -/
def judged (outcome : Table × Table.Verdict) : Noted Settings.Notice (Table × Bool) :=
  ⟨(outcome.1, outcome.2.isValid), outcome.2.notice.toList⟩

theorem add_tells (t : Table) (line : Line) : Tells (t.addInPlace line) (judged (t.add line)) := by
  cases line with
  | ignored => exact tells_pure _
  | rejected fault => exact tells_remark _ _
  | binding key text value =>
    rw [Table.addInPlace, Table.add]
    split
    · exact tells_remark _ _
    · exact tells_remark _ _

/-- What lines come to behind others that were valid or not. -/
def judgedAll (valid : Bool) (outcome : Table × List Table.Verdict) :
    Noted Settings.Notice (Table × Bool) :=
  ⟨(outcome.1, valid && outcome.2.all Table.Verdict.isValid),
    outcome.2.filterMap Table.Verdict.notice⟩

theorem judged_first (t : Table) (valid : Bool) (line : Line) (rest : List Line) :
    judgedAll valid (t.addAll (line :: rest)) =
      judged (t.add line) >>= fun (next, kept) => judgedAll (valid && kept) (next.addAll rest) := by
  rw [Table.addAll, judgedAll, judged, List.all_cons, List.filterMap_cons, ← Bool.and_assoc]
  cases (t.add line).2.notice <;> simp [bind, judgedAll]

/-- The loop over the lines: each is judged by the table of the lines before it, and what
is remarked on it is written before the next line is looked at. -/
theorem addAll_tells [Dialect] (t : Table) (valid : Bool) (texts : List Bytes) :
    Tells (t.addAllInPlace valid texts) (judgedAll valid (t.addAll (texts.map Line.read))) := by
  induction texts generalizing t valid with
  | nil =>
    rw [List.map_nil, Table.addAll, judgedAll, List.all_nil, Bool.and_true]
    exact tells_pure (t, valid)
  | cons text rest ih =>
    rw [List.map_cons, judged_first]
    exact tells_bind (add_tells t (Line.read text)) fun (next, kept) => ih next (valid && kept)

theorem read_tells [Dialect] (t : Table) (text : Bytes) :
    Tells (t.readInPlace text) (t.read text) :=
  addAll_tells t true (Bytes.pieces 10 text)

theorem load_tells [Dialect] (t : Table) (files : Files) (path : Bytes) :
    Tells (t.loadInPlace files path) (t.load files path) := by
  rw [Table.loadInPlace, Table.load]
  cases files.read? path with
  | none => exact tells_remark _ _
  | some text => exact tells_first _ (read_tells t text)

theorem locate_tells (s : Surroundings) (kind : FileKind) :
    Tells (s.locateInPlace kind) (s.locate kind) := by
  cases kind with
  | configuration => exact tells_first _ (tells_remark _ _)
  | other number => exact tells_first _ (tells_remark _ _)

theorem step_tells [Dialect] (s : Store) (step : Store.Step) :
    Tells (s.stepInPlace step) (s.step step) := by
  cases step with
  | read text => exact tells_bind (read_tells s.table text) fun _ => tells_pure _
  | load path => exact tells_bind (load_tells s.table s.files path) fun _ => tells_pure _
  | has key => exact tells_pure _
  | string key => exact tells_bind (string_tells s.table key) fun _ => tells_pure _
  | unsigned key => exact tells_bind (unsigned_tells s.table key) fun _ => tells_pure _
  | bytes key => exact tells_bind (bytes_tells s.table key) fun _ => tells_pure _
  | clear => exact tells_pure _
  | change change => exact tells_pure _

/-- Frames and what carries them: the decoder and the service write in turns. -/
theorem frame_filters (frame : Frame) :
    Filters (Delivery.ofFrameInPlace frame) (Delivery.ofFrame frame) := by
  have decoded := LoopProgress.decode_in_place frame .empty
  exact filters_map decoded _

theorem vendor_filters (event : UInt8) (frame : Frame) :
    Filters (Delivery.ofVendorInPlace event frame) (Delivery.ofVendor event frame) := by
  rw [Delivery.ofVendorInPlace, Delivery.ofVendor]
  cases Subject.of event frame with
  | foreign identifier => exact filters_noted _ _
  | missing => exact filters_noted _ _
  | other opcode => exact filters_noted _ _
  | polling =>
    have dropped : ∀ delivery : Delivery,
        Filters (do
            if !delivery.accepted then Service.remark .frameDropped
            return (⟨true, delivery.events⟩ : Delivery))
          ⟨⟨true, delivery.events⟩, if delivery.accepted then [] else [.api .frameDropped]⟩ := by
      intro delivery
      cases delivery.accepted with
      | false => exact filters_noted _ _
      | true => exact filters_pure _
    exact filters_bind (frame_filters frame) dropped

theorem arrival_filters (arrival : Arrival) :
    Filters (Delivery.ofArrivalInPlace arrival) (Delivery.ofArrival arrival) := by
  cases arrival with
  | frame frame => exact frame_filters frame
  | vendor event frame => exact vendor_filters event frame

/-! ## Whole transcripts -/

open Transcript

theorem decodings_filtered (levels : Levels) (held : Event) (frames : List Frame) :
    decodings levels held frames =
      (Frame.decodeAll held frames).map fun decoding =>
        (LoopProgress.entered decoding).atLevels levels := by
  induction frames generalizing held with
  | nil => rfl
  | cons frame rest ih =>
    rw [decodings, Frame.decodeAll, List.map_cons, LoopProgress.decode_in_place frame held levels]
    exact congrArg (_ :: ·) (ih _)

theorem deliveries_filtered (levels : Levels) (arrivals : List Arrival) :
    deliveries levels arrivals =
      arrivals.map fun arrival => (Delivery.ofArrival arrival).atLevels levels :=
  List.map_congr_left fun arrival _ => arrival_filters arrival levels

theorem inspection_filtered (levels : Levels) (value : Value) :
    let noted := (value.readings.entries Entry.config).atLevels levels
    inspection levels value = ⟨⟨value, noted.value⟩, noted.notes⟩ := by
  rw [inspection, readings_tell value levels]

theorem lookups_filtered [Dialect] (levels : Levels) (store : Store) (steps : List Store.Step) :
    lookups levels store steps =
      (store.run steps).map fun outcome => (outcome.entries Entry.config).atLevels levels := by
  induction steps generalizing store with
  | nil => rfl
  | cons next rest ih =>
    rw [lookups, Store.run, List.map_cons, step_tells store next levels]
    exact congrArg (_ :: ·) (ih _)

end NfcPolling.Transcripts
