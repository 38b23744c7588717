import Mathlib.Tactic.MkIffOfInductiveProp
import NfcPolling.Proofs.Settings.FirstBinding
import NfcPolling.Proofs.Settings.ValueSyntax

/-! Settings that are printed line by line are read back as they were. A value
cannot leak into another line, key or type, although a quoted text may hold
quotes, equals signs, number signs and every other byte that does not end a line. -/
namespace NfcPolling.PrintedSettings
open NfcPolling.Settings Bytes LineMeaning FirstBinding Spelling ValueSyntax

/-- Neither end of the text is a blank. -/
@[mk_iff]
structure Unpadded (text : Bytes) : Prop where
  front : text.head?.any isBlank = false
  back : text.getLast?.any isBlank = false

instance (text : Bytes) : Decidable (Unpadded text) :=
  decidable_of_iff' _ (unpadded_iff text)

/-- A key as it can stand in front of an equals sign. -/
@[mk_iff]
structure Named (key : Bytes) : Prop where
  filled : key ≠ []
  undivided : ofChar '=' ∉ key
  single : 10 ∉ key
  comment : key.head? ≠ some (ofChar '#')
  nul : key.head? ≠ some 0
  unpadded : Unpadded key

instance (key : Bytes) : Decidable (Named key) := decidable_of_iff' _ (named_iff key)

/-- A key with a value and one of its spellings. -/
structure Setting where
  key : Bytes
  value : Value
  text : Bytes
  named : Named key
  spelled : Spells value text

def Setting.line (setting : Setting) : Bytes := setting.key ++ ofChar '=' :: setting.text

/-- The lines of the settings with a newline between any two of them. -/
def print (settings : List Setting) : Bytes := [10].intercalate (settings.map Setting.line)

theorem trim_unpadded {text : Bytes} (unpadded : Unpadded text) : trim text = text := by
  refine trim_solid (fun b first => ?_) fun b last => ?_
  · have solid := unpadded.front
    rwa [Option.mem_def.mp first] at solid
  · have solid := unpadded.back
    rwa [Option.mem_def.mp last] at solid

/-- Both ends of a spelling lie above the space. -/
theorem spelled_unpadded {value : Value} {text : Bytes} (spelled : Spells value text) :
    Unpadded text := by
  rcases spelled_plain spelled with plain | ⟨inner, rfl, -⟩
  · have solid : ∀ b ∈ text, isBlank b = false := fun b member =>
      (spaceless (plain b member)).2.2.1
    constructor
    · exact (Option.any_eq_false _ _).mpr fun b first => solid b (List.mem_of_head? first)
    · exact (Option.any_eq_false _ _).mpr fun b last => solid b (List.mem_of_getLast? last)
  · constructor
    · rfl
    · rw [← List.cons_append, List.getLast?_concat]
      rfl

theorem spelled_single {value : Value} {text : Bytes} (spelled : Spells value text) :
    10 ∉ text := by
  rcases spelled_plain spelled with plain | ⟨inner, rfl, single⟩
  · intro member
    exact absurd (plain 10 member) (by decide)
  · simp [single, ofChar]

theorem spelled_filled {value : Value} {text : Bytes} (spelled : Spells value text) :
    text ≠ [] := by
  cases spelled with
  | decimal number => exact digits_filled (decimal_digits _)
  | hexadecimal number shown => simp
  | bytes filled paired => simp
  | string filled single => simp

namespace Setting
variable (setting : Setting)

theorem line_single : 10 ∉ setting.line := by
  simp [line, setting.named.single, spelled_single setting.spelled, ofChar]

theorem line_unpadded : Unpadded setting.line := by
  have parts : setting.line = (setting.key ++ [ofChar '=']) ++ setting.text := by simp [line]
  constructor
  · rw [line, List.head?_append_of_ne_nil _ setting.named.filled]
    exact setting.named.unpadded.front
  · rw [parts, List.getLast?_append_of_ne_nil _ (spelled_filled setting.spelled)]
    exact (spelled_unpadded setting.spelled).back

theorem line_divided : DividedAt setting.line setting.key setting.text :=
  ⟨rfl, setting.named.undivided⟩

theorem line_significant : Significant setting.line := by
  have first : setting.line.head? = setting.key.head? :=
    List.head?_append_of_ne_nil _ setting.named.filled
  rw [significant_trim, trim_unpadded setting.line_unpadded, first]
  exact ⟨by simp [line], setting.named.comment, setting.named.nul⟩

variable [Dialect]

/-- The printed line is read as the binding it was printed from. -/
theorem line_read :
    Line.read setting.line = .binding setting.key setting.text setting.value := by
  rw [read_divided setting.line_significant setting.line_divided,
    trim_unpadded setting.named.unpadded, trim_unpadded (spelled_unpadded setting.spelled),
    if_neg setting.named.filled, read_spelled setting.spelled]

theorem line_binds : Binds setting.line setting.key setting.value :=
  (binding_iff _ _ _).mp ⟨setting.text, setting.line_read⟩

theorem line_bound (key : Bytes) :
    boundTo key setting.line = if setting.key = key then some setting.value else none := by
  rw [boundTo, setting.line_read]

end Setting

/-- All lines are found again. Where nothing is printed there is one empty line. -/
theorem pieces_print (settings : List Setting) :
    pieces 10 (print settings) = if settings = [] then [[]] else settings.map Setting.line := by
  by_cases none : settings = []
  · subst none
    rfl
  · have apart : ∀ line ∈ settings.map Setting.line, 10 ∉ line := by
      intro line member
      obtain ⟨setting, -, rfl⟩ := List.mem_map.mp member
      exact setting.line_single
    rw [print, pieces_intercalate (by simpa using none) apart, if_neg none]

section Read
variable [Dialect]

theorem find_print (settings : List Setting) (key : Bytes) :
    (Table.empty.read (print settings)).value.1.find? key =
      (settings.map Setting.line).findSome? (boundTo key) := by
  rw [find_read, pieces_print]
  by_cases none : settings = []
  · subst none
    rfl
  · rw [if_neg none]

section Distinct
variable {front back : List Setting} {setting : Setting}
  (distinct : ((front ++ setting :: back).map Setting.key).Nodup)
include distinct

/-- No line in front of a setting binds its key. -/
theorem front_unbound : (front.map Setting.line).findSome? (boundTo setting.key) = none := by
  rw [List.map_append, List.map_cons, List.nodup_append] at distinct
  rw [List.findSome?_eq_none_iff]
  intro line member
  obtain ⟨other, chosen, rfl⟩ := List.mem_map.mp member
  have apart : other.key ≠ setting.key :=
    distinct.2.2 _ (List.mem_map_of_mem chosen) _ (by simp)
  rw [other.line_bound, if_neg apart]

theorem find_setting :
    (Table.empty.read (print (front ++ setting :: back))).value.1.find? setting.key =
      some setting.value := by
  rw [find_print, List.map_append, List.map_cons, List.findSome?_append,
    front_unbound distinct]
  simp [setting.line_bound]

end Distinct

/-- Every line of a print is valid, since no line before it binds its key. -/
theorem valid_print {settings : List Setting} (distinct : (settings.map Setting.key).Nodup) :
    (Table.empty.read (print settings)).value.2 = true := by
  refine (verdicts_valid_iff .empty (pieces 10 (print settings))).mpr ?_
  intro earlier line later split significant
  rw [pieces_print] at split
  by_cases none : settings = []
  -- Where nothing is printed, the one line is blank and need not bind anything.
  · rw [if_pos none] at split
    have blank : line = [] := by
      have member : line ∈ [([] : Bytes)] := by simp [split]
      simpa using member
    subst blank
    exact absurd rfl ((significant_trim []).mp significant).1
  · rw [if_neg none] at split
    obtain ⟨front, rest, rfl, rfl, tail⟩ := List.map_eq_append_iff.mp split
    obtain ⟨setting, back, rfl, rfl, rfl⟩ := List.map_eq_cons_iff.mp tail
    have free := (find_lines _ setting.key).trans (front_unbound distinct)
    exact ⟨setting.key, setting.value, setting.line_binds, free⟩

/-- The question that fits a value is answered with the value, and changes nothing. -/
def Returns (s : Store) (key : Bytes) : Value → Prop
  | .unsigned number => s.step (.unsigned key) = ⟨(s, .number number.toNat), []⟩
  | .string text => s.step (.string key) = ⟨(s, .text text), []⟩
  | .bytes content => s.step (.bytes key) = ⟨(s, .octets content), []⟩

theorem returns_bound {s : Store} {key : Bytes} {value : Value}
    (bound : s.table.find? key = some value) : Returns s key value := by
  have held : s.table.value key = ⟨value, []⟩ := by rw [Table.value, bound]
  cases value with
  | unsigned number =>
    rw [Returns, Store.step, Table.unsigned, held]
    rfl
  | string text =>
    rw [Returns, Store.step, Table.string, held]
    rfl
  | bytes content =>
    rw [Returns, Store.step, Table.bytes, held]
    rfl

theorem has_print (settings : List Setting) (key : Bytes) :
    (Table.empty.read (print settings)).value.1.has key =
      decide (key ∈ settings.map Setting.key) := by
  rw [Bool.eq_iff_iff, decide_eq_true_iff, Table.has, find_print, List.findSome?_map,
    List.findSome?_isSome_iff, List.mem_map]
  refine exists_congr fun setting => and_congr_right fun _ => ?_
  rw [Function.comp_apply, setting.line_bound]
  by_cases same : setting.key = key <;> simp [same]

/-- Settings that are printed and read into an empty store are accepted as a
whole. Exactly their keys are then bound, and each gives back its own value. -/
theorem printed_settings_return {settings : List Setting}
    (distinct : (settings.map Setting.key).Nodup) (files : Files) :
    let outcome := (Store.mk .empty files).step (.read (print settings))
    let s := outcome.value.1
    outcome.value.2 = .flag true ∧
      (∀ key, (s.step (.has key)).value.2 = .flag (decide (key ∈ settings.map Setting.key))) ∧
      ∀ setting ∈ settings, Returns s setting.key setting.value := by
  intro outcome s
  refine ⟨?accepted, ?keys, ?values⟩
  case accepted => exact congrArg Answer.flag (valid_print distinct)
  case keys =>
    intro key
    exact congrArg Answer.flag (has_print settings key)
  case values =>
    intro setting member
    obtain ⟨front, back, rfl⟩ := List.append_of_mem member
    exact returns_bound (find_setting distinct)

end Read

/-- A quoted text that holds the signs of another line, and bytes and a number with
letters in both cases. -/
def lookalikes : List Setting :=
  [{ key := ascii "A #"
     value := .string (ascii "\x22=#\x00\r ")
     text := ascii "\x22\x22=#\x00\r \x22"
     named := by decide
     spelled := .string (by decide) (by decide) },
   { key := ascii "\x7b:\x7d"
     value := .bytes [0xab, 0x0c]
     text := ascii "\x7baB:0c\x7d"
     named := by decide
     spelled := .bytes (by decide)
      (.cons ⟨97, 66, rfl, by decide, by decide⟩ (.cons ⟨48, 99, rfl, by decide, by decide⟩ .nil)) },
   { key := ascii "0x"
     value := .unsigned 255
     text := ascii "0x0fF"
     named := by decide
     spelled := by
      have zero : Shows 16 0 (ofChar '0') := by decide
      have lower : Shows 16 15 (ofChar 'f') := by decide
      have upper : Shows 16 15 (ofChar 'F') := by decide
      exact .hexadecimal 255 (.further (.further (.single zero) lower) upper) },
   { key := [34, 0]
     value := .unsigned 4294967295
     text := ascii "4294967295"
     named := by decide
     spelled := .decimal 4294967295 }]

theorem lookalikes_return :
    let s := ((Store.mk .empty .empty).step (.read (print lookalikes))).value.1
    (lookalikes.map Setting.key).Nodup ∧
      (s.step (.has (ascii "A #"))).value.2 = .flag true ∧
      s.step (.string (ascii "A #")) = ⟨(s, .text (ascii "\x22=#\x00\r ")), []⟩ ∧
      s.step (.bytes (ascii "\x7b:\x7d")) = ⟨(s, .octets [0xab, 0x0c]), []⟩ ∧
      s.step (.unsigned (ascii "0x")) = ⟨(s, .number 255), []⟩ ∧
      s.step (.unsigned [34, 0]) = ⟨(s, .number 4294967295), []⟩ := by
  intro s
  have distinct : (lookalikes.map Setting.key).Nodup := by decide
  obtain ⟨_, keys, values⟩ := printed_settings_return distinct .empty
  rw [lookalikes, List.forall_mem_cons, List.forall_mem_cons, List.forall_mem_cons,
    List.forall_mem_cons] at values
  obtain ⟨quoted, braced, hexadecimal, decimal, _⟩ := values
  have named : decide (ascii "A #" ∈ lookalikes.map Setting.key) = true := by decide
  exact ⟨distinct, (keys _).trans (congrArg Answer.flag named), quoted, braced, hexadecimal,
    decimal⟩

end NfcPolling.PrintedSettings
