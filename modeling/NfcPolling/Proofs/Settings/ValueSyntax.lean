import NfcPolling.Proofs.Settings.NumeralSyntax

/-! A text is accepted as a value exactly when it is written in the syntax of that
value: text between quotes, groups of digits between braces, or a number. Quotes and
braces never compete with a number, since no number opens with them. -/
namespace NfcPolling.ValueSyntax
open NfcPolling.Settings Bytes Spelling NumeralSyntax

theorem enclosed_iff (opening closing : UInt8) (text inner : Bytes) :
    Value.enclosed? opening closing text = some inner ↔
      text = opening :: (inner ++ [closing]) := by
  constructor
  · intro read
    cases text with
    | nil => cases read
    | cons first rest =>
      obtain ⟨⟨rfl, last⟩, within⟩ := Option.ite_none_right_eq_some.mp read
      obtain ⟨front, rfl⟩ := List.getLast?_eq_some_iff.mp last
      cases within
      rw [List.dropLast_concat]
  · rintro rfl
    exact enclosed_between opening closing inner

/-- A group between colons as it is read: two digits, or a digit and a NUL. -/
inductive Group (byte : UInt8) : Bytes → Prop where
  | pair {group : Bytes} (paired : Pair byte group) : Group byte group
  | short {high : UInt8} (shown : Shows 16 byte.toNat high) : Group byte [high, 0]

theorem group_of_read {group : Bytes} {byte : UInt8} (read : Value.byteGroup? group = some byte) :
    Group byte group := by
  match group with
  | [] => cases read
  | [high] => cases read
  | high :: low :: third :: more => cases read
  | [high, low] =>
    obtain ⟨h, upper, rest⟩ := Option.bind_eq_some_iff.mp read
    have first := hexValue_shows upper
    have small := first.1
    split at rest
    · rename_i nul
      subst nul
      cases rest
      refine .short ?_
      rwa [UInt8.toNat_ofNat_of_lt' (by change h < 256; omega)]
    · obtain ⟨l, lower, rfl⟩ := Option.map_eq_some_iff.mp rest
      have second := hexValue_shows lower
      have whole : (UInt8.ofNat (16 * h + l)).toNat = 16 * h + l :=
        UInt8.toNat_ofNat_of_lt' (by change 16 * h + l < 256; have := second.1; omega)
      refine .pair ⟨high, low, rfl, ?_, ?_⟩
      · rw [whole, show (16 * h + l) / 16 = h by have := second.1; omega]
        exact first
      · rw [whole, show (16 * h + l) % 16 = l by have := second.1; omega]
        exact second

theorem read_of_group {group : Bytes} {byte : UInt8} (is : Group byte group) :
    Value.byteGroup? group = some byte := by
  cases is with
  | pair paired => exact pair_read paired
  | short shown =>
    simp [Value.byteGroup?, hexValue_shown le_rfl shown]

theorem group_iff (group : Bytes) (byte : UInt8) :
    Value.byteGroup? group = some byte ↔ Group byte group :=
  ⟨group_of_read, read_of_group⟩

theorem group_bytes {group : Bytes} {byte : UInt8} (is : Group byte group) :
    ∀ b ∈ group, b = 0 ∨ ∃ d, hexValue? b = some d := by
  cases is with
  | pair paired =>
    obtain ⟨high, low, rfl, upper, lower⟩ := pair_values paired
    simp [upper, lower]
  | short shown => simp [hexValue_shown le_rfl shown]

theorem grouped_mem {content : Bytes} {groups : List Bytes}
    (grouped : List.Forall₂ Group content groups) : ∀ group ∈ groups, ∃ byte, Group byte group := by
  induction grouped with
  | nil => simp
  | cons first rest ih => exact List.forall_mem_cons.mpr ⟨⟨_, first⟩, ih⟩

theorem intercalate_holds {separator b : UInt8} {part : Bytes} {parts : List Bytes}
    (chosen : part ∈ parts) (inside : b ∈ part) : b ∈ [separator].intercalate parts := by
  induction parts with
  | nil => simp at chosen
  | cons first rest ih =>
    cases rest with
    | nil =>
      rw [List.mem_singleton] at chosen
      simpa [← chosen] using inside
    | cons next more =>
      rw [List.intercalate_cons_cons, List.mem_append]
      rcases List.mem_cons.mp chosen with rfl | later
      · exact .inl (by simp [inside])
      · exact .inr (ih later)

/-- A NUL among the groups is the end of a group that is short. -/
theorem nul_grouped_iff {content : Bytes} {groups : List Bytes}
    (grouped : List.Forall₂ Group content groups) :
    0 ∈ [ofChar ':'].intercalate groups ↔ ∃ high, [high, 0] ∈ groups := by
  constructor
  · intro member
    rcases mem_intercalate member with colon | ⟨group, chosen, inside⟩
    · cases colon
    · obtain ⟨byte, is⟩ := grouped_mem grouped group chosen
      cases is with
      | @short high shown => exact ⟨high, chosen⟩
      | pair paired =>
        obtain ⟨high, low, rfl, upper, lower⟩ := pair_values paired
        rcases List.mem_pair.mp inside with rfl | rfl
        · cases upper
        · cases lower
  · rintro ⟨high, chosen⟩
    exact intercalate_holds chosen (by simp)

theorem mapM_iff {α β : Type} (read : α → Option β) (texts : List α) (values : List β) :
    texts.mapM read = some values ↔
      List.Forall₂ (fun value text => read text = some value) values texts := by
  induction texts generalizing values with
  | nil => cases values <;> simp
  | cons text rest ih =>
    cases values with
    | nil => simp [Option.bind_eq_some_iff]
    | cons value more =>
      simp only [List.mapM_cons, Option.bind_eq_bind, Option.bind_eq_some_iff, Option.pure_def,
        Option.some.injEq, List.cons.injEq, List.forall₂_cons, ← ih]
      constructor
      · rintro ⟨_, first, _, others, rfl, rfl⟩
        exact ⟨first, others⟩
      · rintro ⟨first, others⟩
        exact ⟨value, first, more, others, rfl, rfl⟩

/-- Between braces stand groups with a colon between any two of them. There is at
least one, since the empty text is no group. -/
theorem groups_iff (text content : Bytes) :
    Value.byteGroups? text = some content ↔ content ≠ [] ∧ ∃ groups,
      List.Forall₂ Group content groups ∧ text = [ofChar ':'].intercalate groups := by
  simp only [Value.byteGroups?, mapM_iff, group_iff]
  constructor
  · intro grouped
    refine ⟨?_, pieces (ofChar ':') text, grouped, ?_⟩
    · rintro rfl
      have none := List.forall₂_nil_left_iff.mp grouped
      rw [pieces_eq_splitOn] at none
      exact absurd none (List.splitOn_ne_nil _ _)
    · rw [pieces_eq_splitOn, List.intercalate_splitOn]
  · rintro ⟨filled, groups, grouped, rfl⟩
    have present : groups ≠ [] := by
      rintro rfl
      exact filled (List.forall₂_nil_right_iff.mp grouped)
    rw [pieces_intercalate present ?_]
    · exact grouped
    · intro group member colon
      obtain ⟨byte, is⟩ := grouped_mem grouped group member
      rcases group_bytes is _ colon with nul | ⟨d, digit⟩
      · cases nul
      · cases digit

section Read
variable [Dialect]

theorem read_string_iff (text inner : Bytes) :
    Value.read? text = some (.string inner) ↔
      inner ≠ [] ∧ text = ofChar '\x22' :: (inner ++ [ofChar '\x22']) := by
  rw [← enclosed_iff, Value.read?]
  cases quoted : Value.enclosed? (ofChar '\x22') (ofChar '\x22') text with
  | some within =>
    simp only [Option.ite_none_left_eq_some, Option.some.injEq, Value.string.injEq]
    constructor
    · rintro ⟨filled, rfl⟩
      exact ⟨filled, rfl⟩
    · rintro ⟨filled, rfl⟩
      exact ⟨filled, rfl⟩
  | none =>
    cases Value.enclosed? (ofChar '\x7b') (ofChar '\x7d') text <;> simp

theorem read_bytes_iff (text content : Bytes) :
    Value.read? text = some (.bytes content) ↔ content ≠ [] ∧ ∃ groups,
      List.Forall₂ Group content groups ∧
        text = ofChar '\x7b' :: ([ofChar ':'].intercalate groups ++ [ofChar '\x7d']) := by
  constructor
  · intro read
    rw [Value.read?] at read
    split at read
    · rename_i within quoted
      obtain ⟨_, other⟩ := Option.ite_none_left_eq_some.mp read
      cases other
    · split at read
      · rename_i within braced
        obtain ⟨found, grouped, same⟩ := Option.map_eq_some_iff.mp read
        cases same
        obtain ⟨filled, groups, each, rfl⟩ := (groups_iff within content).mp grouped
        exact ⟨filled, groups, each, (enclosed_iff _ _ _ _).mp braced⟩
      · obtain ⟨number, _, other⟩ := Option.map_eq_some_iff.mp read
        cases other
  · rintro ⟨filled, groups, grouped, rfl⟩
    have within := (groups_iff _ content).mpr ⟨filled, groups, grouped, rfl⟩
    rw [Value.read?, enclosed_otherwise (by decide), enclosed_between]
    simp [within]

/-- What is read as a number stands neither between quotes nor between braces. -/
theorem number_not_enclosed {text : Bytes} {number : UInt32}
    (read : Numeral.read? text = some number) (opening closing : UInt8) (nul : opening ≠ 0)
    (solid : Numeral.isSpace opening = false) (other : hexValue? opening = none) :
    Value.enclosed? opening closing text = none := by
  obtain ⟨first, starts, opens⟩ := read_opens read
  obtain ⟨rest, rfl⟩ := List.head?_eq_some_iff.mp starts
  refine enclosed_otherwise ?_ rest
  rintro rfl
  rcases opens with zero | space | ⟨d, digit⟩
  · exact nul zero
  · rw [solid] at space
    cases space
  · rw [other] at digit
    cases digit

theorem read_unsigned_iff (text : Bytes) (number : UInt32) :
    Value.read? text = some (.unsigned number) ↔ Numeral.read? text = some number := by
  constructor
  · intro read
    rw [Value.read?] at read
    split at read
    · obtain ⟨_, other⟩ := Option.ite_none_left_eq_some.mp read
      cases other
    · split at read
      · obtain ⟨found, _, other⟩ := Option.map_eq_some_iff.mp read
        cases other
      · obtain ⟨found, numeral, same⟩ := Option.map_eq_some_iff.mp read
        cases same
        exact numeral
  · intro numeral
    have quoted := number_not_enclosed numeral (ofChar '\x22') (ofChar '\x22') (by decide) rfl rfl
    have braced := number_not_enclosed numeral (ofChar '\x7b') (ofChar '\x7d') (by decide) rfl rfl
    rw [Value.read?, quoted, braced, numeral]
    rfl

theorem read_written {number : UInt32} {text : Bytes} (written : Written number.toNat text) :
    Value.read? text = some (.unsigned number) :=
  (read_unsigned_iff text number).mpr
    (read_of_number (written_without_nul written) (.numeral written))

/-- A value is read back from each of its spellings. -/
theorem read_spelled {value : Value} {text : Bytes} (spelled : Spells value text) :
    Value.read? text = some value := by
  cases spelled with
  | decimal number => exact read_written (written_decimal number.toNat)
  | hexadecimal number shown => exact read_written (.hexadecimal (.inl rfl) shown)
  | bytes filled paired =>
    exact (read_bytes_iff _ _).mpr ⟨filled, _, paired.imp fun _ _ => .pair, rfl⟩
  | string filled single => exact (read_string_iff _ _).mpr ⟨filled, rfl⟩

/-- Whatever was held before, the text is taken and its value is held afterwards. -/
def Accepted (text : Bytes) (value : Value) : Prop :=
  ∀ held : Value, (Value.Change.parse text).succeeds = true ∧ held.apply (.parse text) = value

/-- The text is not taken, and what was held before is held afterwards. -/
def Refused (text : Bytes) : Prop :=
  ∀ held : Value, (Value.Change.parse text).succeeds = false ∧ held.apply (.parse text) = held

theorem accepted_iff (text : Bytes) (value : Value) :
    Accepted text value ↔ Value.read? text = some value := by
  constructor
  · intro accepted
    obtain ⟨taken, after⟩ := accepted .initial
    obtain ⟨found, read⟩ := Option.isSome_iff_exists.mp taken
    rw [Value.apply, read] at after
    exact read.trans (congrArg some after)
  · intro read held
    simp [Value.Change.succeeds, Value.apply, read]

theorem refused_iff (text : Bytes) : Refused text ↔ Value.read? text = none := by
  constructor
  · intro refused
    exact Option.isNone_iff_eq_none.mp (Option.isSome_eq_false_iff.mp (refused .initial).1)
  · intro none held
    simp [Value.Change.succeeds, Value.apply, none]

end Read

/-- A numeral in base two is none for the reader of the standard. -/
example :
    Value.read? (ascii "0b101") = none ∧
      @Value.read? ⟨true⟩ (ascii "0b101") = some (.unsigned 5) := by
  decide

end NfcPolling.ValueSyntax
