import NfcPolling.Proofs.Service.ConfigurationEpochs

/-! The levels that the service takes from a configuration. The global setting counts
by its last byte alone, so that a larger setting can ask for less; where the last byte
is as good as the whole, levels follow the setting upward and stay between warning and
debug. -/
namespace NfcPolling.AdoptedLevels
open NfcPolling.Service Settings Journal ConfigurationEpochs

/-- The number bound to a key; zero without one. -/
def setting (t : Table) (key : Bytes) : Nat :=
  match t.find? key with
  | some (.unsigned number) => number.toNat
  | _ => 0

theorem setting_asked (t : Table) (key : Bytes) :
    ((t.unsigned? key).value.getD 0).toNat = setting t key := by
  rw [Table.unsigned?, Table.has, setting]
  cases held : t.find? key with
  | none => rfl
  | some value =>
    cases value with
    | unsigned number => exact congrArg UInt32.toNat (unsigned_bound held)
    | string text => exact congrArg UInt32.toNat (unsigned_otherwise (by simp [held]))
    | bytes content => exact congrArg UInt32.toNat (unsigned_otherwise (by simp [held]))

/-- Debugging is asked for. -/
def Debugs (t : Table) : Prop := setting t Verbosity.debugKey ≠ 0

instance (t : Table) : Decidable (Debugs t) := inferInstanceAs (Decidable (_ ≠ _))

theorem globalLevel_toNat (debugging : Bool) (asked : Option UInt32) :
    (Verbosity.globalLevel debugging asked).toNat =
      if debugging = true then 3
      else if (asked.getD 0).toNat < 2 then 2
      else min 3 ((asked.getD 0).toNat % 256) := by
  cases debugging with
  | true => rfl
  | false =>
    cases asked with
    | none => rfl
    | some number =>
      have small : number < 2 ↔ number.toNat < 2 := UInt32.lt_iff_toNat_lt
      simp only [Verbosity.globalLevel, small, Bool.false_eq_true, ↓reduceIte, Option.getD_some]
      split
      · rfl
      · rw [UInt8.toNat_min, UInt32.toNat_toUInt8, Nat.min_comm]
        rfl

theorem sourceLevel_toNat (globally : UInt8) (asked : Option UInt32) :
    (Verbosity.sourceLevel globally asked).toNat =
      max globally.toNat (min 3 (asked.getD 0).toNat) := by
  cases asked with
  | none => simp [Verbosity.sourceLevel]
  | some number =>
    have narrow : (min number 3).toUInt8.toNat = min 3 number.toNat := by
      have three : (3 : UInt32).toNat = 3 := rfl
      rw [UInt32.toNat_toUInt8, UInt32.toNat_min, three]
      omega
    simp only [Verbosity.sourceLevel, Option.getD_some, UInt8.toNat_max, narrow]

theorem debugs_iff (t : Table) : (t.unsigned? Verbosity.debugKey).value.getD 0 ≠ 0 ↔ Debugs t := by
  rw [Debugs, ← setting_asked, ne_eq, ne_eq, ← UInt32.toNat_inj]
  rfl

/-- The global level that a table asks for: debug, warning for less than two, and
otherwise what the last byte of the setting says, up to debug. -/
theorem global_asked (t : Table) :
    t.verbosity.value.levels.global.toNat =
      if Debugs t then 3
      else if setting t Verbosity.globalKey < 2 then 2
      else min 3 (setting t Verbosity.globalKey % 256) := by
  have level : t.verbosity.value.levels.global =
      Verbosity.globalLevel (decide ((t.unsigned? Verbosity.debugKey).value.getD 0 ≠ 0))
        (t.unsigned? Verbosity.globalKey).value := rfl
  rw [level, globalLevel_toNat, setting_asked]
  simp only [decide_eq_true_iff, debugs_iff]

/-- The level of a source is the global one, or its own setting up to debug where that
is more. -/
theorem source_asked (t : Table) (source : Source) :
    (t.verbosity.value.levels.of source).toNat =
      max t.verbosity.value.levels.global.toNat
        (min 3 (setting t (Verbosity.sourceKey source))) := by
  have level : t.verbosity.value.levels.of source =
      Verbosity.sourceLevel t.verbosity.value.levels.global
        (t.unsigned? (Verbosity.sourceKey source)).value := by
    cases source <;> rfl
  rw [level, sourceLevel_toNat, setting_asked]

/-- The last byte of the global setting asks for what the whole setting asks for, or
the setting does not count. -/
def Fits (t : Table) : Prop :=
  Debugs t ∨ setting t Verbosity.globalKey < 3 ∨ 3 ≤ setting t Verbosity.globalKey % 256

/-- The global level that the whole setting asks for. -/
def intended (t : Table) : Nat :=
  if Debugs t then 3 else min 3 (max 2 (setting t Verbosity.globalKey))

theorem global_intended_iff (t : Table) :
    t.verbosity.value.levels.global.toNat = intended t ↔ Fits t := by
  rw [global_asked, intended, Fits]
  split
  · rename_i debugs
    simp [debugs]
  · rename_i quiet
    simp only [quiet, false_or]
    split <;> omega

/-- The tables differ in the global setting alone, and the second one's is not lower. -/
structure Raised (t raised : Table) : Prop where
  others : ∀ key, key ≠ Verbosity.globalKey → raised.find? key = t.find? key
  higher : setting t Verbosity.globalKey ≤ setting raised Verbosity.globalKey

theorem setting_others {t raised : Table} (lifted : Raised t raised) {key : Bytes}
    (other : key ≠ Verbosity.globalKey) : setting raised key = setting t key := by
  rw [setting, setting, lifted.others key other]

theorem debugs_raised {t raised : Table} (lifted : Raised t raised) : Debugs raised ↔ Debugs t := by
  unfold Debugs
  rw [setting_others lifted (by decide)]

/-- No level is lowered by a higher setting that fits. -/
theorem global_raised {t raised : Table} (lifted : Raised t raised) (fits : Fits raised) :
    t.verbosity.value.levels.global.toNat ≤ raised.verbosity.value.levels.global.toNat := by
  have higher := lifted.higher
  rw [(global_intended_iff raised).mpr fits, global_asked, intended]
  simp only [debugs_raised lifted]
  split
  · exact le_rfl
  · split <;> omega

theorem source_raised {t raised : Table} (lifted : Raised t raised) (fits : Fits raised)
    (source : Source) :
    (t.verbosity.value.levels.of source).toNat ≤
      (raised.verbosity.value.levels.of source).toNat := by
  have global := global_raised lifted fits
  have own : setting raised (Verbosity.sourceKey source) =
      setting t (Verbosity.sourceKey source) := by
    refine setting_others lifted ?_
    cases source <;> decide
  rw [source_asked, source_asked, own]
  omega

/-- Reading the levels and starting the service adopt what the table asks for. -/
theorem levels_adopted [Dialect] (c : Configuration) :
    (c.step .readLevels).configuration.levels = c.table.value.verbosity.value.levels ∧
      (c.step .start).configuration.levels = c.table.value.verbosity.value.levels :=
  ⟨rfl, rfl⟩

/-- After the levels are set, on their own or as the service starts, the global level is
the one that the last byte of its setting asks for. It is the level that the whole
setting asks for, and no lower than warning, exactly where the last byte says as much;
a setting that fits lowers no level of a configuration with a lower one. -/
theorem global_level_counts_last_byte [Dialect] (c : Configuration) :
    let t := c.table.value
    let number := setting t Verbosity.globalKey
    let levels := (c.step .readLevels).configuration.levels
    (c.step .start).configuration.levels = levels ∧
    levels.global.toNat =
      (if Debugs t then 3 else if number < 2 then 2 else min 3 (number % 256)) ∧
    (levels.global.toNat = (if Debugs t then 3 else min 3 (max 2 number)) ↔
      Debugs t ∨ number < 3 ∨ 3 ≤ number % 256) ∧
    (levels.global = 2 ∨ levels.global = 3 ↔ Debugs t ∨ number < 2 ∨ 2 ≤ number % 256) ∧
    ∀ raised : Configuration, Raised t raised.table.value → Fits raised.table.value →
      let higher := (raised.step .readLevels).configuration.levels
      levels.global ≤ higher.global ∧ ∀ source, levels.of source ≤ higher.of source := by
  intro t number levels
  have read : levels = t.verbosity.value.levels := (levels_adopted c).1
  have global : levels.global.toNat =
      (if Debugs t then 3 else if number < 2 then 2 else min 3 (number % 256)) := by
    rw [read]
    exact global_asked t
  refine ⟨(levels_adopted c).2.trans read.symm, global, ?intended, ?range, ?raised⟩
  case intended =>
    rw [read]
    exact global_intended_iff t
  case range =>
    have named : levels.global = 2 ∨ levels.global = 3 ↔
        levels.global.toNat = 2 ∨ levels.global.toNat = 3 := by
      rw [← UInt8.toNat_inj, ← UInt8.toNat_inj]
      rfl
    rw [named, global]
    split
    · rename_i debugs
      simp [debugs]
    · rename_i quiet
      simp only [quiet, false_or]
      split <;> omega
  case raised =>
    intro raised lifted fits higher
    have other : higher = raised.table.value.verbosity.value.levels := (levels_adopted raised).1
    simp only [UInt8.le_iff_toNat_le]
    refine ⟨?_, fun source => ?_⟩
    · rw [read, other]
      exact global_raised lifted fits
    · rw [read, other]
      exact source_raised lifted fits source

/-- A configuration that is loaded, with this global setting. -/
def configured (number : UInt32) : Configuration :=
  { Configuration.initial with
    loaded := some ⟨[(Verbosity.globalKey, .unsigned number),
      (Verbosity.sourceKey .api, .unsigned 3)]⟩ }

/-- A large setting fits when its last byte is large enough. -/
theorem levels_follow_large_setting :
    let lower := configured 1
    let raised := configured 259
    let levels (c : Configuration) := (c.step .readLevels).configuration.levels
    Raised lower.table.value raised.table.value ∧ Fits raised.table.value ∧
      (levels lower).global = 2 ∧ (levels lower).global ≤ (levels raised).global ∧
      ∀ source, (levels lower).of source ≤ (levels raised).of source := by
  intro lower raised levels
  have lifted : Raised lower.table.value raised.table.value := by
    refine ⟨fun key other => ?_, by decide +kernel⟩
    have apart : (key == Verbosity.globalKey) = false := beq_eq_false_iff_ne.mpr other
    have passed : ∀ number, (configured number).table.value.find? key =
        [(Verbosity.sourceKey .api, Value.unsigned 3)].lookup key := by
      intro number
      change List.lookup key ((Verbosity.globalKey, Value.unsigned number) :: _) = _
      rw [List.lookup_cons, apart]
    exact (passed 259).trans (passed 1).symm
  have fits : Fits raised.table.value := by
    refine .inr (.inr ?_)
    decide +kernel
  obtain ⟨_, _, _, _, follow⟩ := global_level_counts_last_byte lower
  exact ⟨lifted, fits, by decide +kernel, follow raised lifted fits⟩

/-- The steps that have the levels read from a file with this global setting. -/
def readingLevels (number : String) : List Session.Step :=
  let text := Verbosity.globalKey ++ Bytes.ascii "=" ++ Bytes.ascii number
  [.configuration (.setDirectory (some (Bytes.ascii "."))),
    .configuration (.change (.write (Bytes.ascii "./libnfc-plf.conf") text)),
    .configuration .readLevels]

/-- One more than 255 silences everything. -/
theorem raised_setting_silences :
    (Session.initial.after (readingLevels "255")).configuration.levels = ⟨3, 3, 3, 3⟩ ∧
      (Session.initial.after (readingLevels "256")).configuration.levels = ⟨0, 0, 0, 0⟩ := by
  decide +kernel

end NfcPolling.AdoptedLevels
