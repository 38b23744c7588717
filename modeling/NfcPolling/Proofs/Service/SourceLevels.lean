import NfcPolling.Proofs.Service.AdoptedLevels

/-! The levels of the single sources. A source's own setting raises it above the
global level and never lowers it, no level exceeds debug, and nothing but the
configuration decides: levels and debugging as they were before leave no trace. -/
namespace NfcPolling.SourceLevels
open NfcPolling.Service Settings Journal AdoptedLevels

section Asked
variable (t : Table)

theorem global_within : t.verbosity.value.levels.global ≤ 3 := by
  have three : (3 : UInt8).toNat = 3 := rfl
  rw [UInt8.le_iff_toNat_le, global_asked, three]
  split
  · exact le_rfl
  · split <;> omega

/-- The level of a source lies between the global one and debug. -/
theorem source_between (source : Source) :
    t.verbosity.value.levels.global ≤ t.verbosity.value.levels.of source ∧
      t.verbosity.value.levels.of source ≤ 3 := by
  have three : (3 : UInt8).toNat = 3 := rfl
  have within := global_within t
  rw [UInt8.le_iff_toNat_le, three] at within
  simp only [UInt8.le_iff_toNat_le, source_asked, three]
  omega

theorem debugging_asked : t.verbosity.value.debugging = true ↔ Debugs t := by
  have flag : t.verbosity.value.debugging =
      decide ((t.unsigned? Verbosity.debugKey).value.getD 0 ≠ 0) := rfl
  rw [flag, decide_eq_true_iff, debugs_iff]

variable {t}

/-- Debugging lifts every level, whatever else is set. -/
theorem verbose_of_debugs (debugs : Debugs t) : t.verbosity.value.levels = .verbose := by
  have global : t.verbosity.value.levels.global = 3 := by
    rw [← UInt8.toNat_inj, global_asked, if_pos debugs]
    rfl
  have same (source : Source) : t.verbosity.value.levels.of source = 3 := by
    obtain ⟨above, below⟩ := source_between t source
    exact UInt8.le_antisymm below (global ▸ above)
  calc t.verbosity.value.levels
    _ = ⟨t.verbosity.value.levels.global, t.verbosity.value.levels.of .decoder,
        t.verbosity.value.levels.of .api, t.verbosity.value.levels.of .config⟩ := rfl
    _ = .verbose := by rw [global, same, same, same, Levels.verbose]

end Asked

/-- Reading the levels and starting the service come to what the table asks for. -/
theorem verbosity_adopted [Dialect] (s : Session) :
    (s.step (.configuration .readLevels)).1.configuration.verbosity =
        s.configuration.table.value.verbosity.value ∧
      (s.step (.configuration .start)).1.configuration.verbosity =
        s.configuration.table.value.verbosity.value :=
  ⟨rfl, rfl⟩

/-- After the levels are read, on their own or as the service starts, the level of each
source is the larger one of the global level and its own setting, up to debug; a key
that is missing or bound to something else counts as zero. All levels stay within
debug and reach it when debugging is on. They are the same for every session with
this configuration, whatever levels and debugging it had before. -/
theorem own_settings_raise_levels [Dialect] (s : Session) :
    let t := s.configuration.table.value
    let adopted := (s.step (.configuration .readLevels)).1.configuration.verbosity
    let levels := adopted.levels
    let own (key : String) : Nat := min 3 (setting t (Bytes.ascii key))
    levels.decoder.toNat = max levels.global.toNat (own "PLFLOG_DECODER_LOGLEVEL") ∧
      levels.api.toNat = max levels.global.toNat (own "PLFLOG_API_LOGLEVEL") ∧
      levels.config.toNat = max levels.global.toNat (own "PLFLOG_CONFIG_LOGLEVEL") ∧
      levels.global ≤ 3 ∧
      (∀ source, levels.global ≤ levels.of source ∧ levels.of source ≤ 3) ∧
      (adopted.debugging = true ↔ setting t (Bytes.ascii "NFC_DEBUG_ENABLED") ≠ 0) ∧
      (setting t (Bytes.ascii "NFC_DEBUG_ENABLED") ≠ 0 → levels = ⟨3, 3, 3, 3⟩) ∧
      (s.step (.configuration .start)).1.configuration.verbosity = adopted ∧
      ∀ other : Session, other.configuration.table.value = t →
        (other.step (.configuration .readLevels)).1.configuration.verbosity = adopted := by
  intro t adopted levels own
  obtain ⟨read, started⟩ := verbosity_adopted s
  have asked : adopted = t.verbosity.value := read
  have levelsAsked : levels = t.verbosity.value.levels := congrArg Verbosity.levels asked
  rw [levelsAsked, asked]
  refine ⟨source_asked t .decoder, source_asked t .api, source_asked t .config,
    global_within t, source_between t, debugging_asked t, verbose_of_debugs, started, ?_⟩
  intro other same
  rw [(verbosity_adopted other).1, same]

/-- One source asks for more than there is, one for less than all have, and the third
is bound to a text. -/
def mixed (debugging : UInt32) : Table :=
  ⟨[(Bytes.ascii "PLFLOG_DECODER_LOGLEVEL", .unsigned 4294967295),
    (Bytes.ascii "PLFLOG_API_LOGLEVEL", .unsigned 1),
    (Bytes.ascii "PLFLOG_CONFIG_LOGLEVEL", .string (Bytes.ascii "3")),
    (Bytes.ascii "NFC_DEBUG_ENABLED", .unsigned debugging)]⟩

/-- A session that has loaded the table, at some levels. -/
def holding (t : Table) (levels : Levels) : Session :=
  ⟨.initial, ⟨.initial, some t, ⟨levels, true⟩⟩⟩

theorem mixed_settings_raise_levels :
    let levels (s : Session) :=
      (s.step (.configuration .readLevels)).1.configuration.verbosity.levels
    (holding (mixed 0) .initial).configuration.table.value = mixed 0 ∧
      levels (holding (mixed 0) ⟨0, 255, 7, 1⟩) = ⟨2, 3, 2, 2⟩ ∧
      setting (mixed 256) (Bytes.ascii "NFC_DEBUG_ENABLED") ≠ 0 ∧
      levels (holding (mixed 256) .initial) = ⟨3, 3, 3, 3⟩ := by
  intro levels
  obtain ⟨_, _, _, _, _, _, _, _, alike⟩ :=
    own_settings_raise_levels (holding (mixed 0) .initial)
  obtain ⟨_, _, _, _, _, _, lifted, _⟩ :=
    own_settings_raise_levels (holding (mixed 256) .initial)
  have debugs : setting (mixed 256) (Bytes.ascii "NFC_DEBUG_ENABLED") ≠ 0 := by decide +kernel
  refine ⟨rfl, ?_, debugs, lifted debugs⟩
  refine (congrArg Verbosity.levels (alike (holding (mixed 0) ⟨0, 255, 7, 1⟩) rfl)).trans ?_
  decide +kernel

end NfcPolling.SourceLevels
