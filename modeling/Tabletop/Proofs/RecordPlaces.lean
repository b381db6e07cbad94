import Tabletop.Proofs.RecordNames

set_option autoImplicit false

namespace Tabletop

namespace Text

theorem upperHexDigit_ne_separator : ∀ n < 16, upperHexDigit n ≠ '/' := by
  decide

theorem separator_not_mem_percentByte (b : UInt8) : '/' ∉ percentByte b := by
  have bound := b.toNat_lt
  have high := upperHexDigit_ne_separator (b.toNat / 16) (by omega)
  have low := upperHexDigit_ne_separator (b.toNat % 16) (by omega)
  unfold percentByte
  split
  next kept =>
    rw [List.mem_singleton]
    intro separator
    -- the separator is no byte that stays as it is
    obtain rfl : 47 = b := byteChar_injective separator
    exact absurd kept (by decide)
  next => simp [high.symm, low.symm]

theorem separator_not_mem_percentEncode (s : String) : '/' ∉ (percentEncode s).toList := by
  simp [percentEncode, separator_not_mem_percentByte]

-- a text that is encoded to itself is the only one encoded to it
theorem percentEncode_eq_iff {s t : String} (fixed : percentEncode t = t) : percentEncode s = t ↔ s = t :=
  ⟨fun same => percentEncode_injective (same.trans fixed.symm), fun same => same ▸ fixed⟩

end Text

def Place.IsChild (folder p : Place) : Prop :=
  ∃ name, p = folder ++ [name] ∧ '/' ∉ name.toList ∧ name ≠ "" ∧ name ≠ "." ∧ name ≠ ".."

namespace Store

variable {s : Store} {c d : Collection} {a b : String} {p q : Place}

theorem place_ok_iff (s : Store) (c : Collection) (id : String) :
    (∃ p, s.place c id = .ok p) ↔ id ≠ "" ∧ id ≠ "." ∧ id ≠ ".." := by
  have blank : Text.percentEncode id = "" ↔ id = "" := Text.percentEncode_eq_iff (by decide +kernel)
  have here : Text.percentEncode id = "." ↔ id = "." := Text.percentEncode_eq_iff (by decide +kernel)
  have above : Text.percentEncode id = ".." ↔ id = ".." := Text.percentEncode_eq_iff (by decide +kernel)
  simp only [place, recordName, Bool.or_eq_true, decide_eq_true_eq, blank, here, above, or_assoc]
  split
  next unusable => simpa [Except.map, or_iff_not_imp_left] using unusable
  next usable => simpa [Except.map] using usable

theorem place_child (placed : s.place c a = .ok p) : Place.IsChild (s.folder c) p := by
  obtain ⟨name, named, rfl⟩ := place_eq_ok placed
  obtain ⟨safe, encoded, filled, rfl⟩ := recordName_eq_ok named
  have apart : '/' ∉ safe.toList := encoded ▸ Text.separator_not_mem_percentEncode a
  have long {t : String} (short : t.toList.length < 5) : safe ++ ".json" ≠ t := by
    rintro rfl
    have ending : ".json".toList.length = 5 := by decide
    rw [String.toList_append, List.length_append, ending] at short
    omega
  exact ⟨_, rfl, by simp [apart], long (by decide), long (by decide), long (by decide)⟩

theorem scratch_ne_settingsPlace (placed : s.place c a = .ok p) : Disk.scratch p ≠ s.settingsPlace := by
  obtain ⟨name, named, rfl⟩ := place_eq_ok placed
  rw [scratch_record named]
  intro same
  simpa [settingsPlace, folder] using congrArg List.length same

theorem scratch_injective (first : s.place c a = .ok p) (second : s.place d b = .ok q)
    (same : Disk.scratch p = Disk.scratch q) : c = d ∧ a = b := by
  obtain ⟨name, named, rfl⟩ := place_eq_ok first
  obtain ⟨name', named', rfl⟩ := place_eq_ok second
  rw [scratch_record named, scratch_record named'] at same
  obtain ⟨folders, names⟩ := List.append_inj' same rfl
  exact ⟨folder_injective folders, Text.percentEncode_injective (by simpa using names)⟩

/-- The files of records lie one step below the folders of their collections. No two records share a file
or a scratch file, and a scratch file is neither the file of a record nor that of the settings. -/
theorem place_apart (s : Store) :
    (∀ c id, (∃ p, s.place c id = .ok p) ↔ id ≠ "" ∧ id ≠ "." ∧ id ≠ "..") ∧
      ∀ c a p, s.place c a = .ok p →
        Place.IsChild (s.folder c) p ∧ Disk.scratch p ≠ s.settingsPlace ∧
          ∀ d b q, s.place d b = .ok q →
            Disk.scratch p ≠ q ∧ ((c, a) ≠ (d, b) → p ≠ q ∧ Disk.scratch p ≠ Disk.scratch q) := by
  refine ⟨place_ok_iff s, fun c a p first => ⟨place_child first, scratch_ne_settingsPlace first, ?_⟩⟩
  intro d b q second
  refine ⟨scratch_ne_place first second, fun distinct => ⟨?_, fun same => ?_⟩⟩
  · rintro rfl
    obtain ⟨rfl, rfl⟩ := place_injective first second
    exact distinct rfl
  · obtain ⟨rfl, rfl⟩ := scratch_injective first second same
    exact distinct rfl

-- one id holds what the other one is encoded to, and both hold several points
def drawer : Store := .create ⟨"data", .empty, [], []⟩ [] ⟨0, ⟨2020, 1, 1⟩, ⟨0, 0, 0, 0⟩, none⟩

theorem place_apart_drawer :
    drawer.place .characters "../é.tmp" = .ok ["characters", "..%2F%C3%A9.tmp.json"] ∧
      drawer.place .characters "..%2F%C3%A9.tmp" = .ok ["characters", "..%252F%25C3%25A9.tmp.json"] ∧
      Disk.scratch ["characters", "..%2F%C3%A9.tmp.json"] ≠ drawer.settingsPlace ∧
      Disk.scratch ["characters", "..%2F%C3%A9.tmp.json"] ≠
        Disk.scratch ["characters", "..%252F%25C3%25A9.tmp.json"] := by
  have first : drawer.place .characters "../é.tmp" = .ok ["characters", "..%2F%C3%A9.tmp.json"] := by
    decide +kernel
  have second : drawer.place .characters "..%2F%C3%A9.tmp" =
      .ok ["characters", "..%252F%25C3%25A9.tmp.json"] := by
    decide +kernel
  obtain ⟨-, settings, others⟩ := (place_apart drawer).2 _ _ _ first
  exact ⟨first, second, settings, ((others _ _ _ second).2 (by decide)).2⟩

end Store

end Tabletop
