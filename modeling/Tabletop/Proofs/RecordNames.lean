import Mathlib.Data.List.Nodup
import Tabletop.Proofs.DiskWrites

set_option autoImplicit false

namespace Tabletop

namespace Text

theorem toList_loop (bs : ByteArray) (i : Nat) (read : List UInt8) :
    ByteArray.toList.loop bs i read = read.reverse ++ bs.data.toList.drop i := by
  induction i, read using ByteArray.toList.loop.induct bs with
  | case1 i read more ih =>
    rw [ByteArray.toList.loop, if_pos more, ih, List.reverse_cons, List.append_assoc]
    rw [List.drop_eq_getElem_cons (i := i) (by simpa using more)]
    simp [ByteArray.get!, getElem!_pos, more]
  | case2 i read done =>
    rw [ByteArray.toList.loop, if_neg done, List.drop_eq_nil_of_le (by simpa using done)]
    simp

theorem utf8_bytes (s : String) : s.toUTF8.toList = s.toByteArray.data.toList :=
  toList_loop s.toUTF8 0 []

theorem utf8_injective {s t : String} (same : s.toUTF8.toList = t.toUTF8.toList) : s = t := by
  rw [utf8_bytes, utf8_bytes] at same
  exact String.toByteArray_inj.1 (ByteArray.ext (Array.toList_inj.1 same))

theorem upperHexDigit_injective :
    ∀ m < 16, ∀ n < 16, upperHexDigit m = upperHexDigit n → m = n := by
  decide

theorem byteChar_injective {b c : UInt8} (same : Char.ofNat b.toNat = Char.ofNat c.toNat) : b = c := by
  have valid (b : UInt8) : (Char.ofNat b.toNat).toNat = b.toNat := by
    have := b.toNat_lt
    rw [Char.ofNat, dif_pos (.inl (by omega))]
    rfl
  exact UInt8.toNat_inj.1 (by rw [← valid b, same, valid c])

-- no kept byte is the percent sign, so the encodings of bytes are a prefix code
theorem percentByte_prefix {b c : UInt8} {xs ys : List Char}
    (same : percentByte b ++ xs = percentByte c ++ ys) : b = c ∧ xs = ys := by
  have escaped {b : UInt8} (kept : isUnreserved b = true) : Char.ofNat b.toNat ≠ '%' := by
    intro percent
    obtain rfl : b = 37 := byteChar_injective percent
    contradiction
  unfold percentByte at same
  cases kept : isUnreserved b <;> cases kept' : isUnreserved c <;>
    simp only [kept, kept', if_true, if_false, Bool.false_eq_true, List.cons_append, List.nil_append,
      List.cons.injEq, true_and] at same
  · obtain ⟨high, low, rest⟩ := same
    have := b.toNat_lt
    have := c.toNat_lt
    have high := upperHexDigit_injective _ (by omega) _ (by omega) high
    have low := upperHexDigit_injective _ (by omega) _ (by omega) low
    exact ⟨UInt8.toNat_inj.1 (by omega), rest⟩
  · exact absurd same.1.symm (escaped kept')
  · exact absurd same.1 (escaped kept)
  · exact ⟨byteChar_injective same.1, same.2⟩

theorem percentByte_filled (b : UInt8) : percentByte b ≠ [] := by
  unfold percentByte
  split <;> simp

theorem percentBytes_injective {bs cs : List UInt8}
    (same : bs.flatMap percentByte = cs.flatMap percentByte) : bs = cs := by
  induction bs generalizing cs with
  | nil =>
    cases cs with
    | nil => rfl
    | cons c cs => simp [percentByte_filled] at same
  | cons b bs ih =>
    cases cs with
    | nil => simp [percentByte_filled] at same
    | cons c cs =>
      rw [List.flatMap_cons, List.flatMap_cons] at same
      obtain ⟨rfl, rest⟩ := percentByte_prefix same
      rw [ih rest]

theorem percentEncode_injective {s t : String} (same : percentEncode s = percentEncode t) : s = t :=
  utf8_injective (percentBytes_injective (String.ofList_injective same))

end Text

namespace Disk

theorem splitName_json {safe : String} (filled : safe ≠ "") :
    splitName (safe ++ ".json") = (safe, ".json") := by
  have stem : (safe.toList ++ ['.', 'j', 's', 'o', 'n']).take (safe.toList.length + 1) =
      safe.toList ++ ['.'] := by
    simp [List.take_append, List.take_of_length_le]
  simp [splitName, stem, filled]

-- the names in a folder are those of its files

theorem mem_names {d : Disk} {folder : Place} {name : String} :
    name ∈ d.names folder ↔ d.files.contains (folder ++ [name]) = true := by
  rw [Dict.contains_iff]
  simp only [names, List.mem_mergeSort, List.mem_map, List.mem_filter, Bool.and_eq_true,
    decide_eq_true_eq, Bool.not_eq_true', List.isEmpty_eq_false_iff]
  constructor
  · rintro ⟨p, ⟨file, rfl, filled⟩, rfl⟩
    rwa [fileName, List.getLast?_eq_getLast_of_ne_nil filled, Option.getD_some,
      List.dropLast_append_getLast filled]
  · intro file
    exact ⟨folder ++ [name], ⟨file, by simp, by simp⟩, by simp [fileName]⟩

theorem names_nodup (d : Disk) (folder : Place) : (d.names folder).Nodup := by
  have distinct : (d.files.keys.filter fun p => p.dropLast = folder && !p.isEmpty).Nodup :=
    d.files.distinct.filter _
  refine (List.mergeSort_perm _ _).nodup_iff.2 (distinct.map_on ?_)
  intro p first q second same
  simp only [List.mem_filter, Bool.and_eq_true, decide_eq_true_eq, Bool.not_eq_true',
    List.isEmpty_eq_false_iff] at first second
  obtain ⟨-, inside, filled⟩ := first
  obtain ⟨-, inside', filled'⟩ := second
  rw [fileName, fileName, List.getLast?_eq_getLast_of_ne_nil filled,
    List.getLast?_eq_getLast_of_ne_nil filled', Option.getD_some, Option.getD_some] at same
  rw [← List.dropLast_append_getLast filled, ← List.dropLast_append_getLast filled', inside, inside',
    same]

end Disk

namespace Store

theorem recordName_injective {a b name : String} (first : recordName a = .ok name)
    (second : recordName b = .ok name) : a = b := by
  obtain ⟨safe, encoded, -, rfl⟩ := recordName_eq_ok first
  obtain ⟨safe', encoded', -, same⟩ := recordName_eq_ok second
  have same : safe = safe' := by simpa using same
  exact Text.percentEncode_injective (by rw [← encoded, ← encoded', same])

theorem folder_injective {s : Store} {c d : Collection} (same : s.folder c = s.folder d) : c = d := by
  cases c <;> cases d <;> simp [folder, Collection.name] at same ⊢

theorem place_injective {s : Store} {c d : Collection} {a b : String} {p : Place}
    (first : s.place c a = .ok p) (second : s.place d b = .ok p) : c = d ∧ a = b := by
  obtain ⟨name, named, rfl⟩ := place_eq_ok first
  obtain ⟨name', named', same⟩ := place_eq_ok second
  obtain ⟨folders, names⟩ := List.append_inj' same rfl
  rw [List.singleton_inj] at names
  subst names
  exact ⟨folder_injective folders, recordName_injective named named'⟩

theorem scratch_record {id name : String} (named : recordName id = .ok name) (folder : Place) :
    Disk.scratch (folder ++ [name]) = folder ++ [Text.percentEncode id ++ ".tmp"] := by
  obtain ⟨safe, rfl, filled, rfl⟩ := recordName_eq_ok named
  simp [Disk.scratch, Disk.fileName, Disk.splitName_json filled]

theorem isRecordName_recordName {id name : String} (named : recordName id = .ok name) :
    isRecordName name = true := by
  obtain ⟨safe, -, -, rfl⟩ := recordName_eq_ok named
  simp [isRecordName]

theorem scratch_ne_place {s : Store} {c d : Collection} {a b : String} {p q : Place}
    (first : s.place c a = .ok p) (second : s.place d b = .ok q) : Disk.scratch p ≠ q := by
  obtain ⟨name, named, rfl⟩ := place_eq_ok first
  obtain ⟨name', named', rfl⟩ := place_eq_ok second
  rw [scratch_record named]
  intro same
  have last : Text.percentEncode a ++ ".tmp" = name' := by
    simpa using (List.append_inj' same rfl).2
  have ending := isRecordName_recordName named'
  rw [← last, isRecordName, List.isSuffixOf_iff_suffix] at ending
  obtain ⟨before, whole⟩ := ending
  have letter := congrArg List.getLast? whole
  simp at letter

/-- The id has a file whose name is not too long. -/
def Nameable (id : String) : Prop :=
  ∃ name, recordName id = .ok name ∧ name.utf8ByteSize ≤ Disk.longestName

theorem isLong_append (p : Place) (name : String) :
    Disk.isLong (p ++ [name]) = (Disk.isLong p || decide (Disk.longestName < name.utf8ByteSize)) := by
  simp [Disk.isLong]

theorem place_of_recordName {id name : String} (named : recordName id = .ok name) (s : Store)
    (c : Collection) : s.place c id = .ok (s.folder c ++ [name]) := by
  rw [Store.place, named]
  rfl

theorem Nameable.place {id : String} (nameable : Nameable id) (s : Store) (c : Collection) :
    ∃ name, recordName id = .ok name ∧ s.place c id = .ok (s.folder c ++ [name]) := by
  obtain ⟨name, named, -⟩ := nameable
  exact ⟨name, named, place_of_recordName named s c⟩

theorem isLong_folder {s : Store} (short : Disk.isLong s.root = false) (c : Collection) :
    Disk.isLong (s.folder c) = false := by
  rw [Store.folder, isLong_append, short]
  cases c <;> decide

theorem Nameable.open {s : Store} {c : Collection} {id : String} {p : Place} (nameable : Nameable id)
    (short : Disk.isLong s.root = false) (free : ∀ name, s.disk.isFolder (s.folder c ++ [name]) = false)
    (placed : s.place c id = .ok p) : s.disk.Open p := by
  obtain ⟨name, named, rfl⟩ := place_eq_ok placed
  obtain ⟨name', named', fits⟩ := nameable
  obtain rfl : name = name' := by
    rw [named] at named'
    exact Except.ok.inj named'
  have folder := isLong_folder short c
  have scratch := scratch_record named (s.folder c)
  obtain ⟨safe, rfl, -, rfl⟩ := recordName_eq_ok named
  constructor
  · rw [isLong_append, folder]
    simpa using fits
  · exact free _
  · rw [scratch, isLong_append, folder]
    rw [String.utf8ByteSize_append] at fits ⊢
    simpa using Nat.le_trans (Nat.add_le_add_left (by decide) _) fits
  · rw [scratch]
    exact free _
  · exact place_scratch placed

theorem nameable_of_open {s : Store} {c : Collection} {id : String} {p : Place} (place : s.disk.Open p)
    (placed : s.place c id = .ok p) : Nameable id := by
  obtain ⟨name, named, rfl⟩ := place_eq_ok placed
  have short := place.short
  rw [isLong_append, Bool.or_eq_false_iff, decide_eq_false_iff_not, Nat.not_lt] at short
  exact ⟨name, named, short.2⟩

end Store

end Tabletop
