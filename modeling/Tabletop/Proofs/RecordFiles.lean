import Tabletop.Json.Reader
import Tabletop.Proofs.JudgedEntries

set_option autoImplicit false

namespace Tabletop

namespace Value

theorem mapOf_json {es : List (Value × Value)} (text : ∀ e ∈ es, ∃ name, e.1 = .str name)
    (json : ∀ e ∈ es, e.2.IsJson) : (mapOf es).IsJson := by
  refine List.foldlRecOn (motive := fun read => (Value.map read).IsJson) es _
    (.map ⟨by simp, by simp⟩ (by simp)) fun read json' e member => ?_
  obtain ⟨name, named⟩ := text e member
  rw [named]
  exact setField_json json' (json e member)

end Value

namespace Json

open Tabletop.Value (IsJson)

variable {position next : Nat} {cs rest : List Char} {v : Value}

theorem readWord?_json {length : Nat} (read : readWord? cs = some (v, length, rest)) : v.IsJson := by
  have all : ∀ word ∈ words, word.2.IsJson := by
    simp [words, IsJson.null, IsJson.bool, IsJson.float]
  rw [readWord?, Option.map_eq_some_iff] at read
  obtain ⟨word, found, same⟩ := read
  cases same
  exact all _ (List.mem_of_find?_eq_some found)

theorem readNumber_json (read : readNumber position cs = .ok (v, next, rest)) : v.IsJson := by
  unfold readNumber at read
  extract_lets sign whole fraction exponent length text rest' n at read
  split at read
  · cases read
  · split at read
    · split at read
      · cases read
      · obtain ⟨rfl, -⟩ := Prod.mk.inj (Except.ok.inj read)
        exact .int _
    · split at read
      · obtain ⟨rfl, -⟩ := Prod.mk.inj (Except.ok.inj read)
        exact .float _
      · cases read

mutual
theorem readValue_json (fuel : Nat) {position next : Nat} {cs rest : List Char} {v : Value}
    (read : readValue fuel position cs = .ok (v, next, rest)) : v.IsJson := by
  cases fuel with
  | zero => simp [readValue] at read
  | succ fuel =>
    rw [readValue.eq_def] at read
    simp only at read
    split at read
    · cases read
    · obtain ⟨⟨s, position, rest⟩, -, done⟩ := bind_eq_ok.1 read
      cases done
      exact .str s
    · split at read
      · cases read
        exact .map ⟨by simp, by simp⟩ (by simp)
      · exact readMembers_json fuel (by simp) (by simp) read
    · split at read
      · cases read
        exact .list (by simp)
      · exact readItems_json fuel (by simp) read
    · split at read
      · rename_i word
        cases read
        exact readWord?_json word
      · exact readNumber_json read

theorem readMembers_json (fuel : Nat) {position next : Nat} {acc : List (Value × Value)} {cs rest : List Char}
    {v : Value} (text : ∀ e ∈ acc, ∃ name, e.1 = .str name) (json : ∀ e ∈ acc, e.2.IsJson)
    (read : readMembers fuel position acc cs = .ok (v, next, rest)) : v.IsJson := by
  cases fuel with
  | zero => simp [readMembers] at read
  | succ fuel =>
    rw [readMembers.eq_def] at read
    simp only at read
    split at read
    · obtain ⟨⟨name, position, rest⟩, -, read⟩ := bind_eq_ok.1 read
      simp only at read
      split at read
      · obtain ⟨⟨w, position, rest⟩, member, read⟩ := bind_eq_ok.1 read
        have value := readValue_json fuel member
        have text' : ∀ e ∈ (.str name, w) :: acc, ∃ name, e.1 = .str name :=
          List.forall_mem_cons.2 ⟨⟨name, rfl⟩, text⟩
        have json' : ∀ e ∈ ((.str name, w) :: acc : List (Value × Value)), e.2.IsJson :=
          List.forall_mem_cons.2 ⟨value, json⟩
        simp only at read
        split at read
        · cases read
          refine Value.mapOf_json (fun e member => ?_) fun e member => ?_
          · exact text' e (List.mem_reverse.1 member)
          · exact json' e (List.mem_reverse.1 member)
        · exact readMembers_json fuel text' json' read
        · cases read
      · cases read
    · cases read

theorem readItems_json (fuel : Nat) {position next : Nat} {acc : List Value} {cs rest : List Char} {v : Value}
    (json : ∀ x ∈ acc, x.IsJson) (read : readItems fuel position acc cs = .ok (v, next, rest)) : v.IsJson := by
  cases fuel with
  | zero => simp [readItems] at read
  | succ fuel =>
    rw [readItems.eq_def] at read
    simp only at read
    obtain ⟨⟨w, position, rest⟩, item, read⟩ := bind_eq_ok.1 read
    have json' : ∀ x ∈ w :: acc, x.IsJson := List.forall_mem_cons.2 ⟨readValue_json fuel item, json⟩
    simp only at read
    split at read
    · cases read
      exact .list fun x member => json' x (List.mem_reverse.1 member)
    · exact readItems_json fuel json' read
    · cases read
end

theorem parse_json {text : String} (read : parse text = .ok v) : v.IsJson := by
  unfold parse at read
  simp only at read
  split at read
  · cases read
  · obtain ⟨⟨w, position, rest⟩, value, read⟩ := bind_eq_ok.1 read
    simp only at read
    split at read
    · cases read
      exact readValue_json _ value
    · cases read

-- whatever is written is JSON when it is read back, since of members with one name the last is left

mutual

theorem readBack_json (v : Value) {w : Value} (written : plain v = .ok w) : (readBack w).IsJson := by
  cases v with
  | list xs =>
    simp only [plain, bind_eq_ok, pure_eq_ok] at written
    obtain ⟨ys, all, rfl⟩ := written
    exact .list (readBackAll_json xs all)
  | tuple xs =>
    simp only [plain, bind_eq_ok, pure_eq_ok] at written
    obtain ⟨ys, all, rfl⟩ := written
    exact .list (readBackAll_json xs all)
  | map es =>
    simp only [plain, bind_eq_ok, pure_eq_ok] at written
    obtain ⟨fs, all, rfl⟩ := written
    obtain ⟨text, json⟩ := readBackEntries_json es all
    exact Value.mapOf_json text json
  | null => cases written; exact .null
  | bool b => cases written; exact .bool b
  | int i => cases written; exact .int i
  | float d => cases written; exact .float d
  | str s => cases written; exact .str _
  | bytes bs => cases written; exact .str _
  | date d => cases written; exact .str _
  | moment m => cases written; exact .str _
  | set xs => cases written; exact .str _

theorem readBackAll_json (xs : List Value) {ys : List Value} (all : plainAll xs = .ok ys) :
    ∀ y ∈ readBackAll ys, y.IsJson := by
  cases xs with
  | nil => cases all; exact nofun
  | cons x xs =>
    simp only [plainAll, bind_eq_ok, pure_eq_ok] at all
    obtain ⟨y, first, ys, rest, rfl⟩ := all
    exact List.forall_mem_cons.2 ⟨readBack_json x first, readBackAll_json xs rest⟩

theorem readBackEntries_json (es : List (Value × Value)) {fs : List (Value × Value)}
    (all : plainEntries es = .ok fs) :
    (∀ f ∈ readBackEntries fs, ∃ name, f.1 = .str name) ∧ ∀ f ∈ readBackEntries fs, f.2.IsJson := by
  cases es with
  | nil => cases all; exact ⟨nofun, nofun⟩
  | cons e es =>
    obtain ⟨k, v⟩ := e
    unfold plainEntries at all
    split at all
    · cases all
    · simp only [bind_eq_ok, pure_eq_ok] at all
      obtain ⟨w, first, fs, rest, rfl⟩ := all
      obtain ⟨text, json⟩ := readBackEntries_json es rest
      exact ⟨List.forall_mem_cons.2 ⟨⟨_, rfl⟩, text⟩, List.forall_mem_cons.2 ⟨readBack_json v first, json⟩⟩

end

end Json

inductive Content.IsJson : Content → Prop where
  | text {s : String} {v : Value} (loads : Content.load? (.text s) = .ok (some v)) : IsJson (.text s)
  | document {v : Value} (json : v.IsJson) : IsJson (.document v)

theorem Content.IsJson.loaded {content : Content} (isJson : content.IsJson) :
    ∃ v : Value, content.load? = .ok (some v) ∧ v.IsJson := by
  cases isJson with
  | @text s v loads =>
    refine ⟨v, loads, ?_⟩
    simp only [Content.load?, Content.read, bind, Except.bind] at loads
    split at loads
    · rename_i read
      cases loads
      exact Json.parse_json read
    · cases loads
    · cases loads
  | @document v json => exact ⟨v, by simp [Content.load?, json.proper.back], json⟩

namespace Store

open Tabletop.Field (Entries)

structure HoldsRecord (s : Store) (c : Collection) (name : String) (es : Entries) : Prop where
  file : ∃ content, s.disk.files.get? (s.folder c ++ [name]) = some content ∧ content.IsJson ∧
    content.load? = .ok (some (.map es))
  identified : (Value.field "id" es).isTruthy = true

def recordNames (s : Store) (c : Collection) : List String :=
  (s.disk.names (s.folder c)).filter isRecordName

variable {s t : Store} {c : Collection} {name : String} {es : Entries}

theorem HoldsRecord.json (holds : s.HoldsRecord c name es) : (Value.map es).IsJson := by
  obtain ⟨content, -, isJson, loads⟩ := holds.file
  obtain ⟨v, loads', json⟩ := isJson.loaded
  cases loads.symm.trans loads'
  exact json

theorem HoldsRecord.unique {fs : Entries} (holds : s.HoldsRecord c name es)
    (holds' : s.HoldsRecord c name fs) : es = fs := by
  obtain ⟨content, file, -, loads⟩ := holds.file
  obtain ⟨content', file', -, loads'⟩ := holds'.file
  cases file.symm.trans file'
  cases loads.symm.trans loads'
  rfl

structure Loads (s : Store) (c : Collection) (name : String) (es : Entries) : Prop where
  loaded : s.disk.load? (s.folder c ++ [name]) = .ok (some (.map es))
  json : (Value.map es).IsJson
  identified : (Value.field "id" es).isTruthy = true

theorem HoldsRecord.loads (holds : s.HoldsRecord c name es) : s.Loads c name es := by
  refine ⟨?_, holds.json, holds.identified⟩
  obtain ⟨content, file, -, loads⟩ := holds.file
  rw [Disk.load?, file]
  exact loads

theorem Loads.readRecord (loads : s.Loads c name es) (disk : t.disk = s.disk) :
    ∃ known, (readRecord c (s.folder c ++ [name])).run t = (.ok (some es), { t with known := known }) := by
  obtain ⟨print, printed⟩ := loads.json.proper.fingerprinted
  exact ⟨_, readRecord_run (disk ▸ loads.loaded) loads.identified printed⟩

theorem readAll_loads {names : List String} {records : List Entries}
    (loads : List.Forall₂ (s.Loads c) names records) (disk : t.disk = s.disk) :
    ∃ known, (readAll c (names.map fun name => s.folder c ++ [name])).run t =
      (.ok records, { t with known := known }) := by
  induction loads generalizing t with
  | nil => exact ⟨t.known, rfl⟩
  | cons here _ ih =>
    obtain ⟨known, first⟩ := here.readRecord disk
    obtain ⟨known', rest⟩ := ih (t := { t with known := known }) disk
    exact ⟨known', by simp [readAll, Action.run_bind, first, rest]⟩

theorem listAll_loads {records : List Entries} (loads : List.Forall₂ (s.Loads c) (s.recordNames c) records) :
    ∃ known, (listAll c).run s = (.ok records, { s with known := known }) := by
  obtain ⟨known, reads⟩ := readAll_loads loads rfl
  exact ⟨known, reads⟩

theorem listAll_holds {records : List Entries}
    (holds : List.Forall₂ (s.HoldsRecord c) (s.recordNames c) records) :
    ∃ known, (listAll c).run s = (.ok records, { s with known := known }) :=
  listAll_loads (holds.imp fun _ _ here => here.loads)

end Store

end Tabletop
