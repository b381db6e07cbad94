import Tabletop.Proofs.Alike
import Tabletop.Proofs.RecordNames
import Tabletop.Proofs.StoredCharacter

set_option autoImplicit false

namespace Tabletop

open Tabletop.Value (Alike)

inductive Request where
  | put (c : Collection) (record : Field.Entries) (force : Bool)
  | get (c : Collection) (id : String)
  | delete (c : Collection) (id : String)
  | list (c : Collection)

inductive Reply where
  | stored
  | found (record : Option Field.Entries)
  | deleted (existed : Bool)
  | listed (records : List Field.Entries)
deriving DecidableEq

namespace Store

def serve : Request → Work Reply
  | .put c record force => do
    put c (← .ofExcept (Record.ofEntries record)) force
    return .stored
  | .get c id => return .found (← get c id)
  | .delete c id => return .deleted (← delete c id)
  | .list c => return .listed (← listAll c)

def serveAll : List Request → Store → List (Except Failure Reply) × Store
  | [], s => ([], s)
  | r :: rs, s =>
    let (reply, t) := (serve r).run s
    let (replies, u) := serveAll rs t
    (reply :: replies, u)

structure IsRecord (id : String) (record : Field.Entries) : Prop where
  json : (Value.map record).IsJson
  named : Value.field "id" record = .str id
  nameable : Nameable id

end Store

def Request.Proper : Request → Prop
  | .put _ record _ => ∃ id, Store.IsRecord id record
  | .get _ id => Store.Nameable id
  | .delete _ id => Store.Nameable id
  | .list _ => True

/-- The records kept, and which of the coming attempts to write fail. -/
structure Archive where
  records : Dict (Collection × String) Field.Entries
  faults : List Bool

namespace Archive

-- the record under the id, up to the order of members
def Keeps (a : Archive) (c : Collection) (id : String) (record : Field.Entries) : Prop :=
  ∃ kept, a.records.get? (c, id) = some kept ∧ Alike (.map kept) (.map record)

/-- The answers of an archive. A record that is kept already is put without an attempt to write, unless
that is forced; for every other put there are two attempts. -/
inductive Answers : Archive → Request → Except Failure Reply → Archive → Prop where
  | unchanged {a : Archive} {c : Collection} {id : String} {record : Field.Entries}
      (named : Value.field "id" record = .str id) (kept : a.Keeps c id record) :
    Answers a (.put c record false) (.ok .stored) ⟨a.records.insert (c, id) record, a.faults⟩
  | written {a : Archive} {c : Collection} {id : String} {record : Field.Entries} {force : Bool}
      {faults : List Bool} (named : Value.field "id" record = .str id)
      (due : force = true ∨ ¬a.Keeps c id record)
      (attempts : Disk.twoAttempts a.faults = (true, faults)) :
    Answers a (.put c record force) (.ok .stored) ⟨a.records.insert (c, id) record, faults⟩
  | refused {a : Archive} {c : Collection} {id name : String} {record : Field.Entries} {force : Bool}
      {faults : List Bool} (named : Value.field "id" record = .str id)
      (due : force = true ∨ ¬a.Keeps c id record)
      (attempts : Disk.twoAttempts a.faults = (false, faults))
      (file : Store.recordName id = .ok name) :
    Answers a (.put c record force) (.error (.storeWrite name Disk.fullReason)) ⟨a.records, faults⟩
  | found {a : Archive} {c : Collection} {id : String} {record : Field.Entries}
      (kept : a.Keeps c id record) : Answers a (.get c id) (.ok (.found (some record))) a
  | absent {a : Archive} {c : Collection} {id : String} (gone : a.records.contains (c, id) = false) :
    Answers a (.get c id) (.ok (.found none)) a
  | deleted {a : Archive} {c : Collection} {id : String} :
    Answers a (.delete c id) (.ok (.deleted (a.records.contains (c, id))))
      ⟨a.records.erase (c, id), a.faults⟩
  | listed {a : Archive} {c : Collection} {ids : List String} {records : List Field.Entries}
      (once : ids.Nodup) (live : ∀ id, id ∈ ids ↔ a.records.contains (c, id) = true)
      (kept : List.Forall₂ (a.Keeps c) ids records) :
    Answers a (.list c) (.ok (.listed records)) a

inductive Serves : Archive → List Request → List (Except Failure Reply) → Archive → Prop where
  | nil (a : Archive) : Serves a [] [] a
  | cons {a b e : Archive} {r : Request} {rs : List Request} {reply : Except Failure Reply}
      {replies : List (Except Failure Reply)} (first : Answers a r reply b)
      (rest : Serves b rs replies e) : Serves a (r :: rs) (reply :: replies) e

end Archive

-- a disk with nothing on it
def Disk.blank (base : String) (faults : List Bool) : Disk :=
  ⟨base, .empty, [], faults⟩

namespace Store

variable {s t : Store} {a b : Archive} {c d : Collection} {id : String} {record : Field.Entries}
  {p : Place} {file : Option Content} {fingerprint? : Option Value} {fingerprint : Value}

inductive Stands (id : String) : Option Content → Option Value → Option Field.Entries → Prop where
  | absent : Stands id none none none
  | present {es record : Field.Entries} {fingerprint : Value} (isFile : IsRecord id es)
      (isRecord : IsRecord id record) (same : Record.fingerprintOf (.map es) = .ok fingerprint)
      (found : Record.fingerprintOf (.map record) = .ok fingerprint) :
    Stands id (some (.document (.map es))) (some fingerprint) (some record)

theorem Stands.together {record? : Option Field.Entries} (stands : Stands id file fingerprint? record?) :
    file.isSome = record?.isSome ∧ fingerprint?.isSome = record?.isSome := by
  cases stands <;> exact ⟨rfl, rfl⟩

theorem Stands.nameable {record? : Option Field.Entries} (stands : Stands id file fingerprint? record?)
    (kept : record?.isSome = true) : Nameable id := by
  cases stands with
  | absent => cases kept
  | present _ isRecord => exact isRecord.nameable

structure Mirrors (s : Store) (a : Archive) : Prop where
  short : Disk.isLong s.root = false
  folders : ∀ p ∈ s.disk.folders, p.length ≤ s.root.length + 1
  faults : s.disk.faults = a.faults
  each : ∀ c id p, s.place c id = .ok p →
    Stands id (s.disk.files.get? p) (s.known.get? (c, id)) (a.records.get? (c, id))
  strays : ∀ p, s.disk.files.contains p = true → ∃ c id, s.place c id = .ok p
  nameable : ∀ c id, a.records.contains (c, id) = true → Nameable id

-- records and their fingerprints

theorem IsRecord.fingerprinted (isRecord : IsRecord id record) :
    ∃ fingerprint, Record.fingerprintOf (.map record) = .ok fingerprint :=
  isRecord.json.proper.fingerprinted

theorem IsRecord.truthy (isRecord : IsRecord id record) : (Value.str id).isTruthy = true := by
  obtain ⟨name, named, -⟩ := isRecord.nameable
  simp [Value.isTruthy, id_filled named]

theorem IsRecord.ofEntries (isRecord : IsRecord id record)
    (found : Record.fingerprintOf (.map record) = .ok fingerprint) :
    Record.ofEntries record = .ok ⟨id, .map record, fingerprint⟩ := by
  obtain ⟨name, named, -⟩ := isRecord.nameable
  exact Record.ofEntries_named isRecord.named (id_filled named) found isRecord.json.proper.plain

theorem IsRecord.alike_iff {es : Field.Entries} (isRecord : IsRecord id record) (isFile : IsRecord id es)
    (found : Record.fingerprintOf (.map record) = .ok fingerprint) :
    Alike (.map record) (.map es) ↔ Record.fingerprintOf (.map es) = .ok fingerprint := by
  rw [← Record.fingerprint_eq_iff isRecord.json isFile.json, found, eq_comm]

theorem Mirrors.free (mirrors : s.Mirrors a) (c : Collection) (name : String) :
    s.disk.isFolder (s.folder c ++ [name]) = false := by
  have deep : s.folder c ++ [name] ∉ s.disk.folders := by
    intro member
    have := mirrors.folders _ member
    simp [Store.folder] at this
  simp [Disk.isFolder, deep]

-- the place of an id can be written, whatever the store holds
theorem Mirrors.open (mirrors : s.Mirrors a) (nameable : Nameable id) (placed : s.place c id = .ok p) :
    s.disk.Open p :=
  nameable.open mirrors.short (mirrors.free c) placed

-- the file of an id is there exactly if the record is kept
theorem Mirrors.contains (mirrors : s.Mirrors a) (placed : s.place c id = .ok p) :
    s.disk.files.contains p = a.records.contains (c, id) :=
  (mirrors.each c id p placed).together.1

theorem Mirrors.holds (mirrors : s.Mirrors a) (nameable : Nameable id)
    (placed : s.place c id = .ok p) : s.disk.holds p = .ok (a.records.contains (c, id)) := by
  have place := mirrors.open nameable placed
  simp [Disk.holds, place.short, place.free, mirrors.contains placed]

-- changing what the store has under one id

structure Refiled (s : Store) (c : Collection) (id : String) (p : Place) (file : Option Content)
    (fingerprint : Option Value) (t : Store) : Prop where
  root : t.root = s.root
  folders : t.disk.folders = s.disk.folders
  files : ∀ q, t.disk.files.get? q = if q = p then file else s.disk.files.get? q
  known : ∀ key, t.known.get? key = if key = (c, id) then fingerprint else s.known.get? key

theorem Refiled.refl (s : Store) (c : Collection) (id : String) (p : Place) :
    Refiled s c id p (s.disk.files.get? p) (s.known.get? (c, id)) s where
  root := rfl
  folders := rfl
  files q := by split <;> simp_all
  known key := by split <;> simp_all

theorem Mirrors.refiled (mirrors : s.Mirrors a) (placed : s.place c id = .ok p)
    (refiled : Refiled s c id p file fingerprint? t)
    (stands : Stands id file fingerprint? (b.records.get? (c, id)))
    (others : ∀ key, key ≠ (c, id) → b.records.get? key = a.records.get? key)
    (faults : t.disk.faults = b.faults) : t.Mirrors b where
  short := by rw [refiled.root, mirrors.short]
  folders := by rw [refiled.root, refiled.folders]; exact mirrors.folders
  faults := faults
  each d other q placed' := by
    rw [place_of_root refiled.root] at placed'
    by_cases key : (d, other) = (c, id)
    · cases key
      cases placed.symm.trans placed'
      rw [refiled.files, if_pos rfl, refiled.known, if_pos rfl]
      exact stands
    · have beside : q ≠ p := by
        rintro rfl
        obtain ⟨rfl, rfl⟩ := place_injective placed placed'
        exact key rfl
      rw [refiled.files, if_neg beside, refiled.known, if_neg key, others _ key]
      exact mirrors.each d other q placed'
  strays q file := by
    rw [Dict.contains, refiled.files] at file
    by_cases here : q = p
    · exact ⟨c, id, by rw [place_of_root refiled.root, placed, here]⟩
    · rw [if_neg here] at file
      obtain ⟨d, other, placed'⟩ := mirrors.strays q file
      exact ⟨d, other, by rw [place_of_root refiled.root, placed']⟩
  nameable d other kept := by
    rw [Dict.contains] at kept
    by_cases key : (d, other) = (c, id)
    · cases key
      exact stands.nameable kept
    · rw [others _ key] at kept
      exact mirrors.nameable d other kept

def Follows (s : Store) (a : Archive) (r : Request) : Prop :=
  ∃ b, Archive.Answers a r ((serve r).run s).1 b ∧ ((serve r).run s).2.Mirrors b

theorem Follows.of_run {r : Request} {reply : Except Failure Reply}
    (served : (serve r).run s = (reply, t)) (answers : Archive.Answers a r reply b)
    (mirrors : t.Mirrors b) : s.Follows a r :=
  ⟨b, by rwa [served], by rwa [served]⟩

end Store

end Tabletop
