import Tabletop.Proofs.RecordFiles
import Tabletop.Proofs.Stocked

set_option autoImplicit false

namespace Tabletop

open Tabletop.Field (Entries)
open Tabletop.Value (Alike)

namespace Disk

variable {d e : Disk} {p q : Place} {v : Value}

-- a write changes nothing but its file, and the scratch file beside it

theorem attempt_leaves {x : Except Breakdown (Option String)} (tried : d.attempt p v = (x, e))
    (beside : q ≠ scratch p) :
    e.files.get? q = if x = .ok none ∧ q = p then some (.document v) else d.files.get? q := by
  have erased : (d.files.erase (scratch p)).get? q = d.files.get? q := by
    rw [Dict.get?_erase, if_neg beside]
  unfold attempt at tried
  simp only at tried
  split at tried
  · cases tried
    simp
  · split at tried
    · cases tried
      simp
    · split at tried
      · cases tried
        simpa using erased
      · split at tried
        · cases tried
          simpa using erased
        · cases tried
          simp [Dict.get?_insert, erased]

theorem write_leaves {x : Except Failure Unit} (wrote : d.write p v = (x, e)) (beside : q ≠ scratch p) :
    e.files.get? q = if x = .ok () ∧ q = p then some (.document v) else d.files.get? q := by
  unfold write at wrote
  split at wrote
  · rename_i first
    cases wrote
    simpa using attempt_leaves first beside
  · rename_i first
    cases wrote
    simpa using attempt_leaves first beside
  · rename_i first
    have earlier := attempt_leaves first beside
    split at wrote <;> rename_i second <;> cases wrote <;>
      simpa [earlier] using attempt_leaves second beside

theorem remove_leaves {x : Except Breakdown Bool} (removed : d.remove p = (x, e)) (q : Place) :
    e.files.get? q = if x = .ok true ∧ q = p then none else d.files.get? q := by
  unfold remove at removed
  split at removed
  · cases removed
    simp
  · cases removed
    simp
  · split at removed
    · cases removed
      simp
    · cases removed
      simp [Dict.get?_erase]

end Disk

namespace Record

def idIn (es : Entries) : String :=
  (Value.field "id" es).text

def printOf (es : Entries) : Value :=
  (fingerprintOf (.map es)).toOption.getD .null

variable {es fs : Entries}

theorem fingerprintOf_printOf (json : (Value.map es).IsJson) : fingerprintOf (.map es) = .ok (printOf es) := by
  obtain ⟨print, printed⟩ := json.proper.fingerprinted
  rw [printOf, printed]
  rfl

theorem printOf_eq_iff (json : (Value.map es).IsJson) (json' : (Value.map fs).IsJson) :
    printOf es = printOf fs ↔ Alike (.map es) (.map fs) := by
  rw [← fingerprint_eq_iff json json', fingerprintOf_printOf json, fingerprintOf_printOf json',
    Except.ok.injEq]

theorem alike_trans {gs : Entries} (json : (Value.map es).IsJson) (json' : (Value.map fs).IsJson)
    (json'' : (Value.map gs).IsJson) (first : Alike (.map es) (.map fs)) (second : Alike (.map fs) (.map gs)) :
    Alike (.map es) (.map gs) :=
  (printOf_eq_iff json json'').1
    (((printOf_eq_iff json json').2 first).trans ((printOf_eq_iff json' json'').2 second))

theorem ofEntries_json (json : (Value.map es).IsJson) {r : Record} (stored : ofEntries es = .ok r) :
    (Value.field "id" es).isTruthy = true ∧ r = ⟨idIn es, .map es, printOf es⟩ := by
  unfold ofEntries at stored
  cases given : (Value.field "id" es).isTruthy with
  | false => simp [given] at stored
  | true =>
    simp only [given, fingerprintOf_printOf json, json.proper.plain] at stored
    cases stored
    exact ⟨rfl, rfl⟩

end Record

open Record (idIn printOf printOf_eq_iff fingerprintOf_printOf alike_trans ofEntries_json)

/-- The record that was last seen under each id. -/
abbrev Sightings := Collection → String → Option Entries

namespace Sightings

def see (seen : Sightings) (c : Collection) (es : Entries) : Sightings :=
  fun d id => if d = c ∧ id = idIn es then some es else seen d id

def forget (seen : Sightings) (c : Collection) (id : String) : Sightings :=
  fun d other => if d = c ∧ other = id then none else seen d other

/-- What has been seen when a request was answered: a record that was put, found or listed is seen under its
id, and a deleted one is forgotten. -/
def noted (seen : Sightings) : Request × Except Failure Reply → Sightings
  | (.put c record _, .ok .stored) => seen.see c record
  | (.get c _, .ok (.found (some record))) => seen.see c record
  | (.list c, .ok (.listed records)) => records.foldl (fun seen record => seen.see c record) seen
  | (.delete c id, _) => seen.forget c id
  | _ => seen

def after (answered : List (Request × Except Failure Reply)) : Sightings :=
  answered.foldl noted fun _ _ => none

end Sightings

def Request.IsJson : Request → Prop
  | .put _ record _ => (Value.map record).IsJson
  | _ => True

namespace Store

variable {s t start : Store} {c d : Collection} {id name : String} {p : Place} {es : Entries} {seen : Sightings}

-- what a put can do

inductive PutRun (s : Store) (c : Collection) (r : Record) : Bool → Except Failure Unit → Store → Prop where
  | stopped {force : Bool} (f : Failure) : PutRun s c r force (.error f) s
  | skipped {p : Place} (placed : s.place c r.id = .ok p) (there : s.disk.holds p = .ok true)
      (known : s.known.get? (c, r.id) = some r.fingerprint) : PutRun s c r false (.ok ()) s
  | failed {force : Bool} {p : Place} {f : Failure} {e : Disk} (placed : s.place c r.id = .ok p)
      (wrote : s.disk.write p r.document = (.error f, e)) :
    PutRun s c r force (.error f) { s with disk := e }
  | written {force : Bool} {p : Place} {e : Disk} (placed : s.place c r.id = .ok p)
      (due : force = true ∨ ¬ (s.disk.holds p = .ok true ∧ s.known.get? (c, r.id) = some r.fingerprint))
      (wrote : s.disk.write p r.document = (.ok (), e)) :
    PutRun s c r force (.ok ()) { s with disk := e, known := s.known.insert (c, r.id) r.fingerprint }

theorem put_cases (s : Store) (c : Collection) (r : Record) (force : Bool) :
    PutRun s c r force ((put c r force).run s).1 ((put c r force).run s).2 := by
  simp only [put, Action.run_bind, Action.run_state]
  cases placed : s.place c r.id with
  | error cause => exact .stopped _
  | ok p =>
    have writing (due : force = true ∨
        ¬ (s.disk.holds p = .ok true ∧ s.known.get? (c, r.id) = some r.fingerprint)) :
        PutRun s c r force ((do write p r.document; remember c r.id r.fingerprint : Work Unit).run s).1
          ((do write p r.document; remember c r.id r.fingerprint : Work Unit).run s).2 := by
      simp only [Action.run_bind, write]
      rcases wrote : s.disk.write p r.document with ⟨f | _, e⟩
      · exact .failed placed wrote
      · exact .written placed due wrote
    cases force with
    | true => exact writing (.inl rfl)
    | false =>
      simp only [Action.run_ofExcept_ok, Bool.not_false, if_true, Action.run_bind]
      cases judged : s.isUnchanged c p r with
      | error cause => exact .stopped _
      | ok unchanged =>
        rw [isUnchanged, bind_eq_ok] at judged
        obtain ⟨there, holds, judged⟩ := judged
        cases unchanged with
        | true =>
          cases there with
          | false => cases judged
          | true =>
            rw [if_pos rfl, pure_eq_ok, decide_eq_true_eq] at judged
            exact .skipped placed holds judged
        | false =>
          refine writing (.inr fun same => ?_)
          cases holds.symm.trans same.1
          simp [same.2, pure, Except.pure] at judged

-- the files of the records that were seen

/-- The file of the record's id holds the record, up to the order of members. -/
def OnFile (s : Store) (c : Collection) (es : Entries) : Prop :=
  ∃ name kept, recordName (idIn es) = .ok name ∧ s.HoldsRecord c name kept ∧ Alike (.map kept) (.map es)

/-- A file that is not that of the record's id holds the record, up to the order of members. -/
def Misfiled (s : Store) (c : Collection) (es : Entries) : Prop :=
  ∃ name copy, isRecordName name = true ∧ recordName (idIn es) ≠ .ok name ∧ s.HoldsRecord c name copy ∧
    idIn copy = idIn es ∧ Alike (.map copy) (.map es)

/-- The store goes by the records that were seen. Each of them is in the file of its id, unless it was in
another file at the start. -/
structure Tracks (start s : Store) (seen : Sightings) : Prop where
  root : s.root = start.root
  json : ∀ c name content, isRecordName name = true →
    s.disk.files.get? (s.folder c ++ [name]) = some content → content.IsJson
  origin : ∀ c name es, isRecordName name = true → s.HoldsRecord c name es →
    start.HoldsRecord c name es ∨ recordName (idIn es) = .ok name
  known : ∀ c id name, recordName id = .ok name → s.known.get? (c, id) = (seen c id).map printOf
  named : ∀ c id es, seen c id = some es → (Value.map es).IsJson ∧ idIn es = id
  backed : ∀ c id es, seen c id = some es → s.OnFile c es ∨ start.Misfiled c es

theorem folder_of_root (root : t.root = s.root) (c : Collection) : t.folder c = s.folder c := by
  rw [folder, folder, root]

theorem place_eq_iff {other : String} : s.folder d ++ [other] = s.folder c ++ [name] ↔ d = c ∧ other = name := by
  constructor
  · intro same
    obtain ⟨folders, names⟩ := List.append_inj' same rfl
    exact ⟨folder_injective folders, List.singleton_inj.1 names⟩
  · rintro ⟨rfl, rfl⟩
    rfl

theorem HoldsRecord.of_file (holds : s.HoldsRecord c name es) (root : t.root = s.root)
    (file : t.disk.files.get? (s.folder c ++ [name]) = s.disk.files.get? (s.folder c ++ [name])) :
    t.HoldsRecord c name es := by
  refine ⟨?_, holds.identified⟩
  rw [folder_of_root root, file]
  exact holds.file

theorem OnFile.of_files (onFile : s.OnFile c es) (root : t.root = s.root)
    (files : ∀ name, recordName (idIn es) = .ok name →
      t.disk.files.get? (s.folder c ++ [name]) = s.disk.files.get? (s.folder c ++ [name])) : t.OnFile c es := by
  obtain ⟨name, kept, named, holds, alike⟩ := onFile
  exact ⟨name, kept, named, holds.of_file root (files name named), alike⟩

theorem OnFile.alike {fs : Entries} (onFile : s.OnFile c es) (json : (Value.map es).IsJson)
    (json' : (Value.map fs).IsJson) (id : idIn es = idIn fs) (alike : Alike (.map es) (.map fs)) :
    s.OnFile c fs := by
  obtain ⟨name, kept, named, holds, same⟩ := onFile
  exact ⟨name, kept, id ▸ named, holds, alike_trans holds.json json json' same alike⟩

theorem Misfiled.alike {fs : Entries} (misfiled : s.Misfiled c es) (json : (Value.map es).IsJson)
    (json' : (Value.map fs).IsJson) (id : idIn es = idIn fs) (alike : Alike (.map es) (.map fs)) :
    s.Misfiled c fs := by
  obtain ⟨name, copy, record, apart, holds, id', same⟩ := misfiled
  exact ⟨name, copy, record, id ▸ apart, holds, id'.trans id, alike_trans holds.json json json' same alike⟩

structure Refreshed (s : Store) (c : Collection) (id name : String) (file : Option Content)
    (print : Option Value) (t : Store) : Prop where
  root : t.root = s.root
  files : ∀ d other, isRecordName other = true → t.disk.files.get? (s.folder d ++ [other]) =
    if d = c ∧ other = name then file else s.disk.files.get? (s.folder d ++ [other])
  known : ∀ key, t.known.get? key = if key = (c, id) then print else s.known.get? key

theorem Tracks.refreshed {seen' : Sightings} {file : Option Content} {print : Option Value}
    (tracks : Tracks start s seen) (named : recordName id = .ok name)
    (refreshed : Refreshed s c id name file print t)
    (others : ∀ d other, ¬ (d = c ∧ other = id) → seen' d other = seen d other)
    (filed : file = none ∨ file = s.disk.files.get? (s.folder c ++ [name]) ∨
      ∃ es, file = some (.document (.map es)) ∧ (Value.map es).IsJson ∧ idIn es = id)
    (known : print = (seen' c id).map printOf)
    (sighted : ∀ es, seen' c id = some es →
      (Value.map es).IsJson ∧ idIn es = id ∧ (t.OnFile c es ∨ start.Misfiled c es)) :
    Tracks start t seen' where
  root := refreshed.root.trans tracks.root
  json d other content record file := by
    rw [folder_of_root refreshed.root, refreshed.files d other record] at file
    split at file
    · rename_i here
      obtain ⟨rfl, rfl⟩ := here
      obtain rfl | rfl | ⟨es, rfl, json, -⟩ := filed
      · cases file
      · exact tracks.json d other content record file
      · cases file
        exact .document json
    · exact tracks.json d other content record file
  origin d other es record holds := by
    have file := refreshed.files d other record
    by_cases here : d = c ∧ other = name
    · rw [if_pos here] at file
      obtain ⟨rfl, rfl⟩ := here
      obtain ⟨content, there, -, loads⟩ := holds.file
      rw [folder_of_root refreshed.root, file] at there
      obtain rfl | rfl | ⟨es', rfl, json, rfl⟩ := filed
      · cases there
      · refine tracks.origin d other es record (holds.of_file refreshed.root.symm ?_)
        rw [folder_of_root refreshed.root, file]
      · cases there
        rw [Content.load?, json.proper.back] at loads
        cases loads
        exact .inr named
    · rw [if_neg here] at file
      refine tracks.origin d other es record (holds.of_file refreshed.root.symm ?_)
      rw [folder_of_root refreshed.root, file]
  known d other name' named' := by
    rw [refreshed.known]
    by_cases here : d = c ∧ other = id
    · obtain ⟨rfl, rfl⟩ := here
      rw [if_pos rfl, known]
    · have apart : (d, other) ≠ (c, id) := fun same => here (by simpa using same)
      rw [if_neg apart, others d other here]
      exact tracks.known d other name' named'
  named d other es found := by
    by_cases here : d = c ∧ other = id
    · obtain ⟨rfl, rfl⟩ := here
      exact ⟨(sighted es found).1, (sighted es found).2.1⟩
    · rw [others d other here] at found
      exact tracks.named d other es found
  backed d other es found := by
    by_cases here : d = c ∧ other = id
    · obtain ⟨rfl, rfl⟩ := here
      exact (sighted es found).2.2
    · rw [others d other here] at found
      obtain ⟨-, rfl⟩ := tracks.named d other es found
      refine (tracks.backed d _ es found).imp_left fun onFile =>
        onFile.of_files refreshed.root fun name' named' => ?_
      have beside : ¬ (d = c ∧ name' = name) := by
        rintro ⟨same, rfl⟩
        exact here ⟨same, recordName_injective named' named⟩
      rw [refreshed.files d name' (isRecordName_recordName named'), if_neg beside]

-- nothing but files that are not those of records has changed
theorem Tracks.of_files (tracks : Tracks start s seen) (root : t.root = s.root) (known : t.known = s.known)
    (files : ∀ d other, isRecordName other = true →
      t.disk.files.get? (s.folder d ++ [other]) = s.disk.files.get? (s.folder d ++ [other])) :
    Tracks start t seen where
  root := root.trans tracks.root
  json d other content record file := by
    rw [folder_of_root root, files d other record] at file
    exact tracks.json d other content record file
  origin d other es record holds := by
    refine tracks.origin d other es record (holds.of_file root.symm ?_)
    rw [folder_of_root root, files d other record]
  known := by rw [known]; exact tracks.known
  named := tracks.named
  backed d other es found := by
    refine (tracks.backed d other es found).imp_left fun onFile => onFile.of_files root fun name' named => ?_
    exact files d name' (isRecordName_recordName named)

end Store

end Tabletop
