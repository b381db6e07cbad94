import Tabletop.Proofs.Dict
import Tabletop.Store

set_option autoImplicit false

namespace Tabletop

namespace Disk

-- a place where a document can be written
structure Open (d : Disk) (p : Place) : Prop where
  short : isLong p = false
  free : d.isFolder p = false
  scratchShort : isLong (scratch p) = false
  scratchFree : d.isFolder (scratch p) = false
  apart : scratch p ≠ p

-- the disk after a write to a place, whether it succeeded or not
structure After (d : Disk) (p : Place) (e : Disk) : Prop where
  folders : e.folders = d.folders
  faults : ∀ fault ∈ e.faults, fault ∈ d.faults
  files : ∀ q, q ≠ p → q ≠ scratch p → e.files.get? q = d.files.get? q

theorem Open.of_folders {d e : Disk} {p : Place} (place : d.Open p)
    (folders : e.folders = d.folders) : e.Open p where
  short := place.short
  free := by
    rw [isFolder, folders]
    exact place.free
  scratchShort := place.scratchShort
  scratchFree := by
    rw [isFolder, folders]
    exact place.scratchFree
  apart := place.apart

theorem attempt_run {d : Disk} {p : Place} (place : d.Open p) (v : Value) :
    d.attempt p v =
      let left := { d with faults := d.faults.tail, files := d.files.erase (scratch p) }
      if d.faults.head? = some true then (.ok (some fullReason), left)
      else (.ok none, { left with files := left.files.insert p (.document v) }) := by
  have movable : d.moveProblem? p = none := by simp [moveProblem?, place.short, place.free]
  simp [attempt, place.scratchShort, place.scratchFree, movable]

-- whether one of two attempts goes well, and the faults still to come
def twoAttempts : List Bool → Bool × List Bool
  | true :: true :: faults => (false, faults)
  | true :: faults => (true, faults.tail)
  | faults => (true, faults.tail)

-- the disk after a write that failed, and after one that went well
def tried (d : Disk) (p : Place) : Disk :=
  { d with faults := (twoAttempts d.faults).2, files := d.files.erase (scratch p) }

def written (d : Disk) (p : Place) (v : Value) : Disk :=
  { d.tried p with files := (d.tried p).files.insert p (.document v) }

theorem write_run {d : Disk} {p : Place} (place : d.Open p) (v : Value) :
    d.write p v =
      if (twoAttempts d.faults).1 then (.ok (), d.written p v)
      else (.error (.storeWrite (fileName p) fullReason), d.tried p) := by
  have again (faults : List Bool) :
      Disk.Open { d with faults := faults, files := d.files.erase (scratch p) } p :=
    place.of_folders rfl
  rw [write, attempt_run place]
  match faults : d.faults with
  | [] => simp [written, tried, faults, twoAttempts]
  | false :: rest => simp [written, tried, faults, twoAttempts]
  | [true] => simp [written, tried, faults, twoAttempts, attempt_run (again [])]
  | true :: false :: rest => simp [written, tried, faults, twoAttempts, attempt_run (again (false :: rest))]
  | true :: true :: rest => simp [tried, faults, twoAttempts, attempt_run (again (true :: rest))]

theorem twoAttempts_left {faults : List Bool} :
    ∀ fault ∈ (twoAttempts faults).2, fault ∈ faults := by
  match faults with
  | [] | false :: rest | [true] | true :: false :: rest | true :: true :: rest =>
    simp +contextual [twoAttempts]

theorem fault_of_twoAttempts {faults : List Bool} (failed : (twoAttempts faults).1 = false) :
    true ∈ faults := by
  match faults, failed with
  | true :: true :: rest, _ => exact List.mem_cons_self ..

theorem write_open {d : Disk} {p : Place} (place : d.Open p) (v : Value) :
    ∃ e, d.After p e ∧
      (d.write p v = (.ok (), e) ∧ e.files.get? p = some (.document v) ∨
        d.write p v = (.error (.storeWrite (fileName p) fullReason), e) ∧
          e.files.get? p = d.files.get? p ∧ true ∈ d.faults) := by
  have erased (q : Place) (beside : q ≠ scratch p) : (d.tried p).files.get? q = d.files.get? q := by
    simp [tried, beside]
  have tried : d.After p (d.tried p) := ⟨rfl, twoAttempts_left, fun q _ => erased q⟩
  rw [write_run place]
  cases outcome : (twoAttempts d.faults).1 with
  | true =>
    refine ⟨d.written p v, ⟨rfl, tried.faults, fun q apart beside => ?_⟩, .inl ⟨rfl, by simp [written]⟩⟩
    rw [written, Dict.get?_insert, if_neg apart, erased q beside]
  | false =>
    exact ⟨d.tried p, tried, .inr ⟨rfl, erased p place.apart.symm, fault_of_twoAttempts outcome⟩⟩

theorem remove_run {d : Disk} {p : Place} (place : d.Open p) :
    d.remove p = (.ok (d.files.contains p), { d with files := d.files.erase p }) := by
  have holds : d.holds p = .ok (d.files.contains p) := by simp [holds, place.short, place.free]
  cases present : d.files.contains p with
  | true => simp [remove, holds, present, place.free]
  | false =>
    rw [remove, holds, present, Dict.erase_of_absent (by simpa [Dict.contains] using present)]

theorem attempt_folders (d : Disk) (p : Place) (v : Value) :
    (d.attempt p v).2.folders = d.folders := by
  unfold attempt
  simp only
  repeat' split
  all_goals rfl

theorem open_of_attempt {d e : Disk} {p : Place} {v : Value} (apart : scratch p ≠ p)
    (wrote : d.attempt p v = (.ok none, e)) : d.Open p := by
  unfold attempt at wrote
  cases scratchShort : isLong (scratch p) with
  | true => simp [scratchShort] at wrote
  | false =>
    cases scratchFree : d.isFolder (scratch p) with
    | true => simp [scratchShort, scratchFree] at wrote
    | false =>
      simp only [scratchShort, scratchFree] at wrote
      unfold moveProblem? at wrote
      cases short : isLong p with
      | true => by_cases faulty : d.faults.head? = some true <;> simp [faulty, short] at wrote
      | false =>
        cases free : d.isFolder p with
        | true => by_cases faulty : d.faults.head? = some true <;> simp [faulty, short, free] at wrote
        | false => exact ⟨short, free, scratchShort, scratchFree, apart⟩

-- a document is written at open places only
theorem open_of_write {d e : Disk} {p : Place} {v : Value} (apart : scratch p ≠ p)
    (wrote : d.write p v = (.ok (), e)) : d.Open p := by
  have folders := attempt_folders d p v
  unfold write at wrote
  split at wrote
  · rename_i first
    exact open_of_attempt apart first
  · simp at wrote
  · rename_i failed
    rw [failed] at folders
    split at wrote
    · rename_i second
      exact (open_of_attempt apart second).of_folders folders.symm
    · simp at wrote
    · simp at wrote

end Disk

namespace Store

theorem recordName_eq_ok {id name : String} (named : recordName id = .ok name) :
    ∃ safe, safe = Text.percentEncode id ∧ safe ≠ "" ∧ name = safe ++ ".json" := by
  unfold recordName at named
  simp only at named
  split at named
  · contradiction
  · rename_i fit
    cases named
    exact ⟨_, rfl, fun empty => fit (by simp [empty]), rfl⟩

theorem id_filled {id name : String} (named : recordName id = .ok name) : id.isEmpty = false := by
  obtain ⟨safe, encoded, some, -⟩ := recordName_eq_ok named
  rw [Bool.eq_false_iff]
  intro empty
  rw [String.isEmpty_iff.1 empty] at encoded
  exact some (encoded.trans (by decide +kernel))

theorem place_eq_ok {s : Store} {c : Collection} {id : String} {p : Place}
    (placed : s.place c id = .ok p) : ∃ name, recordName id = .ok name ∧ p = s.folder c ++ [name] := by
  unfold place at placed
  cases named : recordName id with
  | error cause => simp [named, Except.map] at placed
  | ok name =>
    simp only [named, Except.map, Except.ok.injEq] at placed
    exact ⟨name, rfl, placed.symm⟩

theorem place_of_root {s t : Store} (root : t.root = s.root) (c : Collection) (id : String) :
    t.place c id = s.place c id := by
  rw [Store.place, Store.place, Store.folder, Store.folder, root]

theorem place_dropLast {s : Store} {c : Collection} {id : String} {p : Place}
    (placed : s.place c id = .ok p) : p.dropLast = s.folder c := by
  obtain ⟨name, -, rfl⟩ := place_eq_ok placed
  simp

theorem scratch_dropLast (p : Place) : (Disk.scratch p).dropLast = p.dropLast := by
  simp [Disk.scratch]

theorem folder_apart (s : Store) : s.folder .rulesets ≠ s.folder .characters := by
  simp [folder, Collection.name]

-- a record ends in `json`, its scratch file in `tmp`
theorem place_scratch {s : Store} {c : Collection} {id : String} {p : Place}
    (placed : s.place c id = .ok p) : Disk.scratch p ≠ p := by
  obtain ⟨name, named, rfl⟩ := place_eq_ok placed
  obtain ⟨safe, -, -, rfl⟩ := recordName_eq_ok named
  intro same
  have last := congrArg (fun q : Place => (q.getLast?.getD "").toList.getLast?) same
  simp [Disk.scratch] at last

end Store

end Tabletop
