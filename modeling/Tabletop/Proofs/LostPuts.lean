import Tabletop.Proofs.Tracking

set_option autoImplicit false

namespace Tabletop

open Tabletop.Field (Entries)
open Tabletop.Value (Alike)
open Record (idIn printOf printOf_eq_iff)

namespace Store

variable {s t start : Store} {c d : Collection} {id name : String} {p : Place} {es : Entries} {seen : Sightings}

-- a record that was put

def Finds (s : Store) (c : Collection) (es : Entries) : Prop :=
  ∃ kept, ((serve (.get c (idIn es))).run s).1 = .ok (.found (some kept)) ∧ Alike (.map kept) (.map es)

/-- The record is the last one that was seen under its id and the file of the id is there, but it holds
something else. -/
structure Overlooks (s : Store) (seen : Sightings) (c : Collection) (es : Entries) : Prop where
  sighted : ∃ last, seen c (idIn es) = some last ∧ Alike (.map last) (.map es)
  there : ∃ p, s.place c (idIn es) = .ok p ∧ s.disk.holds p = .ok true
  lacks : ¬ s.OnFile c es

theorem Tracks.finds_iff (tracks : Tracks start s seen) {p : Place} (placed : s.place c (idIn es) = .ok p)
    (there : s.disk.holds p = .ok true) : s.Finds c es ↔ s.OnFile c es := by
  have found := (get_tracks tracks c (idIn es)).1
  constructor
  · rintro ⟨kept, reply, alike⟩
    obtain ⟨name, named, -, holds⟩ := (found kept).1 reply
    exact ⟨name, kept, named, holds, alike⟩
  · rintro ⟨name, kept, named, holds, alike⟩
    cases placed.symm.trans (place_of_recordName named s c)
    exact ⟨kept, (found kept).2 ⟨name, named, there, holds⟩, alike⟩

theorem holds_of_write {e : Disk} {v : Value} (placed : s.place c id = .ok p)
    (wrote : s.disk.write p v = (.ok (), e)) : e.holds p = .ok true := by
  have place := Disk.open_of_write (place_scratch placed) wrote
  have file : e.files.get? p = some (.document v) := by
    simpa using Disk.write_leaves wrote place.apart.symm
  simp [Disk.holds, place.short, Dict.contains, file]

theorem put_sighted {force : Bool} (tracks : Tracks start s seen) (json : (Value.map es).IsJson)
    (stored : (serve (.put c es force)).run s = (.ok .stored, t)) :
    (t.Finds c es ↔ t.OnFile c es) ∧ (t.OnFile c es ↔ ¬ (force = false ∧ s.Overlooks seen c es)) ∧
      (¬ t.OnFile c es → start.Misfiled c es) := by
  have tracks' := put_tracks tracks json c force
  rw [stored] at tracks'
  rcases put_serves json c force s with ⟨f, fails⟩ | ⟨identified, outcome, u, ran, served⟩
  · cases stored.symm.trans fails
  · have same := stored.symm.trans served
    cases ran with
    | stopped f => cases same
    | failed placed wrote => cases same
    | skipped placed there known =>
      cases same
      obtain ⟨name, named, -⟩ := place_eq_ok placed
      have last := tracks.known c _ name named
      rw [known, eq_comm, Option.map_eq_some_iff] at last
      obtain ⟨old, found, same⟩ := last
      have alike := (printOf_eq_iff (tracks.named c _ old found).1 json).1 same
      have lost : ¬ s.OnFile c es → s.Overlooks seen c es := fun lacks =>
        ⟨⟨old, found, alike⟩, ⟨_, placed, there⟩, lacks⟩
      refine ⟨tracks'.finds_iff placed there, ⟨fun onFile missed => missed.2.lacks onFile, fun kept => ?_⟩,
        fun lacks => ?_⟩
      · by_contra lacks
        exact kept ⟨rfl, lost lacks⟩
      · have seen : (seen.see c es) c (idIn es) = some es := by simp [Sightings.see]
        exact (tracks'.backed c _ es seen).resolve_left lacks
    | written placed due wrote =>
      cases same
      obtain ⟨name, named, rfl⟩ := place_eq_ok placed
      have onFile : OnFile { s with disk := _, known := s.known.insert (c, idIn es) (printOf es) } c es :=
        ⟨name, es, named, holdsRecord_written json identified named wrote _, .same _⟩
      refine ⟨tracks'.finds_iff placed (holds_of_write placed wrote), iff_of_true onFile ?_, absurd onFile⟩
      rintro ⟨rfl, ⟨⟨old, found, alike⟩, ⟨p, placed', there⟩, -⟩⟩
      have print := tracks.known c _ name named
      rw [found, Option.map_some, (printOf_eq_iff (tracks.named c _ old found).1 json).2 alike] at print
      cases placed.symm.trans placed'
      exact due.resolve_left Bool.false_ne_true ⟨there, print⟩

/-- A record that was put, whatever was asked of the store before, is in the file of its id and is found
there, unless the put was not forced and the store overlooked that the file holds something else: it had
last seen the record under that id. Then the record was in a file under another name at the start. -/
theorem put_kept_iff {requests : List Request} {replies : List (Except Failure Reply)} {disk : Disk}
    {root : Place} {supply : Supply} {force : Bool}
    (files : ∀ c name content, isRecordName name = true →
      disk.files.get? (root ++ [Collection.name c] ++ [name]) = some content → content.IsJson)
    (asked : ∀ r ∈ requests, r.IsJson) (json : (Value.map es).IsJson)
    (served : serveAll requests (create disk root supply) = (replies, s))
    (stored : (serve (.put c es force)).run s = (.ok .stored, t)) :
    (t.Finds c es ↔ t.OnFile c es) ∧
      (t.OnFile c es ↔ ¬ (force = false ∧ s.Overlooks (.after (requests.zip replies)) c es)) ∧
      (¬ t.OnFile c es → (create disk root supply).Misfiled c es) := by
  have tracks := serveAll_tracks (create_tracks files supply) asked
  rw [served] at tracks
  exact put_sighted tracks json stored

end Store

-- two files for one id

namespace Copies

open Store (serve serveAll)

def today : Supply := ⟨0, ⟨2020, 1, 1⟩, ⟨0, 0, 0, 0⟩, none⟩

def draft (v : Int) : Entries :=
  [(.str "id", .str "a"), (.str "v", .int v)]

def disk : Disk :=
  ⟨"data", .ofList [(["characters", "a.json"], .document (.map (draft 1))),
    (["characters", "b.json"], .document (.map (draft 2)))], [], []⟩

def opened : Store := .create disk [] today

theorem draft_json (v : Int) : (Value.map (draft v)).IsJson :=
  .map (.of_names ["id", "v"] rfl (by decide)) (by simp [draft, Value.IsJson.str, Value.IsJson.int])

theorem disk_json {p : Place} {content : Content} (file : disk.files.get? p = some content) : content.IsJson := by
  have member : (p, content) ∈ [(["characters", "a.json"], Content.document (.map (draft 1))),
      (["characters", "b.json"], Content.document (.map (draft 2)))] := Dict.mem_of_get? file
  simp only [List.mem_cons, Prod.mk.injEq, List.not_mem_nil, or_false] at member
  obtain ⟨-, rfl⟩ | ⟨-, rfl⟩ := member
  · exact .document (draft_json 1)
  · exact .document (draft_json 2)

theorem draft_printed (v : Int) : Record.fingerprintOf (.map (draft v)) = .ok (.map (draft v)) := by
  have below : decide (Json.textOf (.str "id") ≤ Json.textOf (.str "v")) = true := by decide
  have ascending : (draft v).Pairwise fun a b => decide (Json.textOf a.1 ≤ Json.textOf b.1) = true := by
    simpa [draft] using below
  have sorts : Json.sortMembers (draft v) = .ok (draft v) :=
    congrArg Except.ok (List.mergeSort_of_pairwise ascending)
  have members : Json.sortedEntries (draft v) = .ok (draft v) := rfl
  rw [Record.fingerprintOf_json (draft_json v), Json.sorted, members]
  simp [bind, Except.bind, sorts, pure, Except.pure]

-- the store after a look at the second file
def glanced : Store :=
  { opened with known := opened.known.insert (.characters, "a") (.map (draft 2)) }

theorem opened_glances :
    (serve (.get .characters "b")).run opened = (.ok (.found (some (draft 2))), glanced) := by
  have placed : opened.place .characters "b" = .ok ["characters", "b.json"] := by decide +kernel
  have holds : opened.disk.holds ["characters", "b.json"] = .ok true := by decide +kernel
  have loaded : opened.disk.load? ["characters", "b.json"] = .ok (some (.map (draft 2))) := rfl
  have reads := Store.readRecord_run (c := .characters) loaded rfl (draft_printed 2)
  simp [serve, Store.get, Action.run_bind, placed, holds, reads]
  rfl

theorem draft_record (v : Int) : Record.ofEntries (draft v) = .ok ⟨"a", .map (draft v), .map (draft v)⟩ :=
  Record.ofEntries_named rfl rfl (draft_printed v) rfl

theorem draft_alike_iff {v w : Int} : Alike (.map (draft v)) (.map (draft w)) ↔ v = w := by
  have print (v : Int) : printOf (draft v) = .map (draft v) := by
    rw [printOf, draft_printed]
    rfl
  rw [← printOf_eq_iff (draft_json v) (draft_json w), print, print]
  simp [draft]

theorem glanced_place : glanced.place .characters "a" = .ok ["characters", "a.json"] := by decide +kernel

theorem glanced_usable : glanced.Usable where
  short := by decide
  free := Store.create_free (fun _ _ => rfl) today
  sure := by decide

-- every other draft is written, and so is the second one by force
theorem glanced_writes (v : Int) (force : Bool) (due : force = true ∨ v ≠ 2) :
    ∃ t, (serve (.put .characters (draft v) force)).run glanced = (.ok .stored, t) := by
  have nameable : Store.Nameable "a" := ⟨"a.json", by decide +kernel, by decide⟩
  have unlike : force = true ∨ glanced.known.get? (.characters, "a") ≠ some (.map (draft v)) := by
    refine due.imp_right fun other => ?_
    simp [glanced, draft, Ne.symm other]
  have wrote := Store.put_due (r := ⟨"a", .map (draft v), .map (draft v)⟩) glanced_usable nameable
    glanced_place unlike
  simp [serve, Action.run_bind, draft_record, wrote]

theorem glanced_skips :
    (serve (.put .characters (draft 2) false)).run glanced = (.ok .stored, glanced) := by
  have unchanged : glanced.isUnchanged .characters ["characters", "a.json"] ⟨"a", .map (draft 2), .map (draft 2)⟩ =
      .ok true := by decide +kernel
  simp [serve, Store.put, Action.run_bind, draft_record, glanced_place, unchanged]

-- the file of the id holds the first draft
theorem glanced_onFile {v : Int} (onFile : glanced.OnFile .characters (draft v)) : v = 1 := by
  obtain ⟨name, kept, named, holds, alike⟩ := onFile
  have own : Store.recordName "a" = .ok "a.json" := by decide +kernel
  obtain rfl : "a.json" = name := Except.ok.inj (own.symm.trans named)
  have first : glanced.HoldsRecord .characters "a.json" (draft 1) :=
    ⟨⟨.document (.map (draft 1)), rfl, .document (draft_json 1), rfl⟩, rfl⟩
  rw [holds.unique first, draft_alike_iff] at alike
  exact alike.symm

end Copies

open Copies in
theorem put_kept_iff_copies :
    Store.serveAll [.get .characters "b"] opened = ([.ok (.found (some (draft 2)))], glanced) ∧
      (∃ t, (Store.serve (.put .characters (draft 2) true)).run glanced = (.ok .stored, t) ∧
        t.OnFile .characters (draft 2) ∧ t.Finds .characters (draft 2)) ∧
      (∃ t, (Store.serve (.put .characters (draft 3) false)).run glanced = (.ok .stored, t) ∧
        t.OnFile .characters (draft 3) ∧ t.Finds .characters (draft 3)) ∧
      (Store.serve (.put .characters (draft 2) false)).run glanced = (.ok .stored, glanced) ∧
        ¬ glanced.OnFile .characters (draft 2) ∧ ¬ glanced.Finds .characters (draft 2) ∧
        opened.Misfiled .characters (draft 2) := by
  have served : Store.serveAll [.get .characters "b"] opened = ([.ok (.found (some (draft 2)))], glanced) := by
    simp [Store.serveAll, opened_glances]
  have asked : ∀ r ∈ [Request.get .characters "b"], r.IsJson := by simp [Request.IsJson]
  obtain ⟨t, forced⟩ := glanced_writes 2 true (.inl rfl)
  obtain ⟨u, fresh⟩ := glanced_writes 3 false (.inr (by decide))
  have kept {v : Int} {force : Bool} {s : Store}
      (stored : (Store.serve (.put .characters (draft v) force)).run glanced = (.ok .stored, s)) :=
    Store.put_kept_iff (fun _ _ _ _ => disk_json) asked (draft_json v) served stored
  refine ⟨served, ⟨t, forced, ?_⟩, ⟨u, fresh, ?_⟩, glanced_skips, ?_⟩
  · obtain ⟨found, stands, -⟩ := kept forced
    have onFile := stands.2 fun missed => Bool.false_ne_true missed.1.symm
    exact ⟨onFile, found.2 onFile⟩
  · obtain ⟨found, stands, -⟩ := kept fresh
    have onFile := stands.2 fun missed => by
      obtain ⟨last, seen, alike⟩ := missed.2.sighted
      obtain rfl : draft 2 = last := Option.some.inj seen
      exact absurd (draft_alike_iff.1 alike) (by decide)
    exact ⟨onFile, found.2 onFile⟩
  · obtain ⟨found, -, misfiled⟩ := kept glanced_skips
    have lacks : ¬ glanced.OnFile .characters (draft 2) := fun onFile =>
      absurd (glanced_onFile onFile) (by decide)
    exact ⟨lacks, mt found.1 lacks, misfiled lacks⟩

open Copies in
/-- The record in the second file is put, and the first file is left as it is. -/
theorem draft_lost :
    (∀ p content, disk.files.get? p = some content → content.IsJson) ∧
      (Store.serveAll [.get .characters "b", .put .characters (draft 2) false, .get .characters "a"] opened).1 =
        [.ok (.found (some (draft 2))), .ok .stored, .ok (.found (some (draft 1)))] := by
  have holds : glanced.disk.holds ["characters", "a.json"] = .ok true := by decide +kernel
  have loaded : glanced.disk.load? ["characters", "a.json"] = .ok (some (.map (draft 1))) := rfl
  have reads := Store.readRecord_run (c := .characters) loaded rfl (draft_printed 1)
  have found : ((Store.serve (.get .characters "a")).run glanced).1 = .ok (.found (some (draft 1))) := by
    simp [Store.serve, Store.get, Action.run_bind, glanced_place, holds, reads]
  refine ⟨fun _ _ => disk_json, ?_⟩
  simp [Store.serveAll, opened_glances, glanced_skips, found]

end Tabletop
