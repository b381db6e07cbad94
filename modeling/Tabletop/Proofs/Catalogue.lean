import Mathlib.Data.List.Sort
import Tabletop.Proofs.Reopened
import Tabletop.Proofs.LostPuts
import Tabletop.Proofs.TextOrder

set_option autoImplicit false

namespace Tabletop

open Tabletop.Field (Entries)
open Tabletop.Json (Written)

-- sorted by descending keys, where members of one key stay in the order that they were in
theorem mergeSort_stable {α β : Type} [LinearOrder β] [DecidableLE β] (key : α → β) {R : α → α → Prop}
    {xs : List α} (inOrder : xs.Pairwise R) : (xs.mergeSort fun a b => decide (key b ≤ key a)).Pairwise fun a b =>
      key b < key a ∨ key a = key b ∧ R a b := by
  let le (a b : α) : Bool := decide (key b ≤ key a)
  have trans (a b c : α) (first : le a b = true) (second : le b c = true) : le a c = true :=
    decide_eq_true (le_trans (of_decide_eq_true second) (of_decide_eq_true first))
  have total (a b : α) : (le a b || le b a) = true := by simpa [le] using le_total (key b) (key a)
  have sorted := List.pairwise_mergeSort (List.zipIdxLE_trans trans) (List.zipIdxLE_total total) xs.zipIdx
  have places : ((xs.zipIdx.mergeSort (List.zipIdxLE le)).map (·.2)).Nodup := by
    rw [((List.mergeSort_perm _ _).map _).nodup_iff, List.zipIdx_map_snd]
    exact List.nodup_range'
  change (xs.mergeSort le).Pairwise _
  rw [← List.mergeSort_zipIdx, List.pairwise_map]
  refine (sorted.and (List.pairwise_map.1 places)).imp_of_mem ?_
  rintro ⟨a, i⟩ ⟨b, j⟩ here there ⟨before, apart⟩
  rw [List.mem_mergeSort, List.mk_mem_zipIdx_iff_getElem?] at here there
  simp only [List.zipIdxLE, le, decide_eq_true_eq] at before apart
  split at before
  · rename_i most
    refine (lt_or_eq_of_le most).imp_right fun same => ⟨same.symm, ?_⟩
    -- equal keys are in the order of their places
    rw [if_pos same.ge, decide_eq_true_eq] at before
    obtain ⟨_, rfl⟩ := List.getElem?_eq_some_iff.1 here
    obtain ⟨_, rfl⟩ := List.getElem?_eq_some_iff.1 there
    exact List.pairwise_iff_getElem.1 inOrder _ _ _ _ (by omega)
  · contradiction

namespace Store

def Summary.ofRuleset (r : Ruleset) : Summary :=
  ⟨.str r.id, .str r.name, .str r.version, .str r.importedAt.isoText⟩

end Store

namespace Ruleset

open Tabletop.Store (Summary)

variable {r q : Ruleset} {v w : Value}

structure IsDated (r : Ruleset) : Prop where
  legible : r.importedAt.Legible
  plain : r.importedAt.offset = none

-- the records and the fingerprints of a ruleset tell what its listing tells

theorem toEntries_congr (same : Summary.ofRuleset q = Summary.ofRuleset r) (w : Value) :
    { q with document := w }.toEntries = { r with document := w }.toEntries := by
  simp only [Summary.ofRuleset, Summary.mk.injEq, Value.str.injEq] at same
  obtain ⟨id, name, version, time⟩ := same
  simp [toEntries, id, name, version, time]

theorem readBack_toEntries (r : Ruleset) (w : Value) :
    Json.readBack (.map { r with document := w }.toEntries) =
      .map { r with document := Json.readBack w }.toEntries := by
  have members : Value.Members { r with document := Json.readBack w }.toEntries :=
    .of_names ["id", "name", "version", "imported_at", "data"] rfl (by decide)
  exact Value.mapOf_members members

def sortedRecord (r : Ruleset) (document : Value) : Value :=
  .map [(.str "data", document), (.str "id", .str r.id), (.str "imported_at", .str r.importedAt.isoText),
    (.str "name", .str r.name), (.str "version", .str r.version)]

theorem sorted_toEntries (sorts : Json.sorted (.map r.toEntries) = .ok v) : ∃ d, v = r.sortedRecord d := by
  cases document : Json.sorted r.document with
  | error cause => simp [Json.sorted, toEntries, Json.sortedEntries, document, bind, Except.bind] at sorts
  | ok d =>
    have entries : Json.sortedEntries r.toEntries = .ok { r with document := d }.toEntries := by
      simp only [toEntries, Json.sortedEntries, document, Json.sorted]
      rfl
    have members : Json.sortMembers { r with document := d }.toEntries =
        .ok (Value.entriesOrEmpty (r.sortedRecord d)) := by
      simp [toEntries, Json.sortMembers, Json.allText, Json.textOf, List.mergeSort,
        List.MergeSort.Internal.splitInTwo, sortedRecord, Value.entriesOrEmpty]
    simp only [Json.sorted, entries, members, bind, Except.bind] at sorts
    exact ⟨d, (Except.ok.inj sorts).symm⟩

theorem plain_sortedRecord (written : Written (r.sortedRecord w) v) : ∃ d, v = r.sortedRecord d := by
  have key (s : String) : Json.memberName? (.str s) = some s := rfl
  cases document : Json.plain w with
  | error cause =>
    simp [Written, sortedRecord, Json.plain, Json.plainEntries, document, key, bind, Except.bind] at written
  | ok d =>
    simp only [Written, sortedRecord, Json.plain, Json.plainEntries, document, key] at written
    exact ⟨d, (Except.ok.inj written).symm⟩

def IsPrint (r : Ruleset) (print : Value) : Prop :=
  ∃ document, print = r.sortedRecord document

theorem isPrint_of_fingerprint (printed : Record.fingerprintOf (.map r.toEntries) = .ok v) : r.IsPrint v := by
  obtain ⟨w, sorts, plain⟩ := bind_eq_ok.1 printed
  obtain ⟨d, rfl⟩ := sorted_toEntries sorts
  exact plain_sortedRecord plain

theorem IsPrint.unique (first : r.IsPrint v) (second : q.IsPrint v) :
    Summary.ofRuleset r = Summary.ofRuleset q := by
  obtain ⟨d, rfl⟩ := first
  obtain ⟨e, same⟩ := second
  simp only [sortedRecord, Value.map.injEq, List.cons.injEq, Prod.mk.injEq, Value.str.injEq] at same
  simp [Summary.ofRuleset, same]

end Ruleset

namespace Store

variable {s t : Store} {d : Dict String Ruleset} {r q : Ruleset} {id name : String} {print : Value}

def fileName (r : Ruleset) : String :=
  (recordName r.id).toOption.getD ""

theorem fileName_eq (named : recordName r.id = .ok name) : fileName r = name := by
  rw [fileName, named]
  rfl

structure Displays (s : Store) (r : Ruleset) : Prop where
  named : recordName r.id = .ok (fileName r)
  file : ∃ document, s.Loads .rulesets (fileName r) { r with document := document }.toEntries

/-- The store holds the rulesets, each under its id and in its own file, and there are no other files of
rulesets. What is remembered of a ruleset is a fingerprint of it. -/
structure Stocks (s : Store) (d : Dict String Ruleset) : Prop where
  displayed : ∀ id r, d.get? id = some r → r.id = id ∧ s.Displays r
  listed : ∀ name ∈ s.recordNames .rulesets, ∃ id r, d.get? id = some r ∧ fileName r = name
  known : ∀ id print, s.known.get? (.rulesets, id) = some print → ∃ r, d.get? id = some r ∧ r.IsPrint print

theorem Loads.of_file {c : Collection} {es : Entries} (loads : s.Loads c name es) (root : t.root = s.root)
    (file : t.disk.files.get? (s.folder c ++ [name]) = s.disk.files.get? (s.folder c ++ [name])) :
    t.Loads c name es := by
  refine ⟨?_, loads.json, loads.identified⟩
  rw [folder_of_root root, Disk.load?, file]
  exact loads.loaded

theorem mem_recordNames {c : Collection} : name ∈ s.recordNames c ↔
    isRecordName name = true ∧ ∃ content, s.disk.files.get? (s.folder c ++ [name]) = some content := by
  rw [recordNames, List.mem_filter, Disk.mem_names, Dict.contains, Option.isSome_iff_exists, and_comm]

theorem Displays.mem (displays : s.Displays r) : fileName r ∈ s.recordNames .rulesets := by
  obtain ⟨document, loads⟩ := displays.file
  refine mem_recordNames.2 ⟨isRecordName_recordName displays.named, ?_⟩
  cases file : s.disk.files.get? (s.folder .rulesets ++ [fileName r]) with
  | none => simpa [Disk.load?, file] using loads.loaded
  | some content => exact ⟨content, rfl⟩

-- a ruleset with the summary of the one that is displayed is displayed as well
theorem Displays.congr (displays : s.Displays q) (same : Summary.ofRuleset q = Summary.ofRuleset r) :
    s.Displays r := by
  have id : q.id = r.id := by simpa [Summary.ofRuleset] using congrArg Summary.id same
  have name : fileName q = fileName r := by rw [fileName, fileName, id]
  obtain ⟨named, document, loads⟩ := displays
  rw [Ruleset.toEntries_congr same, name] at loads
  rw [id, name] at named
  exact ⟨named, document, loads⟩

theorem Displays.of_file (displays : s.Displays r) (root : t.root = s.root)
    (file : t.disk.files.get? (s.folder .rulesets ++ [fileName r]) =
      s.disk.files.get? (s.folder .rulesets ++ [fileName r])) : t.Displays r := by
  obtain ⟨document, loads⟩ := displays.file
  exact ⟨displays.named, document, loads.of_file root file⟩

-- the files of rulesets are as they were, and no more is remembered
theorem Stocks.of_files (stocks : s.Stocks d) (root : t.root = s.root)
    (files : ∀ name, isRecordName name = true → t.disk.files.get? (s.folder .rulesets ++ [name]) =
      s.disk.files.get? (s.folder .rulesets ++ [name]))
    (known : ∀ key print, t.known.get? key = some print → s.known.get? key = some print) : t.Stocks d where
  displayed id r found := by
    obtain ⟨own, displays⟩ := stocks.displayed id r found
    exact ⟨own, displays.of_file root (files _ (isRecordName_recordName displays.named))⟩
  listed name member := by
    obtain ⟨record, file⟩ := mem_recordNames.1 member
    rw [folder_of_root root, files name record] at file
    exact stocks.listed name (mem_recordNames.2 ⟨record, file⟩)
  known id print remembered := stocks.known id print (known _ print remembered)

-- a ruleset that is passed over has the summary of the one that is there
theorem Stocks.skipped (stocks : s.Stocks d) (known : s.known.get? (.rulesets, r.id) = some print)
    (printed : r.IsPrint print) : s.Stocks (d.insert r.id r) where
  displayed := by
    obtain ⟨q, there, printed'⟩ := stocks.known _ _ known
    have shown := (stocks.displayed _ q there).2.congr (printed'.unique printed)
    exact Dict.forall_get?_insert (fun id q _ => stocks.displayed id q) ⟨rfl, shown⟩
  listed name member := by
    obtain ⟨id, q, there, rfl⟩ := stocks.listed name member
    by_cases here : id = r.id
    · have own := (stocks.displayed id q there).1
      exact ⟨id, r, by rw [Dict.get?_insert, if_pos here], by rw [fileName, fileName, own, here]⟩
    · exact ⟨id, q, by rw [Dict.get?_insert, if_neg here, there], rfl⟩
  known id other remembered := by
    rw [Dict.get?_insert]
    split
    · rename_i here
      subst here
      cases known.symm.trans remembered
      exact ⟨r, rfl, printed⟩
    · exact stocks.known id other remembered

-- a ruleset that is written is displayed by its own file, and the others stay where they are
theorem Stocks.written {file : Option Content} (stocks : s.Stocks d) (named : recordName r.id = .ok name)
    (refreshed : Refreshed s .rulesets r.id name file (some print) t) (displays : t.Displays r)
    (printed : r.IsPrint print) : t.Stocks (d.insert r.id r) where
  displayed := by
    refine Dict.forall_get?_insert (fun id q apart found => ?_) ⟨rfl, displays⟩
    obtain ⟨rfl, shown⟩ := stocks.displayed id q found
    refine ⟨rfl, shown.of_file refreshed.root ?_⟩
    rw [refreshed.files _ _ (isRecordName_recordName shown.named), if_neg]
    rintro ⟨-, same⟩
    exact apart (recordName_injective (same ▸ shown.named) named)
  listed other member := by
    by_cases own : other = name
    · exact ⟨r.id, r, by simp [Dict.get?_insert], own ▸ fileName_eq named⟩
    · obtain ⟨record, content⟩ := mem_recordNames.1 member
      rw [folder_of_root refreshed.root, refreshed.files _ _ record, if_neg fun same => own same.2] at content
      obtain ⟨id, q, there, rfl⟩ := stocks.listed other (mem_recordNames.2 ⟨record, content⟩)
      have apart : id ≠ r.id := by
        rintro rfl
        exact own (fileName_eq ((stocks.displayed _ q there).1 ▸ named))
      exact ⟨id, q, by rw [Dict.get?_insert, if_neg apart, there], rfl⟩
  known id other remembered := by
    rw [refreshed.known] at remembered
    rw [Dict.get?_insert]
    by_cases here : id = r.id
    · rw [if_pos (by rw [here]), Option.some.injEq] at remembered
      exact ⟨r, if_pos here, remembered ▸ printed⟩
    · rw [if_neg (by simpa using here)] at remembered
      rw [if_neg here]
      exact stocks.known id other remembered

-- what a put does to the stock

theorem ofEntries_ruleset {rec : Record} (stored : Record.ofEntries r.toEntries = .ok rec) :
    rec.id = r.id ∧ r.IsPrint rec.fingerprint ∧
      ∃ w, Written r.document w ∧ rec.document = .map { r with document := w }.toEntries := by
  have id : Value.field "id" r.toEntries = .str r.id := rfl
  have filled := Record.filled_of_ofEntries id stored
  have given : (Value.str r.id).isTruthy = true := by rw [Value.isTruthy, filled, Bool.not_false]
  simp only [Record.ofEntries, id, given, Bool.not_true, Bool.false_eq_true, if_false, bind_eq_ok,
    pure_eq_ok] at stored
  obtain ⟨print, printed, document, plain, rfl⟩ := stored
  refine ⟨rfl, Ruleset.isPrint_of_fingerprint printed, ?_⟩
  cases written : Json.plain r.document with
  | error cause => simp [Ruleset.toEntries, Json.plain, Json.plainEntries, Json.memberName?, written, bind,
      Except.bind] at plain
  | ok w => exact ⟨w, written, Except.ok.inj (plain.symm.trans (toEntries_written written))⟩

theorem displays_written {w : Value} {e : Disk} (written : Written r.document w)
    (named : recordName r.id = .ok name)
    (wrote : s.disk.write (s.folder .rulesets ++ [name]) (.map { r with document := w }.toEntries) = (.ok (), e))
    (known : Dict (Collection × String) Value) : Displays { s with disk := e, known := known } r := by
  obtain rfl := fileName_eq named
  have beside := scratch_ne_record named (isRecordName_recordName named) (s.folder .rulesets) (s.folder .rulesets)
  have file := Disk.write_leaves wrote beside
  rw [if_pos ⟨rfl, rfl⟩] at file
  have loaded : (Content.document (.map { r with document := w }.toEntries)).load? =
      .ok (some (.map { r with document := Json.readBack w }.toEntries)) := by
    rw [Content.load?, Ruleset.readBack_toEntries]
  have json := Json.readBack_json (.map r.toEntries) (toEntries_written written)
  rw [Ruleset.readBack_toEntries] at json
  refine ⟨named, Json.readBack w, ?_, json, ?_⟩
  · change Disk.load? e _ = _
    rw [Disk.load?]
    exact file ▸ loaded
  · have filled := id_filled named
    change (Value.str r.id).isTruthy = true
    rw [Value.isTruthy, filled, Bool.not_false]

theorem Stocks.put (stocks : s.Stocks d) (r : Ruleset) {outcome : Except Failure Unit}
    (ran : (putRuleset r).run s = (outcome, t)) :
    t.Stocks (if outcome.toOption.isSome then d.insert r.id r else d) := by
  rw [putRuleset, Action.run_bind] at ran
  cases stored : Record.ofEntries r.toEntries with
  | error cause =>
    rw [stored] at ran
    cases ran
    exact stocks
  | ok rec =>
    obtain ⟨own, printed, w, written, document⟩ := ofEntries_ruleset stored
    have run := put_cases s .rulesets rec false
    simp only [stored, Action.run_ofExcept_ok] at ran
    rw [ran] at run
    cases run with
    | stopped f => exact stocks
    | skipped placed there known => exact stocks.skipped (own ▸ known) printed
    | failed placed wrote =>
      obtain ⟨name, named, rfl⟩ := place_eq_ok placed
      refine stocks.of_files rfl (fun other record => ?_) fun _ _ remembered => remembered
      simpa using Disk.write_leaves wrote (scratch_ne_record named record _ _)
    | written placed due wrote =>
      obtain ⟨name, named, rfl⟩ := place_eq_ok placed
      rw [own] at named
      have refreshed := refreshed_written named wrote rec.fingerprint
      rw [document] at wrote
      rw [own]
      exact stocks.written named refreshed (displays_written written named wrote _) printed

/-- The store was filled by putting these rulesets into it. Its directory was without rulesets at first, it may
have been opened anew in between, and other puts may have failed. -/
inductive Catalogue : Store → Dict String Ruleset → Prop where
  | opened {disk : Disk} {root : Place} {supply : Supply} :
      (create disk root supply).recordNames .rulesets = [] → Catalogue (create disk root supply) .empty
  | reopened {s : Store} {d : Dict String Ruleset} {supply : Supply} :
      Catalogue s d → Catalogue (create s.disk s.root supply) d
  | kept {s t : Store} {d : Dict String Ruleset} {r : Ruleset} :
      Catalogue s d → r.IsDated → (putRuleset r).run s = (.ok (), t) → Catalogue t (d.insert r.id r)
  | failed {s t : Store} {d : Dict String Ruleset} {r : Ruleset} {f : Failure} :
      Catalogue s d → (putRuleset r).run s = (.error f, t) → Catalogue t d

theorem Catalogue.stocks (catalogue : Catalogue s d) : s.Stocks d := by
  induction catalogue with
  | opened blank => exact ⟨by simp, by simp [blank], by simp [create]⟩
  | @reopened s d supply _ stocks =>
    exact stocks.of_files rfl (fun name _ => by rw [create_files]) (by simp [create])
  | kept _ _ ran stocks => exact stocks.put _ ran
  | failed _ ran stocks => exact stocks.put _ ran

theorem Catalogue.dated (catalogue : Catalogue s d) : ∀ id r, d.get? id = some r → r.IsDated := by
  induction catalogue with
  | opened => simp
  | reopened _ dated => exact dated
  | kept _ now _ dated => exact Dict.forall_get?_insert (fun id r _ => dated id r) now
  | failed _ _ dated => exact dated

-- the listing

theorem recordNames_ascend (s : Store) (c : Collection) : (s.recordNames c).Pairwise (· < ·) := by
  have names : (s.disk.names (s.folder c)).Nodup := s.disk.names_nodup (s.folder c)
  exact (List.sortedLT_iff_nodup_and_sortedLE.2 ⟨names, List.sortedLE_mergeSort⟩).pairwise.filter _

-- each file gives the record of its ruleset
theorem Stocks.exists_rulesets (stocks : s.Stocks d) {names : List String}
    (listed : ∀ name ∈ names, ∃ id r, d.get? id = some r ∧ fileName r = name) :
    ∃ (rs : List Ruleset) (records : List Entries), rs.map fileName = names ∧
      (∀ r ∈ rs, d.get? r.id = some r) ∧
      List.Forall₂ (s.Loads .rulesets) names records ∧
      records.map Summary.ofEntries = rs.map Summary.ofRuleset := by
  induction names with
  | nil => exact ⟨[], [], rfl, nofun, .nil, rfl⟩
  | cons name names ih =>
    rw [List.forall_mem_cons] at listed
    obtain ⟨⟨id, r, found, rfl⟩, rest⟩ := listed
    obtain ⟨rs, records, files, members, loads, summaries⟩ := ih rest
    obtain ⟨rfl, -, document, here⟩ := stocks.displayed id r found
    refine ⟨r :: rs, _ :: records, congrArg _ files, List.forall_mem_cons.2 ⟨found, members⟩,
      .cons here loads, ?_⟩
    rw [List.map_cons, List.map_cons, summaries]
    rfl

def sortNewest (rs : List Ruleset) : List Ruleset :=
  rs.mergeSort fun a b => decide (b.importedAt.isoText ≤ a.importedAt.isoText)

theorem sortKey_ofRuleset (r : Ruleset) : (Summary.ofRuleset r).sortKey = .str r.importedAt.isoText := by
  by_cases empty : r.importedAt.isoText = "" <;>
    simp [Summary.sortKey, Summary.ofRuleset, Value.isTruthy, empty]

theorem newestFirst_rulesets (rs : List Ruleset) :
    newestFirst (rs.map Summary.ofRuleset) = .ok ((sortNewest rs).map Summary.ofRuleset) := by
  have text : ((rs.map Summary.ofRuleset).map Summary.sortKey).all isText = true := by
    simp [sortKey_ofRuleset, isText]
  rw [newestFirst, if_pos text, sortNewest, List.map_mergeSort]
  intro a _ b _
  simp only [sortKey_ofRuleset, Json.textOf]

/-- The first ruleset was imported later than the second one, or at the same time and its file comes first. -/
def Precedes (a b : Ruleset) : Prop :=
  b.importedAt.less a.importedAt = true ∨ a.importedAt = b.importedAt ∧ fileName a < fileName b

theorem sortNewest_precedes {rs : List Ruleset} (dated : ∀ r ∈ rs, r.IsDated)
    (inOrder : (rs.map fileName).Pairwise (· < ·)) : (sortNewest rs).Pairwise Precedes := by
  have sorted := mergeSort_stable (fun r => r.importedAt.isoText) (List.pairwise_map.1 inOrder)
  refine sorted.imp_of_mem fun {a b} here there before => ?_
  have first := dated a (List.mem_mergeSort.1 here)
  have second := dated b (List.mem_mergeSort.1 there)
  refine before.imp (fun less => ?_) fun tie => ⟨?_, tie.2⟩
  · exact (Moment.isoText_lt_iff second.legible first.legible second.plain first.plain).1 less
  · exact Moment.isoText_injective first.legible second.legible tie.1

-- the rulesets that are listed are all that are in stock
theorem Stocks.perm (stocks : s.Stocks d) {rs : List Ruleset} (files : rs.map fileName = s.recordNames .rulesets)
    (members : ∀ r ∈ rs, d.get? r.id = some r) : rs.Perm (d.entries.map (·.2)) := by
  have names : (rs.map fileName).Nodup := files ▸ (recordNames_ascend s .rulesets).imp ne_of_lt
  have own : ∀ e ∈ d.entries, e.2.id = e.1 := fun e member =>
    (stocks.displayed e.1 e.2 (Dict.get?_eq_some_iff.2 member)).1
  have ids : ((d.entries.map (·.2)).map Ruleset.id).Nodup := by
    rw [List.map_map, List.map_congr_left (g := (·.1)) own]
    exact d.distinct
  refine (List.perm_ext_iff_of_nodup names.of_map ids.of_map).2 fun r => ⟨fun member => ?_, fun member => ?_⟩
  · exact List.mem_map.2 ⟨_, Dict.mem_of_get? (members r member), rfl⟩
  · obtain ⟨⟨id, r⟩, there, rfl⟩ := List.mem_map.1 member
    have found := Dict.get?_eq_some_iff.2 there
    obtain ⟨rfl, displays⟩ := stocks.displayed id r found
    obtain ⟨q, listed, same⟩ := List.mem_map.1 (files ▸ displays.mem)
    have shown := (stocks.displayed q.id q (members q listed)).2
    have found' := members q listed
    rw [recordName_injective shown.named (same ▸ displays.named), found] at found'
    exact Option.some.inj found' ▸ listed

/-- The listing of a store that was filled with rulesets has one entry for each of them. Those that were
imported later come first, and those of one time come in the order of their files. -/
theorem listRulesets_newest (catalogue : Catalogue s d) :
    ∃ (rs : List Ruleset) (t : Store), listRulesets.run s = (.ok (rs.map Summary.ofRuleset), t) ∧
      rs.Perm (d.entries.map (·.2)) ∧ rs.Pairwise Precedes := by
  have stocks := catalogue.stocks
  obtain ⟨rs, records, files, members, loads, summaries⟩ := stocks.exists_rulesets stocks.listed
  obtain ⟨known, listed⟩ := listAll_loads loads
  have inOrder : (rs.map fileName).Pairwise (· < ·) := files ▸ recordNames_ascend s .rulesets
  refine ⟨sortNewest rs, { s with known := known }, ?run, ?each, ?order⟩
  case run =>
    simp only [listRulesets, Action.run_bind, listed, summaries, newestFirst_rulesets]
    rfl
  case each =>
    exact (List.mergeSort_perm ..).trans (stocks.perm files members)
  case order =>
    exact sortNewest_precedes (fun r member => catalogue.dated r.id r (members r member)) inOrder

end Store

-- three rulesets that were imported at midday, one of them a microsecond later

namespace Ruleset.Primer

def issue (id : String) : Value :=
  .map [(.str "meta", single "id" (.str id)), (.str "classes", .map [])]

def midday (micro : Nat) : Moment := ⟨⟨2020, 1, 1⟩, ⟨12, 0, 0, micro⟩, none⟩

def early : Ruleset := (ofDocument (midday 0) (issue "b")).result.toOption.get (by decide +kernel)

def late : Ruleset := (ofDocument (midday 1) (issue "c")).result.toOption.get (by decide +kernel)

def double : Ruleset := (ofDocument (midday 0) (issue "a")).result.toOption.get (by decide +kernel)

theorem issue_json (id : String) : (issue id).IsJson := by
  refine .map (.of_names ["meta", "classes"] rfl (by decide)) ?_
  simp only [List.forall_mem_cons]
  exact ⟨single_json "id" (.str id), .map ⟨nofun, by simp⟩ nofun, nofun⟩

theorem midday_legible {micro : Nat} (bound : micro < 1000000) : (midday micro).Legible :=
  ⟨rfl, rfl, bound, by simp [midday]⟩

theorem issued {id : String} {micro : Nat} {r : Ruleset} (bound : micro < 1000000)
    (read : (ofDocument (midday micro) (issue id)).result = .ok r) :
    (Deposit.ruleset r).IsFair ∧ r.IsDated := by
  have legible := midday_legible bound
  obtain ⟨-, -, time⟩ := ofDocument_keeps read
  exact ⟨.ruleset (issue_json id) legible read, time ▸ legible, by rw [time]; rfl⟩

end Ruleset.Primer

open Ruleset.Primer Recruit in
theorem listRulesets_newest_midday :
    Store.Precedes late double ∧ Store.Precedes double early ∧
      ∃ (s : Store) (d : Dict String Ruleset), Store.Catalogue s d ∧ d.keys = ["b", "c", "a"] ∧
        ∃ (rs : List Ruleset) (t : Store),
          Store.listRulesets.run s = (.ok (rs.map Store.Summary.ofRuleset), t) ∧
          rs.Perm (d.entries.map (·.2)) ∧ rs.Pairwise Store.Precedes := by
  obtain ⟨fair, dated⟩ := issued (r := early) (by decide) (ok_of_get (by decide +kernel))
  obtain ⟨fair', dated'⟩ := issued (r := late) (by decide) (ok_of_get (by decide +kernel))
  obtain ⟨fair'', dated''⟩ := issued (r := double) (by decide) (ok_of_get (by decide +kernel))
  obtain ⟨s, first, filed, known⟩ :=
    fair.put_new bookcase_usable ⟨"b.json", by decide +kernel, by decide⟩ rfl
  obtain ⟨t, second, filed', known'⟩ :=
    fair'.put_new (filed.usable bookcase_usable) ⟨"c.json", by decide +kernel, by decide⟩
      ((known _ (by decide +kernel)).trans rfl)
  obtain ⟨u, third, -, -⟩ :=
    fair''.put_new (filed'.usable (filed.usable bookcase_usable)) ⟨"a.json", by decide +kernel, by decide⟩
      ((known' _ (by decide +kernel)).trans ((known _ (by decide +kernel)).trans rfl))
  have opened : Store.Catalogue bookcase .empty :=
    .opened (by simp [Store.recordNames, Disk.names, Store.create_files, Disk.blank, Dict.empty, Dict.keys])
  have catalogue := ((opened.kept dated first).kept dated' second).kept dated'' third
  exact ⟨.inl (by decide +kernel), .inr ⟨by decide +kernel, by decide +kernel⟩, u, _, catalogue,
    by decide +kernel, Store.listRulesets_newest catalogue⟩

end Tabletop
