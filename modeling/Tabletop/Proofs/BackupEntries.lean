import Tabletop.Proofs.BackupTrip
import Tabletop.Proofs.JudgedEntries

set_option autoImplicit false

namespace Tabletop

open Tabletop.Field (Entries)

namespace Store

variable {s t : Store} {c : Collection} {e : Supply × Value} {document : Record → Prop} {id : String}

-- the entries of a backup

def listed (c : Collection) (backup : Entries) : List Value :=
  (Value.looped (Value.field c.name backup)).toOption.getD []

def entriesIn (s : Store) (backup : Entries) : Collection → List (Supply × Value)
  | .rulesets => s.supply.dealt (listed .rulesets backup)
  | .characters =>
    (s.supply.after (listed .rulesets backup).length).dealt (listed .characters backup)

theorem listed_of_looped {backup : Entries} {vs : List Value}
    (walked : Value.looped (Value.field c.name backup) = .ok vs) : listed c backup = vs := by
  rw [listed, walked]
  rfl

theorem listed_json {backup : Entries} (json : (Value.map backup).IsJson) (c : Collection) :
    ∀ v ∈ listed c backup, v.IsJson := by
  rw [listed]
  cases walked : Value.looped (Value.field c.name backup) with
  | error cause => simp [Except.toOption]
  | ok xs => exact Value.looped_json (Value.field_json json c.name) walked

theorem mem_dealt {supply : Supply} {vs : List Value} (member : e ∈ supply.dealt vs) : e.2 ∈ vs := by
  induction vs generalizing supply with
  | nil => cases member
  | cons v vs ih =>
    rcases List.mem_cons.1 member with rfl | later
    · exact List.mem_cons_self
    · exact List.mem_cons_of_mem _ (ih later)

theorem entriesIn_json {backup : Entries} (json : (Value.map backup).IsJson) (c : Collection) :
    ∀ e ∈ s.entriesIn backup c, e.2.IsJson := by
  intro e member
  cases c with
  | rulesets => exact listed_json json .rulesets _ (mem_dealt member)
  | characters => exact listed_json json .characters _ (mem_dealt member)

-- a clock that is asked twice for each entry

theorem after_legible {supply : Supply} {n k : Nat} (legible : supply.now.Legible)
    (spare : supply.now.Spare (2 * (n + k))) :
    (supply.after n).now.Legible ∧ (supply.after n).now.Spare (2 * k) := by
  induction n generalizing supply with
  | zero =>
    have spare : supply.now.Spare (2 * k) := by simpa using spare
    exact ⟨legible, spare⟩
  | succ n ih =>
    have spare : supply.now.Spare (2 * (n + k) + 2) := by
      rwa [show 2 * (n + k) + 2 = 2 * (n + 1 + k) by omega]
    obtain ⟨-, second, rest⟩ := Moment.next_next_legible legible spare
    exact ih second rest

theorem dealt_legible {supply : Supply} {vs : List Value} (legible : supply.now.Legible)
    (spare : supply.now.Spare (2 * vs.length)) :
    ∀ e ∈ supply.dealt vs, e.1.now.Legible ∧ e.1.now.next.Legible := by
  induction vs generalizing supply with
  | nil => exact nofun
  | cons v vs ih =>
    obtain ⟨first, second, rest⟩ := Moment.next_next_legible (n := 2 * vs.length) legible spare
    exact List.forall_mem_cons.2 ⟨⟨legible, first⟩, ih second rest⟩

-- the records that the entries become

theorem latest_restocked (s : Store) (backup : Entries) (c : Collection) (id : String) :
    latest c id (restocked s.supply (listed .rulesets backup) (listed .characters backup)) =
      latest c id (((s.entriesIn backup c).filterMap c.recordIn).map fun r => (c, r)) := by
  rw [restocked, Collection.recordsIn, Collection.recordsIn, latest_append]
  cases c with
  | rulesets =>
    rw [latest_apart (by decide)]
    rfl
  | characters =>
    rw [latest_apart (c := .characters) (d := .rulesets) (by decide), Option.or_none]
    rfl

theorem latest_of_split {entries before after : List (Supply × Value)} {r : Record}
    (split : entries = before ++ e :: after) (becomes : c.recordIn e = some r)
    (last : ∀ q ∈ after, (c.recordIn q).map Record.id ≠ some r.id) :
    latest c r.id ((entries.filterMap c.recordIn).map fun r => (c, r)) = some (.document r.document) := by
  rw [split, List.filterMap_append, List.filterMap_cons, becomes, List.map_append, List.map_cons]
  refine latest_last r _ fun q member => ?_
  obtain ⟨r', later, rfl⟩ := List.mem_map.1 member
  obtain ⟨e', member, becomes'⟩ := List.mem_filterMap.1 later
  rintro ⟨-, same⟩
  exact last e' member (by rw [becomes']; exact congrArg some same)

theorem latest_of_absent {entries : List (Supply × Value)}
    (absent : ∀ e ∈ entries, (c.recordIn e).map Record.id ≠ some id) :
    latest c id ((entries.filterMap c.recordIn).map fun r => (c, r)) = none := by
  refine latest_none fun q member => ?_
  obtain ⟨r, later, rfl⟩ := List.mem_map.1 member
  obtain ⟨e, member, becomes⟩ := List.mem_filterMap.1 later
  rintro ⟨-, same⟩
  exact absent e member (by rw [becomes]; exact congrArg some same)

-- what an import makes of a backup

/-- Both lists can be walked through, and none of their entries stops the import. -/
structure Admits (s : Store) (backup : Entries) : Prop where
  walks : ∀ c : Collection, (Value.field c.name backup).IsWalkable
  fits : ∀ c, ∀ e ∈ s.entriesIn backup c, EntryFits c e

def IsLastUnder (s : Store) (backup : Entries) (c : Collection) (id : String) (e : Supply × Value) : Prop :=
  ∃ before after, s.entriesIn backup c = before ++ e :: after ∧ idTaken c e = some id ∧
    ∀ q ∈ after, idTaken c q ≠ some id

/-- The entries that are taken in are counted, and each one that is the last under its id is given back
under that id; the files of all other ids are as they were. -/
structure Restores (s : Store) (backup : Entries) (n : Restored) (t : Store) : Prop where
  countRulesets : n.rulesets = ((s.entriesIn backup .rulesets).filterMap rulesetIn).length
  countCharacters : n.characters = ((s.entriesIn backup .characters).filterMap characterIn).length
  rulesets : ∀ e r, s.IsLastUnder backup .rulesets r.id e → rulesetIn e = some r →
    ((getRuleset r.id).run t).1 =
      (Failure.ofExcept (importTime t.supply.now (Value.field "imported_at" e.2.entriesOrEmpty))).map
        fun imported => some (r.importedOn imported)
  characters : ∀ e a, s.IsLastUnder backup .characters a.id e → characterIn e = some a →
    ((getCharacter a.id).run t).1 = .ok (some a.settled) ∧ (Character.PlainKeys e.2 → a.settled = a)
  root : t.root = s.root
  folders : t.disk.folders = s.disk.folders
  others : ∀ c id p, s.place c id = .ok p → (∀ e ∈ s.entriesIn backup c, idTaken c e ≠ some id) →
    t.disk.files.get? p = s.disk.files.get? p

section Restores

variable {backup : Entries} {n : Restored}

theorem fitIn_iff (json : (Value.map backup).IsJson) :
    FitIn s.supply (listed .rulesets backup) (listed .characters backup) ↔
      ∀ c, ∀ e ∈ s.entriesIn backup c, EntryFits c e := by
  have same (c : Collection) (e : Supply × Value) (member : e ∈ s.entriesIn backup c) :
      c.Fits e ↔ EntryFits c e := by
    obtain ⟨document, judged⟩ := judged_entry c (entriesIn_json json c e member)
    exact judged.fits_iff
  constructor
  · intro fit c e member
    refine (same c e member).1 ?_
    cases c with
    | rulesets => exact fit.fitRulesets e member
    | characters => exact fit.fitCharacters e member
  · intro fits
    exact ⟨fun e member => (same .rulesets e member).2 (fits .rulesets e member),
      fun e member => (same .characters e member).2 (fits .characters e member)⟩

theorem recordIn_id (json : (Value.map backup).IsJson) (fits : ∀ e ∈ s.entriesIn backup c, EntryFits c e) :
    ∀ e ∈ s.entriesIn backup c, (c.recordIn e).map Record.id = idTaken c e := by
  intro e member
  obtain ⟨document, judged⟩ := judged_entry c (entriesIn_json json c e member)
  exact judged.idTaken (fits e member)

theorem length_filterMap_of_map {α β γ : Type} {f : α → Option β} {g : α → Option γ} {xs : List α}
    (id : β → String) (id' : γ → String) (same : ∀ x ∈ xs, (f x).map id = (g x).map id') :
    (xs.filterMap f).length = (xs.filterMap g).length := by
  rw [← List.length_map id, ← List.length_map id', List.map_filterMap, List.map_filterMap,
    List.filterMap_congr same]

-- the file of an id after the import
theorem file_of_last (json : (Value.map backup).IsJson) (usable : s.Usable)
    (fits : ∀ e ∈ s.entriesIn backup c, EntryFits c e)
    (filed : Filed (restocked s.supply (listed .rulesets backup) (listed .characters backup)) s t)
    (last : s.IsLastUnder backup c id e) (judged : Judged c e document) :
    ∃ r p, document r ∧ r.id = id ∧ t.place c id = .ok p ∧ t.disk.Open p ∧
      t.disk.files.get? p = some (.document r.document) := by
  obtain ⟨before, after, split, taken, later⟩ := last
  have member : e ∈ s.entriesIn backup c := by simp [split]
  obtain ⟨r, becomes, rfl, nameable, holds⟩ := judged.taken (fits e member) taken
  obtain ⟨name, -, placed⟩ := nameable.place s c
  have usable' := filed.usable usable
  have there := (filed.place c r.id).trans placed
  have newest : latest c r.id (restocked s.supply (listed .rulesets backup) (listed .characters backup)) =
      some (.document r.document) := by
    rw [latest_restocked]
    refine latest_of_split split becomes fun q found => ?_
    rw [recordIn_id json fits q (by simp [split, found])]
    exact later q found
  refine ⟨r, _, holds, rfl, there, nameable.open usable'.short (usable'.free c) there, ?_⟩
  rw [filed.files c r.id _ placed, newest]
  rfl

theorem rulesetOf_setField {es : Entries} {supply : Supply} {r : Ruleset}
    (found : rulesetIn (supply, .map es) = some r) (now : Moment) :
    rulesetOf now (Value.setField "id" (.str r.id) es) =
      (Failure.ofExcept (importTime now (Value.field "imported_at" es))).map
        fun imported => some (r.importedOn imported) := by
  have other (name : String) (apart : "id" ≠ name) :
      Value.field name (Value.setField "id" (.str r.id) es) = Value.field name es := by
    rw [Value.field, Value.field?_setField, if_neg apart, Value.field]
  rw [rulesetOf, other "data" (by decide), other "imported_at" (by decide),
    Ruleset.ofDocument_now supply.now now]
  simp only [rulesetIn] at found
  cases read : (Ruleset.ofDocument supply.now (Value.field "data" es)).result with
  | error f => simp [read, Except.toOption] at found
  | ok q =>
    obtain rfl : q = r := by simpa [read, Except.toOption] using found
    simp only [Except.map, Ruleset.importedOn]
    cases importTime now (Value.field "imported_at" es) <;> rfl

theorem ruleset_restored (json : (Value.map backup).IsJson) (usable : s.Usable)
    (fits : ∀ e ∈ s.entriesIn backup .rulesets, EntryFits .rulesets e)
    (filed : Filed (restocked s.supply (listed .rulesets backup) (listed .characters backup)) s t)
    {r : Ruleset} (last : s.IsLastUnder backup .rulesets r.id e) (found : rulesetIn e = some r) :
    ((getRuleset r.id).run t).1 =
      (Failure.ofExcept (importTime t.supply.now (Value.field "imported_at" e.2.entriesOrEmpty))).map
        fun imported => some (r.importedOn imported) := by
  obtain ⟨supply, v⟩ := e
  have entry : v.IsJson := by
    obtain ⟨before, after, split, -⟩ := last
    exact entriesIn_json (s := s) json .rulesets (supply, v) (by simp [split])
  obtain ⟨rec, p, ⟨es, same, document⟩, named, placed, place, file⟩ :=
    file_of_last json usable fits filed last (judged_ruleset entry)
  obtain rfl : v = .map es := same
  rw [named] at document
  rw [document] at file
  have json' : (Value.map (Value.setField "id" (.str r.id) es)).IsJson :=
    Value.setField_json entry (.str r.id)
  have given : (Value.field "id" (Value.setField "id" (.str r.id) es)).isTruthy = true := by
    obtain ⟨name, named, -⟩ := place_eq_ok placed
    rw [Value.field, Value.field?_setField, if_pos rfl]
    simp [Value.isTruthy, id_filled named]
  obtain ⟨u, run⟩ := getRuleset_run placed place.short file json'.proper given
  rw [run]
  exact rulesetOf_setField found t.supply.now

theorem character_restored (json : (Value.map backup).IsJson) (usable : s.Usable)
    (timely : s.Timely ((listed .rulesets backup).length + (listed .characters backup).length))
    (fits : ∀ e ∈ s.entriesIn backup .characters, EntryFits .characters e)
    (filed : Filed (restocked s.supply (listed .rulesets backup) (listed .characters backup)) s t)
    {a : Character} (last : s.IsLastUnder backup .characters a.id e) (found : characterIn e = some a) :
    ((getCharacter a.id).run t).1 = .ok (some a.settled) ∧ (Character.PlainKeys e.2 → a.settled = a) := by
  have member : e ∈ s.entriesIn backup .characters := by
    obtain ⟨before, after, split, -⟩ := last
    simp [split]
  have entry := entriesIn_json json .characters e member
  obtain ⟨start, spare⟩ := after_legible timely.legible timely.spare
  obtain ⟨now, next⟩ := dealt_legible start spare e member
  obtain ⟨notices, read⟩ : ∃ notices, Character.ofValue e.1 e.2 = .ok (a, notices) := by
    unfold characterIn at found
    split at found
    · rename_i b notices read
      cases found
      exact ⟨notices, read⟩
    · cases found
  obtain ⟨rec, p, ⟨b, same, document⟩, -, placed, place, file⟩ :=
    file_of_last json usable fits filed last (judged_character e)
  obtain rfl : a = b := Option.some.inj (found.symm.trans same)
  rw [document] at file
  have legible := (Character.ofValue_legible entry.proper.plain now next read).1
  refine ⟨congrArg Prod.fst (run_getCharacter legible ⟨p, placed, place, file⟩), fun plain => ?_⟩
  exact (Character.Keeps.of_record entry plain now next read).settled

theorem restores_of_filed (json : (Value.map backup).IsJson) (usable : s.Usable)
    (timely : s.Timely ((listed .rulesets backup).length + (listed .characters backup).length))
    (fits : ∀ c, ∀ e ∈ s.entriesIn backup c, EntryFits c e)
    (filed : Filed (restocked s.supply (listed .rulesets backup) (listed .characters backup)) s t) :
    Restores s backup ⟨(Collection.rulesets.recordsIn s.supply (listed .rulesets backup)).length,
      (Collection.characters.recordsIn (s.supply.after (listed .rulesets backup).length)
        (listed .characters backup)).length⟩ t where
  countRulesets := by
    refine (List.length_map _).trans (length_filterMap_of_map Record.id Ruleset.id ?_)
    exact recordIn_id json (fits .rulesets)
  countCharacters := by
    refine (List.length_map _).trans (length_filterMap_of_map Record.id Character.id ?_)
    exact recordIn_id json (fits .characters)
  rulesets e r last found := ruleset_restored json usable (fits .rulesets) filed last found
  characters e a last found := character_restored json usable timely (fits .characters) filed last found
  root := filed.root
  folders := filed.folders
  others c id p placed absent := by
    rw [filed.files c id p placed, latest_restocked, latest_of_absent fun e member => ?_]
    · rfl
    · rw [recordIn_id json (fits c) e member]
      exact absent e member

theorem importBackup_unwalked (s : Store) (json : (Value.map backup).IsJson)
    (unwalked : ¬ ∀ c : Collection, (Value.field c.name backup).IsWalkable) :
    ∃ f t, (importBackup backup).run s = (.error f, t) := by
  have walks (c : Collection) := Value.looped_completes (Value.field_json json c.name)
  cases first : Value.looped (Value.field "rulesets" backup) with
  | error cause =>
    refine ⟨.breakdown cause, s, ?_⟩
    simp only [importBackup, first, Action.run_bind]
    rfl
  | ok rulesets =>
    cases second : Value.looped (Value.field "characters" backup) with
    | error cause => exact importBackup_unlisted s first second
    | ok characters =>
      refine absurd (fun c => ?_) unwalked
      cases c with
      | rulesets => exact (walks .rulesets).1 ⟨_, first⟩
      | characters => exact (walks .characters).1 ⟨_, second⟩

/-- An import goes through exactly if both lists can be walked through and each of their entries is
taken in under an id that has a file, or is an object that is refused. -/
theorem importBackup_restores (json : (Value.map backup).IsJson) (usable : s.Usable)
    (timely : s.Timely ((listed .rulesets backup).length + (listed .characters backup).length)) :
    (Completes ((importBackup backup).run s).1 ↔ s.Admits backup) ∧
      ∀ n t, (importBackup backup).run s = (.ok n, t) → Restores s backup n t := by
  have stops {f : Failure} {t : Store} (run : (importBackup backup).run s = (.error f, t))
      (bad : ¬ s.Admits backup) :
      (Completes ((importBackup backup).run s).1 ↔ s.Admits backup) ∧
        ∀ n t, (importBackup backup).run s = (.ok n, t) → Restores s backup n t := by
    rw [run]
    exact ⟨iff_of_false (by simp [Completes]) bad, by simp⟩
  by_cases walks : ∀ c : Collection, (Value.field c.name backup).IsWalkable
  · have walked (c : Collection) : Value.looped (Value.field c.name backup) = .ok (listed c backup) := by
      obtain ⟨vs, walked⟩ := (Value.looped_completes (Value.field_json json c.name)).2 (walks c)
      rw [walked, listed_of_looped walked]
    rcases importBackup_run usable (walked .rulesets) (walked .characters) with
      ⟨fit, t, run, filed⟩ | ⟨bad, f, t, run⟩
    · have fits := (fitIn_iff json).1 fit
      have whole := restores_of_filed json usable timely fits filed
      refine ⟨iff_of_true ⟨_, congrArg Prod.fst run⟩ ⟨walks, fits⟩, fun n u went => ?_⟩
      cases run.symm.trans went
      exact whole
    · exact stops run fun admits => bad ((fitIn_iff json).2 admits.fits)
  · obtain ⟨f, t, run⟩ := importBackup_unwalked s json walks
    exact stops run fun admits => walks admits.walks

end Restores

end Store

-- a backup with good entries after bad ones, and backups that stop at their first entry

namespace Recruit

open Ruleset.Primer (single single_json graded graded_json)
open Store (EntryFits RulesetFits CharacterFits)

def parcel (rulesets characters : Value) : Entries :=
  [(.str "rulesets", rulesets), (.str "characters", characters)]

def hollow : Value := single "data" (single "meta" (.map []))

def nameless : Value := single "inventory" (.list [single "note" (.str "nameless")])

def named : Value := single "id" (.str "ok")

def mixed : Entries :=
  parcel (.list [hollow, single "data" graded]) (.list [nameless, named])

theorem parcel_json {rulesets characters : Value} (json : rulesets.IsJson) (json' : characters.IsJson) :
    (Value.map (parcel rulesets characters)).IsJson := by
  refine .map (.of_names ["rulesets", "characters"] rfl (by decide)) ?_
  simp only [parcel, List.forall_mem_cons]
  exact ⟨json, json', by simp⟩

theorem hollow_json : hollow.IsJson :=
  single_json _ (single_json _ (.map ⟨by simp, by simp⟩ (by simp)))

theorem named_json : named.IsJson :=
  single_json _ (.str "ok")

theorem mixed_json : (Value.map mixed).IsJson := by
  refine parcel_json (.list ?_) (.list ?_) <;> simp only [List.forall_mem_cons]
  · exact ⟨hollow_json, single_json _ graded_json, by simp⟩
  · refine ⟨single_json _ (.list fun v member => ?_), named_json, by simp⟩
    rw [List.mem_singleton.1 member]
    exact single_json _ (.str "nameless")

theorem hollow_fits : RulesetFits hollow := by
  refine ⟨fun e member => ?_, fun accepted => absurd accepted.2 (by decide)⟩
  cases (show e ∈ ([] : Entries) from member)

theorem graded_fits : RulesetFits (single "data" graded) := by
  have data : Value.field "data" [(.str "data", graded)] = graded := rfl
  have nameable : Store.Nameable (Ruleset.idIn graded) := ⟨"r.json", by decide +kernel, by decide⟩
  rw [single, RulesetFits, data]
  rcases Ruleset.ofDocument_outcome graded_json Ruleset.Primer.shelved with
    ⟨-, refused, -⟩ | ⟨looked, -, loaded, -⟩ | ⟨-, cause, stopped⟩
  · exact absurd (Ruleset.Primer.withProgression_accepted _) refused
  · exact ⟨looked, fun _ => ⟨loaded, nameable⟩⟩
  · have imported : ((Ruleset.ofDocument Ruleset.Primer.shelved graded).result.toOption).isSome = true := by
      decide +kernel
    simp [stopped, Except.toOption] at imported

theorem nameless_fits : CharacterFits (supply.after 2, nameless) := by
  have passed : ((Store.characterOf (supply.after 2) nameless).toOption.any Option.isNone) = true := by
    decide +kernel
  rw [Store.characterOf] at passed
  cases read : Character.ofValue (supply.after 2) nameless with
  | refused faults =>
    simp only [CharacterFits, read]
    rfl
  | ok result => simp [read, Failure.ofChecked, Except.toOption] at passed
  | broken cause => simp [read, Failure.ofChecked, Except.toOption] at passed

theorem named_fits : CharacterFits (supply.after 3, named) := by
  have nameable : Store.Nameable "ok" := ⟨"ok.json", by decide +kernel, by decide⟩
  have taken : Store.idTaken .characters (supply.after 3, named) = some "ok" := by decide +kernel
  rw [Store.idTaken, Store.characterIn] at taken
  cases read : Character.ofValue (supply.after 3) named with
  | ok result =>
    rw [read] at taken
    simp only [CharacterFits, read]
    exact Option.some.inj taken ▸ nameable
  | refused faults => simp [read] at taken
  | broken cause => simp [read] at taken

theorem mixed_admitted (base : String) : (opened base).Admits mixed where
  walks c := by cases c <;> trivial
  fits c := by
    cases c with
    | rulesets =>
      have entries : (opened base).entriesIn mixed .rulesets =
          [(supply, hollow), (supply.next, single "data" graded)] := rfl
      rw [entries, List.forall_mem_cons, List.forall_mem_singleton]
      exact ⟨hollow_fits, graded_fits⟩
    | characters =>
      have entries : (opened base).entriesIn mixed .characters =
          [(supply.after 2, nameless), (supply.after 3, named)] := rfl
      rw [entries, List.forall_mem_cons, List.forall_mem_singleton]
      exact ⟨nameless_fits, named_fits⟩

end Recruit

open Recruit in
theorem importBackup_restores_recruit :
    ∃ t, (Value.map mixed).IsJson ∧ (opened "data").Usable ∧ (opened "data").Timely 4 ∧
      (opened "data").Admits mixed ∧ (Store.importBackup mixed).run (opened "data") = (.ok ⟨1, 1⟩, t) ∧
      (opened "data").Restores mixed ⟨1, 1⟩ t := by
  have usable : (opened "data").Usable := Store.create_usable rfl "data" supply
  have timely : (opened "data").Timely 4 := .of_year shelved_legible (by decide) (by decide)
  obtain ⟨goes, restores⟩ := Store.importBackup_restores mixed_json usable timely
  obtain ⟨n, went⟩ := goes.2 (mixed_admitted "data")
  have whole := restores n _ (Prod.ext went rfl)
  have counted : n = ⟨1, 1⟩ := by
    have rulesets : n.rulesets = 1 := whole.countRulesets.trans (by decide +kernel)
    have characters : n.characters = 1 := whole.countCharacters.trans (by decide +kernel)
    cases n
    rw [Restored.mk.injEq]
    exact ⟨rulesets, characters⟩
  subst counted
  exact ⟨_, mixed_json, usable, timely, mixed_admitted "data", Prod.ext went rfl, whole⟩

open Recruit Ruleset.Primer in
/-- A list that is a number, a ruleset that is no object, and one whose levels are a list each stop the
work before the character that follows is stored. -/
theorem parcel_stopped :
    (∃ read, Character.ofValue supply named = .ok read) ∧
      ∀ rulesets ∈ [(.int 1 : Value), .list [.int 1], .list [single "data" listed]],
        (Value.map (parcel rulesets (.list [named]))).IsJson ∧
          ∃ cause t, (Store.importBackup (parcel rulesets (.list [named]))).run (opened "data") =
            (.error (.breakdown cause), t) ∧ t.disk.files = .empty := by
  refine ⟨⟨_, ok_of_ofChecked (ok_of_get (by decide +kernel))⟩, ?_⟩
  have last : (Value.list [named]).IsJson := .list fun v member => List.mem_singleton.1 member ▸ named_json
  simp only [List.forall_mem_cons]
  refine ⟨⟨parcel_json (.int 1) last, .notIterable, _, rfl, rfl⟩,
    ⟨parcel_json (.list fun v member => ?_) last, .notAMap, _, rfl, rfl⟩,
    ⟨parcel_json (.list fun v member => ?_) last, .notAMap, _, rfl, rfl⟩, by simp⟩
  · exact List.mem_singleton.1 member ▸ .int 1
  · rw [List.mem_singleton.1 member]
    refine single_json _ (withProgression_json (.list fun v member => ?_))
    exact List.mem_singleton.1 member ▸ .int 1

end Tabletop
