import Tabletop.Proofs.BackupTrip
import Tabletop.Proofs.KeptDocument

set_option autoImplicit false

namespace Tabletop

open Tabletop.Json (Written MemberWritten)

namespace Store

open Ruleset (IsKept ofDocument)

/-- If the store remembers the record and something is at its place, then the record is there. -/
def Recalls (s : Store) (c : Collection) (r : Record) : Prop :=
  ∀ p, s.place c r.id = .ok p → s.disk.holds p = .ok true →
    s.known.get? (c, r.id) = some r.fingerprint → s.disk.files.get? p = some (.document r.document)

variable {s t : Store} {r : Ruleset} {d w : Value} {rec : Record} {now : Moment}

theorem toEntries_written (written : Written r.document w) :
    Written (.map r.toEntries) (.map { r with document := w }.toEntries) := by
  refine Json.written_map.2 ⟨_, ?_, rfl⟩
  have member (name : String) {v w : Value} (value : Written v w) :
      MemberWritten (.str name, v) (.str name, w) := ⟨⟨name, rfl, rfl⟩, value⟩
  exact .cons (member _ rfl) (.cons (member _ rfl) (.cons (member _ rfl) (.cons (member _ rfl)
    (.cons (member _ written) .nil))))

theorem ofEntries_written (written : Written r.document w) (stored : Record.ofEntries r.toEntries = .ok rec) :
    rec.id = r.id ∧ rec.document = .map { r with document := w }.toEntries := by
  have id : Value.field "id" r.toEntries = .str r.id := rfl
  have filled := Record.filled_of_ofEntries id stored
  have plain : Json.plain (.map r.toEntries) = .ok _ := toEntries_written written
  simp only [Record.ofEntries, id, Value.isTruthy, filled, plain, Bool.not_false, Bool.not_true,
    Bool.false_eq_true, if_false, bind_eq_ok, pure_eq_ok, Except.ok.injEq] at stored
  obtain ⟨print, -, document, rfl, rfl⟩ := stored
  exact ⟨rfl, rfl⟩

theorem rulesetOf_written {q : Ruleset} (legible : r.importedAt.Legible)
    (read : (ofDocument now w).result = .ok q) (later : Moment) :
    rulesetOf later { r with document := w }.toEntries = .ok (some (q.importedOn r.importedAt)) := by
  have imported : (ofDocument r.importedAt w).result = .ok (q.importedOn r.importedAt) := by
    rw [Ruleset.ofDocument_now now, read]
    rfl
  have document : (q.importedOn r.importedAt).document = w := (Ruleset.ofDocument_keeps imported).2.1
  rw [← Deposit.rulesetOf_toEntries legible imported later, rulesetOf, rulesetOf]
  simp only [Value.field, Ruleset.toEntries, document]
  rfl

theorem getRuleset_written {q : Ruleset} (legible : r.importedAt.Legible) (written : Written r.document w)
    (json : w.IsJson) (read : (ofDocument now w).result = .ok q)
    (recalls : ∀ rec, Record.ofEntries r.toEntries = .ok rec → s.Recalls .rulesets rec)
    (put : (putRuleset r).run s = (.ok (), t)) :
    ∃ u, (getRuleset r.id).run t = (.ok (some (q.importedOn r.importedAt)), u) := by
  obtain ⟨rec, u, making, went⟩ := Action.bind_eq_ok put
  obtain ⟨stored, rfl⟩ := Action.ofExcept_eq_ok making
  obtain ⟨id, document⟩ := ofEntries_written written stored
  obtain ⟨p, placed, ends⟩ := put_ends went
  have file : t.place .rulesets r.id = .ok p ∧ Disk.isLong p = false ∧
      t.disk.files.get? p = some (.document (.map { r with document := w }.toEntries)) := by
    rw [id] at placed
    rcases ends with ⟨rfl, there, remembered⟩ | ⟨place, file, root⟩
    · have short : Disk.isLong p = false := by
        rw [Bool.eq_false_iff]
        intro long
        rw [Disk.holds, if_pos long] at there
        cases there
      refine ⟨placed, short, ?_⟩
      rw [← document]
      exact recalls rec stored p (id ▸ placed) there remembered
    · exact ⟨(place_of_root root _ _).trans placed, place.short, document ▸ file⟩
  obtain ⟨placed, short, file⟩ := file
  have given : (Value.field "id" { r with document := w }.toEntries).isTruthy = true := by
    have field : Value.field "id" { r with document := w }.toEntries = .str r.id := rfl
    obtain ⟨name, named, -⟩ := place_eq_ok placed
    simp [field, Value.isTruthy, id_filled named]
  exact getRuleset_of_file placed short file (Deposit.proper_ruleset json) given
    (rulesetOf_written legible read t.supply.now)

/-- A ruleset that was put into a store is read from there as it was imported, with all of its classes, pools
and display data, if its document reads the same when JSON has held it. -/
theorem getRuleset_putRuleset (legible : now.Legible) (imported : (ofDocument now d).result = .ok r)
    (kept : IsKept d) (written : Written d w) (json : w.IsJson)
    (recalls : ∀ rec, Record.ofEntries r.toEntries = .ok rec → s.Recalls .rulesets rec)
    (put : (putRuleset r).run s = (.ok (), t)) :
    ∃ u, (getRuleset r.id).run t = (.ok (some { r with document := w }), u) := by
  obtain ⟨-, rfl, time⟩ := Ruleset.ofDocument_keeps imported
  exact getRuleset_written (time ▸ legible) written json
    (Ruleset.ofDocument_written written kept imported) recalls put

-- a JSON document is its own written form, so the ruleset comes back with its document as it was
theorem getRuleset_of_json (legible : now.Legible) (imported : (ofDocument now d).result = .ok r) (json : d.IsJson)
    (recalls : ∀ rec, Record.ofEntries r.toEntries = .ok rec → s.Recalls .rulesets rec)
    (put : (putRuleset r).run s = (.ok (), t)) :
    ∃ u, (getRuleset r.id).run t = (.ok (some r), u) := by
  obtain ⟨-, rfl, time⟩ := Ruleset.ofDocument_keeps imported
  exact getRuleset_written (time ▸ legible) json.proper.plain json imported recalls put

end Store

-- documents as YAML gives them

namespace Ruleset.Primer

def newYear : Value := .date ⟨2020, 1, 1⟩

def noon : Value := .moment ⟨⟨2020, 1, 1⟩, ⟨12, 0, 0, 0⟩, none⟩

def oneClass (version name fields : Value) : Value :=
  .map [(.str "classes", .map [(name, fields)]),
    (.str "meta", .map [(.str "id", .str "r"), (.str "version", version)])]

def levelled (id level : Value) : Value :=
  .map [(.str "progression", .map [(level, .map [
      (.str "choices", .list [.map [(.str "from", .str "spells"), (.str "id", id)]]),
      (.str "grants", .list [id])])]),
    (.str "spellSlots", .map [(level, .map [(level, .int 2)])])]

def almanac : Value := oneClass noon (.int 7) (levelled newYear (.int 1))

def almanacText : Value :=
  oneClass (.str "2020-01-01 12:00:00") (.str "7") (levelled (.str "2020-01-01") (.str "1"))

def answered : Value := oneClass .null (.bool true) (.map [])

def undated : Value := oneClass .null (.str "wizard") (single "name" newYear)

def bookcase : Store := .create (.blank "data" []) [] ⟨0, shelved⟩

theorem bookcase_usable : bookcase.Usable := Store.create_usable rfl "data" _

theorem bookcase_recalls (rec : Record) : bookcase.Recalls .rulesets rec := by
  intro p _ _ remembered
  cases remembered

theorem bookcase_put {r : Ruleset} {w : Value} (id : r.id = "r") (written : Written r.document w)
    (printed : Completes (Record.fingerprintOf (.map r.toEntries))) :
    ∃ t, (Store.putRuleset r).run bookcase = (.ok (), t) := by
  have named : Value.field "id" r.toEntries = .str "r" := id ▸ rfl
  have nameable : Store.Nameable "r" := ⟨"r.json", by decide +kernel, by decide⟩
  obtain ⟨name, -, placed⟩ := nameable.place bookcase .rulesets
  obtain ⟨print, printed⟩ := printed
  have plain : Json.plain (.map r.toEntries) = .ok _ := Store.toEntries_written written
  have stored : Record.ofEntries r.toEntries =
      .ok ⟨"r", .map { r with document := w }.toEntries, print⟩ := by
    simp only [Record.ofEntries, named, printed, plain]
    rfl
  rw [Store.putRuleset, Action.run_bind, stored]
  exact ⟨_, Store.put_due bookcase_usable nameable placed (.inr (by simp [bookcase, Store.create]))⟩

theorem oneClass_printed {r : Ruleset} {version name fields ordered x y : Value} {text : String}
    (document : r.document = oneClass version name fields) (named : Json.memberName? name = some text)
    (leaf : Json.sorted version = .ok version) (plain : Json.plain version = .ok x)
    (sorts : Json.sorted fields = .ok ordered) (plain' : Json.plain ordered = .ok y) :
    Completes (Record.fingerprintOf (.map r.toEntries)) := by
  have key (s : String) : Json.memberName? (.str s) = some s := rfl
  -- two of the lists that are sorted are longer than one: the members of the record and of the document
  simp [Record.fingerprintOf, Ruleset.toEntries, document, oneClass, Json.sorted, Json.sortedEntries, leaf, sorts,
    Json.sortMembers, Json.allText, Json.textOf, List.mergeSort, List.MergeSort.Internal.splitInTwo, Json.plain,
    Json.plainEntries, key, named, plain, plain']

theorem levelled_sorted (id level : Value) (leaf : Json.sorted id = .ok id) :
    Json.sorted (levelled id level) = .ok (levelled id level) := by
  simp [levelled, Json.sorted, Json.sortedEntries, Json.sortedAll, leaf, Json.sortMembers, Json.allText,
    Json.textOf, List.mergeSort, List.MergeSort.Internal.splitInTwo]

-- what a document of one class gives before and after it was put into the bookcase
theorem oneClass_reopens {version name fields ordered x y w : Value} {text : String} {before after : List String}
    (named : Json.memberName? name = some text) (leaf : Json.sorted version = .ok version)
    (plain : Json.plain version = .ok x) (sorts : Json.sorted fields = .ok ordered)
    (plain' : Json.plain ordered = .ok y) (written : Written (oneClass version name fields) w) (json : w.IsJson)
    (first : ((ofDocument shelved (oneClass version name fields)).result.toOption.map fun r =>
      (r.id, r.classes.keys)) = some ("r", before))
    (second : ((ofDocument shelved w).result.toOption.map fun q => q.classes.keys) = some after) :
    ∃ r q t u, (ofDocument shelved (oneClass version name fields)).result = .ok r ∧
      (Store.putRuleset r).run bookcase = (.ok (), t) ∧ (Store.getRuleset r.id).run t = (.ok (some q), u) ∧
        r.classes.keys = before ∧ q.classes.keys = after := by
  cases imported : (ofDocument shelved (oneClass version name fields)).result with
  | error f => simp [imported, Except.toOption] at first
  | ok r =>
    cases read : (ofDocument shelved w).result with
    | error f => simp [read, Except.toOption] at second
    | ok q =>
      simp only [imported, Except.toOption, Option.map_some, Option.some.injEq, Prod.mk.injEq] at first
      simp only [read, Except.toOption, Option.map_some, Option.some.injEq] at second
      obtain ⟨-, document, time⟩ := ofDocument_keeps imported
      rw [← document] at written
      obtain ⟨t, put⟩ := bookcase_put first.1 written (oneClass_printed document named leaf plain sorts plain')
      have legible : r.importedAt.Legible := time ▸ Recruit.shelved_legible
      obtain ⟨u, got⟩ :=
        Store.getRuleset_written legible written json read (fun rec _ => bookcase_recalls rec) put
      exact ⟨r, _, t, u, rfl, put, got, first.2, second⟩

theorem oneClass_json {version fields : Value} (name : String) (json : version.IsJson) (json' : fields.IsJson) :
    (oneClass version (.str name) fields).IsJson := by
  refine .map (.of_names ["classes", "meta"] rfl (by decide)) ?_
  simp only [List.forall_mem_cons]
  refine ⟨single_json name json', .map (.of_names ["id", "version"] rfl (by decide)) ?_, by simp⟩
  simp only [List.forall_mem_cons]
  exact ⟨.str "r", json, by simp⟩

theorem levelled_json (id level : String) : (levelled (.str id) (.str level)).IsJson := by
  refine .map (.of_names ["progression", "spellSlots"] rfl (by decide)) ?_
  simp only [List.forall_mem_cons]
  refine ⟨single_json level ?_, single_json level (single_json level (.int 2)), by simp⟩
  refine .map (.of_names ["choices", "grants"] rfl (by decide)) ?_
  simp only [List.forall_mem_cons]
  refine ⟨.list ?_, .list ?_, by simp⟩
  · simp only [List.forall_mem_singleton]
    refine .map (.of_names ["from", "id"] rfl (by decide)) ?_
    simp only [List.forall_mem_cons]
    exact ⟨.str _, .str _, by simp⟩
  · simp only [List.forall_mem_singleton]
    exact .str _

theorem levelled_kept : ClassKept (Value.entriesOrEmpty (levelled newYear (.int 1))) where
  fields := by
    simp only [Value.FieldsKept, List.forall_mem_cons]
    exact ⟨rfl, rfl, rfl, rfl, rfl, by simp⟩
  progression := by
    refine List.forall_mem_singleton.2 ?_
    rintro level fields - ⟨⟩
    refine ⟨List.forall_mem_singleton.2 (Json.keepsText_date _), List.forall_mem_singleton.2 ?_⟩
    rintro choice ⟨⟩
    refine ⟨Json.keepsText_date _, ?_⟩
    simp only [Value.FieldsKept, List.forall_mem_cons]
    exact ⟨rfl, rfl, rfl, rfl, rfl, rfl, by simp⟩
  slots := by
    simp only [List.forall_mem_cons]
    refine ⟨rfl, List.forall_mem_singleton.2 ⟨Json.keepsKey_int 1, ?_⟩, by simp⟩
    exact List.forall_mem_singleton.2 ⟨Json.keepsKey_int 1, rfl⟩

theorem almanac_kept : IsKept almanac where
  titles := by
    simp only [List.forall_mem_cons]
    exact ⟨Json.Keeps.text rfl, Json.Keeps.text rfl, Json.keepsText_moment _, by simp⟩
  classes := by
    refine List.forall_mem_singleton.2 ?_
    rintro fields ⟨⟩
    exact ⟨Json.keepsKey_int 7, levelled_kept⟩
  pools := nofun
  features := nofun

end Ruleset.Primer

open Ruleset.Primer in
theorem getRuleset_putRuleset_almanac :
    shelved.Legible ∧ Ruleset.IsKept almanac ∧ Written almanac almanacText ∧ almanacText.IsJson ∧
      ∃ r t u, (Ruleset.ofDocument shelved almanac).result = .ok r ∧
        (∀ rec, Record.ofEntries r.toEntries = .ok rec → bookcase.Recalls .rulesets rec) ∧
        (Store.putRuleset r).run bookcase = (.ok (), t) ∧
        (Store.getRuleset r.id).run t = (.ok (some { r with document := almanacText }), u) := by
  have json : almanacText.IsJson := oneClass_json "7" (.str _) (levelled_json _ _)
  have written : Written almanac almanacText := rfl
  have loads : ((Ruleset.ofDocument shelved almanac).result.toOption.map Ruleset.id) = some "r" := by
    decide +kernel
  cases imported : (Ruleset.ofDocument shelved almanac).result with
  | error f => simp [imported, Except.toOption] at loads
  | ok r =>
    have id : r.id = "r" := by simpa [imported, Except.toOption] using loads
    obtain ⟨-, document, -⟩ := Ruleset.ofDocument_keeps imported
    obtain ⟨t, put⟩ := bookcase_put id (document ▸ written)
      (oneClass_printed document rfl rfl rfl (levelled_sorted _ _ rfl) rfl)
    have recalls (rec : Record) (_ : Record.ofEntries r.toEntries = .ok rec) :
        bookcase.Recalls .rulesets rec := bookcase_recalls rec
    obtain ⟨u, got⟩ :=
      Store.getRuleset_putRuleset Recruit.shelved_legible imported almanac_kept written json recalls put
    exact ⟨Recruit.shelved_legible, almanac_kept, written, json, r, t, u, rfl, recalls, put, got⟩

open Ruleset.Primer in
/-- A class that goes by a truth value comes back under another name, and a class that is left out of the
imported ruleset, since it has a date for a name, comes back with a text for one. -/
theorem answered_renamed :
    (∃ r q t u, (Ruleset.ofDocument shelved answered).result = .ok r ∧
        (Store.putRuleset r).run bookcase = (.ok (), t) ∧ (Store.getRuleset r.id).run t = (.ok (some q), u) ∧
        r.classes.keys = ["True"] ∧ q.classes.keys = ["true"]) ∧
      ∃ r q t u, (Ruleset.ofDocument shelved undated).result = .ok r ∧
        (Store.putRuleset r).run bookcase = (.ok (), t) ∧ (Store.getRuleset r.id).run t = (.ok (some q), u) ∧
        r.classes.keys = [] ∧ q.classes.keys = ["wizard"] := by
  refine ⟨?renamed, ?taken⟩
  case renamed =>
    exact oneClass_reopens rfl rfl rfl rfl rfl rfl (oneClass_json "true" .null (.map ⟨by simp, by simp⟩ (by simp)))
      (by decide +kernel) (by decide +kernel)
  case taken =>
    exact oneClass_reopens rfl rfl rfl rfl rfl rfl (oneClass_json "wizard" .null (single_json "name" (.str _)))
      (by decide +kernel) (by decide +kernel)

end Tabletop
