import Tabletop.Proofs.Deposits

set_option autoImplicit false

namespace Tabletop

open Tabletop.Field (Entries)

namespace Value

variable {es : Entries} {name other : String} {v : Value}

-- setting one member of an object

theorem mem_putEntry {k : Value} {e : Value × Value} (member : e ∈ putEntry k v es) :
    e ∈ es ∨ e.2 = v := by
  induction es with
  | nil => exact .inr (by rw [List.mem_singleton.1 member])
  | cons f es ih =>
    rw [putEntry] at member
    split at member
    · rcases List.mem_cons.1 member with rfl | later
      · exact .inr rfl
      · exact .inl (List.mem_cons_of_mem _ later)
    · rcases List.mem_cons.1 member with rfl | later
      · exact .inl List.mem_cons_self
      · exact (ih later).imp_left (List.mem_cons_of_mem _)

theorem names_setField (text : ∀ e ∈ es, ∃ name, e.1 = .str name) :
    (setField name v es).map (·.1) =
      if Value.str name ∈ es.map (·.1) then es.map (·.1) else es.map (·.1) ++ [.str name] := by
  induction es with
  | nil => rfl
  | cons e es ih =>
    obtain ⟨k, w⟩ := e
    rw [List.forall_mem_cons] at text
    obtain ⟨⟨key, rfl⟩, rest⟩ := text
    have later := ih rest
    rw [setField] at later ⊢
    rw [putEntry, sameKey_str]
    by_cases same : key = name
    · subst same
      simp
    · have apart : (key == name) = false := by simpa using same
      rw [apart, if_neg Bool.false_ne_true, List.map_cons, later]
      have other : name ≠ key := fun same' => same same'.symm
      by_cases there : Value.str name ∈ es.map (·.1) <;> simp [there, other]

theorem setField_json (json : (Value.map es).IsJson) (value : v.IsJson) :
    (Value.map (setField name v es)).IsJson := by
  have members := json.members
  have names : (setField name v es).map (·.1) = _ := names_setField members.text
  refine .map ⟨Ruleset.Texts.putEntry members.text name v, ?_⟩ fun e member => ?_
  · rw [names]
    split
    · exact members.distinct
    · rename_i new
      exact members.distinct.append (List.nodup_singleton _) (by simpa using new)
  · rcases mem_putEntry member with old | same
    · exact json.of_mem old
    · exact same ▸ value

-- what a walk through a JSON value meets is JSON
theorem looped_json {xs : List Value} (json : v.IsJson) (walked : v.looped = .ok xs) :
    ∀ x ∈ xs, x.IsJson := by
  unfold looped at walked
  split at walked
  · cases json with
    | list all =>
      cases walked
      exact all
    | str s =>
      cases walked
      simp [IsJson.str]
    | @map es members all =>
      cases walked
      intro x member
      obtain ⟨e, old, rfl⟩ := List.mem_map.1 member
      obtain ⟨key, same⟩ := members.text e old
      exact same ▸ .str key
    | _ => cases walked
  · cases walked
    simp

end Value

namespace Ruleset

-- a document is refused, or loads, or stops the import
theorem ofDocument_outcome {d : Value} (json : d.IsJson) (now : Moment) :
    IsChecked d ∧ ¬ IsAccepted d ∧ (∃ problem, (ofDocument now d).result = .error (.rulesetInvalid problem)) ∨
      IsChecked d ∧ IsAccepted d ∧ IsLoaded d ∧ (∃ r, (ofDocument now d).result = .ok r) ∨
      ¬ (IsChecked d ∧ (IsAccepted d → IsLoaded d)) ∧
        ∃ cause, (ofDocument now d).result = .error (.breakdown cause) := by
  have completes := check_completes json
  rw [ofDocument_result]
  cases checked : check d with
  | error cause =>
    refine .inr (.inr ⟨fun all => ?_, cause, rfl⟩)
    obtain ⟨report, found⟩ := completes.2 all.1
    rw [checked] at found
    cases found
  | ok report =>
    have looked := completes.1 ⟨report, checked⟩
    have valid := check_valid checked
    simp only [Failure.ofExcept, Except.bind]
    by_cases accepted : IsAccepted d
    · rw [if_pos (valid.2 accepted)]
      cases d with
      | map es =>
        rcases build_result json looked now with ⟨loaded, r, built⟩ | ⟨bare, stopped⟩
        · exact .inr (.inl ⟨looked, accepted, loaded, r, built⟩)
        · exact .inr (.inr ⟨fun all => bare (all.2 accepted), _, stopped⟩)
      | _ => exact accepted.elim
    · rw [if_neg fun yes => accepted (valid.1 yes)]
      exact .inl ⟨looked, accepted, _, rfl⟩

end Ruleset

namespace Store

open Ruleset (IsAccepted IsChecked IsLoaded idIn ofDocument)

def rulesetIn (e : Supply × Value) : Option Ruleset :=
  match e.2 with
  | .map es => (ofDocument e.1.now (Value.field "data" es)).result.toOption
  | _ => none

def characterIn (e : Supply × Value) : Option Character :=
  match Character.ofValue e.1 e.2 with
  | .ok (c, _) => some c
  | _ => none

/-- An object whose document is refused, or loads under an id that has a file. -/
def RulesetFits (v : Value) : Prop :=
  match v with
  | .map es =>
    let d := Value.field "data" es
    IsChecked d ∧ (IsAccepted d → IsLoaded d ∧ Nameable (idIn d))
  | _ => False

/-- An entry that reads as a character whose id has a file, or an object that is refused. -/
def CharacterFits (e : Supply × Value) : Prop :=
  match Character.ofValue e.1 e.2 with
  | .ok (c, _) => Nameable c.id
  | .refused _ => e.2.isMap = true
  | .broken _ => False

def EntryFits : Collection → Supply × Value → Prop
  | .rulesets, e => RulesetFits e.2
  | .characters, e => CharacterFits e

def idTaken : Collection → Supply × Value → Option String
  | .rulesets, e => (rulesetIn e).map Ruleset.id
  | .characters, e => (characterIn e).map Character.id

-- an entry is judged by its own record

theorem stored_of_id {es : Entries} {id : String} (json : Json.Proper (.map es))
    (named : Value.field "id" es = .str id) :
    (∃ r : Record, Collection.stored es = .ok (some r) ∧ r.id = id ∧ r.document = .map es) ∨
      ¬ Nameable id ∧ ∃ f, Collection.stored es = .error f := by
  cases filled : id.isEmpty with
  | false =>
    obtain ⟨print, found⟩ := json.fingerprinted
    refine .inl ⟨⟨id, .map es, print⟩, ?_, rfl, rfl⟩
    rw [Collection.stored, Record.ofEntries_named named filled found json.plain]
    rfl
  | true =>
    refine .inr ⟨?_, ?_⟩
    · rintro ⟨name, named', -⟩
      rw [id_filled named'] at filled
      cases filled
    · cases stored : Record.ofEntries es with
      | error cause => exact ⟨.breakdown cause, by rw [Collection.stored, stored]; rfl⟩
      | ok r =>
        rw [Record.filled_of_ofEntries named stored] at filled
        cases filled

/-- What becomes of an entry: it is passed over, or becomes a record, or stops the import. -/
inductive Judged (c : Collection) (e : Supply × Value) (document : Record → Prop) : Prop where
  | passed (fits : EntryFits c e) (taken : idTaken c e = none) (judged : c.judge e.1 e.2 = .ok none)
  | becomes (r : Record) (fits : EntryFits c e) (judged : c.judge e.1 e.2 = .ok (some r))
      (nameable : Nameable r.id) (taken : idTaken c e = some r.id) (holds : document r)
  | stops (unfit : ¬ EntryFits c e) (judged : ¬ c.Fits e)

theorem not_fits_of_error {c : Collection} {e : Supply × Value} {f : Failure}
    (stopped : c.judge e.1 e.2 = .error f) : ¬ c.Fits e := by
  rintro ⟨record?, judged, -⟩
  cases stopped.symm.trans judged

theorem not_fits_of_id {c : Collection} {e : Supply × Value} {r : Record}
    (judged : c.judge e.1 e.2 = .ok (some r)) (unnamed : ¬ Nameable r.id) : ¬ c.Fits e := by
  rintro ⟨record?, judged', nameable⟩
  cases judged.symm.trans judged'
  exact unnamed (nameable r rfl)

-- an entry that is stored under its id
theorem judged_stored {c : Collection} {e : Supply × Value} {es : Entries} {id : String}
    {document : Record → Prop} (judge : c.judge e.1 e.2 = Collection.stored es)
    (proper : Json.Proper (.map es)) (named : Value.field "id" es = .str id)
    (fits : EntryFits c e ↔ Nameable id) (taken : idTaken c e = some id)
    (holds : ∀ r : Record, r.id = id → r.document = .map es → document r) : Judged c e document := by
  rcases stored_of_id proper named with ⟨r, stored, rfl, written⟩ | ⟨unnamed, f, stopped⟩
  · have judged := judge.trans stored
    by_cases nameable : Nameable r.id
    · exact .becomes r (fits.2 nameable) judged nameable taken (holds r rfl written)
    · exact .stops (fun yes => nameable (fits.1 yes)) (not_fits_of_id judged nameable)
  · exact .stops (fun yes => unnamed (fits.1 yes)) (not_fits_of_error (judge.trans stopped))

def RulesetDocument (e : Supply × Value) (r : Record) : Prop :=
  ∃ es, e.2 = .map es ∧ r.document = .map (Value.setField "id" (.str r.id) es)

theorem judged_ruleset {supply : Supply} {v : Value} (json : v.IsJson) :
    Judged .rulesets (supply, v) (RulesetDocument (supply, v)) := by
  cases v with
  | map es =>
    have data := Value.field_json json "data"
    have judge : Collection.rulesets.judge supply (.map es) =
        Collection.judgeRuleset supply (.map es) := rfl
    rcases Ruleset.ofDocument_outcome data supply.now with
      ⟨looked, refused, problem, outcome⟩ | ⟨looked, accepted, loaded, r, outcome⟩ | ⟨bad, cause, outcome⟩
    · refine .passed ⟨looked, fun accepted => absurd accepted refused⟩ ?_ ?_
      · simp [idTaken, rulesetIn, outcome, Except.toOption]
      · simp [judge, Collection.judgeRuleset, acceptRuleset, outcome]
    · have id := (Ruleset.ofDocument_keeps outcome).1
      have taken : idTaken .rulesets (supply, .map es) = some r.id := by
        simp [idTaken, rulesetIn, outcome, Except.toOption]
      have fits : EntryFits .rulesets (supply, .map es) ↔ Nameable r.id := by
        rw [id]
        exact ⟨fun fits => (fits.2 accepted).2, fun nameable => ⟨looked, fun _ => ⟨loaded, nameable⟩⟩⟩
      have json' : (Value.map (Value.setField "id" (.str r.id) es)).IsJson :=
        Value.setField_json json (.str r.id)
      have named : Value.field "id" (Value.setField "id" (.str r.id) es) = .str r.id := by
        rw [Value.field, Value.field?_setField, if_pos rfl]
        rfl
      have judged : Collection.rulesets.judge supply (.map es) =
          Collection.stored (Value.setField "id" (.str r.id) es) := by
        simp [judge, Collection.judgeRuleset, acceptRuleset, outcome]
      refine judged_stored judged json'.proper named fits taken fun rec same document => ?_
      exact ⟨es, rfl, by rw [document, same]⟩
    · refine .stops (fun fits => bad ⟨fits.1, fun accepted => (fits.2 accepted).1⟩) ?_
      refine not_fits_of_error (f := .breakdown cause) ?_
      simp [judge, Collection.judgeRuleset, acceptRuleset, outcome]
  | _ => exact .stops id (not_fits_of_error rfl)

theorem judged_character (e : Supply × Value) :
    Judged .characters e fun r => ∃ c, characterIn e = some c ∧ r.document = c.toValue := by
  obtain ⟨supply, v⟩ := e
  have judge : Collection.characters.judge supply v = Collection.judgeCharacter supply v := rfl
  cases read : Character.ofValue supply v with
  | ok result =>
    obtain ⟨c, notices⟩ := result
    have found : characterIn (supply, v) = some c := by simp [characterIn, read]
    have fits : EntryFits .characters (supply, v) ↔ Nameable c.id := by
      simp [EntryFits, CharacterFits, read]
    have judged : Collection.characters.judge supply v = Collection.stored c.toEntries := by
      simp [judge, Collection.judgeCharacter, characterOf, read, Failure.ofChecked]
    have taken : idTaken .characters (supply, v) = some c.id := by simp [idTaken, found]
    exact judged_stored judged c.proper_toValue rfl fits taken fun r _ document => ⟨c, found, document⟩
  | refused faults =>
    have fits : EntryFits .characters (supply, v) ↔ v.isMap = true := by
      simp [EntryFits, CharacterFits, read]
    have judged : Collection.characters.judge supply v =
        if v.isMap then .ok none else .error (.breakdown .notAMap) := by
      simp [judge, Collection.judgeCharacter, characterOf, read, Failure.ofChecked]
    by_cases isMap : v.isMap = true
    · rw [if_pos isMap] at judged
      exact .passed (fits.2 isMap) (by simp [idTaken, characterIn, read]) judged
    · rw [if_neg isMap] at judged
      exact .stops (fun yes => isMap (fits.1 yes)) (not_fits_of_error judged)
  | broken cause =>
    refine .stops (by simp [EntryFits, CharacterFits, read]) ?_
    refine not_fits_of_error (f := .breakdown cause) ?_
    simp [judge, Collection.judgeCharacter, characterOf, read, Failure.ofChecked]

variable {c : Collection} {e : Supply × Value} {document : Record → Prop} {id : String}

theorem recordIn_of_judged {record? : Option Record} (judged : c.judge e.1 e.2 = .ok record?) :
    c.recordIn e = record? := by
  rw [Collection.recordIn, judged]
  cases record? <;> rfl

theorem Judged.fits_iff (judged : Judged c e document) : c.Fits e ↔ EntryFits c e := by
  cases judged with
  | passed fits _ judged => exact iff_of_true ⟨none, judged, nofun⟩ fits
  | becomes r fits judged nameable =>
    exact iff_of_true ⟨some r, judged, fun q same => Option.some.inj same ▸ nameable⟩ fits
  | stops unfit judged => exact iff_of_false judged unfit

theorem Judged.idTaken (judged : Judged c e document) (fits : EntryFits c e) :
    (c.recordIn e).map Record.id = Store.idTaken c e := by
  cases judged with
  | passed _ taken judged =>
    rw [recordIn_of_judged judged, taken]
    rfl
  | becomes r _ judged _ taken =>
    rw [recordIn_of_judged judged, taken]
    rfl
  | stops unfit => exact absurd fits unfit

theorem Judged.taken (judged : Judged c e document) (fits : EntryFits c e)
    (taken : Store.idTaken c e = some id) :
    ∃ r, c.recordIn e = some r ∧ r.id = id ∧ Nameable id ∧ document r := by
  cases judged with
  | passed _ none => cases none.symm.trans taken
  | becomes r _ judged nameable taken' holds =>
    obtain rfl : r.id = id := Option.some.inj (taken'.symm.trans taken)
    exact ⟨r, recordIn_of_judged judged, rfl, nameable, holds⟩
  | stops unfit => exact absurd fits unfit

theorem judged_entry (c : Collection) (json : e.2.IsJson) : ∃ document, Judged c e document := by
  cases c with
  | rulesets => exact ⟨_, judged_ruleset json⟩
  | characters => exact ⟨_, judged_character e⟩

end Store

end Tabletop
