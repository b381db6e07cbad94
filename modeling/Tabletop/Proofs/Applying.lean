import Tabletop.Advancement.Apply
import Tabletop.Proofs.Dict
import Tabletop.Proofs.LevelText

/-!
What applying a level does. Once the node is found and the choices are made, nothing can fail any more,
and the outcome is one expression of the character: its features, its spells and its infusions are
changed apart from each other, its ledger at one level, and its time.
-/

set_option autoImplicit false

namespace Tabletop

namespace Noted

variable {α β : Type}

@[simp] theorem result_pure (a : α) : (pure a : Noted α).result = .ok a := rfl

@[simp] theorem result_fail (f : Failure) : (fail f : Noted α).result = .error f := rfl

theorem result_bind (x : Noted α) (f : α → Noted β) :
    (x >>= f).result = x.result.bind fun a => (f a).result := by
  change (x.andThen f).result = _
  rcases x with ⟨_ | ⟨a, notices⟩⟩
  · rfl
  · simp only [andThen, result, Except.map, Except.bind]
    rcases (f a).outcome with _ | _ <;> rfl

@[simp] theorem result_ofExcept (x : Except Breakdown α) :
    (ofExcept x).result = Failure.ofExcept x := by
  cases x <;> rfl

end Noted

-- looking a level up gives what the ledger holds, if the level has a text

namespace Ledger

variable {c : Character} {level : Int}

theorem lookUp_eq (short : IsWritten level) : lookUp c level = .ok (c.record? level) := by
  rw [lookUp, short.text]
  rfl

theorem lookUp_fails (long : ¬IsWritten level) :
    lookUp c level = .error (.badValue Text.tooLargeMessage) := by
  rw [lookUp, written_fails long]
  rfl

theorem isApplied_eq (short : IsWritten level) : isApplied c level = .ok (c.isApplied level) := by
  rw [isApplied, lookUp_eq short]
  rfl

theorem isApplied_fails (long : ¬IsWritten level) :
    isApplied c level = .error (.badValue Text.tooLargeMessage) := by
  rw [isApplied, lookUp_fails long]
  rfl

end Ledger

def Node.made (node : Node) (r : Ruleset) (s : Selections) : Except Failure (List Made) :=
  (node.validate s).result.bind fun picks => Failure.ofExcept (madeOf r picks node.choices)

theorem Picks.toIds_eq_ok {p : Picks} {ids : List String} (listed : p.toIds = .ok ids) :
    p = .ids ids := by
  cases p with
  | ids xs => simpa [Picks.toIds] using listed
  | mixed vs => simp [Picks.toIds] at listed

theorem madeOf_eq_ok {r : Ruleset} {picks : Dict String Picks} {choices : List Choice}
    {made : List Made} (chosen : madeOf r picks choices = .ok made) :
    made.map Made.choice = choices ∧
      ∀ m ∈ made, (picks.get? m.choice.id).getD (.ids []) = .ids m.picks := by
  induction choices generalizing made with
  | nil =>
    cases chosen
    simp
  | cons choice choices ih =>
    simp only [madeOf, bind, Except.bind, pure, Except.pure] at chosen
    split at chosen
    · contradiction
    · split at chosen
      · contradiction
      · rename_i ids listed
        split at chosen
        · contradiction
        · rename_i rest more
          cases chosen
          obtain ⟨choices, picked⟩ := ih more
          simp [choices, Picks.toIds_eq_ok listed]
          exact picked

-- each choice is made from the pool that its key names
theorem pool_of_madeOf {r : Ruleset} {picks : Dict String Picks} {choices : List Choice}
    {made : List Made} (chosen : madeOf r picks choices = .ok made) :
    ∀ m ∈ made, r.resolvePool m.choice.source = .ok m.pool := by
  induction choices generalizing made with
  | nil =>
    cases chosen
    simp
  | cons choice choices ih =>
    simp only [madeOf, bind, Except.bind, pure, Except.pure] at chosen
    split at chosen
    · contradiction
    · rename_i pool resolved
      split at chosen
      · contradiction
      · split at chosen
        · contradiction
        · rename_i rest more
          cases chosen
          exact List.forall_mem_cons.2 ⟨resolved, ih more⟩

theorem picksOf_eq_ok {s : Selections} {choices : List Choice} {d picks : Dict String Picks}
    (valid : picksOf s d choices = .ok picks) :
    ∃ p : String → Picks,
      picks = choices.foldl (fun d choice => d.insert choice.id (p choice.id)) d := by
  refine ⟨fun id => (s.picksFor id).toOption.getD (.ids []), ?_⟩
  induction choices generalizing d with
  | nil => simpa [picksOf] using valid.symm
  | cons choice choices ih =>
    simp only [picksOf, bind, Except.bind] at valid
    split at valid
    · contradiction
    · rename_i p picked
      split at valid
      · contradiction
      · cases known : s.picksFor choice.id with
        | error e => simp [known, Failure.ofExcept] at picked
        | ok q =>
          simp only [known, Failure.ofExcept, Except.ok.injEq] at picked
          simpa [known, Except.toOption, picked] using ih valid

theorem get?_foldl_choices {α : Type} (p : String → α) (choices : List Choice) (d : Dict String α)
    (id : String) :
    (choices.foldl (fun d choice => d.insert choice.id (p choice.id)) d).get? id =
      if id ∈ choices.map Choice.id then some (p id) else d.get? id := by
  induction choices generalizing d with
  | nil => simp
  | cons choice choices ih =>
    rw [List.foldl_cons, ih, Dict.get?_insert]
    by_cases later : id ∈ choices.map Choice.id
    · simp [later]
    · by_cases here : id = choice.id
      · simp [here]
      · simp [later, here]

theorem validate_eq_ok {node : Node} {s : Selections} {picks : Dict String Picks}
    (valid : (node.validate s).result = .ok picks) :
    picksOf s .empty node.choices = .ok picks := by
  unfold Node.validate at valid
  cases picked : picksOf s .empty node.choices with
  | error f => simp [picked] at valid
  | ok picks' =>
    simp only [picked, Noted.result_bind, Noted.result_ofExcept] at valid
    cases unknown : s.undeclared picks' with
    | error e => simp [unknown, Failure.ofExcept, Except.bind] at valid
    | ok vs =>
      simp only [unknown, Failure.ofExcept, Except.bind] at valid
      split at valid <;> exact valid

theorem mapValues_foldl_made {p : String → Picks} {made : List Made}
    (listed : ∀ m ∈ made, p m.choice.id = .ids m.picks) (d : LevelRecord) :
    (made.foldl (fun d m => d.insert m.choice.id m.picks) d).mapValues Picks.ids =
      made.foldl (fun d m => d.insert m.choice.id (p m.choice.id)) (d.mapValues .ids) := by
  induction made generalizing d with
  | nil => rfl
  | cons m made ih =>
    rw [List.forall_mem_cons] at listed
    rw [List.foldl_cons, List.foldl_cons, ih listed.2, Dict.mapValues_insert, listed.1]

theorem made_eq_ok {r : Ruleset} {node : Node} {s : Selections} {made : List Made}
    (chosen : node.made r s = .ok made) :
    ∃ picks, (node.validate s).result = .ok picks ∧ madeOf r picks node.choices = .ok made := by
  unfold Node.made at chosen
  cases valid : (node.validate s).result with
  | error f => simp [valid, Except.bind] at chosen
  | ok picks =>
    simp only [valid, Except.bind] at chosen
    cases listed : madeOf r picks node.choices with
    | error e => simp [listed, Failure.ofExcept] at chosen
    | ok made =>
      simp only [listed, Failure.ofExcept, Except.ok.injEq] at chosen
      exact ⟨picks, rfl, by rw [← chosen, listed]⟩

theorem made_choices {r : Ruleset} {node : Node} {s : Selections} {made : List Made}
    (chosen : node.made r s = .ok made) : made.map Made.choice = node.choices := by
  obtain ⟨picks, -, read⟩ := made_eq_ok chosen
  exact (madeOf_eq_ok read).1

theorem recordOf_made {r : Ruleset} {node : Node} {s : Selections} {made : List Made}
    (chosen : node.made r s = .ok made) (asks : node.choices ≠ []) :
    (node.validate s).result = .ok ((recordOf node made).mapValues .ids) := by
  obtain ⟨picks, valid, made_of⟩ := made_eq_ok chosen
  obtain ⟨choices, picked⟩ := madeOf_eq_ok made_of
  obtain ⟨p, rfl⟩ := picksOf_eq_ok (validate_eq_ok valid)
  have listed (m : Made) (member : m ∈ made) : p m.choice.id = .ids m.picks := by
    have same := picked m member
    have asked : m.choice.id ∈ node.choices.map Choice.id := by
      rw [← choices]
      exact List.mem_map_of_mem (List.mem_map_of_mem member)
    rwa [get?_foldl_choices, if_pos asked] at same
  have some : made.isEmpty = false := by
    cases made with
    | nil => exact absurd choices.symm asks
    | cons m made => rfl
  have record : recordOf node made =
      made.foldl (fun d m => d.insert m.choice.id m.picks) .empty := by
    simp [recordOf, some, Dict.ofList, List.foldl_map]
  rw [valid, record, mapValues_foldl_made listed, ← choices, List.foldl_map,
    Dict.mapValues_empty]

theorem recordOf_made_nil {r : Ruleset} {node : Node} {s : Selections} {made : List Made}
    (chosen : node.made r s = .ok made) (asks : node.choices = []) :
    recordOf node made = Dict.empty.insert grantsKey node.grants := by
  have none : made = [] := by simpa [asks] using made_choices chosen
  simp [recordOf, none]

theorem recordOf_filled (node : Node) (made : List Made) : (recordOf node made).isEmpty = false := by
  unfold recordOf
  split
  · simp
  · simp_all

theorem mem_recordOf {node : Node} {made : List Made} {e : String × List String}
    (listed : e ∈ (recordOf node made).entries) :
    e = (grantsKey, node.grants) ∨ ∃ m ∈ made, e = (m.choice.id, m.picks) := by
  unfold recordOf at listed
  split at listed
  · left
    simpa [Dict.insert, Dict.empty, Dict.put] using listed
  · right
    obtain ⟨m, of, rfl⟩ := List.mem_map.1 (Dict.mem_of_mem_ofList listed)
    exact ⟨m, of, rfl⟩

namespace Character

def committed (r : Ruleset) (node : Node) (level : Int) (made : List Made) (now : Moment)
    (c : Character) : Character :=
  let place? := if c.isApplied level then c.features.findIdx? (isOfLevel level) else none
  let base := (c.revert level).1
  let folded := fold r node level made base
  { folded with
    features := moveBlock place? base.features.length folded.features
    advancement := folded.advancement.insert (toString level) (recordOf node made)
    updatedAt := now }

theorem commit_eq {level : Int} (short : IsWritten level) (r : Ruleset) (node : Node) (made : List Made)
    (now : Moment) (c : Character) :
    commit r node level made now c = .ok (committed r node level made now c) := by
  simp [commit, recordApplied, short.text, recordOf_filled, bind, Except.bind, pure, Except.pure,
    committed, touch]

theorem applyLevel_result (c : Character) (r : Ruleset) (classId : Option String) {level : Int}
    (short : IsWritten level) (s : Selections) (force : Bool) (now : Moment) :
    (c.applyLevel r classId level s force now).result =
      if c.isApplied level && !force then .ok c
      else
        match r.node? classId level with
        | none => .error (.levelUp (.progressionMissing classId level (r.levels classId)))
        | some node => (node.made r s).map fun made => committed r node level made now c := by
  simp only [applyLevel, Noted.result_bind, Noted.result_ofExcept, Ledger.isApplied_eq short,
    Failure.ofExcept, Except.bind]
  split
  · rfl
  · cases found : r.node? classId level with
    | none => rfl
    | some node =>
      simp only [Noted.result_bind, Noted.result_ofExcept, Node.made, commit_eq short, Failure.ofExcept]
      rcases (node.validate s).result with _ | picks
      · rfl
      · simp only [Except.bind]
        rcases madeOf r picks node.choices with _ | made <;> rfl

theorem applyLevel_fails {level : Int} (long : ¬IsWritten level) (c : Character) (r : Ruleset)
    (classId : Option String) (s : Selections) (force : Bool) (now : Moment) :
    (c.applyLevel r classId level s force now).result =
      .error (.breakdown (.badValue Text.tooLargeMessage)) := by
  simp only [applyLevel, Noted.result_bind, Noted.result_ofExcept, Ledger.isApplied_fails long,
    Failure.ofExcept, Except.bind]

theorem isWritten_of_applyLevel {c d : Character} {r : Ruleset} {classId : Option String} {level : Int}
    {s : Selections} {force : Bool} {now : Moment}
    (went : (c.applyLevel r classId level s force now).result = .ok d) : IsWritten level := by
  refine Decidable.byContradiction fun long => ?_
  rw [applyLevel_fails long] at went
  contradiction

theorem applyLevel_bare {c : Character} {r : Ruleset} {classId : Option String} {level : Int}
    (short : IsWritten level) {node : Node} (bare : c.isApplied level = false)
    (found : r.node? classId level = some node) (s : Selections) (now : Moment) :
    (c.applyLevel r classId level s false now).result =
      (node.made r s).map fun made => committed r node level made now c := by
  rw [applyLevel_result c r classId short, bare, found]
  rfl

-- features, spells and infusions, each changed by a function of its own

def grantTo (r : Ruleset) (level : Int) (fs : List Feature) (featureId : String) : List Feature :=
  if fs.any fun f => f.name = r.featureName featureId && f.level = level && f.tags.grant then fs
  else fs ++ [grantFeature r level featureId]

def summaryTo (level : Int) (lines : List String) (fs : List Feature) : List Feature :=
  if lines.isEmpty then fs
  else if fs.any (isSummary level) then
    setFirstText (isSummary level) ("\n".intercalate lines) fs
  else fs ++ [summaryFeature level ("\n".intercalate lines)]

def featuresWith (r : Ruleset) (node : Node) (level : Int) (made : List Made)
    (fs : List Feature) : List Feature :=
  summaryTo level (made.map (Made.line r)) (node.grants.foldl (grantTo r level) fs)

end Character

namespace Made

def feedsSpells (m : Made) : Bool :=
  Character.mentions (Text.lower m.choice.source) "cantrip" ||
    Character.mentions (Text.lower m.choice.source) "spell"

def feedsInfusions (m : Made) : Bool :=
  Character.mentions (Text.lower m.choice.source) "infusion"

def spellsWith (r : Ruleset) (b : SpellBook) (m : Made) : SpellBook :=
  if m.feedsSpells then m.picks.foldl (Character.addSpell r (Text.lower m.choice.source)) b else b

def infusionsWith (s : IdSet) (m : Made) : IdSet :=
  if m.feedsSpells then s else if m.feedsInfusions then s.union m.picks else s

end Made

namespace Character

theorem foldl_addGrant (r : Ruleset) (level : Int) (grants : List String) (c : Character) :
    grants.foldl (addGrant r level) c =
      { c with features := grants.foldl (grantTo r level) c.features } := by
  induction grants generalizing c with
  | nil => rfl
  | cons id grants ih =>
    have first : addGrant r level c id = { c with features := grantTo r level c.features id } := by
      unfold addGrant grantTo hasGrant
      by_cases there : c.features.any
        fun f => f.name = r.featureName id && f.level = level && f.tags.grant
      · rw [if_pos there, if_pos there]
      · rw [if_neg there, if_neg there]
    rw [List.foldl_cons, List.foldl_cons, first, ih]

theorem foldl_foldPicks (r : Ruleset) (made : List Made) (c : Character) :
    made.foldl (fun c m => foldPicks r m.choice c m.picks) c =
      { c with
        spells := made.foldl (Made.spellsWith r) c.spells
        infusions := made.foldl Made.infusionsWith c.infusions } := by
  induction made generalizing c with
  | nil => rfl
  | cons m made ih =>
    have first : foldPicks r m.choice c m.picks =
        { c with spells := m.spellsWith r c.spells, infusions := m.infusionsWith c.infusions } := by
      unfold foldPicks Made.spellsWith Made.infusionsWith
      change (if m.feedsSpells then _ else if m.feedsInfusions then _ else _) = _
      by_cases toSpells : m.feedsSpells
      · simp only [if_pos toSpells]
      · by_cases toInfusions : m.feedsInfusions
        · simp only [if_neg toSpells, if_pos toInfusions]
        · simp only [if_neg toSpells, if_neg toInfusions]
    rw [List.foldl_cons, first, ih, List.foldl_cons, List.foldl_cons]

theorem summarize_eq (c : Character) (level : Int) (lines : List String) :
    summarize c level lines = { c with features := summaryTo level lines c.features } := by
  unfold summarize summaryTo setSummary
  by_cases empty : lines.isEmpty
  · rw [if_pos empty, if_pos empty]
  · rw [if_neg empty, if_neg empty]
    by_cases there : c.features.any (isSummary level)
    · rw [if_pos there, if_pos there]
    · rw [if_neg there, if_neg there]

theorem fold_eq (r : Ruleset) (node : Node) (level : Int) (made : List Made) (c : Character) :
    fold r node level made c =
      { c with
        features := featuresWith r node level made c.features
        spells := made.foldl (Made.spellsWith r) c.spells
        infusions := made.foldl Made.infusionsWith c.infusions } := by
  simp only [fold, foldl_addGrant, foldl_foldPicks, summarize_eq, featuresWith]

-- the ledger

theorem get?_of_record? {c : Character} {level : Int} {record : LevelRecord}
    (recorded : c.record? level = some record) :
    c.advancement.get? (toString level) = some record := by
  unfold record? at recorded
  split at recorded
  · split at recorded
    · contradiction
    · rwa [← recorded]
  · contradiction

theorem record?_insert (c : Character) (l level : Int) (record : LevelRecord)
    (filled : record.isEmpty = false) (ledger : Ledger)
    (at_level : c.advancement = ledger.insert (toString level) record) :
    c.record? l = if l = level then some record else { c with advancement := ledger }.record? l := by
  unfold record?
  rw [at_level, Dict.get?_insert]
  by_cases same : l = level
  · simp [same, filled]
  · simp [same]

theorem revert_of_unrecorded {c : Character} {level : Int} (bare : c.record? level = none) :
    c.revert level = (c, none) := by
  rw [revert, bare]

-- a character without what a level gave it
def withdrawn (c : Character) (level : Int) (record : LevelRecord) : Character :=
  { c with
    features := c.features.filter fun f => !isOfLevel level f
    spells := ⟨c.spells.cantrips.without (pickedIds record),
      c.spells.known.without (pickedIds record)⟩
    infusions := c.infusions.without (pickedIds record)
    advancement := c.advancement.erase (toString level) }

theorem revert_of_recorded {c : Character} {level : Int} {record : LevelRecord}
    (recorded : c.record? level = some record) :
    c.revert level = (c.withdrawn level record, some record) := by
  rw [revert, recorded]
  rfl

theorem record?_withdrawn (c : Character) (level l : Int) (record : LevelRecord) :
    (c.withdrawn level record).record? l = if l = level then none else c.record? l := by
  by_cases same : l = level
  · simp [record?, withdrawn, same]
  · simp [record?, withdrawn, same]

theorem record?_revert (c : Character) (level l : Int) :
    (c.revert level).1.record? l = if l = level then none else c.record? l := by
  cases recorded : c.record? level with
  | none =>
    rw [revert_of_unrecorded recorded]
    split
    · simp_all
    · rfl
  | some record =>
    rw [revert_of_recorded recorded]
    exact record?_withdrawn c level l record

theorem advancement_committed (r : Ruleset) (node : Node) (level : Int) (made : List Made)
    (now : Moment) (c : Character) :
    (committed r node level made now c).advancement =
      (c.revert level).1.advancement.insert (toString level) (recordOf node made) := by
  simp only [committed, fold_eq]

theorem record?_committed (r : Ruleset) (node : Node) (level : Int) (made : List Made)
    (now : Moment) (c : Character) (l : Int) :
    (committed r node level made now c).record? l =
      if l = level then some (recordOf node made) else c.record? l := by
  rw [record?_insert _ l level _ (recordOf_filled node made) (c.revert level).1.advancement
    (by simp [committed, fold_eq])]
  have reverted := record?_revert c level l
  unfold record? at reverted ⊢
  split
  · rfl
  · simp_all

-- taking a level back, or applying one, changes features, spells, infusions, the ledger and the time only
theorem revert_frame (c : Character) (level : Int) :
    ∃ features spells infusions advancement, (c.revert level).1 =
      { c with
        features := features
        spells := spells
        infusions := infusions
        advancement := advancement } := by
  cases recorded : c.record? level with
  | none => exact ⟨_, _, _, _, by rw [revert_of_unrecorded recorded]⟩
  | some record => exact ⟨_, _, _, _, by rw [revert_of_recorded recorded, withdrawn]⟩

theorem committed_frame (r : Ruleset) (node : Node) (level : Int) (made : List Made) (now : Moment)
    (c : Character) :
    ∃ features spells infusions, committed r node level made now c =
      { c with
        features := features
        spells := spells
        infusions := infusions
        advancement := (c.revert level).1.advancement.insert (toString level) (recordOf node made)
        updatedAt := now } := by
  obtain ⟨features, spells, infusions, advancement, whole⟩ := revert_frame c level
  let after := committed r node level made now c
  refine ⟨after.features, after.spells, after.infusions, ?_⟩
  simp only [after, committed, fold_eq, whole]

end Character

end Tabletop
