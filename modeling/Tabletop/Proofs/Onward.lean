import Tabletop.Command
import Tabletop.Proofs.LeftAlone
import Tabletop.Proofs.MomentOrder
import Tabletop.Proofs.StoredCharacter

set_option autoImplicit false

namespace Tabletop

namespace Store

structure Onward (s t : Store) : Prop where
  root : t.root = s.root
  disk : t.disk = s.disk
  clock : s.supply.now.offset = none →
    t.supply.now.offset = none ∧ t.supply.now.less s.supply.now = false

variable {s t u : Store}

theorem Onward.of_supply (root : t.root = s.root) (disk : t.disk = s.disk) (supply : t.supply = s.supply) :
    Onward s t where
  root := root
  disk := disk
  clock plain := by
    rw [supply]
    exact ⟨plain, Moment.less_self _ plain⟩

theorem Onward.refl (s : Store) : Onward s s :=
  .of_supply rfl rfl rfl

theorem Onward.trans (first : Onward s t) (second : Onward t u) : Onward s u where
  root := second.root.trans first.root
  disk := second.disk.trans first.disk
  clock plain := by
    obtain ⟨plain', forward⟩ := first.clock plain
    obtain ⟨plain'', forward'⟩ := second.clock plain'
    refine ⟨plain'', ?_⟩
    rw [← Bool.not_eq_true]
    intro back
    have between := Moment.less_of_not_less plain' plain'' forward' back
    rw [forward] at between
    cases between

-- two ids or times are handed out at once
theorem before_ticked (plain : s.supply.now.offset = none) :
    s.ticked.supply.now.offset = none ∧ s.supply.now.less s.ticked.supply.now = true := by
  have plain' := (Moment.offset_next s.supply.now).trans plain
  exact ⟨(Moment.offset_next _).trans plain',
    Moment.less_trans plain plain' (Moment.less_next _ plain) (Moment.less_next _ plain')⟩

theorem onward_ticked (s : Store) : Onward s s.ticked where
  root := rfl
  disk := rfl
  clock plain := by
    obtain ⟨plain', later⟩ := before_ticked plain
    exact ⟨plain', Moment.not_less_of_less plain plain' later⟩

end Store

namespace Action

variable {σ α β : Type} {get : σ → Store}

structure Calm (get : σ → Store) (x : Action σ α) : Prop where
  run : ∀ s, (get s).Onward (get (x.run s).2)

theorem calm_of_leaves {x : Action σ α} (left : x.Leaves get) : x.Calm get := by
  constructor
  intro s
  rw [left.run s]
  exact .refl _

theorem calm_bind {x : Action σ α} {f : α → Action σ β} (first : x.Calm get)
    (next : ∀ a, (f a).Calm get) : (x >>= f).Calm get := by
  constructor
  intro s
  have before := first.run s
  rw [run_bind]
  rcases ran : x.run s with ⟨e | a, t⟩
  · rwa [ran] at before
  · rw [ran] at before
    exact before.trans ((next a).run t)

theorem calm_pure (a : α) : (pure a : Action σ α).Calm get :=
  calm_of_leaves (leaves_pure a)

theorem calm_fail (f : Failure) : (fail f : Action σ α).Calm get :=
  calm_of_leaves (leaves_fail f)

theorem calm_state : (state : Action σ σ).Calm get :=
  calm_of_leaves leaves_state

theorem calm_ofResult (x : Except Failure α) : (ofResult x : Action σ α).Calm get :=
  calm_of_leaves (leaves_ofResult x)

theorem calm_ofExcept (x : Except Breakdown α) : (ofExcept x : Action σ α).Calm get :=
  calm_ofResult _

end Action

open Tabletop.Action (Calm calm_of_leaves calm_bind calm_pure calm_fail calm_state calm_ofResult
  calm_ofExcept)

namespace Store

abbrev OnlyReads {α : Type} (w : Work α) : Prop :=
  w.Calm fun s => s

-- records

theorem remember_onlyReads (c : Collection) (id : String) (print : Value) :
    OnlyReads (remember c id print) :=
  ⟨fun _ => .of_supply rfl rfl rfl⟩

theorem tick_onlyReads : OnlyReads tick :=
  ⟨onward_ticked⟩

theorem now_onlyReads : OnlyReads now :=
  calm_bind tick_onlyReads fun _ => calm_pure _

theorem readRecord_onlyReads (c : Collection) (p : Place) : OnlyReads (readRecord c p) := by
  refine calm_bind calm_state fun s => calm_bind (calm_ofExcept _) fun v? => ?_
  split
  · simp only
    split
    · refine calm_bind (calm_ofExcept _) fun print => ?_
      exact calm_bind (remember_onlyReads ..) fun _ => calm_pure _
    · exact calm_pure _
  · exact calm_pure _

theorem get_onlyReads (c : Collection) (id : String) : OnlyReads (get c id) := by
  refine calm_bind calm_state fun s => calm_bind (calm_ofExcept _) fun p => ?_
  refine calm_bind (calm_ofExcept _) fun there => ?_
  split
  · exact readRecord_onlyReads c p
  · exact calm_pure _

theorem readAll_onlyReads (c : Collection) (ps : List Place) : OnlyReads (readAll c ps) := by
  induction ps with
  | nil => exact calm_pure _
  | cons p ps ih =>
    exact calm_bind (readRecord_onlyReads c p) fun record? => calm_bind ih fun records => calm_pure _

theorem listAll_onlyReads (c : Collection) : OnlyReads (listAll c) :=
  calm_bind calm_state fun _ => readAll_onlyReads c _

theorem setting_onlyReads (key : String) : OnlyReads (setting key) := by
  refine calm_bind calm_state fun s => calm_bind (calm_ofExcept _) fun v? => ?_
  split
  · exact calm_pure _
  · exact calm_fail _
  · exact calm_pure _

-- characters and rulesets

theorem readCharacter_onlyReads (v : Value) : OnlyReads (readCharacter v) :=
  calm_bind tick_onlyReads fun _ => calm_ofResult _

theorem getCharacter_onlyReads (id : String) : OnlyReads (getCharacter id) := by
  refine calm_bind (get_onlyReads ..) fun record? => ?_
  cases record? with
  | none => exact calm_pure _
  | some record => exact readCharacter_onlyReads _

theorem readCharacters_onlyReads (records : List Field.Entries) :
    OnlyReads (readCharacters records) := by
  induction records with
  | nil => exact calm_pure _
  | cons record records ih =>
    exact calm_bind (readCharacter_onlyReads _) fun c? => calm_bind ih fun cs => calm_pure _

theorem listCharacters_onlyReads : OnlyReads listCharacters := by
  refine calm_bind (listAll_onlyReads _) fun records => ?_
  refine calm_bind (readCharacters_onlyReads records) fun cs => ?_
  split
  · exact calm_pure _
  · exact calm_fail _

theorem getRuleset_onlyReads (id : String) : OnlyReads (getRuleset id) := by
  refine calm_bind (get_onlyReads ..) fun record? => ?_
  cases record? with
  | none => exact calm_pure _
  | some record => exact calm_bind now_onlyReads fun now => calm_ofResult _

theorem listRulesets_onlyReads : OnlyReads listRulesets :=
  calm_bind (listAll_onlyReads _) fun _ => calm_ofExcept _

theorem exportBackup_onlyReads : OnlyReads exportBackup :=
  calm_bind now_onlyReads fun _ => calm_bind (listAll_onlyReads _) fun _ =>
    calm_bind (listAll_onlyReads _) fun _ => calm_pure _

-- files

theorem readRulesetText_onlyReads (path : String) (p : Place) : OnlyReads (readRulesetText path p) := by
  refine calm_bind calm_state fun s => ?_
  split
  · exact calm_pure _
  · exact calm_fail _
  · exact calm_fail _

theorem loadRuleset_onlyReads (path : String) : OnlyReads (loadRuleset path) := by
  unfold loadRuleset
  simp only
  split
  · exact calm_fail _
  · refine calm_bind calm_state fun s => calm_bind (calm_ofExcept _) fun p? => ?_
    cases p? with
    | none => exact calm_fail _
    | some p =>
      simp only
      split
      · exact calm_fail _
      · exact calm_bind (readRulesetText_onlyReads path p) fun text =>
          calm_bind now_onlyReads fun now => calm_ofResult _

end Store

namespace Command

open Store (OnlyReads)

theorem loadSource_onlyReads (source format : String) : OnlyReads (loadSource source format) := by
  have rest (isPath : Bool) : OnlyReads (if isPath then Store.loadRuleset source
      else do .ofResult (Ruleset.ofText (← Store.now) format source).result : Store.Work Ruleset) := by
    split
    · exact Store.loadRuleset_onlyReads source
    · exact calm_bind Store.now_onlyReads fun now => calm_ofResult _
  unfold loadSource
  simp only
  split
  · refine calm_bind calm_state fun s => calm_bind ?_ rest
    exact calm_bind (calm_ofExcept _) fun _ => calm_pure _
  · exact calm_bind (calm_pure _) rest

theorem idOrActive_onlyReads (given : Option String) (setting : String) :
    OnlyReads (idOrActive given setting) := by
  unfold idOrActive
  split
  · exact calm_pure _
  · refine calm_bind (Store.setting_onlyReads setting) fun v => ?_
    split
    · exact calm_pure _
    · split
      · exact calm_pure _
      · exact calm_fail _

theorem findCharacter_onlyReads (id : Option String) : OnlyReads (findCharacter id) := by
  refine calm_bind (idOrActive_onlyReads id _) fun id? => ?_
  cases id? with
  | none => exact calm_pure _
  | some id => exact Store.getCharacter_onlyReads id

theorem rulesetOf_onlyReads (c : Character) : OnlyReads (rulesetOf c) := by
  unfold rulesetOf
  split
  · exact Store.getRuleset_onlyReads _
  · exact calm_pure _

theorem withRuleset_onlyReads {answer : Character → Ruleset → Store.Work String}
    (reads : ∀ c r, OnlyReads (answer c r)) (id : Option String) : OnlyReads (withRuleset id answer) := by
  refine calm_bind (findCharacter_onlyReads id) fun c? => ?_
  cases c? with
  | none => exact calm_pure _
  | some c =>
    refine calm_bind (rulesetOf_onlyReads c) fun r? => ?_
    cases r? with
    | none => exact calm_pure _
    | some r => exact reads c r

-- the commands that only read

theorem listRulesets_onlyReads : OnlyReads listRulesets := by
  refine calm_bind Store.listRulesets_onlyReads fun summaries => ?_
  split
  · exact calm_bind calm_state fun s => calm_pure _
  · exact calm_bind (Store.setting_onlyReads _) fun active => calm_pure _

theorem listCharacters_onlyReads : OnlyReads listCharacters := by
  refine calm_bind Store.listCharacters_onlyReads fun characters => ?_
  split
  · exact calm_pure _
  · exact calm_bind (Store.setting_onlyReads _) fun active => calm_pure _

theorem characterSheet_onlyReads (id : Option String) : OnlyReads (characterSheet id) := by
  refine calm_bind (findCharacter_onlyReads id) fun c? => ?_
  cases c? with
  | none => exact calm_pure _
  | some c => exact calm_bind (rulesetOf_onlyReads c) fun r? => calm_ofExcept _

theorem levelUpPlan_onlyReads (target : Int) (id : Option String) : OnlyReads (levelUpPlan target id) :=
  withRuleset_onlyReads (fun _ _ => calm_ofExcept _) id

theorem choiceOptions_onlyReads (level : Int) (choiceId : String) (id : Option String) :
    OnlyReads (choiceOptions level choiceId id) :=
  withRuleset_onlyReads (fun _ _ => calm_ofExcept _) id

end Command

namespace Journey

-- what an advance does before it saves

theorem onStore_calm {α : Type} {w : Store.Work α} (reads : Store.OnlyReads w) :
    Calm Journey.store (onStore w) :=
  ⟨fun j => reads.run j.store⟩

theorem load_calm (id : String) : Calm Journey.store (load id) := by
  refine calm_bind (onStore_calm (Store.getCharacter_onlyReads id)) fun c? => ?_
  cases c? with
  | none => exact calm_fail _
  | some c =>
    simp only
    cases given c.rulesetId with
    | none => exact calm_fail _
    | some rulesetId =>
      refine calm_bind (onStore_calm (Store.getRuleset_onlyReads rulesetId)) fun r? => ?_
      cases r? with
      | none => exact calm_fail _
      | some r =>
        simp only
        cases given c.classId with
        | none => exact calm_fail _
        | some cls => exact calm_pure _

theorem ask_calm (pick : Pick) (p : Party) (level : Int) (known : Dict String Answer)
    (choices : List Choice) : Calm Journey.store (ask pick p level known choices) :=
  calm_of_leaves (ask_leaves_store pick p level known choices)

theorem touched_calm (c : Character) : Calm Journey.store (touched c) :=
  calm_bind (onStore_calm Store.now_onlyReads) fun _ => calm_pure _

end Journey

end Tabletop
