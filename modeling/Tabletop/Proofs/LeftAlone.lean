import Tabletop.Advancement.Advance

set_option autoImplicit false

namespace Tabletop

namespace Action

variable {σ τ α β : Type} {get : σ → τ}

structure Leaves (get : σ → τ) (x : Action σ α) : Prop where
  run : ∀ s, get (x.run s).2 = get s

theorem Leaves.of_run {x : Action σ α} (left : x.Leaves get) {outcome : Except Failure α} {s t : σ}
    (ran : x.run s = (outcome, t)) : get t = get s := by
  have same := left.run s
  rwa [ran] at same

theorem leaves_bind {x : Action σ α} {f : α → Action σ β} (first : x.Leaves get)
    (next : ∀ a, (f a).Leaves get) : (x >>= f).Leaves get := by
  constructor
  intro s
  have before := first.run s
  rw [run_bind]
  rcases ran : x.run s with ⟨e | a, t⟩
  · rw [ran] at before
    exact before
  · rw [ran] at before
    exact ((next a).run t).trans before

theorem leaves_pure (a : α) : (pure a : Action σ α).Leaves get :=
  ⟨fun _ => rfl⟩

theorem leaves_fail (f : Failure) : (fail f : Action σ α).Leaves get :=
  ⟨fun _ => rfl⟩

theorem leaves_state : (state : Action σ σ).Leaves get :=
  ⟨fun _ => rfl⟩

theorem leaves_ofResult (x : Except Failure α) : (ofResult x : Action σ α).Leaves get := by
  constructor
  intro s
  cases x <;> rfl

theorem leaves_ofExcept (x : Except Breakdown α) : (ofExcept x : Action σ α).Leaves get :=
  leaves_ofResult _

end Action

open Tabletop.Action (Leaves leaves_bind leaves_pure leaves_fail leaves_state leaves_ofResult leaves_ofExcept)

namespace Store

-- reading a record leaves the disk alone

theorem remember_leaves (c : Collection) (id : String) (print : Value) :
    Leaves Store.disk (remember c id print) :=
  ⟨fun _ => rfl⟩

theorem tick_leaves : Leaves Store.disk tick :=
  ⟨fun _ => rfl⟩

theorem now_leaves : Leaves Store.disk now :=
  ⟨fun _ => rfl⟩

theorem readRecord_leaves (c : Collection) (p : Place) : Leaves Store.disk (readRecord c p) := by
  refine leaves_bind leaves_state fun s => leaves_bind (leaves_ofExcept _) fun v? => ?_
  split
  · simp only
    split
    · refine leaves_bind (leaves_ofExcept _) fun print => ?_
      exact leaves_bind (remember_leaves ..) fun _ => leaves_pure _
    · exact leaves_pure _
  · exact leaves_pure _

theorem get_leaves (c : Collection) (id : String) : Leaves Store.disk (get c id) := by
  refine leaves_bind leaves_state fun s => leaves_bind (leaves_ofExcept _) fun p => ?_
  refine leaves_bind (leaves_ofExcept _) fun there => ?_
  split
  · exact readRecord_leaves c p
  · exact leaves_pure _

theorem getCharacter_leaves (id : String) : Leaves Store.disk (getCharacter id) := by
  refine leaves_bind (get_leaves ..) fun record? => ?_
  cases record? with
  | none => exact leaves_pure _
  | some record => exact leaves_bind tick_leaves fun supply => leaves_ofResult _

theorem getRuleset_leaves (id : String) : Leaves Store.disk (getRuleset id) := by
  refine leaves_bind (get_leaves ..) fun record? => ?_
  cases record? with
  | none => exact leaves_pure _
  | some record => exact leaves_bind now_leaves fun now => leaves_ofResult _

end Store

namespace Journey

-- only asking adds to what was asked

theorem onStore_asks_nothing {α : Type} (w : Store.Work α) : Leaves Journey.asked (onStore w) :=
  ⟨fun _ => rfl⟩

theorem save_asks_nothing (c : Character) : Leaves Journey.asked (save c) :=
  ⟨fun _ => rfl⟩

theorem commit_asks_nothing (p : Progress) (level : Int) (given : Dict String Answer) :
    Leaves Journey.asked (commit p level given) :=
  leaves_bind (onStore_asks_nothing _) fun _ => leaves_bind (leaves_ofResult _) fun _ =>
    leaves_bind (save_asks_nothing _) fun _ => leaves_pure _

theorem cancel_asks_nothing (p : Progress) (level : Int) :
    Leaves Journey.asked (do
      save p.party.character
      return { p with cancelledAt := some level } : Travel Progress) :=
  leaves_bind (save_asks_nothing _) fun _ => leaves_pure _

theorem touched_asks_nothing (c : Character) : Leaves Journey.asked (touched c) :=
  leaves_bind (onStore_asks_nothing _) fun _ => leaves_pure _

theorem finish_asks_nothing (p : Progress) : Leaves Journey.asked (finish p) := by
  simp only [finish]
  split
  · exact leaves_pure _
  · exact leaves_bind (touched_asks_nothing _) fun _ =>
      leaves_bind (save_asks_nothing _) fun _ => leaves_pure _

theorem lower_asks_nothing (c : Character) (target : Int) : Leaves Journey.asked (lower c target) :=
  leaves_bind (touched_asks_nothing _) fun _ => leaves_bind (save_asks_nothing _) fun _ => leaves_pure _

-- loading a party and asking leave the disk alone

def disk (j : Journey) : Disk :=
  j.store.disk

theorem onStore_leaves {α : Type} {w : Store.Work α} (left : Leaves Store.disk w) :
    Leaves disk (onStore w) :=
  ⟨fun j => left.run j.store⟩

theorem load_leaves (id : String) : Leaves disk (load id) := by
  refine leaves_bind (onStore_leaves (Store.getCharacter_leaves id)) fun c? => ?_
  cases c? with
  | none => exact leaves_fail _
  | some c =>
    simp only
    cases given c.rulesetId with
    | none => exact leaves_fail _
    | some rulesetId =>
      refine leaves_bind (onStore_leaves (Store.getRuleset_leaves rulesetId)) fun r? => ?_
      cases r? with
      | none => exact leaves_fail _
      | some r =>
        simp only
        cases given c.classId with
        | none => exact leaves_fail _
        | some cls => exact leaves_pure _

theorem ask_leaves_store (pick : Pick) (p : Party) (level : Int) (known : Dict String Answer)
    (choices : List Choice) : Leaves Journey.store (ask pick p level known choices) := by
  induction choices generalizing known with
  | nil => exact leaves_pure _
  | cons choice choices ih =>
    refine leaves_bind (leaves_ofExcept _) fun options => leaves_bind ⟨fun _ => rfl⟩ fun _ => ?_
    refine leaves_bind (leaves_ofExcept _) fun answer? => ?_
    cases answer? with
    | none => exact leaves_pure _
    | some answer => exact ih _

end Journey

end Tabletop
