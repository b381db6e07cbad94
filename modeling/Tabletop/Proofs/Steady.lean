import Tabletop.Proofs.Applying
import Tabletop.Store.Characters
import Tabletop.Store.Rulesets

set_option autoImplicit false

namespace Tabletop

def Failure.OfLevel : Failure → Prop
  | .levelUp (.progressionMissing _ _ _) => True
  | .levelUp (.choiceCount _ _ _ _) => True
  | _ => False

structure Steady {α : Type} (x : Except Failure α) : Prop where
  other : ∀ f, x = .error f → ¬ f.OfLevel

namespace Steady

variable {α β : Type}

theorem ok (a : α) : Steady (.ok a : Except Failure α) :=
  ⟨nofun⟩

theorem error {f : Failure} (other : ¬ f.OfLevel) : Steady (.error f : Except Failure α) := by
  constructor
  rintro _ ⟨⟩
  exact other

theorem breakdown (cause : Breakdown) : Steady (.error (.breakdown cause) : Except Failure α) :=
  .error not_false

theorem ofExcept (x : Except Breakdown α) : Steady (Failure.ofExcept x) := by
  cases x with
  | ok a => exact .ok a
  | error cause => exact .breakdown cause

theorem bind {x : Except Failure α} {f : α → Except Failure β} (first : Steady x)
    (next : ∀ a, Steady (f a)) : Steady (x.bind f) := by
  cases x with
  | ok a => exact next a
  | error e => exact .error (first.other e rfl)

end Steady

namespace Noted

variable {α β : Type}

theorem steady_bind {x : Noted α} {f : α → Noted β} (first : Steady x.result)
    (next : ∀ a, Steady (f a).result) : Steady (x >>= f).result := by
  rw [result_bind]
  exact first.bind next

theorem steady_ofExcept (x : Except Breakdown α) : Steady (ofExcept x).result := by
  rw [result_ofExcept]
  exact .ofExcept x

theorem steady_ofChecked (x : Checked α) : Steady (ofChecked x).result := by
  cases x with
  | ok a => exact .ok a
  | refused faults => exact .error not_false
  | broken cause => exact .breakdown cause

end Noted

namespace Ruleset

open Noted (steady_bind steady_ofExcept steady_ofChecked)

theorem partOf_steady {α : Type} (skipped : Nat → Notice) (x : Checked α) :
    Steady (partOf skipped x).result := by
  cases x with
  | ok a => exact .ok _
  | refused faults => exact .ok _
  | broken cause => exact .breakdown cause

theorem choiceOf_steady (classId level : String) (v : Value) :
    Steady (choiceOf classId level v).result := by
  unfold choiceOf
  split
  · split
    · exact .ok _
    · exact partOf_steady _ _
  · exact .ok _

theorem choicesOf_steady (classId level : String) (items : List Value) (kept : List Choice) :
    Steady (choicesOf classId level kept items).result := by
  induction items generalizing kept with
  | nil => exact .ok _
  | cons item items ih =>
    refine steady_bind (choiceOf_steady ..) fun choice? => ?_
    cases choice? with
    | none => exact ih kept
    | some choice =>
      simp only
      split
      · exact steady_bind (.ok _) fun _ => ih kept
      · exact ih _

theorem nodeOf_steady (classId : String) (level : Int) (es : Check.Entries) :
    Steady (nodeOf classId level es).result := by
  refine steady_bind (steady_ofExcept _) fun grants => ?_
  refine steady_bind (steady_ofExcept _) fun items => ?_
  exact steady_bind (choicesOf_steady ..) fun choices => .ok _

theorem progressionOf_steady (classId : String) (es : Check.Entries) (nodes : Dict Int Node) :
    Steady (progressionOf classId nodes es).result := by
  induction es generalizing nodes with
  | nil => exact .ok _
  | cons e es ih =>
    obtain ⟨key, v⟩ := e
    refine steady_bind (steady_ofExcept _) fun level? => ?_
    split
    · exact steady_bind (nodeOf_steady ..) fun node => ih _
    · exact ih nodes

theorem classesOf_steady (es : Check.Entries) (classes : Dict String ClassDef) :
    Steady (classesOf classes es).result := by
  induction es generalizing classes with
  | nil => exact .ok _
  | cons e es ih =>
    obtain ⟨key, v⟩ := e
    cases v with
    | map fields =>
      have one : Steady (classOf key.text fields).result := by
        refine steady_bind (steady_ofExcept _) fun nodes => ?_
        exact steady_bind (progressionOf_steady ..) fun progression => partOf_steady _ _
      refine steady_bind one fun c? => ?_
      cases c? with
      | none => exact ih classes
      | some c => exact ih _
    | _ => exact ih classes

theorem optionsOf_steady (pool : String) (items : List Value) :
    Steady (optionsOf pool items).result := by
  induction items with
  | nil => exact .ok _
  | cons item items ih =>
    cases item with
    | map es =>
      refine steady_bind (partOf_steady ..) fun option? => ?_
      exact steady_bind ih fun options => .ok _
    | _ => exact ih

theorem poolLists_steady (es : Check.Entries) : Steady (poolLists es).result := by
  induction es with
  | nil => exact .ok _
  | cons e es ih =>
    obtain ⟨key, v⟩ := e
    cases v with
    | list items =>
      refine steady_bind (optionsOf_steady ..) fun options => ?_
      exact steady_bind ih fun pools => .ok _
    | _ => exact steady_bind (.ok _) fun _ => ih

theorem featuresOf_steady (es : Check.Entries) (features : Dict String FeatureInfo) :
    Steady (featuresOf features es).result := by
  induction es generalizing features with
  | nil => exact .ok _
  | cons e es ih =>
    obtain ⟨key, v⟩ := e
    have one : Steady (featureOf key.text v).result := by
      unfold featureOf
      split
      · exact partOf_steady ..
      · exact .ok _
    refine steady_bind one fun info? => ?_
    cases info? with
    | none => exact ih features
    | some info => exact ih _

theorem ofDocument_steady (now : Moment) (d : Value) : Steady (ofDocument now d).result := by
  refine steady_bind (steady_ofExcept _) fun report => ?_
  split
  · refine steady_bind (.ok _) fun _ => ?_
    refine steady_bind (classesOf_steady ..) fun classes => ?_
    have pools : Steady (poolsOf d.entriesOrEmpty).result := by
      refine steady_bind (poolLists_steady _) fun lists => ?_
      exact steady_bind (steady_ofChecked _) fun extra => .ok _
    refine steady_bind pools fun pools => ?_
    refine steady_bind (featuresOf_steady ..) fun features => ?_
    exact steady_bind (steady_ofChecked _) fun names => .ok _
  · exact .error not_false

end Ruleset

namespace Action

variable {σ α β : Type}

/-- Work that reports no level, in whatever state it begins. -/
structure Steady (x : Action σ α) : Prop where
  run : ∀ s, Tabletop.Steady (x.run s).1

theorem steady_pure (a : α) : Steady (pure a : Action σ α) :=
  ⟨fun _ => .ok a⟩

theorem steady_bind {x : Action σ α} {f : α → Action σ β} (first : x.Steady)
    (next : ∀ a, (f a).Steady) : (x >>= f).Steady := by
  constructor
  intro s
  rw [run_bind]
  rcases ran : x.run s with ⟨e | a, t⟩
  · exact .error ((first.run s).other e (by rw [ran]))
  · exact (next a).run t

theorem steady_ofResult {x : Except Failure α} (steady : Tabletop.Steady x) :
    Steady (ofResult x : Action σ α) := by
  constructor
  intro s
  cases x with
  | ok a => exact .ok a
  | error f => exact .error (steady.other f rfl)

theorem steady_ofExcept (x : Except Breakdown α) : Steady (ofExcept x : Action σ α) :=
  steady_ofResult (.ofExcept x)

theorem steady_state : Steady (state : Action σ σ) :=
  ⟨fun s => .ok s⟩

theorem steady_part {τ : Type} {x : Action τ α} (steady : x.Steady) (get : σ → τ) (set : τ → σ → σ) :
    (part get set x).Steady :=
  ⟨fun s => steady.run (get s)⟩

theorem steady_change (f : σ → σ) : Steady (change f) :=
  ⟨fun _ => .ok ()⟩

end Action

namespace Store

open Tabletop.Action (steady_pure steady_bind steady_ofResult steady_ofExcept steady_state steady_change)

theorem write_steady (p : Place) (v : Value) : (write p v).Steady := by
  refine ⟨fun s => ⟨fun f failed => ?_⟩⟩
  have attempt : (s.disk.write p v).1 = .error f := failed
  unfold Disk.write at attempt
  split at attempt
  · cases attempt
  · cases attempt
    exact id
  · split at attempt
    · cases attempt
    all_goals
      cases attempt
      exact not_false

theorem put_steady (c : Collection) (r : Record) (force : Bool) : (put c r force).Steady := by
  refine steady_bind steady_state fun s => ?_
  refine steady_bind (steady_ofExcept _) fun p => ?_
  have writing : Action.Steady (do write p r.document; remember c r.id r.fingerprint) :=
    steady_bind (write_steady ..) fun _ => steady_change _
  cases force with
  | true => exact writing
  | false =>
    refine steady_bind (steady_ofExcept _) fun unchanged => ?_
    cases unchanged with
    | true => exact steady_pure _
    | false => exact writing

theorem putCharacter_steady (c : Character) : (putCharacter c).Steady :=
  steady_bind (steady_ofExcept _) fun _ => put_steady ..

theorem get_steady (c : Collection) (id : String) : (get c id).Steady := by
  refine steady_bind steady_state fun s => ?_
  refine steady_bind (steady_ofExcept _) fun p => ?_
  refine steady_bind (steady_ofExcept _) fun there => ?_
  split
  · refine steady_bind steady_state fun s => ?_
    refine steady_bind (steady_ofExcept _) fun v => ?_
    split
    · simp only
      split
      · refine steady_bind (steady_ofExcept _) fun print => ?_
        exact steady_bind (steady_change _) fun _ => steady_pure _
      · exact steady_pure _
    · exact steady_pure _
  · exact steady_pure _

theorem now_steady : now.Steady :=
  ⟨fun s => .ok s.supply.now⟩

theorem characterOf_steady (supply : Supply) (v : Value) : Tabletop.Steady (characterOf supply v) := by
  unfold characterOf
  cases Character.ofValue supply v with
  | ok result => exact .ok _
  | refused faults => exact .ok _
  | broken cause => exact .breakdown cause

theorem getCharacter_steady (id : String) : (getCharacter id).Steady := by
  refine steady_bind (get_steady ..) fun record? => ?_
  cases record? with
  | none => exact steady_pure _
  | some record =>
    have clock : tick.Steady := ⟨fun s => .ok s.supply⟩
    exact steady_bind clock fun supply => steady_ofResult (characterOf_steady supply _)

theorem rulesetOf_steady (now : Moment) (es : Field.Entries) : Tabletop.Steady (rulesetOf now es) := by
  unfold rulesetOf
  split
  · exact .ok _
  · rename_i failed
    exact .error ((Ruleset.ofDocument_steady _ _).other _ failed)
  · exact .bind (.ofExcept _) fun imported => .ok _

theorem getRuleset_steady (id : String) : (getRuleset id).Steady := by
  refine steady_bind (get_steady ..) fun record? => ?_
  cases record? with
  | none => exact steady_pure _
  | some record =>
    exact steady_bind now_steady fun now => steady_ofResult (rulesetOf_steady now record)

end Store

end Tabletop
