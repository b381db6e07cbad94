import Tabletop.Proofs.Resuming

set_option autoImplicit false

namespace Tabletop

def Feature.untold (f : Feature) : Feature :=
  { f with text := "" }

namespace Character

def ownOf (fs : List Feature) : List Feature :=
  fs.filter fun f => f.tags.manual

def own (c : Character) : List Feature :=
  ownOf c.features

def summaryText (r : Ruleset) (made : List Made) : String :=
  "\n".intercalate (made.map (Made.line r))

/-- The summary of the level's choices goes into an entry of the player's that reads otherwise. -/
def Overwrites (r : Ruleset) (level : Int) (made : List Made) (fs : List Feature) : Prop :=
  made ≠ [] ∧ ∃ f, fs.find? (isSummary level) = some f ∧ f.tags.manual = true ∧
    f.text ≠ summaryText r made

variable {r : Ruleset} {node : Node} {level : Int} {made : List Made} {fs gs : List Feature}

@[simp] theorem ownOf_append : ownOf (fs ++ gs) = ownOf fs ++ ownOf gs :=
  List.filter_append ..

theorem ownOf_grantTo (fs : List Feature) (id : String) : ownOf (grantTo r level fs id) = ownOf fs := by
  unfold grantTo
  split
  · rfl
  · simp [ownOf, grantFeature, FeatureTags.grantOnly]

theorem ownOf_grants (grants : List String) (fs : List Feature) :
    ownOf (grants.foldl (grantTo r level) fs) = ownOf fs := by
  induction grants generalizing fs with
  | nil => rfl
  | cons id grants ih => rw [List.foldl_cons, ih, ownOf_grantTo]

-- the grants of a level are no summary
theorem find?_grants (grants : List String) (fs : List Feature) :
    (grants.foldl (grantTo r level) fs).find? (isSummary level) = fs.find? (isSummary level) := by
  induction grants generalizing fs with
  | nil => rfl
  | cons id grants ih =>
    rw [List.foldl_cons, ih, grantTo]
    split
    · rfl
    · have other : isSummary level (grantFeature r level id) = false := by
        simp [isSummary, grantFeature, FeatureTags.grantOnly]
      simp [List.find?_append, other]

theorem untold_setFirstText (p : Feature → Bool) (text : String) (fs : List Feature) :
    (ownOf (setFirstText p text fs)).map Feature.untold = (ownOf fs).map Feature.untold := by
  induction fs with
  | nil => rfl
  | cons f fs ih =>
    rw [setFirstText]
    split
    · cases manual : f.tags.manual <;> simp [ownOf, manual, Feature.untold]
    · cases manual : f.tags.manual <;> simpa [ownOf, manual] using ih

theorem withText_iff {f : Feature} {text : String} : { f with text := text } = f ↔ f.text = text := by
  cases f
  simp [eq_comm]

theorem ownOf_setFirstText {p : Feature → Bool} {text : String} :
    ownOf (setFirstText p text fs) = ownOf fs ↔
      ¬ ∃ f, fs.find? p = some f ∧ f.tags.manual = true ∧ f.text ≠ text := by
  induction fs with
  | nil => simp [setFirstText]
  | cons f fs ih =>
    rw [setFirstText]
    cases found : p f with
    | true =>
      cases manual : f.tags.manual with
      | true => simp [ownOf, manual, found, withText_iff]
      | false => simp [ownOf, manual, found]
    | false =>
      cases manual : f.tags.manual <;> simpa [ownOf, manual, found] using ih

theorem untold_summaryTo (lines : List String) (fs : List Feature) :
    (ownOf (summaryTo level lines fs)).map Feature.untold = (ownOf fs).map Feature.untold := by
  unfold summaryTo
  split
  · rfl
  · split
    · exact untold_setFirstText _ _ fs
    · simp [ownOf, summaryFeature, FeatureTags.choiceOnly]

theorem ownOf_summaryTo (level : Int) (lines : List String) (fs : List Feature) :
    ownOf (summaryTo level lines fs) = ownOf fs ↔
      ¬ (lines ≠ [] ∧ ∃ f, fs.find? (isSummary level) = some f ∧ f.tags.manual = true ∧
        f.text ≠ "\n".intercalate lines) := by
  unfold summaryTo
  split
  · simp_all
  · rename_i filled
    have given : lines ≠ [] := by simpa using filled
    rw [and_iff_right given, ← ownOf_setFirstText]
    split
    · rfl
    · rename_i bare
      have absent : fs.find? (isSummary level) = none := by simpa using bare
      rw [ownOf_setFirstText, absent]
      simp [ownOf, summaryFeature, FeatureTags.choiceOnly]

theorem untold_featuresWith (r : Ruleset) (node : Node) (level : Int) (made : List Made)
    (fs : List Feature) :
    (ownOf (featuresWith r node level made fs)).map Feature.untold =
      (ownOf fs).map Feature.untold := by
  rw [featuresWith, untold_summaryTo, ownOf_grants]

theorem ownOf_featuresWith :
    ownOf (featuresWith r node level made fs) = ownOf fs ↔ ¬ Overwrites r level made fs := by
  have granted := ownOf_summaryTo level (made.map (Made.line r))
    (node.grants.foldl (grantTo r level) fs)
  rw [ownOf_grants, find?_grants, Ne, List.map_eq_nil_iff] at granted
  exact granted

-- what a level puts in comes after the rest, wherever it is moved then

/-- The second list is the first one with texts changed, and then entries that are not the player's. -/
def Extends (fs gs : List Feature) : Prop :=
  ∃ old new, gs = old ++ new ∧ old.length = fs.length ∧ ownOf new = []

theorem extends_featuresWith (r : Ruleset) (node : Node) (level : Int) (made : List Made)
    (fs : List Feature) : Extends fs (featuresWith r node level made fs) := by
  obtain ⟨old, new, whole, pairs, uniform⟩ := featuresWith_append r node level made fs
  refine ⟨old, new, whole, pairs.length_eq, List.filter_eq_nil_iff.2 fun f member => ?_⟩
  have own := uniform f member
  simp only [isOfLevel, Feature.isEngineOwned, Bool.and_eq_true] at own
  simpa using own.2.2

theorem Extends.ownOf_moveBlock (extended : Extends fs gs) (place? : Option Nat) :
    ownOf (moveBlock place? fs.length gs) = ownOf gs := by
  obtain ⟨old, new, rfl, length, none⟩ := extended
  rw [← length, moveBlock_append]
  cases place? with
  | none => rfl
  | some place =>
    have whole : ownOf (old.take place) ++ ownOf (old.drop place) = ownOf old := by
      rw [← ownOf_append, List.take_append_drop]
    simp [none, whole]

-- a level at a time

theorem own_withdrawn (c : Character) (level : Int) (record : LevelRecord) :
    (c.withdrawn level record).own = c.own := by
  simp only [own, ownOf, withdrawn, List.filter_filter]
  refine List.filter_congr fun f _ => ?_
  cases manual : f.tags.manual <;> simp [isOfLevel, Feature.isEngineOwned, manual]

theorem own_revert (c : Character) (level : Int) : (c.revert level).1.own = c.own := by
  cases recorded : c.record? level with
  | none => rw [revert_of_unrecorded recorded]
  | some record => rw [revert_of_recorded recorded, own_withdrawn]

theorem own_committed (r : Ruleset) (node : Node) (level : Int) (made : List Made) (now : Moment)
    (c : Character) :
    (committed r node level made now c).own =
      ownOf (featuresWith r node level made (c.revert level).1.features) := by
  rw [own, committed_features, (extends_featuresWith r node level made _).ownOf_moveBlock]

-- several levels one after the other

structure Rung where
  level : Int
  node : Node
  made : List Made

def Rung.lay (r : Ruleset) (fs : List Feature) (rung : Rung) : List Feature :=
  featuresWith r rung.node rung.level rung.made fs

def featuresAt (level : Int) (fs : List Feature) : List Feature :=
  fs.filter fun f => f.level = level

theorem featuresAt_setFirstText {p : Feature → Bool} {l : Int} (text : String)
    (apart : ∀ f, p f = true → f.level ≠ l) :
    featuresAt l (setFirstText p text fs) = featuresAt l fs := by
  induction fs with
  | nil => rfl
  | cons f fs ih =>
    rw [setFirstText]
    split
    · rename_i found
      simp [featuresAt, apart f found]
    · simp only [featuresAt, List.filter_cons] at ih ⊢
      rw [ih]

-- a level leaves the entries of all others alone
theorem featuresAt_featuresWith {l : Int} (apart : l ≠ level) :
    featuresAt l (featuresWith r node level made fs) = featuresAt l fs := by
  have granted (grants : List String) (fs : List Feature) :
      featuresAt l (grants.foldl (grantTo r level) fs) = featuresAt l fs := by
    induction grants generalizing fs with
    | nil => rfl
    | cons id grants ih =>
      rw [List.foldl_cons, ih, grantTo]
      split
      · rfl
      · simp [featuresAt, grantFeature, apart.symm]
  unfold featuresWith summaryTo
  split
  · exact granted _ _
  · split
    · rw [featuresAt_setFirstText, granted]
      intro f found
      simp only [isSummary, Bool.and_eq_true, decide_eq_true_eq] at found
      rw [found.1.2]
      exact apart.symm
    · rw [featuresAt, List.filter_append, ← featuresAt, granted]
      simp [summaryFeature, apart.symm]

theorem featuresAt_laid {l : Int} {rungs : List Rung} (apart : ∀ rung ∈ rungs, l ≠ rung.level) :
    featuresAt l (rungs.foldl (Rung.lay r) fs) = featuresAt l fs := by
  induction rungs generalizing fs with
  | nil => rfl
  | cons rung rungs ih =>
    rw [List.forall_mem_cons] at apart
    rw [List.foldl_cons, ih apart.2]
    exact featuresAt_featuresWith apart.1

theorem featuresAt_ownOf (l : Int) (fs : List Feature) :
    featuresAt l (ownOf fs) = ownOf (featuresAt l fs) := by
  simp only [featuresAt, ownOf, List.filter_filter, Bool.and_comm]

-- entries that differ in their texts only are the same if they are so level by level
theorem eq_of_featuresAt (untold : fs.map Feature.untold = gs.map Feature.untold)
    (same : ∀ l, featuresAt l fs = featuresAt l gs) : fs = gs := by
  induction fs generalizing gs with
  | nil => simpa using untold
  | cons f fs ih =>
    cases gs with
    | nil => simp at untold
    | cons g gs =>
      rw [List.map_cons, List.map_cons, List.cons.injEq] at untold
      obtain ⟨alike, rest⟩ := untold
      have level : f.untold.level = g.untold.level := congrArg Feature.level alike
      change f.level = g.level at level
      have first := same g.level
      simp only [featuresAt, level, List.filter_cons, decide_true, if_true, List.cons.injEq] at first
      obtain ⟨rfl, -⟩ := first
      rw [ih rest fun l => ?_]
      have here := same l
      simp only [featuresAt, List.filter_cons] at here ⊢
      split at here
      · exact (List.cons.inj here).2
      · exact here

theorem overwrites_congr (same : featuresAt level fs = featuresAt level gs) :
    Overwrites r level made fs ↔ Overwrites r level made gs := by
  have found (hs : List Feature) :
      (featuresAt level hs).find? (isSummary level) = hs.find? (isSummary level) := by
    rw [featuresAt, List.find?_filter]
    congr 1
    funext f
    by_cases here : f.level = level <;> simp [isSummary, here]
  rw [Overwrites, Overwrites, ← found fs, ← found gs, same]

theorem untold_laid (r : Ruleset) (rungs : List Rung) (fs : List Feature) :
    (ownOf (rungs.foldl (Rung.lay r) fs)).map Feature.untold = (ownOf fs).map Feature.untold := by
  induction rungs generalizing fs with
  | nil => rfl
  | cons rung rungs ih =>
    rw [List.foldl_cons, ih]
    exact untold_featuresWith r rung.node rung.level rung.made fs

theorem ownOf_laid {rungs : List Rung} (distinct : (rungs.map Rung.level).Nodup) :
    ownOf (rungs.foldl (Rung.lay r) fs) = ownOf fs ↔
      ∀ rung ∈ rungs, ¬ Overwrites r rung.level rung.made fs := by
  induction rungs generalizing fs with
  | nil => simp
  | cons rung rungs ih =>
    rw [List.map_cons, List.nodup_cons] at distinct
    have apart : ∀ later ∈ rungs, rung.level ≠ later.level := by
      intro later member same
      exact distinct.1 (same ▸ List.mem_map_of_mem member)
    have kept : ∀ l ≠ rung.level, featuresAt l (rung.lay r fs) = featuresAt l fs :=
      fun l other => featuresAt_featuresWith other
    have later : (∀ later ∈ rungs, ¬ Overwrites r later.level later.made (rung.lay r fs)) ↔
        ∀ later ∈ rungs, ¬ Overwrites r later.level later.made fs :=
      forall₂_congr fun later member =>
        not_congr (overwrites_congr (kept _ (apart later member).symm))
    have rest : ownOf (rungs.foldl (Rung.lay r) (rung.lay r fs)) = ownOf (rung.lay r fs) ↔
        ∀ later ∈ rungs, ¬ Overwrites r later.level later.made fs := (ih distinct.2).trans later
    have first : ownOf (rung.lay r fs) = ownOf fs ↔ ¬ Overwrites r rung.level rung.made fs :=
      ownOf_featuresWith
    rw [List.forall_mem_cons, ← rest, ← first, List.foldl_cons]
    constructor
    · intro same
      have here : ownOf (rung.lay r fs) = ownOf fs := by
        refine eq_of_featuresAt (untold_featuresWith ..) fun l => ?_
        by_cases at_rung : l = rung.level
        · subst at_rung
          rw [featuresAt_ownOf, ← featuresAt_laid (r := r) apart, ← featuresAt_ownOf, same]
        · rw [featuresAt_ownOf, featuresAt_ownOf, kept l at_rung]
      exact ⟨here, same.trans here.symm⟩
    · rintro ⟨here, same⟩
      exact same.trans here

end Character

open Character (Rung ownOf committed featuresWith)

namespace Application

def Overwrites (a : Application) (level : Int) (force : Bool) (c : Character) : Prop :=
  (c.isApplied level && !force) = false ∧ ∃ node made, a.Makes level node made ∧
    Character.Overwrites a.ruleset level made (c.revert level).1.features

theorem on_own {a : Application} {level : Int} {force : Bool} {now : Moment} {c d : Character}
    (went : a.on level force now c = .ok d) :
    d.own.map Feature.untold = c.own.map Feature.untold ∧
      (d.own = c.own ↔ ¬ a.Overwrites level force c) := by
  by_cases idle : (c.isApplied level && !force) = true
  · obtain rfl := on_skip idle went
    simp [Overwrites, idle]
  · rw [Bool.not_eq_true] at idle
    obtain ⟨node, made, makes, rfl⟩ := makes_of_on idle went
    have left : ownOf (c.revert level).1.features = c.own := Character.own_revert c level
    rw [Character.own_committed, ← left]
    refine ⟨Character.untold_featuresWith .., Character.ownOf_featuresWith.trans (not_congr ?_)⟩
    constructor
    · exact fun writes => ⟨idle, node, made, makes, writes⟩
    · rintro ⟨-, other, others, makes', writes⟩
      obtain ⟨rfl, rfl⟩ := makes.unique makes'
      exact writes

end Application

namespace Journey

def Taken (r : Ruleset) (classId : Option String) (rung : Rung) : Prop :=
  ∃ given, Application.Makes ⟨r, classId, .byChoice given⟩ rung.level rung.node rung.made

theorem risen_features {r : Ruleset} {node : Node} {level : Int} {made : List Made} {c : Character}
    (bare : c.isApplied level = false) :
    (risen r node level made c).features = featuresWith r node level made c.features := by
  have unrecorded : c.record? level = none := by simpa [Character.isApplied] using bare
  change (committed r node level made c.updatedAt c).features = _
  rw [Character.committed_features, bare, Character.revert_of_unrecorded unrecorded]
  rfl

theorem risen_classId (r : Ruleset) (node : Node) (level : Int) (made : List Made) (c : Character) :
    (risen r node level made c).classId = c.classId := by
  obtain ⟨_, _, _, _, whole⟩ := risen_frame r node level made c
  rw [whole]

theorem step_eq_ok {pick : Pick} {p q : Progress} {level : Int} {j after : Journey}
    (bare : p.party.character.isApplied level = false)
    (stepped : (step pick p level).run j = (.ok q, after)) :
    q = { p with cancelledAt := some level } ∨ ∃ rung now, rung.level = level ∧
      Taken p.party.ruleset p.party.character.classId rung ∧
      q = p.raised ((risen p.party.ruleset rung.node level rung.made p.party.character).touch now)
        level := by
  simp only [step] at stepped
  cases found : p.party.ruleset.node? p.party.character.classId level with
  | none =>
    rw [found] at stepped
    cases stepped
  | some node =>
    rw [found] at stepped
    obtain ⟨given?, k, -, stepped⟩ := Action.bind_eq_ok stepped
    cases given? with
    | none =>
      obtain ⟨_, l, -, same⟩ := Action.bind_eq_ok stepped
      cases same
      exact .inl rfl
    | some given =>
      obtain ⟨made, now, chosen, rfl⟩ := commit_raises bare found stepped
      exact .inr ⟨⟨level, node, made⟩, now, rfl, ⟨given, found, chosen, isWritten_of_commit stepped⟩,
        rfl⟩

-- a walk takes some of its levels, each with what the rules give for it
theorem walk_takes {pick : Pick} {levels : List Int} {p q : Progress} {j after : Journey}
    (walked : (walk pick p levels).run j = (.ok q, after)) :
    ∃ rungs : List Rung, q.applied = p.applied ++ rungs.map Rung.level ∧
      (rungs.map Rung.level).Sublist levels ∧
      (∀ rung ∈ rungs, Taken p.party.ruleset p.party.character.classId rung) ∧
      q.party.character.features =
        rungs.foldl (Rung.lay p.party.ruleset) p.party.character.features := by
  induction levels generalizing p j with
  | nil =>
    cases walked
    exact ⟨[], by simp, .slnil, by simp, rfl⟩
  | cons level levels ih =>
    cases applied : p.party.character.isApplied level with
    | true =>
      rw [walk, if_pos applied] at walked
      obtain ⟨rungs, more, within, taken, laid⟩ := ih walked
      exact ⟨rungs, more, within.cons level, taken, laid⟩
    | false =>
      rw [walk, if_neg (by simp [applied])] at walked
      obtain ⟨next, k, stepped, walked⟩ := Action.bind_eq_ok walked
      rcases step_eq_ok applied stepped with rfl | ⟨rung, now, rfl, fits, rfl⟩
      · cases walked
        exact ⟨[], by simp, List.nil_sublist _, by simp, rfl⟩
      · have laid : (risen p.party.ruleset rung.node rung.level rung.made p.party.character).features
            = rung.lay p.party.ruleset p.party.character.features := risen_features applied
        split at walked
        · cases walked
          exact ⟨[rung], rfl, by simp, by simpa using fits, laid⟩
        · obtain ⟨rungs, more, within, taken, ends⟩ := ih walked
          refine ⟨rung :: rungs, ?_, within.cons_cons rung.level, ?_, ?_⟩
          · rw [more]
            simp [Progress.raised]
          · refine List.forall_mem_cons.2 ⟨fits, fun later member => ?_⟩
            rw [← risen_classId p.party.ruleset rung.node rung.level rung.made p.party.character]
            exact taken later member
          · rw [List.foldl_cons, ← laid]
            exact ends

theorem finish_features {p : Progress} {c : Character} {j after : Journey}
    (finished : (finish p).run j = (.ok c, after)) : c.features = p.party.character.features := by
  simp only [finish] at finished
  split at finished
  · cases finished
    rfl
  · obtain ⟨d, k, touched, finished⟩ := Action.bind_eq_ok finished
    obtain ⟨now, l, -, same⟩ := Action.bind_eq_ok touched
    cases same
    obtain ⟨_, m, -, same⟩ := Action.bind_eq_ok finished
    cases same
    rfl

theorem lower_features {c : Character} {target : Int} {a : Advanced} {j after : Journey}
    (lowered : (lower c target).run j = (.ok a, after)) :
    a.character.features = c.features ∧ a.applied = [] := by
  obtain ⟨d, k, touched, lowered⟩ := Action.bind_eq_ok lowered
  obtain ⟨now, l, -, same⟩ := Action.bind_eq_ok touched
  cases same
  obtain ⟨_, m, -, same⟩ := Action.bind_eq_ok lowered
  cases same
  exact ⟨rfl, rfl⟩

theorem levelsBetween_nodup (low high : Int) : (Character.levelsBetween low high).Nodup := by
  refine List.pairwise_map.2 (List.nodup_range.imp fun apart same => apart ?_)
  omega

theorem advance_takes {id : String} {target : Int} {pick : Pick} {j after : Journey} {a : Advanced}
    (went : (advance id target pick).run j = (.ok a, after)) :
    ∃ p k, ∃ rungs : List Rung, (load id).run j = (.ok p, k) ∧ a.applied = rungs.map Rung.level ∧
      (rungs.map Rung.level).Nodup ∧ (∀ rung ∈ rungs, Taken p.ruleset p.character.classId rung) ∧
      a.character.features = rungs.foldl (Rung.lay p.ruleset) p.character.features := by
  obtain ⟨p, k, loaded, went⟩ := Action.bind_eq_ok went
  refine ⟨p, k, ?_⟩
  change (if clamp target 1 20 ≤ p.character.level then lower p.character (clamp target 1 20)
    else climb pick p (clamp target 1 20)).run k = _ at went
  split at went
  · obtain ⟨features, applied⟩ := lower_features went
    exact ⟨[], loaded, applied, .nil, by simp, features⟩
  · obtain ⟨q, l, walked, went⟩ := Action.bind_eq_ok went
    obtain ⟨c, m, finished, same⟩ := Action.bind_eq_ok went
    cases same
    obtain ⟨rungs, applied, within, taken, features⟩ := walk_takes walked
    refine ⟨rungs, loaded, by simpa using applied, within.nodup (levelsBetween_nodup _ _), taken, ?_⟩
    rw [finish_features finished]
    exact features

end Journey

/-- What becomes of the player's own features. Taking back a level leaves them as they are. Applying a
level, and advancing, keep all of them in their order, and change nothing of them but texts; and they
change no text exactly if the summary of no level that is applied is written over one of them. -/
theorem Character.own_kept_iff (c : Character) (level : Int) (a : Application) (force : Bool)
    (now : Moment) (id : String) (target : Int) (pick : Pick) (j : Journey) :
    (c.revert level).1.own = c.own ∧
      (∀ d, a.on level force now c = .ok d →
        d.own.map Feature.untold = c.own.map Feature.untold ∧
          (d.own = c.own ↔ ¬ a.Overwrites level force c)) ∧
      ∀ reached after, (Journey.advance id target pick).run j = (.ok reached, after) →
        ∃ p k, ∃ rungs : List Rung,
          (Journey.load id).run j = (.ok p, k) ∧ reached.applied = rungs.map Rung.level ∧
          (∀ rung ∈ rungs, Journey.Taken p.ruleset p.character.classId rung) ∧
          reached.character.own.map Feature.untold = p.character.own.map Feature.untold ∧
          (reached.character.own = p.character.own ↔ ∀ rung ∈ rungs,
            ¬ Character.Overwrites p.ruleset rung.level rung.made p.character.features) := by
  refine ⟨Character.own_revert c level, fun d went => a.on_own went, ?_⟩
  intro reached after went
  obtain ⟨p, k, rungs, loaded, applied, distinct, taken, features⟩ := Journey.advance_takes went
  refine ⟨p, k, rungs, loaded, applied, taken, ?_, ?_⟩
  · rw [Character.own, features]
    exact Character.untold_laid ..
  · rw [Character.own, features]
    exact Character.ownOf_laid distinct

-- a player who keeps a note of their own under the name of a summary

namespace Novice

def memo : Feature := ⟨"memo", "Level 2 choices", 2, "mine", ⟨false, true, true⟩⟩

def scribe : Character := { novice with features := [memo] }

end Novice

open Novice in
theorem scribe_overwritten : scribe.own = [memo] ∧
    ((picking "a").on 2 false firstDay scribe).toOption.map Character.own =
      some [{ memo with text := "a: Light" }] := by
  decide +kernel

open Novice in
theorem own_kept_novice :
    (novice.revert 2).1.own = novice.own ∧
      (∃ d, (picking "a").on 2 false firstDay novice = .ok d ∧ d.own = novice.own) ∧
      ∃ full ending p k,
        (Journey.advance pupil.id 3 (lightUpTo 3)).run
          (Journey.setOut ((library pupil).withFaults [])) = (.ok full, ending) ∧
        (Journey.load pupil.id).run (Journey.setOut ((library pupil).withFaults [])) = (.ok p, k) ∧
        full.character.own.map Feature.untold = p.character.own.map Feature.untold := by
  have kept := Character.own_kept_iff novice 2 (picking "a") false firstDay pupil.id 3 (lightUpTo 3)
    (Journey.setOut ((library pupil).withFaults []))
  refine ⟨kept.1, ?_, ?_⟩
  · cases went : (picking "a").on 2 false firstDay novice with
    | error f =>
      have succeeds : ((picking "a").on 2 false firstDay novice).toOption.isSome = true := by
        decide +kernel
      simp [went, Except.toOption] at succeeds
    | ok d =>
      refine ⟨d, rfl, (kept.2.1 d went).2.2 ?_⟩
      rintro ⟨-, node, made, -, -, f, found, -⟩
      have absent : (novice.revert 2).1.features.find? (Character.isSummary 2) = none := by decide
      rw [absent] at found
      contradiction
  · obtain ⟨full, ending, succeeds, -⟩ := pupil_advances
    obtain ⟨p, k, rungs, loaded, -, -, untold, -⟩ := kept.2.2 full ending succeeds
    exact ⟨full, ending, p, k, succeeds, loaded, untold⟩

end Tabletop
