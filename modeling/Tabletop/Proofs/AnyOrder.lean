import Tabletop.Proofs.OwnFeatures
import Tabletop.Proofs.Shelf

set_option autoImplicit false

namespace Tabletop

open Character (Rung committed featuresAt featuresWith)

structure Lesson where
  level : Int
  classId : Option String
  selections : Selections

namespace Lesson

def application (r : Ruleset) (l : Lesson) : Application :=
  ⟨r, l.classId, l.selections⟩

-- what is applied, if anything can be
def rung? (r : Ruleset) (l : Lesson) : Option Rung :=
  if IsWritten l.level then
    (r.node? l.classId l.level).bind fun node =>
      (node.made r l.selections).toOption.map fun made => ⟨l.level, node, made⟩
  else none

theorem rung?_level {r : Ruleset} {l : Lesson} {rung : Rung} (taught : l.rung? r = some rung) :
    rung.level = l.level := by
  unfold rung? at taught
  split at taught
  · simp only [Option.bind_eq_some_iff, Option.map_eq_some_iff] at taught
    obtain ⟨node, -, made, -, rfl⟩ := taught
    rfl
  · contradiction

theorem rungs_levels (r : Ruleset) (lessons : List Lesson) :
    ((lessons.filterMap (rung? r)).map Rung.level).Sublist (lessons.map level) := by
  induction lessons with
  | nil => exact .slnil
  | cons l lessons ih =>
    rw [List.filterMap_cons]
    cases taught : l.rung? r with
    | none => exact ih.cons l.level
    | some rung =>
      rw [List.map_cons, List.map_cons, rung?_level taught]
      exact ih.cons_cons l.level

end Lesson

/-- Levels are applied one after the other, each at a time of its own, none of them by force. -/
def study (r : Ruleset) (c : Character) (lessons : List (Lesson × Moment)) :
    Except Failure Character :=
  lessons.foldlM (fun c l => (l.1.application r).on l.1.level false l.2 c) c

namespace Character

variable {r : Ruleset} {node : Node} {level : Int} {made : List Made} {fs gs : List Feature}
  {rungs others : List Rung}

-- a level sees nothing but the entries of its own

theorem any_featuresAt (p : Feature → Bool) (own : ∀ f, p f = true → f.level = level)
    (fs : List Feature) : (featuresAt level fs).any p = fs.any p := by
  rw [featuresAt, List.any_filter]
  congr 1
  funext f
  cases here : p f with
  | false => simp
  | true => simp [own f here]

theorem isSummary_level {f : Feature} (summary : isSummary level f = true) : f.level = level := by
  simp only [isSummary, Bool.and_eq_true, decide_eq_true_eq] at summary
  exact summary.1.2

theorem featuresAt_grants (grants : List String) (fs : List Feature) :
    featuresAt level (grants.foldl (grantTo r level) fs) =
      grants.foldl (grantTo r level) (featuresAt level fs) := by
  induction grants generalizing fs with
  | nil => rfl
  | cons id grants ih =>
    have first : featuresAt level (grantTo r level fs id) = grantTo r level (featuresAt level fs) id := by
      unfold grantTo
      rw [any_featuresAt]
      · split
        · rfl
        · simp [featuresAt, grantFeature]
      · intro f same
        simp only [Bool.and_eq_true, decide_eq_true_eq] at same
        exact same.1.2
    rw [List.foldl_cons, List.foldl_cons, ih, first]

theorem featuresAt_setSummary (text : String) (fs : List Feature) :
    featuresAt level (setFirstText (isSummary level) text fs) =
      setFirstText (isSummary level) text (featuresAt level fs) := by
  induction fs with
  | nil => rfl
  | cons f fs ih =>
    cases summary : isSummary level f with
    | true =>
      have here := isSummary_level summary
      simp [setFirstText, summary, featuresAt, here]
    | false =>
      by_cases here : f.level = level
      · simpa [setFirstText, summary, featuresAt, here] using ih
      · simpa [setFirstText, summary, featuresAt, here] using ih

theorem featuresAt_featuresWith_self (fs : List Feature) :
    featuresAt level (featuresWith r node level made fs) =
      featuresWith r node level made (featuresAt level fs) := by
  unfold featuresWith summaryTo
  rw [← featuresAt_grants, any_featuresAt _ fun f => isSummary_level]
  split
  · rfl
  · split
    · exact featuresAt_setSummary _ _
    · simp [featuresAt, summaryFeature]

theorem featuresAt_foldl_lay (l : Int) (rungs : List Rung) (fs : List Feature) :
    featuresAt l (rungs.foldl (Rung.lay r) fs) =
      (rungs.filter fun rung => rung.level = l).foldl (Rung.lay r) (featuresAt l fs) := by
  induction rungs generalizing fs with
  | nil => rfl
  | cons rung rungs ih =>
    rw [List.foldl_cons, ih, List.filter_cons]
    by_cases here : rung.level = l
    · subst here
      have own : featuresAt rung.level (rung.lay r fs) = rung.lay r (featuresAt rung.level fs) :=
        featuresAt_featuresWith_self fs
      simp [own]
    · have other : featuresAt l (rung.lay r fs) = featuresAt l fs :=
        featuresAt_featuresWith (Ne.symm here)
      simp [here, other]

-- of levels that are all different, each comes up once, in whatever order
theorem filter_level_of_perm (same : rungs.Perm others) (distinct : (rungs.map Rung.level).Nodup)
    (l : Int) :
    (rungs.filter fun rung => rung.level = l) = others.filter fun rung => rung.level = l := by
  have apart (ladder : List Rung) (distinct : (ladder.map Rung.level).Nodup) :
      (ladder.filter fun rung => rung.level = l).Pairwise fun a b => a.level ≠ b.level :=
    (List.pairwise_map.1 distinct).sublist List.filter_sublist
  have again : (others.map Rung.level).Nodup := (same.map Rung.level).nodup_iff.1 distinct
  refine List.Perm.eq_of_pairwise ?_ (apart rungs distinct) (apart others again) (same.filter _)
  intro a b first second different _
  simp only [List.mem_filter, decide_eq_true_eq] at first second
  exact absurd (first.2.trans second.2.symm) different

theorem featuresAt_of_perm (same : rungs.Perm others) (distinct : (rungs.map Rung.level).Nodup)
    (l : Int) (fs : List Feature) :
    featuresAt l (rungs.foldl (Rung.lay r) fs) = featuresAt l (others.foldl (Rung.lay r) fs) := by
  rw [featuresAt_foldl_lay, featuresAt_foldl_lay, filter_level_of_perm same distinct l]

-- entries that are the same level by level are the same entries

theorem perm_of_featuresAt (same : ∀ l, featuresAt l fs = featuresAt l gs) : fs.Perm gs := by
  have counted (f : Feature) (hs : List Feature) : (featuresAt f.level hs).count f = hs.count f :=
    List.count_filter (by simp)
  rw [List.perm_iff_count]
  intro f
  rw [← counted f fs, ← counted f gs, same f.level]

theorem length_featuresAt (untold : fs.map Feature.untold = gs.map Feature.untold) (l : Int) :
    (featuresAt l fs).length = (featuresAt l gs).length := by
  have counted (hs : List Feature) :
      (featuresAt l hs).length = (hs.map Feature.untold).countP fun f => f.level = l := by
    rw [featuresAt, ← List.countP_eq_length_filter, List.countP_map]
    rfl
  rw [counted, counted, untold]

-- the entries that were there at the start come first, with nothing changed but texts
theorem untold_take_laid (rungs : List Rung) (fs : List Feature) :
    ((rungs.foldl (Rung.lay r) fs).take fs.length).map Feature.untold = fs.map Feature.untold := by
  have retold {level : Int} {old fs : List Feature} (pairs : List.Forall₂ (Retold level) old fs) :
      old.map Feature.untold = fs.map Feature.untold := by
    induction pairs with
    | nil => rfl
    | cons pair _ ih =>
      rw [List.map_cons, List.map_cons, ih]
      rcases pair with rfl | ⟨-, text, rfl⟩ <;> rfl
  induction rungs generalizing fs with
  | nil => simp
  | cons rung rungs ih =>
    obtain ⟨old, new, whole, pairs, -⟩ := featuresWith_append r rung.node rung.level rung.made fs
    have laid : rung.lay r fs = old ++ new := whole
    have length := pairs.length_eq
    have later := congrArg (List.take fs.length) (ih (rung.lay r fs))
    rw [← List.map_take, ← List.map_take, List.take_take, laid] at later
    rw [List.foldl_cons, laid, ← retold pairs]
    simpa [← length] using later

theorem take_eq_of_featuresAt {n : Nat} (same : ∀ l, featuresAt l fs = featuresAt l gs)
    (untold : (fs.take n).map Feature.untold = (gs.take n).map Feature.untold) :
    fs.take n = gs.take n := by
  apply eq_of_featuresAt untold
  intro l
  have split (hs : List Feature) :
      featuresAt l hs = featuresAt l (hs.take n) ++ featuresAt l (hs.drop n) := by
    rw [featuresAt, featuresAt, featuresAt, ← List.filter_append, List.take_append_drop]
  have whole := same l
  rw [split fs, split gs] at whole
  exact List.append_inj_left whole (length_featuresAt untold l)

structure Schooled (r : Ruleset) (c : Character) (rungs : List Rung) (d : Character) : Prop where
  features : d.features = rungs.foldl (Rung.lay r) c.features
  shelves : ∀ shelf id, id ∈ Shelf.of d shelf ↔ id ∈ Shelf.of c shelf ∨
    ∃ rung ∈ rungs, ∃ m ∈ rung.made, id ∈ m.picks ∧ shelf.receives r m id = true
  taken : ∀ rung ∈ rungs,
    d.advancement.get? (toString rung.level) = some (recordOf rung.node rung.made)
  left : ∀ key, (∀ rung ∈ rungs, key ≠ toString rung.level) →
    d.advancement.get? key = c.advancement.get? key
  rest : ∃ features spells infusions advancement now, d =
    { c with
      features := features
      spells := spells
      infusions := infusions
      advancement := advancement
      updatedAt := now }

/-- Two outcomes of the same levels: the same but for the time, the order of the ledger, and the order in
which the features of different levels come after those of the start. -/
structure Agree (start d e : Character) : Prop where
  ledger : ∀ key, d.advancement.get? key = e.advancement.get? key
  spells : d.spells = e.spells
  infusions : d.infusions = e.infusions
  features : d.features.Perm e.features
  level : ∀ l, featuresAt l d.features = featuresAt l e.features
  first : d.features.take start.features.length = e.features.take start.features.length
  start : (d.features.take start.features.length).map Feature.untold =
    start.features.map Feature.untold
  rest : e = { d with
    advancement := e.advancement, features := e.features, updatedAt := e.updatedAt }

theorem schooled_nil (r : Ruleset) (c : Character) : Schooled r c [] c where
  features := rfl
  shelves := by simp
  taken := by simp
  left := fun _ _ => rfl
  rest := ⟨_, _, _, _, _, rfl⟩

theorem Schooled.cons {c d : Character} {rung : Rung} {now : Moment}
    (bare : c.record? rung.level = none) (fresh : rung.level ∉ rungs.map Rung.level)
    (schooled : Schooled r (committed r rung.node rung.level rung.made now c) rungs d) :
    Schooled r c (rung :: rungs) d := by
  have reverted : (c.revert rung.level).1 = c := by rw [revert_of_unrecorded bare]
  have ledger (key : String) :
      (committed r rung.node rung.level rung.made now c).advancement.get? key =
        if key = toString rung.level then some (recordOf rung.node rung.made)
        else c.advancement.get? key := by
    rw [advancement_committed, reverted, Dict.get?_insert]
  constructor
  · have first : (committed r rung.node rung.level rung.made now c).features =
        rung.lay r c.features := by
      rw [committed_features, isApplied, bare, reverted]
      rfl
    rw [schooled.features, first, List.foldl_cons]
  · intro shelf id
    rw [schooled.shelves, mem_committed, reverted]
    simp only [List.mem_cons, or_and_right, exists_or, exists_eq_left, or_assoc]
  · intro other member
    rcases List.mem_cons.1 member with rfl | later
    · have apart : ∀ later ∈ rungs, toString other.level ≠ toString later.level := by
        intro later member same
        rw [levelText_injective same] at fresh
        exact fresh (List.mem_map_of_mem member)
      rw [schooled.left _ apart, ledger, if_pos rfl]
    · exact schooled.taken other later
  · intro key none
    rw [List.forall_mem_cons] at none
    rw [schooled.left key none.2, ledger, if_neg none.1]
  · obtain ⟨_, _, _, _, _, last⟩ := schooled.rest
    obtain ⟨_, _, _, first⟩ := committed_frame r rung.node rung.level rung.made now c
    exact ⟨_, _, _, _, _, by rw [last, first]⟩

theorem Schooled.agree {c d e : Character} (here : Schooled r c rungs d)
    (there : Schooled r c others e) (same : rungs.Perm others)
    (distinct : (rungs.map Rung.level).Nodup) : Agree c d e := by
  have level (l : Int) : featuresAt l d.features = featuresAt l e.features := by
    rw [here.features, there.features]
    exact featuresAt_of_perm same distinct l c.features
  have start : (d.features.take c.features.length).map Feature.untold =
      c.features.map Feature.untold := by
    rw [here.features]
    exact untold_take_laid rungs c.features
  have again : (e.features.take c.features.length).map Feature.untold =
      c.features.map Feature.untold := by
    rw [there.features]
    exact untold_take_laid others c.features
  have shelves : d.spells = e.spells ∧ d.infusions = e.infusions := by
    apply Shelf.same_of_mem
    intro shelf id
    rw [here.shelves, there.shelves]
    simp only [same.mem_iff]
  constructor
  · intro key
    by_cases taken : ∃ rung ∈ rungs, key = toString rung.level
    · obtain ⟨rung, member, rfl⟩ := taken
      rw [here.taken rung member, there.taken rung (same.mem_iff.1 member)]
    · simp only [not_exists, not_and] at taken
      have apart : ∀ rung ∈ others, key ≠ toString rung.level :=
        fun rung member => taken rung (same.mem_iff.2 member)
      rw [here.left key taken, there.left key apart]
  · exact shelves.1
  · exact shelves.2
  · exact perm_of_featuresAt level
  · exact level
  · exact take_eq_of_featuresAt level (start.trans again.symm)
  · exact start
  · obtain ⟨_, _, _, _, _, first⟩ := here.rest
    obtain ⟨_, _, _, _, _, second⟩ := there.rest
    rw [first, second] at shelves ⊢
    simp only at shelves
    rw [shelves.1, shelves.2]

end Character

open Character (Schooled Agree)

variable {r : Ruleset} {c : Character}

theorem on_lesson {l : Lesson} {now : Moment} (bare : c.isApplied l.level = false) :
    (∃ rung, l.rung? r = some rung ∧
        (l.application r).on l.level false now c =
          .ok (committed r rung.node rung.level rung.made now c)) ∨
      l.rung? r = none ∧ ∃ f, (l.application r).on l.level false now c = .error f := by
  by_cases short : IsWritten l.level
  case neg =>
    exact .inr ⟨if_neg short, _, Character.applyLevel_fails short c r l.classId l.selections false now⟩
  have result := Character.applyLevel_result c r l.classId short l.selections false now
  rw [bare, Bool.false_and, if_neg Bool.false_ne_true] at result
  cases found : r.node? l.classId l.level with
  | none =>
    rw [found] at result
    exact .inr ⟨by simp [Lesson.rung?, short, found], _, result⟩
  | some node =>
    simp only [found] at result
    cases chosen : node.made r l.selections with
    | error f =>
      rw [chosen] at result
      exact .inr ⟨by simp [Lesson.rung?, short, found, chosen, Except.toOption], f, result⟩
    | ok made =>
      rw [chosen] at result
      refine .inl ⟨⟨l.level, node, made⟩, ?_, result⟩
      simp [Lesson.rung?, short, found, chosen, Except.toOption]

theorem applied_committed (rung : Rung) (now : Moment) {l : Int} (other : l ≠ rung.level)
    (bare : c.isApplied l = false) :
    (committed r rung.node rung.level rung.made now c).isApplied l = false := by
  rwa [Character.isApplied, Character.record?_committed, if_neg other]

theorem study_schools {lessons : List (Lesson × Moment)}
    (distinct : ((lessons.map (·.1)).map Lesson.level).Nodup)
    (bare : ∀ l ∈ lessons, c.isApplied l.1.level = false) :
    (∃ d, study r c lessons = .ok d ∧ (∀ l ∈ lessons.map (·.1), (l.rung? r).isSome = true) ∧
        Schooled r c ((lessons.map (·.1)).filterMap (Lesson.rung? r)) d) ∨
      (∃ f, study r c lessons = .error f) ∧ ∃ l ∈ lessons.map (·.1), l.rung? r = none := by
  induction lessons generalizing c with
  | nil => exact .inl ⟨c, rfl, by simp, Character.schooled_nil r c⟩
  | cons l lessons ih =>
    rw [List.map_cons, List.map_cons, List.nodup_cons] at distinct
    rw [List.forall_mem_cons] at bare
    rw [List.map_cons]
    rcases on_lesson bare.1 with ⟨rung, taught, went⟩ | ⟨none, f, failed⟩
    · have level := Lesson.rung?_level taught
      have next : study r c (l :: lessons) =
          study r (committed r rung.node rung.level rung.made l.2 c) lessons := by
        rw [study, List.foldlM_cons, went]
        rfl
      have later : ∀ other ∈ lessons,
          (committed r rung.node rung.level rung.made l.2 c).isApplied other.1.level = false := by
        intro other member
        apply applied_committed rung l.2 _ (bare.2 other member)
        intro same
        rw [← level, ← same] at distinct
        exact distinct.1 (List.mem_map_of_mem (List.mem_map_of_mem member))
      rw [next]
      rcases ih distinct.2 later with ⟨d, ends, rest, schooled⟩ | ⟨failed, other, member, none⟩
      · refine .inl ⟨d, ends, List.forall_mem_cons.2 ⟨by simp [taught], rest⟩, ?_⟩
        have unrecorded : c.record? rung.level = none := by
          simpa [Character.isApplied, level] using bare.1
        have fresh : rung.level ∉ ((lessons.map (·.1)).filterMap (Lesson.rung? r)).map Rung.level := by
          rw [level]
          exact fun member => distinct.1 ((Lesson.rungs_levels r _).subset member)
        rw [List.filterMap_cons, taught]
        exact schooled.cons unrecorded fresh
      · exact .inr ⟨failed, other, List.mem_cons_of_mem _ member, none⟩
    · refine .inr ⟨⟨f, ?_⟩, l.1, List.mem_cons_self .., none⟩
      rw [study, List.foldlM_cons, failed]
      rfl

/-- Levels of which none is applied yet, and no two the same, can be applied in any two orders with the same
outcome: either order fails, or both give the same character. -/
theorem study_anyOrder {first second : List (Lesson × Moment)}
    (same : (first.map (·.1)).Perm (second.map (·.1)))
    (distinct : ((first.map (·.1)).map Lesson.level).Nodup)
    (bare : ∀ l ∈ first, c.isApplied l.1.level = false) :
    (∃ d e, study r c first = .ok d ∧ study r c second = .ok e ∧ Agree c d e) ∨
      ∃ f g, study r c first = .error f ∧ study r c second = .error g := by
  have again : ((second.map (·.1)).map Lesson.level).Nodup :=
    (same.map Lesson.level).nodup_iff.1 distinct
  have bareAgain : ∀ l ∈ second, c.isApplied l.1.level = false := by
    intro l member
    have there : l.1 ∈ first.map (·.1) := same.mem_iff.2 (List.mem_map_of_mem member)
    obtain ⟨other, listed, alike⟩ := List.mem_map.1 there
    rw [← alike]
    exact bare other listed
  rcases study_schools (r := r) distinct bare with ⟨d, ends, taught, here⟩ | ⟨⟨f, failed⟩, l, member, none⟩
  · rcases study_schools (r := r) again bareAgain with ⟨e, endsAgain, -, there⟩ | ⟨-, l, member, none⟩
    · have levels := (Lesson.rungs_levels r (first.map (·.1))).nodup distinct
      exact .inl ⟨d, e, ends, endsAgain, here.agree there (same.filterMap _) levels⟩
    · have given := taught l (same.mem_iff.2 member)
      simp [none] at given
  · rcases study_schools (r := r) again bareAgain with ⟨e, -, taught, -⟩ | ⟨⟨g, failedAgain⟩, -⟩
    · have given := taught l (same.mem_iff.1 member)
      simp [none] at given
    · exact .inr ⟨f, g, failed, failedAgain⟩

-- two levels that pick the same spell, taken upwards and downwards

namespace Novice

def lesson (level : Int) (id : String) : Lesson :=
  ⟨level, some "wizard", (picking id).selections⟩

def upwards : List (Lesson × Moment) :=
  [(lesson 2 "a", firstDay), (lesson 3 "b", firstDay)]

end Novice

open Novice in
theorem study_anyOrder_novice :
    (upwards.map (·.1)).Perm (upwards.reverse.map (·.1)) ∧
      ((upwards.map (·.1)).map Lesson.level).Nodup ∧
      (∀ l ∈ upwards, novice.isApplied l.1.level = false) ∧
      ∃ d e, study rules novice upwards = .ok d ∧ study rules novice upwards.reverse = .ok e ∧
        d.features ≠ e.features ∧ Agree novice d e := by
  have same : (upwards.map (·.1)).Perm (upwards.reverse.map (·.1)) :=
    upwards.reverse_perm.symm.map _
  have distinct : ((upwards.map (·.1)).map Lesson.level).Nodup := by decide
  have bare : ∀ l ∈ upwards, novice.isApplied l.1.level = false := by
    simp only [upwards, List.forall_mem_cons]
    exact ⟨by decide, by decide, by simp⟩
  refine ⟨same, distinct, bare, ?_⟩
  rcases study_anyOrder (r := rules) same distinct bare with ⟨d, e, ends, endsAgain, agree⟩ | ⟨f, g, failed, -⟩
  · refine ⟨d, e, ends, endsAgain, ?_, agree⟩
    intro equal
    have order : (study rules novice upwards).toOption.map Character.features ≠
        (study rules novice upwards.reverse).toOption.map Character.features := by decide +kernel
    rw [ends, endsAgain] at order
    simp [Except.toOption, equal] at order
  · have succeeds : (study rules novice upwards).toOption.isSome = true := by decide +kernel
    simp [failed, Except.toOption] at succeeds

end Tabletop
