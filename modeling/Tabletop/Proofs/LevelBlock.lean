import Mathlib.Data.List.Forall2
import Tabletop.Proofs.Applying

set_option autoImplicit false

namespace Tabletop

variable {α : Type}

-- the members of a list with a property are one block
structure IsBlock (p : α → Bool) (block xs : List α) : Prop where
  uniform : ∀ x ∈ block, p x
  split : ∃ before after, xs = before ++ block ++ after ∧ ∀ x ∈ before ++ after, p x = false

namespace IsBlock

variable {p : α → Bool} {block xs ys : List α}

theorem nil_iff : IsBlock p [] xs ↔ ∀ x ∈ xs, p x = false := by
  constructor
  · rintro ⟨-, before, after, rfl, apart⟩
    simpa using apart
  · intro apart
    exact ⟨by simp, xs, [], by simp, by simpa using apart⟩

theorem of_apart (uniform : ∀ x ∈ block, p x) {before after : List α}
    (apart : ∀ x ∈ before ++ after, p x = false) : IsBlock p block (before ++ block ++ after) :=
  ⟨uniform, before, after, rfl, apart⟩

theorem append (stands : IsBlock p block xs) (apart : ∀ y ∈ ys, p y = false) :
    IsBlock p block (xs ++ ys) := by
  obtain ⟨uniform, before, after, rfl, rest⟩ := stands
  refine ⟨uniform, before, after ++ ys, by simp, ?_⟩
  simp only [List.mem_append] at rest ⊢
  grind

theorem prepend (stands : IsBlock p block xs) (apart : ∀ y ∈ ys, p y = false) :
    IsBlock p block (ys ++ xs) := by
  obtain ⟨uniform, before, after, rfl, rest⟩ := stands
  refine ⟨uniform, ys ++ before, after, by simp, ?_⟩
  simp only [List.mem_append] at rest ⊢
  grind

theorem filter {q : α → Bool} (stands : IsBlock p block xs) (kept : ∀ x ∈ block, q x) :
    IsBlock p block (xs.filter q) := by
  obtain ⟨uniform, before, after, rfl, rest⟩ := stands
  refine ⟨uniform, before.filter q, after.filter q, ?_, ?_⟩
  · rw [List.filter_append, List.filter_append, List.filter_eq_self.2 kept]
  · simp only [List.mem_append, List.mem_filter] at rest ⊢
    grind

theorem outside {x : α} {before after : List α}
    (whole : xs ++ x :: ys = before ++ block ++ after) (stranger : x ∉ block) :
    (∃ rest, before = xs ++ x :: rest ∧ ys = rest ++ block ++ after) ∨
      ∃ rest, xs = before ++ block ++ rest ∧ after = rest ++ x :: ys := by
  rw [List.append_assoc, List.append_eq_append_iff] at whole
  rcases whole with ⟨rest, start, right⟩ | ⟨rest, start, right⟩
  · cases rest with
    | nil =>
      cases block with
      | nil => exact .inr ⟨[], by simp_all, by simpa using right.symm⟩
      | cons b block => simp_all
    | cons y rest =>
      obtain ⟨rfl, rfl⟩ := List.cons.inj right
      exact .inl ⟨rest, start, by simp⟩
  · rw [List.append_eq_append_iff] at right
    rcases right with ⟨more, rfl, right⟩ | ⟨more, rfl, right⟩
    · exact .inr ⟨more, by simpa using start, right⟩
    · cases more with
      | nil => exact .inr ⟨[], by simpa using start, by simpa using right.symm⟩
      | cons y more => simp_all

theorem beside {x : α} (stands : IsBlock p block (xs ++ x :: ys)) (stranger : p x = false) :
    (IsBlock p block xs ∧ ∀ y ∈ ys, p y = false) ∨
      (∀ y ∈ xs, p y = false) ∧ IsBlock p block ys := by
  obtain ⟨uniform, before, after, whole, rest⟩ := stands
  have foreign : x ∉ block := by
    intro member
    rw [uniform x member] at stranger
    contradiction
  rcases outside whole foreign with ⟨more, rfl, rfl⟩ | ⟨more, rfl, rfl⟩
  · refine .inr ⟨fun y member => rest y (by simp [member]), of_apart uniform ?_⟩
    exact fun y member => rest y (by simp only [List.mem_append, List.mem_cons] at member ⊢; grind)
  · refine .inl ⟨of_apart uniform ?_, fun y member => rest y (by simp [member])⟩
    exact fun y member => rest y (by simp only [List.mem_append, List.mem_cons] at member ⊢; grind)

-- members that are replaced one by one leave the block whole, if those of the block stay as they are
theorem replaced {R : α → α → Prop} (stands : IsBlock p block xs) (pairs : List.Forall₂ R ys xs)
    (alike : ∀ y x, R y x → p y = p x) (kept : ∀ y x, R y x → p x → y = x) : IsBlock p block ys := by
  have apart {bs as : List α} (pairs : List.Forall₂ R bs as) (none : ∀ x ∈ as, p x = false) :
      ∀ y ∈ bs, p y = false := by
    induction pairs with
    | nil => simp
    | cons pair _ ih =>
      rw [List.forall_mem_cons] at none ⊢
      exact ⟨(alike _ _ pair).trans none.1, ih none.2⟩
  have same {bs as : List α} (pairs : List.Forall₂ R bs as) (all : ∀ x ∈ as, p x) : bs = as := by
    induction pairs with
    | nil => rfl
    | cons pair _ ih =>
      rw [List.forall_mem_cons] at all
      rw [kept _ _ pair all.1, ih all.2]
  obtain ⟨uniform, before, after, rfl, rest⟩ := stands
  rw [List.forall_mem_append] at rest
  have front := List.forall₂_take_append _ _ _ pairs
  have back := apart (List.forall₂_drop_append _ _ _ pairs) rest.2
  have first := apart (List.forall₂_take_append _ _ _ front) rest.1
  have middle := same (List.forall₂_drop_append _ _ _ front) uniform
  have whole : ys = (ys.take (before ++ block).length).take before.length ++
      (ys.take (before ++ block).length).drop before.length ++ ys.drop (before ++ block).length := by
    simp only [List.take_append_drop]
  rw [middle] at whole
  exact ⟨uniform, _, _, whole, List.forall_mem_append.2 ⟨first, back⟩⟩

end IsBlock

/-- What of a feature tells whose it is: grants and choices are the engine's, and only those. -/
def Feature.IsTidy (f : Feature) : Prop :=
  f.isEngineOwned = (f.tags.grant || f.tags.choice)

namespace Character

def levelEntries (r : Ruleset) (node : Node) (level : Int) (made : List Made) : List Feature :=
  featuresWith r node level made []

variable {r : Ruleset} {node : Node} {level : Int} {made : List Made} {fs gs : List Feature}

-- features among which there is nothing that a level gave
def Clear (level : Int) (fs : List Feature) : Prop :=
  ∀ f ∈ fs, f.IsTidy ∧ isOfLevel level f = false

-- features among which none of the level is tagged as a grant or a choice
def Unmarked (level : Int) (fs : List Feature) : Prop :=
  ∀ f ∈ fs, f.level = level → f.tags.grant = false ∧ f.tags.choice = false

theorem Clear.unmarked (clear : Clear level fs) : Unmarked level fs := by
  intro f member here
  obtain ⟨tidy, apart⟩ := clear f member
  rw [isOfLevel, tidy] at apart
  simpa [here] using apart

theorem Unmarked.apart (unmarked : Unmarked level fs) : ∀ f ∈ fs, isOfLevel level f = false := by
  intro f member
  by_cases here : f.level = level
  · simp [isOfLevel, Feature.isEngineOwned, unmarked f member here]
  · simp [isOfLevel, here]

theorem grantTo_append (unmarked : Unmarked level fs) (id : String) :
    grantTo r level (fs ++ gs) id = fs ++ grantTo r level gs id := by
  have none : (fs.any fun f => f.name = r.featureName id && f.level = level && f.tags.grant)
      = false := by
    rw [List.any_eq_false]
    intro f member
    by_cases here : f.level = level
    · simp [(unmarked f member here).1]
    · simp [here]
  unfold grantTo
  rw [List.any_append, none, Bool.false_or]
  split
  · rfl
  · rw [List.append_assoc]

theorem foldl_grantTo_append (unmarked : Unmarked level fs) (grants : List String)
    (gs : List Feature) :
    grants.foldl (grantTo r level) (fs ++ gs) = fs ++ grants.foldl (grantTo r level) gs := by
  induction grants generalizing gs with
  | nil => rfl
  | cons id grants ih => rw [List.foldl_cons, List.foldl_cons, grantTo_append unmarked, ih]

theorem setFirstText_append {p : Feature → Bool} (text : String) (none : fs.any p = false) :
    setFirstText p text (fs ++ gs) = fs ++ setFirstText p text gs := by
  induction fs with
  | nil => rfl
  | cons f fs ih =>
    rw [List.any_cons, Bool.or_eq_false_iff] at none
    simp [setFirstText, none.1, ih none.2]

theorem summaryTo_append (unmarked : Unmarked level fs) (lines : List String) :
    summaryTo level lines (fs ++ gs) = fs ++ summaryTo level lines gs := by
  have none : fs.any (isSummary level) = false := by
    rw [List.any_eq_false]
    intro f member
    by_cases here : f.level = level
    · simp [isSummary, (unmarked f member here).2]
    · simp [isSummary, here]
  unfold summaryTo
  rw [List.any_append, none, Bool.false_or]
  split
  · rfl
  · split
    · exact setFirstText_append _ none
    · rw [List.append_assoc]

theorem featuresWith_unmarked (unmarked : Unmarked level fs) :
    featuresWith r node level made fs = fs ++ levelEntries r node level made := by
  have start := foldl_grantTo_append (r := r) unmarked node.grants []
  rw [List.append_nil] at start
  rw [featuresWith, start, summaryTo_append unmarked]
  rfl

theorem uniform_setFirstText {p q : Feature → Bool} {text : String}
    (kept : ∀ f : Feature, q { f with text := text } = q f) (uniform : ∀ f ∈ fs, q f) :
    ∀ f ∈ setFirstText p text fs, q f := by
  induction fs with
  | nil => exact uniform
  | cons f fs ih =>
    rw [List.forall_mem_cons] at uniform
    unfold setFirstText
    split
    · exact List.forall_mem_cons.2 ⟨by rw [kept, uniform.1], uniform.2⟩
    · exact List.forall_mem_cons.2 ⟨uniform.1, ih uniform.2⟩

-- a level changes texts of its own, and puts its entries after the rest

def Retold (level : Int) (g f : Feature) : Prop :=
  g = f ∨ f.level = level ∧ ∃ text, g = { f with text := text }

theorem retold_self (level : Int) (fs : List Feature) : List.Forall₂ (Retold level) fs fs :=
  List.forall₂_same.2 fun _ _ => .inl rfl

theorem retold_setFirstText (level : Int) (text : String) (fs : List Feature) :
    List.Forall₂ (Retold level) (setFirstText (isSummary level) text fs) fs := by
  induction fs with
  | nil => exact .nil
  | cons f fs ih =>
    unfold setFirstText
    split
    · rename_i summary
      simp only [isSummary, Bool.and_eq_true, decide_eq_true_eq] at summary
      exact .cons (.inr ⟨summary.1.2, text, rfl⟩) (retold_self level fs)
    · exact .cons (.inl rfl) ih

theorem setFirstText_before {p : Feature → Bool} (text : String) (found : fs.any p = true) :
    setFirstText p text (fs ++ gs) = setFirstText p text fs ++ gs := by
  induction fs with
  | nil => contradiction
  | cons f fs ih =>
    cases here : p f with
    | true => simp [setFirstText, here]
    | false =>
      rw [List.any_cons, here, Bool.false_or] at found
      simp [setFirstText, here, ih found]

theorem grants_append (r : Ruleset) (level : Int) (ids : List String) (fs : List Feature) :
    ∃ new, ids.foldl (grantTo r level) fs = fs ++ new ∧ ∀ f ∈ new, isOfLevel level f := by
  induction ids generalizing fs with
  | nil => exact ⟨[], by simp, by simp⟩
  | cons id ids ih =>
    rw [List.foldl_cons, grantTo]
    split
    · exact ih fs
    · obtain ⟨new, whole, uniform⟩ := ih (fs ++ [grantFeature r level id])
      refine ⟨grantFeature r level id :: new, by simp [whole], List.forall_mem_cons.2 ⟨?_, uniform⟩⟩
      simp [grantFeature, isOfLevel, Feature.isEngineOwned, FeatureTags.grantOnly]

theorem featuresWith_append (r : Ruleset) (node : Node) (level : Int) (made : List Made)
    (fs : List Feature) :
    ∃ old new, featuresWith r node level made fs = old ++ new ∧
      List.Forall₂ (Retold level) old fs ∧ ∀ f ∈ new, isOfLevel level f := by
  obtain ⟨new, granted, uniform⟩ := grants_append r level node.grants fs
  unfold featuresWith summaryTo
  rw [granted]
  split
  · exact ⟨fs, new, rfl, retold_self level fs, uniform⟩
  · split
    · by_cases found : fs.any (isSummary level) = true
      · exact ⟨_, new, setFirstText_before _ found, retold_setFirstText level _ fs, uniform⟩
      · rw [Bool.not_eq_true] at found
        exact ⟨fs, _, setFirstText_append _ found, retold_self level fs,
          uniform_setFirstText (fun _ => rfl) uniform⟩
    · refine ⟨fs, new ++ [_], by rw [List.append_assoc], retold_self level fs, ?_⟩
      refine List.forall_mem_append.2 ⟨uniform, List.forall_mem_singleton.2 ?_⟩
      simp [summaryFeature, isOfLevel, Feature.isEngineOwned, FeatureTags.choiceOnly]

theorem levelEntries_uniform (r : Ruleset) (node : Node) (level : Int) (made : List Made) :
    ∀ f ∈ levelEntries r node level made, isOfLevel level f := by
  obtain ⟨old, new, whole, pairs, uniform⟩ := featuresWith_append r node level made []
  rw [List.forall₂_nil_right_iff.1 pairs, List.nil_append] at whole
  rwa [levelEntries, whole]

theorem isTidy_of_isOfLevel {f : Feature} (own : isOfLevel level f) : f.IsTidy := by
  simp only [isOfLevel, Bool.and_eq_true] at own
  rw [Feature.IsTidy, own.2]
  have engine := own.2
  simp only [Feature.isEngineOwned, Bool.and_eq_true] at engine
  exact engine.1.symm

-- where a block comes to stand

theorem moveBlock_append (place? : Option Nat) (new : List Feature) :
    moveBlock place? fs.length (fs ++ new) =
      match place? with
      | none => fs ++ new
      | some place => fs.take place ++ new ++ fs.drop place := by
  cases place? <;> simp [moveBlock]

theorem split_of_findIdx? {p : Feature → Bool} {place : Nat} (found : fs.findIdx? p = some place) :
    ∃ before f after, fs = before ++ f :: after ∧ before.length = place ∧ p f = true ∧
      ∀ g ∈ before, p g = false := by
  induction fs generalizing place with
  | nil => contradiction
  | cons f fs ih =>
    rw [List.findIdx?_cons] at found
    cases here : p f with
    | true => exact ⟨[], f, fs, rfl, by simpa [here] using found, here, by simp⟩
    | false =>
      simp only [here, Bool.false_eq_true, if_false, Option.map_eq_some_iff] at found
      obtain ⟨place, found, rfl⟩ := found
      obtain ⟨before, g, after, rfl, rfl, own, none⟩ := ih found
      exact ⟨f :: before, g, after, rfl, rfl, own, List.forall_mem_cons.2 ⟨here, none⟩⟩

theorem findIdx?_block {p : Feature → Bool} {block before after : List Feature}
    (uniform : ∀ f ∈ block, p f) (apart : ∀ f ∈ before ++ after, p f = false) :
    (before ++ block ++ after).findIdx? p = if block = [] then none else some before.length := by
  have first : before.findIdx? p = none :=
    List.findIdx?_eq_none_iff.2 fun f member => apart f (List.mem_append_left _ member)
  have last : after.findIdx? p = none :=
    List.findIdx?_eq_none_iff.2 fun f member => apart f (List.mem_append_right _ member)
  cases block with
  | nil => simp [List.findIdx?_append, first, last]
  | cons f block =>
    simp [List.findIdx?_append, List.findIdx?_cons, first, uniform f (List.mem_cons_self ..)]

theorem filter_block {block before after : List Feature}
    (uniform : ∀ f ∈ block, isOfLevel level f)
    (apart : ∀ f ∈ before ++ after, isOfLevel level f = false) :
    (before ++ block ++ after).filter (fun f => !isOfLevel level f) = before ++ after := by
  have gone : block.filter (fun f => !isOfLevel level f) = [] :=
    List.filter_eq_nil_iff.2 fun f member => by simp [uniform f member]
  have kept : (before ++ after).filter (fun f => !isOfLevel level f) = before ++ after :=
    List.filter_eq_self.2 fun f member => by simp [apart f member]
  rw [List.filter_append] at kept
  rw [List.filter_append, List.filter_append, gone, List.append_nil, kept]

variable {c : Character}

theorem committed_features (r : Ruleset) (node : Node) (level : Int) (made : List Made)
    (now : Moment) (c : Character) :
    (committed r node level made now c).features =
      moveBlock (if c.isApplied level then c.features.findIdx? (isOfLevel level) else none)
        (c.revert level).1.features.length
        (featuresWith r node level made (c.revert level).1.features) := by
  simp only [committed, fold_eq]

-- the place of a level that was applied, before and after it is reverted
theorem revert_split {place : Nat}
    (found : (if c.isApplied level then c.features.findIdx? (isOfLevel level) else none) =
      some place) :
    ∃ before f after, c.features = before ++ f :: after ∧ before.length = place ∧
      isOfLevel level f = true ∧
      (c.revert level).1.features = before ++ after.filter fun g => !isOfLevel level g := by
  split at found
  · rename_i applied
    obtain ⟨record, recorded⟩ := Option.isSome_iff_exists.1 applied
    obtain ⟨before, f, after, whole, length, own, none⟩ := split_of_findIdx? found
    refine ⟨before, f, after, whole, length, own, ?_⟩
    have kept : before.filter (fun g => !isOfLevel level g) = before :=
      List.filter_eq_self.2 fun g member => by simp [none g member]
    rw [revert_of_recorded recorded]
    simp [withdrawn, whole, kept, own]
  · contradiction

-- the block of a level that was not applied comes last
theorem committed_features_of_unrecorded (r : Ruleset) (node : Node) (made : List Made)
    (now : Moment) (bare : c.record? level = none)
    (unmarked : Unmarked level c.features) :
    (committed r node level made now c).features =
      c.features ++ levelEntries r node level made := by
  rw [committed_features, revert_of_unrecorded bare, featuresWith_unmarked unmarked]
  simp [isApplied, bare, moveBlock]

-- the block of a level that was applied comes where its block was, or last if it had none
theorem committed_features_of_recorded (r : Ruleset) (node : Node) (made : List Made)
    (now : Moment) {record : LevelRecord} {block before after : List Feature}
    (recorded : c.record? level = some record) (whole : c.features = before ++ block ++ after)
    (uniform : ∀ f ∈ block, isOfLevel level f) (unmarked : Unmarked level (before ++ after)) :
    (committed r node level made now c).features =
      if block = [] then before ++ after ++ levelEntries r node level made
      else before ++ levelEntries r node level made ++ after := by
  have apart := unmarked.apart
  have left : (c.revert level).1.features = before ++ after := by
    rw [revert_of_recorded recorded]
    change c.features.filter _ = _
    rw [whole, filter_block uniform apart]
  rw [committed_features, left, featuresWith_unmarked unmarked, moveBlock_append, whole,
    findIdx?_block uniform apart]
  by_cases none : block = []
  · simp [none]
  · simp [none, isApplied, recorded]

-- what a level does to a block that holds nothing of it

section Block

variable {p : Feature → Bool} {block : List Feature}

theorem apart_of_isOfLevel (foreign : ∀ f, f.level = level → p f = false) {f : Feature}
    (own : isOfLevel level f = true) : p f = false := by
  simp only [isOfLevel, Bool.and_eq_true, decide_eq_true_eq] at own
  exact foreign f own.1

theorem filter_level_block (stands : IsBlock p block fs)
    (foreign : ∀ f, f.level = level → p f = false) :
    IsBlock p block (fs.filter fun f => !isOfLevel level f) := by
  apply stands.filter
  intro f member
  have inside := stands.uniform f member
  cases own : isOfLevel level f with
  | false => rfl
  | true => simp [apart_of_isOfLevel foreign own] at inside

theorem revert_block (stands : IsBlock p block c.features)
    (foreign : ∀ f, f.level = level → p f = false) : IsBlock p block (c.revert level).1.features := by
  cases recorded : c.record? level with
  | none => rwa [revert_of_unrecorded recorded]
  | some record =>
    rw [revert_of_recorded recorded]
    exact filter_level_block stands foreign

theorem retold_block (stands : IsBlock p block fs) (pairs : List.Forall₂ (Retold level) gs fs)
    (foreign : ∀ f, f.level = level → p f = false) : IsBlock p block gs := by
  apply stands.replaced pairs
  · rintro g f (rfl | ⟨here, text, rfl⟩)
    · rfl
    · rw [foreign f here]
      exact foreign _ here
  · rintro g f (rfl | ⟨here, text, rfl⟩) member
    · rfl
    · simp [foreign f here] at member

-- what stands apart from a block is an empty block
theorem retold_apart (none : ∀ f ∈ fs, p f = false) (pairs : List.Forall₂ (Retold level) gs fs)
    (foreign : ∀ f, f.level = level → p f = false) : ∀ g ∈ gs, p g = false :=
  IsBlock.nil_iff.1 (retold_block (IsBlock.nil_iff.2 none) pairs foreign)

theorem committed_block (stands : IsBlock p block c.features)
    (foreign : ∀ f, f.level = level → p f = false) (r : Ruleset) (node : Node) (made : List Made)
    (now : Moment) : IsBlock p block (committed r node level made now c).features := by
  obtain ⟨old, new, given, pairs, uniform⟩ :=
    featuresWith_append r node level made (c.revert level).1.features
  have apart : ∀ f ∈ new, p f = false :=
    fun f member => apart_of_isOfLevel foreign (uniform f member)
  rw [committed_features, given, ← pairs.length_eq, moveBlock_append]
  split
  · exact (retold_block (revert_block stands foreign) pairs foreign).append apart
  · rename_i place found
    obtain ⟨before, f, after, whole, rfl, own, left⟩ := revert_split found
    rw [left] at pairs
    have first := List.forall₂_take_append _ _ _ pairs
    have last := List.forall₂_drop_append _ _ _ pairs
    rw [whole] at stands
    rcases stands.beside (apart_of_isOfLevel foreign own) with ⟨inFirst, none⟩ | ⟨none, inLast⟩
    · have rest : ∀ g ∈ after.filter (fun g => !isOfLevel level g), p g = false :=
        fun g member => none g (List.mem_filter.1 member).1
      exact ((retold_block inFirst first foreign).append apart).append
        (retold_apart rest last foreign)
    · rw [List.append_assoc]
      exact ((retold_block (filter_level_block inLast foreign) last foreign).prepend apart).prepend
        (retold_apart none first foreign)

end Block

end Character

end Tabletop
