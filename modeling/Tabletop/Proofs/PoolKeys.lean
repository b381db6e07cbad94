import Mathlib.Data.List.TakeWhile
import Tabletop.Proofs.DigitCase
import Tabletop.Proofs.OnRecord

set_option autoImplicit false

namespace Tabletop

namespace Ruleset

/-- The key is a pool's name, a point, and a qualifier that may hold further points. -/
structure Splits (key base q : String) : Prop where
  text : key = base ++ "." ++ q
  pointless : '.' ∉ base.toList

def cantripWords : List String := ["cantrip", "cantrips"]

def leveledWords : List String := ["known", "spell", "leveled"]

-- qualifiers of spells that are no tags, in any case
def IsLevelWord (q : String) : Prop :=
  Text.lower q ∈ cantripWords ∨ Text.lower q ∈ leveledWords ∨ Text.isDigits q = true

def Draws (r : Ruleset) (key : String) (pool : List PoolOption) : Prop :=
  r.pools.get? key = some pool ∨
    r.pools.get? key = none ∧ ∃ base q, Splits key base q ∧ r.pools.get? base = some pool

/-- The key asks for spells of a level, in digits that cannot be read as one. -/
def Garbles (r : Ruleset) (key : String) : Prop :=
  ∃ q, Splits key "spells" q ∧ r.pools.get? key = none ∧ r.pools.spells ≠ [] ∧
    Text.isDigits q = true ∧ ¬ Text.IsNumeral q

/-- What a qualifier selects from a pool. The words for levels count in any case, but a tag is found only
in lower case. -/
structure Selects (r : Ruleset) (key base q : String) (pool : List PoolOption) : Prop where
  bare : q = "" → r.resolvePool key = .ok []
  cantrips : base = "spells" → Text.lower q ∈ cantripWords →
    r.resolvePool key = .ok (pool.filter fun o => o.level = some 0)
  leveled : base = "spells" → Text.lower q ∈ leveledWords →
    r.resolvePool key = .ok (pool.filter fun o => o.level.any (· != 0))
  ofLevel : base = "spells" → Text.isDigits q = true → ∀ n, integerOf q = .ok n →
    r.resolvePool key = .ok (pool.filter fun o => o.level = some n)
  tagged : q ≠ "" → (base = "spells" → ¬ IsLevelWord q) →
    r.resolvePool key = .ok (pool.filter fun o => o.tags.contains (Text.lower q)) ∧
      (r.resolvePool key = .ok (pool.filter fun o => o.tags.contains q) ↔
        ∀ o ∈ pool, Text.lower q ∈ o.tags ↔ q ∈ o.tags)

-- the two parts of a key

theorem no_point {cs : List Char} (pointless : '.' ∉ cs) : ∀ c ∈ cs, (c != '.') = true := by
  intro c member
  have other : c ≠ '.' := fun same => pointless (same ▸ member)
  simpa using other

theorem Splits.splitKey {key base q : String} (split : Splits key base q) :
    splitKey key = (base, q) := by
  have all := no_point split.pointless
  have chars : key.toList = base.toList ++ '.' :: q.toList := by simp [split.text]
  simp [Ruleset.splitKey, chars, List.takeWhile_append_of_pos all, List.dropWhile_append_of_pos all]

theorem Splits.ne_empty {key base q : String} (split : Splits key base q) : key ≠ "" := by
  intro empty
  have chars := congrArg String.toList split.text
  simp [empty] at chars

theorem splits_of_mem {key : String} (point : '.' ∈ key.toList) : ∃ base q, Splits key base q := by
  obtain ⟨before, after, chars, apart⟩ := List.eq_append_cons_of_mem point
  refine ⟨String.ofList before, String.ofList after, ?_, by simpa using apart⟩
  rw [← String.toList_inj]
  simp [chars]

theorem splitKey_pointless {key : String} (pointless : '.' ∉ key.toList) :
    splitKey key = (key, "") := by
  have before : key.toList.takeWhile (· != '.') = key.toList :=
    List.takeWhile_eq_self_iff.2 (no_point pointless)
  have after : key.toList.dropWhile (· != '.') = [] := List.dropWhile_eq_nil_iff.2 (no_point pointless)
  simp [splitKey, before, after]

-- what is drawn on, and what is left of it

variable {r : Ruleset} {key base q : String} {pool options : List PoolOption}

theorem draws_cases (r : Ruleset) (key : String) :
    (∀ pool, ¬ r.Draws key pool) ∨ (∃ pool, r.pools.get? key = some pool) ∨
      ∃ base q pool, Splits key base q ∧ r.pools.get? key = none ∧ r.pools.get? base = some pool := by
  by_cases drawn : ∃ pool, r.Draws key pool
  · obtain ⟨pool, named | ⟨unnamed, base, q, split, named⟩⟩ := drawn
    · exact .inr (.inl ⟨pool, named⟩)
    · exact .inr (.inr ⟨base, q, pool, split, unnamed, named⟩)
  · exact .inl (not_exists.1 drawn)

theorem resolvePool_named (named : r.pools.get? key = some pool) :
    r.resolvePool key = .ok (if key = "" then [] else pool) := by
  by_cases empty : key = "" <;> simp [resolvePool, named, empty]

theorem resolvePool_split (split : Splits key base q) (unnamed : r.pools.get? key = none)
    (named : r.pools.get? base = some pool) :
    r.resolvePool key = if q = "" then .ok [] else narrow base (Text.lower q) pool := by
  simp [resolvePool, split.ne_empty, unnamed, split.splitKey, named]

theorem resolvePool_undrawn (strange : ∀ pool, ¬ r.Draws key pool) : r.resolvePool key = .ok [] := by
  by_cases empty : key = ""
  · simp [resolvePool, empty]
  · have unnamed : r.pools.get? key = none := by
      cases named : r.pools.get? key with
      | none => rfl
      | some pool => exact absurd (.inl named) (strange pool)
    have baseless : r.pools.get? (splitKey key).1 = none := by
      by_cases point : '.' ∈ key.toList
      · obtain ⟨base, q, split⟩ := splits_of_mem point
        rw [split.splitKey]
        cases named : r.pools.get? base with
        | none => rfl
        | some pool => exact absurd (.inr ⟨unnamed, base, q, split, named⟩) (strange pool)
      · rwa [splitKey_pointless point]
    simp [resolvePool, empty, unnamed, baseless]

theorem narrow_ok {word : String} {asked : Qualifier} (means : qualifierOf base word = .ok asked) :
    narrow base word pool = .ok (pool.filter asked.admits) := by
  cases pool with
  | nil => rfl
  | cons o pool => simp [narrow, means, Except.map]

theorem narrow_sublist {word : String} (narrowed : narrow base word pool = .ok options) :
    options.Sublist pool := by
  unfold narrow at narrowed
  split at narrowed
  · obtain rfl : [] = options := by simpa using narrowed
    exact List.nil_sublist pool
  · cases means : qualifierOf base word with
    | error cause => simp [means, Except.map] at narrowed
    | ok asked =>
      obtain rfl : pool.filter asked.admits = options := by simpa [means, Except.map] using narrowed
      exact List.filter_sublist

-- what a qualifier means

theorem levelWords_letters : ∀ word ∈ cantripWords ++ leveledWords, Text.isDigits word = false := by
  decide

theorem qualifierOf_cantrips : ∀ word ∈ cantripWords, qualifierOf "spells" word = .ok .cantrips := by
  simp [cantripWords, qualifierOf]

theorem qualifierOf_leveled : ∀ word ∈ leveledWords, qualifierOf "spells" word = .ok .leveled := by
  simp [leveledWords, qualifierOf]

theorem qualifierOf_tagged {word : String}
    (tag : base = "spells" → word ∉ cantripWords ∧ word ∉ leveledWords ∧ Text.isDigits word = false) :
    qualifierOf base word = .ok (.tagged word) := by
  by_cases spells : base = "spells"
  · obtain ⟨few, leveled, digits⟩ := tag spells
    simp only [cantripWords, leveledWords, List.mem_cons, List.not_mem_nil, or_false, not_or] at few leveled
    simp [qualifierOf, few, leveled, digits]
  · simp [qualifierOf, spells]

theorem qualifierOf_digits {word : String} (digits : Text.isDigits word = true) :
    qualifierOf "spells" word = (integerOf word).map .ofLevel := by
  have letters : word ∉ cantripWords ++ leveledWords := by
    intro member
    rw [levelWords_letters word member] at digits
    contradiction
  simp only [cantripWords, leveledWords, List.cons_append, List.nil_append, List.mem_cons,
    List.not_mem_nil, or_false, not_or] at letters
  simp [qualifierOf, digits, letters]

theorem isDigits_empty : Text.isDigits "" = false := by
  decide

theorem lower_word_filled {word : String} (member : Text.lower word ∈ cantripWords ++ leveledWords) :
    word ≠ "" := by
  rintro rfl
  revert member
  decide

theorem selects (split : Splits key base q) (unnamed : r.pools.get? key = none)
    (named : r.pools.get? base = some pool) : r.Selects key base q pool where
  bare := by
    intro empty
    rw [resolvePool_split split unnamed named, if_pos empty]
  cantrips := by
    intro spells word
    have filled := lower_word_filled (List.mem_append_left _ word)
    have means := qualifierOf_cantrips _ word
    rw [resolvePool_split split unnamed named, if_neg filled, spells, narrow_ok means]
    rfl
  leveled := by
    intro spells word
    have filled := lower_word_filled (List.mem_append_right _ word)
    have means := qualifierOf_leveled _ word
    rw [resolvePool_split split unnamed named, if_neg filled, spells, narrow_ok means]
    rfl
  ofLevel := by
    intro spells digits n read
    have filled : q ≠ "" := by
      rintro rfl
      simp [isDigits_empty] at digits
    have means : qualifierOf base (Text.lower q) = .ok (.ofLevel n) := by
      rw [Text.lower_digits digits, spells, qualifierOf_digits digits, read]
      rfl
    rw [resolvePool_split split unnamed named, if_neg filled, narrow_ok means]
    rfl
  tagged := by
    intro filled tag
    have means : qualifierOf base (Text.lower q) = .ok (.tagged (Text.lower q)) := by
      apply qualifierOf_tagged
      simpa [IsLevelWord] using tag
    have found : r.resolvePool key = .ok (pool.filter fun o => o.tags.contains (Text.lower q)) := by
      rw [resolvePool_split split unnamed named, if_neg filled, narrow_ok means]
      rfl
    refine ⟨found, ?_⟩
    rw [found, Except.ok.injEq]
    constructor
    · intro same o member
      have kept : o ∈ (pool.filter fun o => o.tags.contains (Text.lower q)) ↔
          o ∈ pool.filter fun o => o.tags.contains q := by rw [same]
      simpa [member, IdSet.contains, IdSet.mem_def] using kept
    · intro same
      apply List.filter_congr
      intro o member
      rw [Bool.eq_iff_iff, IdSet.contains, IdSet.contains, List.contains_iff_mem, List.contains_iff_mem]
      exact same o member

-- which keys have an answer

theorem qualifierOf_total {word : String} :
    (∃ asked, qualifierOf base word = .ok asked) ↔
      (base = "spells" → Text.isDigits word = true → Text.IsNumeral word) := by
  by_cases digits : base = "spells" ∧ Text.isDigits word = true
  · obtain ⟨rfl, digits⟩ := digits
    rw [qualifierOf_digits digits, ← integerOf_digits_iff digits]
    cases integerOf word <;> simp [Except.map, digits]
  · have silent : base = "spells" → Text.isDigits word = true → Text.IsNumeral word :=
      fun spells all => absurd ⟨spells, all⟩ digits
    refine iff_of_true ?_ silent
    unfold qualifierOf
    split_ifs <;> simp_all

theorem narrow_total {word : String} :
    (∃ options, narrow base word pool = .ok options) ↔
      pool = [] ∨ ∃ asked, qualifierOf base word = .ok asked := by
  cases pool with
  | nil => simp [narrow]
  | cons o pool => cases means : qualifierOf base word <;> simp [narrow, means, Except.map]

theorem garbles_iff (split : Splits key base q) (unnamed : r.pools.get? key = none)
    (named : r.pools.get? base = some pool) :
    r.Garbles key ↔
      pool ≠ [] ∧ base = "spells" ∧ Text.isDigits q = true ∧ ¬ Text.IsNumeral q := by
  constructor
  · rintro ⟨other, again, -, stocked, digits, garbled⟩
    have same := split.splitKey.symm.trans again.splitKey
    obtain ⟨rfl, rfl⟩ := Prod.mk.inj same
    obtain rfl : r.pools.spells = pool := by simpa [Pools.get?] using named
    exact ⟨stocked, rfl, digits, garbled⟩
  · rintro ⟨stocked, rfl, digits, garbled⟩
    obtain rfl : r.pools.spells = pool := by simpa [Pools.get?] using named
    exact ⟨q, split, unnamed, stocked, digits, garbled⟩

theorem resolvePool_total (r : Ruleset) (key : String) :
    (∃ options, r.resolvePool key = .ok options) ↔ ¬ r.Garbles key := by
  rcases r.draws_cases key with strange | ⟨pool, named⟩ | ⟨base, q, pool, split, unnamed, named⟩
  · have clear : ¬ r.Garbles key := by
      rintro ⟨q, split, unnamed, -⟩
      exact strange r.pools.spells (.inr ⟨unnamed, "spells", q, split, rfl⟩)
    exact iff_of_true ⟨[], resolvePool_undrawn strange⟩ clear
  · have clear : ¬ r.Garbles key := by
      rintro ⟨-, -, unnamed, -⟩
      simp [named] at unnamed
    exact iff_of_true ⟨_, resolvePool_named named⟩ clear
  · rw [garbles_iff split unnamed named, resolvePool_split split unnamed named]
    by_cases empty : q = ""
    · simp [empty, isDigits_empty]
    · rw [if_neg empty, narrow_total, qualifierOf_total, Text.isDigits_lower]
      by_cases digits : Text.isDigits q = true
      · rw [Text.lower_digits digits]
        tauto
      · tauto

-- the order is that of the pool
theorem resolvePool_sublist (resolved : r.resolvePool key = .ok options) :
    options = [] ∨ ∃ pool, r.Draws key pool ∧ options.Sublist pool := by
  rcases r.draws_cases key with strange | ⟨pool, named⟩ | ⟨base, q, pool, split, unnamed, named⟩
  · rw [resolvePool_undrawn strange] at resolved
    exact .inl (by simpa using resolved.symm)
  · rw [resolvePool_named named, Except.ok.injEq] at resolved
    by_cases empty : key = ""
    · exact .inl (by simpa [empty] using resolved.symm)
    · obtain rfl : pool = options := by simpa [empty] using resolved
      exact .inr ⟨pool, .inl named, .refl pool⟩
  · rw [resolvePool_split split unnamed named] at resolved
    by_cases empty : q = ""
    · exact .inl (by simpa [empty] using resolved.symm)
    · rw [if_neg empty] at resolved
      exact .inr ⟨pool, .inr ⟨unnamed, base, q, split, named⟩, narrow_sublist resolved⟩

/-- Every key has an answer in pool order, but for digits that are no numeral where spells are asked for.
The empty key and a key that draws on no pool are answered with no options, a pool's name with the pool,
and a pool's name with a qualifier with what that selects. -/
theorem resolvePool_answers (r : Ruleset) :
    (∀ key, ((∃ options, r.resolvePool key = .ok options) ↔ ¬ r.Garbles key) ∧
        ∀ options, r.resolvePool key = .ok options →
          options = [] ∨ ∃ pool, r.Draws key pool ∧ options.Sublist pool) ∧
      r.resolvePool "" = .ok [] ∧
      (∀ key, (∀ pool, ¬ r.Draws key pool) → r.resolvePool key = .ok []) ∧
      (∀ key pool, key ≠ "" → r.pools.get? key = some pool → r.resolvePool key = .ok pool) ∧
      ∀ key base q pool, Splits key base q → r.pools.get? key = none → r.pools.get? base = some pool →
        r.Selects key base q pool := by
  refine ⟨fun key => ⟨r.resolvePool_total key, fun _ => resolvePool_sublist⟩, rfl, ?_, ?_, ?_⟩
  · exact fun key => resolvePool_undrawn
  · intro key pool filled named
    rw [resolvePool_named named, if_neg filled]
  · exact fun key base q pool => selects

-- a ruleset of two spells, of which one has a tag in capitals and a tag of digits

namespace Primer

def tagged (id : String) (level : Int) (tags : List String) : Value :=
  .map [(.str "id", .str id), (.str "level", .int level), (.str "tags", .list (tags.map Value.str))]

def fieryBook : Value :=
  .map [(.str "meta", single "id" (.str "r")), (.str "classes", .map []),
    (.str "spells", .list [tagged "light" 0 ["glow"], tagged "flame" 1 ["Fire", "²"]])]

def fiery : Ruleset :=
  (ofDocument shelved fieryBook).result.toOption.get (by decide +kernel)

theorem fiery_parsed : (ofDocument shelved fieryBook).result = .ok fiery :=
  ok_of_get (by decide +kernel)

end Primer

open Primer in
theorem resolvePool_answers_fiery :
    fiery.resolvePool "spells" = .ok fiery.pools.spells ∧
      fiery.resolvePool "spells.Cantrips" = .ok (fiery.pools.spells.filter fun o => o.level = some 0) ∧
      fiery.resolvePool "spells.1" = .ok (fiery.pools.spells.filter fun o => o.level = some 1) ∧
      fiery.resolvePool "spells.glow" = .ok (fiery.pools.spells.filter fun o => o.tags.contains "glow") ∧
      fiery.resolvePool "maneuvers.glow" = .ok [] := by
  obtain ⟨-, -, unknown, named, split⟩ := resolvePool_answers fiery
  have part (q : String) (unnamed : fiery.pools.get? ("spells" ++ "." ++ q) = none) :
      fiery.Selects ("spells" ++ "." ++ q) "spells" q fiery.pools.spells :=
    split _ "spells" q _ ⟨rfl, by decide⟩ unnamed rfl
  have strange : ∀ pool, ¬ fiery.Draws "maneuvers.glow" pool := by
    rintro pool (whole | ⟨-, base, q, split, whole⟩)
    · have unnamed : fiery.pools.get? "maneuvers.glow" = none := by decide +kernel
      simp [unnamed] at whole
    · have unnamed : fiery.pools.get? (splitKey "maneuvers.glow").1 = none := by decide +kernel
      simp [split.splitKey, whole] at unnamed
  have tag : ¬ IsLevelWord "glow" := by
    unfold IsLevelWord
    decide
  have glowing := ((part "glow" (by decide +kernel)).tagged (by decide) fun _ => tag).1
  exact ⟨named _ _ (by decide) rfl, (part "Cantrips" (by decide +kernel)).cantrips rfl (by decide),
    (part "1" (by decide +kernel)).ofLevel rfl (by decide) 1 rfl, glowing, unknown _ strange⟩

open Primer in
/-- A tag of digits that are no numeral has no answer, and a tag in capitals is not found. -/
theorem fiery_unanswered : ∃ imported document r, (ofDocument imported document).result = .ok r ∧
    (∃ o ∈ r.pools.spells, "Fire" ∈ o.tags ∧ "²" ∈ o.tags) ∧
    r.resolvePool "spells.Fire" = .ok [] ∧
    ¬ ∃ options, r.resolvePool "spells.²" = .ok options := by
  have garbled : fiery.Garbles "spells.²" := by
    refine ⟨"²", ⟨rfl, by decide⟩, by decide +kernel, by decide +kernel, by decide, fun numeral => ?_⟩
    exact absurd (numeral.1 '²' (by decide)) (by decide)
  refine ⟨shelved, fieryBook, fiery, fiery_parsed, by decide +kernel, by decide +kernel, ?_⟩
  rw [resolvePool_total]
  exact not_not.2 garbled

end Ruleset

end Tabletop
