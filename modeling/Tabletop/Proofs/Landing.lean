import Tabletop.Proofs.PoolKeys

set_option autoImplicit false

namespace Tabletop

open Character (committed mentions containsText spellLevel? isCantripPick)

def IsKeyOf (base key : String) : Prop :=
  base ∈ Pools.standardKeys ∧ (key = base ∨ ∃ q, Ruleset.Splits key base q)

def Mentions (key word : String) : Prop :=
  word.toList <:+: (Text.lower key).toList

/-- The key of a standard pool holds the word of a shelf that the pool does not feed. -/
def Misleads (base key : String) : Prop :=
  base ≠ "spells" ∧
    (Mentions key "cantrip" ∨ Mentions key "spell" ∨ base ≠ "infusions" ∧ Mentions key "infusion")

def Shelf.Suits (base : String) (o : PoolOption) : Shelf → Prop
  | .cantrips => base = "spells" ∧ o.level = some 0
  | .known => base = "spells" ∧ ∃ n, o.level = some n ∧ 1 ≤ n
  | .learned => base = "infusions"

-- words in a key

theorem Character.containsText_iff (part text : List Char) :
    containsText part text = true ↔ part <:+: text := by
  induction text with
  | nil => simp [containsText]
  | cons c cs ih =>
    rw [containsText, Bool.or_eq_true, List.isPrefixOf_iff_prefix, ih, List.infix_cons_iff]

theorem mentions_iff (key word : String) :
    mentions (Text.lower key) word = true ↔ Mentions key word :=
  Character.containsText_iff _ _

theorem Text.lowerFrom_small {before cs rest : List Char}
    (small : ∀ c ∈ cs, c ≠ 'Σ' ∧ lowerChar c = [c]) :
    cs <+: lowerFrom before (cs ++ rest) := by
  induction cs generalizing before with
  | nil => exact List.nil_prefix
  | cons c cs ih =>
    rw [List.forall_mem_cons] at small
    obtain ⟨⟨plain, own⟩, small⟩ := small
    rw [List.cons_append, lowerFrom, if_neg plain, own]
    exact (List.prefix_cons_inj c).2 (ih small)

theorem IsKeyOf.mentions_base {base key word : String} (own : IsKeyOf base key)
    (part : word.toList <:+: base.toList) : Mentions key word := by
  obtain ⟨standard, form⟩ := own
  obtain ⟨rest, text⟩ : ∃ rest, key.toList = base.toList ++ rest := by
    rcases form with rfl | ⟨q, split⟩
    · exact ⟨[], by simp⟩
    · exact ⟨'.' :: q.toList, by simp [split.text]⟩
  have letters : ∀ base ∈ Pools.standardKeys,
      (base.toList.all fun c => c != 'Σ' && Text.lowerChar c == [c]) = true := by decide
  have small : ∀ c ∈ base.toList, c ≠ 'Σ' ∧ Text.lowerChar c = [c] := by
    simpa using letters base standard
  have start : base.toList <+: (Text.lower key).toList := by
    rw [Text.lower, String.toList_ofList, text]
    exact Text.lowerFrom_small small
  exact part.trans start.isInfix

-- options and picks

variable {r : Ruleset} {base : String} {o : PoolOption} {m : Made} {pool options : List PoolOption}

theorem Character.spellLevel?_of_mem (distinct : (r.pools.spells.map PoolOption.id).Nodup)
    (member : o ∈ r.pools.spells) : spellLevel? r o.id = o.level := by
  unfold spellLevel?
  cases found : r.pools.spells.reverse.find? fun p => p.id = o.id with
  | none =>
    have absent := List.find?_eq_none.1 found o (List.mem_reverse.2 member)
    simp at absent
  | some p =>
    have there : p ∈ r.pools.spells := List.mem_reverse.1 (List.mem_of_find?_eq_some found)
    have same : p.id = o.id := by simpa using List.find?_some found
    rw [List.inj_on_of_nodup_map distinct there member same, Option.bind_some]

theorem Pools.get?_extra {p : Pools} {key : String} (other : key ∉ standardKeys) :
    p.get? key = p.extra.get? key := by
  simp only [standardKeys, List.mem_cons, List.not_mem_nil, or_false, not_or] at other
  simp [get?, other]

theorem Pools.standardKeys_pointless : ∀ key ∈ standardKeys, '.' ∉ key.toList := by
  decide

-- unless another pool has the very name of the key
theorem Ruleset.resolvePool_own {key : String} (own : IsKeyOf base key)
    (unshared : r.pools.extra.get? key = none) (named : r.pools.get? base = some pool)
    (resolved : r.resolvePool key = .ok options) : options.Sublist pool := by
  rcases resolvePool_sublist resolved with rfl | ⟨drawn, draws, within⟩
  · exact List.nil_sublist pool
  · suffices same : drawn = pool by rwa [← same]
    obtain ⟨-, rfl | ⟨q, split⟩⟩ := own
    · rcases draws with whole | ⟨unnamed, -⟩
      · exact Option.some.inj (whole.symm.trans named)
      · simp [named] at unnamed
    · have other : key ∉ Pools.standardKeys := by
        intro standard
        exact Pools.standardKeys_pointless key standard (by simp [split.text])
      rcases draws with whole | ⟨-, base', q', split', found⟩
      · rw [Pools.get?_extra other, unshared] at whole
        contradiction
      · obtain ⟨rfl, -⟩ := Prod.mk.inj (split.splitKey.symm.trans split'.splitKey)
        exact Option.some.inj (found.symm.trans named)

theorem Made.feedsSpells_iff (m : Made) : m.feedsSpells = true ↔
    Mentions m.choice.source "cantrip" ∨ Mentions m.choice.source "spell" := by
  rw [Made.feedsSpells, Bool.or_eq_true, mentions_iff, mentions_iff]

theorem Made.feedsInfusions_iff (m : Made) :
    m.feedsInfusions = true ↔ Mentions m.choice.source "infusion" :=
  mentions_iff _ _

theorem suits_of_spells (distinct : (r.pools.spells.map PoolOption.id).Nodup)
    (own : IsKeyOf "spells" m.choice.source) (member : o ∈ r.pools.spells)
    (graded : ∃ n, o.level = some n ∧ 0 ≤ n) (shelf : Shelf) :
    shelf.receives r m o.id = true ↔ shelf.Suits "spells" o := by
  obtain ⟨n, level, least⟩ := graded
  have feeds : m.feedsSpells = true := m.feedsSpells_iff.2 (.inr (own.mentions_base (by decide)))
  have cantrip : isCantripPick r (Text.lower m.choice.source) o.id = decide (n = 0) := by
    rw [isCantripPick, Character.spellLevel?_of_mem distinct member, level]
  cases shelf with
  | cantrips => simp [Shelf.receives, Shelf.Suits, feeds, cantrip, level]
  | known =>
    have positive : ¬ n = 0 ↔ 1 ≤ n := by omega
    simp [Shelf.receives, Shelf.Suits, feeds, cantrip, level, positive]
  | learned => simp [Shelf.receives, Shelf.Suits, feeds]

theorem suits_of_infusions (own : IsKeyOf "infusions" m.choice.source) (id : String) :
    (∀ shelf : Shelf, shelf.receives r m id = true ↔ shelf.Suits "infusions" o) ↔
      m.feedsSpells = false := by
  have feeds : m.feedsInfusions = true := m.feedsInfusions_iff.2 (own.mentions_base (by decide))
  constructor
  · intro suits
    have learned := (suits .learned).2 rfl
    simp only [Shelf.receives, Bool.and_eq_true, Bool.not_eq_true'] at learned
    exact learned.1
  · intro clear shelf
    cases shelf <;> simp [Shelf.receives, Shelf.Suits, clear, feeds]

-- options of features and feats belong on no shelf
theorem suits_of_others (spells : base ≠ "spells") (infusions : base ≠ "infusions") (id : String) :
    (∀ shelf : Shelf, shelf.receives r m id = true ↔ shelf.Suits base o) ↔
      m.feedsSpells = false ∧ m.feedsInfusions = false := by
  constructor
  · intro suits
    have cantrips := suits .cantrips
    have known := suits .known
    have learned := suits .learned
    simp only [Shelf.receives, Shelf.Suits, spells, infusions, false_and, iff_false] at cantrips known learned
    cases feeds : m.feedsSpells <;> simp_all
  · rintro ⟨clear, bare⟩ shelf
    cases shelf <;> simp [Shelf.receives, Shelf.Suits, clear, bare, spells, infusions]

theorem receives_iff_suits (distinct : (r.pools.spells.map PoolOption.id).Nodup)
    (own : IsKeyOf base m.choice.source) (named : r.pools.get? base = some pool) (member : o ∈ pool)
    (graded : base = "spells" → ∃ n, o.level = some n ∧ 0 ≤ n) :
    (∀ shelf : Shelf, shelf.receives r m o.id = true ↔ shelf.Suits base o) ↔
      ¬ Misleads base m.choice.source := by
  have spellWords := m.feedsSpells_iff
  have infusionWord := m.feedsInfusions_iff
  by_cases spells : base = "spells"
  · subst spells
    obtain rfl : r.pools.spells = pool := Option.some.inj named
    exact iff_of_true (suits_of_spells distinct own member (graded rfl)) (by simp [Misleads])
  · by_cases infusions : base = "infusions"
    · subst infusions
      rw [suits_of_infusions own, ← Bool.not_eq_true, spellWords]
      simp [Misleads]
    · rw [suits_of_others spells infusions, ← Bool.not_eq_true, ← Bool.not_eq_true, spellWords,
        infusionWord]
      simp only [Misleads, ne_eq, spells, infusions, not_false_eq_true, true_and]
      rw [← not_or, or_assoc]

/-- Applying a level adds what was picked to the shelves and nothing else. What a standard pool offers
lands where it belongs, exactly if the key of the choice does not mislead. -/
theorem Application.on_lands {a : Application} {level : Int} {force : Bool} {now : Moment}
    {c d : Character} (distinct : (a.ruleset.pools.spells.map PoolOption.id).Nodup)
    (went : a.on level force now c = .ok d) :
    (c.isApplied level = true ∧ force = false ∧ d = c) ∨
      ∃ node made, a.Makes level node made ∧
        (∀ shelf id, id ∈ Shelf.of d shelf ↔ id ∈ Shelf.of (c.revert level).1 shelf ∨
          ∃ m ∈ made, id ∈ m.picks ∧ shelf.receives a.ruleset m id = true) ∧
        ∀ m ∈ made, a.ruleset.resolvePool m.choice.source = .ok m.pool ∧
          ∀ base pool, IsKeyOf base m.choice.source → a.ruleset.pools.get? base = some pool →
            (a.ruleset.pools.extra.get? m.choice.source = none → m.pool.Sublist pool) ∧
            ∀ o ∈ pool, (base = "spells" → ∃ n, o.level = some n ∧ 0 ≤ n) →
              ((∀ shelf : Shelf, shelf.receives a.ruleset m o.id = true ↔ shelf.Suits base o) ↔
                ¬ Misleads base m.choice.source) := by
  cases busy : c.isApplied level && !force with
  | true =>
    left
    simpa [and_assoc] using And.intro busy (on_skip busy went)
  | false =>
    right
    obtain ⟨node, made, makes, rfl⟩ := makes_of_on busy went
    obtain ⟨picks, -, chosen⟩ := made_eq_ok makes.chosen
    refine ⟨node, made, makes, mem_committed a.ruleset node level made now c, fun m member => ?_⟩
    have resolved := pool_of_madeOf chosen m member
    refine ⟨resolved, fun base pool own named => ⟨fun unshared => ?_, fun o there graded => ?_⟩⟩
    · exact Ruleset.resolvePool_own own unshared named resolved
    · exact receives_iff_suits distinct own named there graded

-- levels that ask for a feature, an infusion and a spell, of which two keys hold the word for spells

namespace Apprentice

open Ruleset.Primer (shelved single tagged)

def asking (source : String) : Value :=
  single "choices" (.list [.map [(.str "id", .str "a"), (.str "from", .str source)]])

def primer : Value :=
  .map [(.str "meta", single "id" (.str "r")),
    (.str "classes", single "wizard" (single "progression" (.map
      [(.str "2", asking "features.spellcasting"), (.str "3", asking "infusions.spell-storing"),
        (.str "4", asking "spells.1")]))),
    (.str "spells", .list [tagged "light" 1 []]),
    (.str "infusions", .list [tagged "wand" 2 ["spell-storing"]]),
    (.str "features", .list [tagged "rote" 2 ["spellcasting"]])]

def rules : Ruleset :=
  (Ruleset.ofDocument shelved primer).result.toOption.get (by decide +kernel)

theorem rules_parsed : (Ruleset.ofDocument shelved primer).result = .ok rules :=
  ok_of_get (by decide +kernel)

def taking (id : String) : Application :=
  ⟨rules, some "wizard", .byChoice (Dict.empty.insert "a" (.listed (.ids [id])))⟩

def asked (source : String) : Choice :=
  ⟨"a", "", "", source, .open, 1⟩

end Apprentice

open Apprentice Novice Ruleset.Primer in
theorem on_lands_apprentice :
    (Apprentice.rules.pools.spells.map PoolOption.id).Nodup ∧
      ∃ d, (taking "light").on 4 false shelved novice = .ok d ∧
        ∀ shelf, "light" ∈ Shelf.of d shelf ↔ shelf = .known := by
  let m : Made := ⟨asked "spells.1", Apprentice.rules.pools.spells, ["light"]⟩
  have distinct : (Apprentice.rules.pools.spells.map PoolOption.id).Nodup := by decide +kernel
  have makes : (taking "light").Makes 4 ⟨[], [asked "spells.1"]⟩ [m] :=
    ⟨by decide +kernel, by decide +kernel, by decide⟩
  have went : (taking "light").on 4 false shelved novice = .ok (committed Apprentice.rules
      ⟨[], [asked "spells.1"]⟩ 4 [m] shelved novice) := Application.on_makes makes (by decide)
  refine ⟨distinct, _, went, fun shelf => ?_⟩
  rcases Application.on_lands distinct went with ⟨idle, -⟩ | ⟨node, made, again, added, lands⟩
  · exact absurd idle (by decide)
  obtain ⟨-, rfl⟩ := makes.unique again
  have own : IsKeyOf "spells" "spells.1" := ⟨by decide, .inr ⟨"1", rfl, by decide⟩⟩
  obtain ⟨o, there, level, id⟩ :
      ∃ o ∈ Apprentice.rules.pools.spells, o.level = some 1 ∧ o.id = "light" := by decide +kernel
  have suits := (((lands m (List.mem_singleton_self m)).2 "spells" _ own rfl).2 o there
    fun _ => ⟨1, level, by decide⟩).2 (by simp [Misleads])
  have bare : "light" ∉ Shelf.of (novice.revert 4).1 shelf := by
    cases shelf <;> decide
  rw [id] at suits
  rw [added shelf]
  cases shelf <;> simp_all [m, Shelf.Suits]

open Apprentice Novice Ruleset.Primer in
/-- A feature and an infusion end up among the spells, for a word in their tags. -/
theorem apprentice_strays : ∃ imported document,
    (Ruleset.ofDocument imported document).result = .ok Apprentice.rules ∧
    (Apprentice.rules.pools.spells.map PoolOption.id).Nodup ∧
    (IsKeyOf "features" "features.spellcasting" ∧
      Apprentice.rules.resolvePool "features.spellcasting" = .ok Apprentice.rules.pools.features ∧
      "rote" ∉ Shelf.of novice .known ∧
      ∃ d, (taking "rote").on 2 false shelved novice = .ok d ∧ "rote" ∈ Shelf.of d .known) ∧
    IsKeyOf "infusions" "infusions.spell-storing" ∧
      Apprentice.rules.resolvePool "infusions.spell-storing" = .ok Apprentice.rules.pools.infusions ∧
      "wand" ∉ Shelf.of novice .known ∧
      ∃ d, (taking "wand").on 3 false shelved novice = .ok d ∧ "wand" ∉ Shelf.of d .learned ∧
        "wand" ∈ Shelf.of d .known := by
  have rote : (taking "rote").Makes 2 ⟨[], [asked "features.spellcasting"]⟩
      [⟨asked "features.spellcasting", Apprentice.rules.pools.features, ["rote"]⟩] :=
    ⟨by decide +kernel, by decide +kernel, by decide⟩
  have wand : (taking "wand").Makes 3 ⟨[], [asked "infusions.spell-storing"]⟩
      [⟨asked "infusions.spell-storing", Apprentice.rules.pools.infusions, ["wand"]⟩] :=
    ⟨by decide +kernel, by decide +kernel, by decide⟩
  have features : IsKeyOf "features" "features.spellcasting" :=
    ⟨by decide, .inr ⟨"spellcasting", rfl, by decide⟩⟩
  have infusions : IsKeyOf "infusions" "infusions.spell-storing" :=
    ⟨by decide, .inr ⟨"spell-storing", rfl, by decide⟩⟩
  exact ⟨shelved, primer, rules_parsed, by decide +kernel, ⟨features, by decide +kernel, by decide, _,
    Application.on_makes rote (by decide), by decide +kernel⟩, infusions, by decide +kernel, by decide, _,
    Application.on_makes wand (by decide), by decide +kernel, by decide +kernel⟩

end Tabletop
