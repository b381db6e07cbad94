import Tabletop.Proofs.LevelBlock

/-!
What a character goes through: levels are applied and reverted, and the player writes features of their
own. Whatever the order, the features and the ledger of a level are those of its last application.
-/

set_option autoImplicit false

namespace Tabletop

-- what is applied at a level
structure Application where
  ruleset : Ruleset
  classId : Option String
  selections : Selections

inductive Deed where
  | apply (level : Int) (a : Application) (force : Bool) (now : Moment)
  | revert (level : Int)
  | write (f : Feature) (manual : f.tags = .manualOnly)

def Deed.written? : Deed → Option Feature
  | write f _ => some f
  | _ => none

namespace Application

def on (a : Application) (level : Int) (force : Bool) (now : Moment) (c : Character) :
    Except Failure Character :=
  (c.applyLevel a.ruleset a.classId level a.selections force now).result

-- the node of a level and the choices made at it
structure Makes (a : Application) (level : Int) (node : Node) (made : List Made) : Prop where
  found : a.ruleset.node? a.classId level = some node
  chosen : node.made a.ruleset a.selections = .ok made
  short : IsWritten level

theorem on_skip {a : Application} {level : Int} {force : Bool} {now : Moment} {c d : Character}
    (idle : (c.isApplied level && !force) = true) (went : a.on level force now c = .ok d) : d = c := by
  rw [on, Character.applyLevel_result _ _ _ (Character.isWritten_of_applyLevel went), if_pos idle] at went
  exact (Except.ok.inj went).symm

theorem on_makes {a : Application} {level : Int} {node : Node} {made : List Made} {force : Bool}
    {now : Moment} {c : Character} (makes : a.Makes level node made)
    (busy : (c.isApplied level && !force) = false) :
    a.on level force now c = .ok (Character.committed a.ruleset node level made now c) := by
  rw [on, Character.applyLevel_result _ _ _ makes.short, busy, makes.found]
  simp [makes.chosen, Except.map]

theorem makes_of_on {a : Application} {level : Int} {force : Bool} {now : Moment}
    {c d : Character} (busy : (c.isApplied level && !force) = false)
    (went : a.on level force now c = .ok d) :
    ∃ node made, a.Makes level node made ∧
      d = Character.committed a.ruleset node level made now c := by
  have short := Character.isWritten_of_applyLevel went
  rw [on, Character.applyLevel_result _ _ _ short, busy] at went
  simp only [Bool.false_eq_true, if_false] at went
  cases found : a.ruleset.node? a.classId level with
  | none => simp [found] at went
  | some node =>
    cases chosen : node.made a.ruleset a.selections with
    | error f => simp [found, chosen, Except.map] at went
    | ok made =>
      simp only [found, chosen, Except.map, Except.ok.injEq] at went
      exact ⟨node, made, ⟨found, chosen, short⟩, went.symm⟩

theorem Makes.unique {a : Application} {level : Int} {node other : Node} {made others : List Made}
    (makes : a.Makes level node made) (again : a.Makes level other others) :
    other = node ∧ others = made := by
  obtain rfl : other = node := Option.some.inj (again.found.symm.trans makes.found)
  exact ⟨rfl, Except.ok.inj (again.chosen.symm.trans makes.chosen)⟩

end Application

/-- A character, and what was last applied to it at each level. -/
structure Chronicle where
  character : Character
  last : Int → Option Application

namespace Chronicle

-- a level that cannot be applied changes nothing, and one that is applied already is passed over
def record (h : Chronicle) : Deed → Chronicle
  | .apply level a force now =>
    match a.on level force now h.character with
    | .error _ => h
    | .ok c =>
      { character := c
        last :=
          if h.character.isApplied level && !force then h.last
          else fun l => if l = level then some a else h.last l }
  | .revert level => { h with character := (h.character.revert level).1 }
  | .write f _ =>
    { h with character := { h.character with features := h.character.features ++ [f] } }

def start (c : Character) : Chronicle :=
  ⟨c, fun _ => none⟩

def after (c : Character) (deeds : List Deed) : Chronicle :=
  deeds.foldl record (start c)

theorem after_snoc (c : Character) (deeds : List Deed) (d : Deed) :
    after c (deeds ++ [d]) = (after c deeds).record d := by
  simp [after, List.foldl_append]

theorem record_idle {h : Chronicle} {level : Int} {force : Bool}
    (idle : (h.character.isApplied level && !force) = true) (a : Application) (now : Moment) :
    h.record (.apply level a force now) = h := by
  cases went : a.on level force now h.character with
  | error f => simp only [record, went]
  | ok c => simp [record, went, idle, Application.on_skip idle went]

-- a deed that applies a level either changes nothing or commits the choices made at it
theorem record_apply (h : Chronicle) (level : Int) (a : Application) (force : Bool) (now : Moment) :
    h.record (.apply level a force now) = h ∨
      ∃ node made, a.Makes level node made ∧
        (h.character.isApplied level && !force) = false ∧
        h.record (.apply level a force now) =
          { character := .committed a.ruleset node level made now h.character
            last := fun l => if l = level then some a else h.last l } := by
  by_cases idle : (h.character.isApplied level && !force) = true
  · exact .inl (record_idle idle a now)
  · rw [Bool.not_eq_true] at idle
    cases went : a.on level force now h.character with
    | error f =>
      left
      simp only [record, went]
    | ok c =>
      obtain ⟨node, made, makes, rfl⟩ := Application.makes_of_on idle went
      right
      refine ⟨node, made, makes, idle, ?_⟩
      simp only [record, went, idle]
      rfl

end Chronicle

open Character (isOfLevel levelEntries committed Clear)

/-- What an application of a level accounts for: its record, and the block of its features. -/
def Application.Accounts (a : Application) (level : Int) (record : LevelRecord)
    (block : List Feature) : Prop :=
  ∃ node made, a.Makes level node made ∧ record = recordOf node made ∧
    block = levelEntries a.ruleset node level made

namespace Chronicle

def Accounts (h : Chronicle) (level : Int) (block : List Feature) : Prop :=
  match h.character.record? level with
  | none => block = []
  | some record => ∃ a, h.last level = some a ∧ a.Accounts level record block

/-- The player's features are `own`, and all others stand in the blocks of the applied levels. -/
structure InOrder (own : List Feature) (h : Chronicle) : Prop where
  filled : ∀ level, h.character.record? level = h.character.advancement.get? (toString level)
  manual : h.character.manualFeatures = own
  tidy : ∀ f ∈ h.character.features, f.IsTidy
  block : ∀ level, ∃ block, IsBlock (isOfLevel level) block h.character.features ∧
    h.Accounts level block

variable {own : List Feature} {h : Chronicle}

theorem start_inOrder {c : Character} (fresh : c.advancement = .empty)
    (unmarked : ∀ f ∈ c.features, f.tags.grant = false ∧ f.tags.choice = false) :
    InOrder c.features (start c) where
  filled level := by simp [start, Character.record?, fresh]
  manual := by
    refine List.filter_eq_self.2 fun f member => ?_
    simp [Feature.isEngineOwned, unmarked f member]
  tidy f member := by
    simp [Feature.IsTidy, Feature.isEngineOwned, unmarked f member]
  block level := by
    refine ⟨[], IsBlock.nil_iff.2 fun f member => ?_, ?_⟩
    · simp [isOfLevel, Feature.isEngineOwned, unmarked f member]
    · simp [Accounts, start, Character.record?, fresh]

theorem isOfLevel_apart {l level : Int} (apart : l ≠ level) {f : Feature}
    (own : isOfLevel l f = true) : isOfLevel level f = false := by
  simp only [isOfLevel, Bool.and_eq_true, decide_eq_true_eq] at own
  simp [isOfLevel, own.1, apart]

theorem revert_inOrder (ordered : InOrder own h) (level : Int) :
    InOrder own (h.record (.revert level)) := by
  cases recorded : h.character.record? level with
  | none => simpa [record, Character.revert_of_unrecorded recorded] using ordered
  | some record =>
    have features : (h.record (.revert level)).character.features =
        h.character.features.filter fun f => !isOfLevel level f := by
      simp only [Chronicle.record, Character.revert_of_recorded recorded, Character.withdrawn]
    refine ⟨fun l => ?_, ?_, ?_, fun l => ?_⟩
    · simp only [Chronicle.record, Character.revert_of_recorded recorded,
        Character.record?_withdrawn, ordered.filled l]
      simp [Character.withdrawn]
    · rw [Character.manualFeatures, features, List.filter_filter, ← ordered.manual]
      refine List.filter_congr fun f _ => ?_
      cases engine : f.isEngineOwned <;> simp [isOfLevel, engine]
    · rw [features]
      exact fun f member => ordered.tidy f (List.mem_filter.1 member).1
    · rw [features]
      simp only [Accounts, Chronicle.record, Character.record?_revert]
      by_cases same : l = level
      · subst same
        refine ⟨[], IsBlock.nil_iff.2 fun f member => ?_, by simp⟩
        simpa using (List.mem_filter.1 member).2
      · obtain ⟨block, stands, accounts⟩ := ordered.block l
        refine ⟨block, stands.filter fun f member => ?_, by simpa [same, Accounts] using accounts⟩
        simp [isOfLevel_apart same (stands.uniform f member)]

theorem write_inOrder (ordered : InOrder own h) (f : Feature) (manual : f.tags = .manualOnly) :
    InOrder (own ++ [f]) (h.record (.write f manual)) := by
  have player : f.isEngineOwned = false := by
    simp [Feature.isEngineOwned, manual, FeatureTags.manualOnly]
  refine ⟨ordered.filled, ?_, ?_, fun level => ?_⟩
  · have kept := ordered.manual
    unfold Character.manualFeatures at kept ⊢
    simp [record, kept, player]
  · intro g member
    rcases List.mem_append.1 member with old | new
    · exact ordered.tidy g old
    · rw [List.mem_singleton.1 new]
      simp [Feature.IsTidy, Feature.isEngineOwned, manual, FeatureTags.manualOnly]
  · obtain ⟨block, stands, accounts⟩ := ordered.block level
    exact ⟨block, stands.append (by simp [isOfLevel, player]), accounts⟩

-- the new block of a level is set into what is left without the old one
theorem commit_splits (ordered : InOrder own h) (r : Ruleset) (node : Node) (level : Int)
    (made : List Made) (now : Moment) :
    ∃ before after, (h.character.revert level).1.features = before ++ after ∧
      (committed r node level made now h.character).features =
        before ++ levelEntries r node level made ++ after := by
  obtain ⟨old, ⟨uniform, before, after, whole, apart⟩, accounts⟩ := ordered.block level
  have clear : Clear level (before ++ after) := by
    refine fun f member => ⟨ordered.tidy f ?_, apart f member⟩
    rw [whole]
    simp only [List.mem_append] at member ⊢
    grind
  cases recorded : h.character.record? level with
  | none =>
    have none : old = [] := by simpa [Accounts, recorded] using accounts
    rw [none, List.append_nil] at whole
    refine ⟨h.character.features, [], ?_, ?_⟩
    · rw [Character.revert_of_unrecorded recorded, List.append_nil]
    · rw [List.append_nil]
      exact Character.committed_features_of_unrecorded r node made now recorded
        (by rw [whole]; exact clear.unmarked)
  | some record =>
    have left : (h.character.revert level).1.features = before ++ after := by
      rw [Character.revert_of_recorded recorded]
      change h.character.features.filter _ = _
      rw [whole, Character.filter_block uniform apart]
    have new := Character.committed_features_of_recorded r node made now recorded whole uniform
      clear.unmarked
    cases old with
    | nil => exact ⟨before ++ after, [], by simpa using left, by simpa using new⟩
    | cons f old => exact ⟨before, after, left, by simpa using new⟩

theorem apply_inOrder (ordered : InOrder own h) (level : Int) (a : Application) (force : Bool)
    (now : Moment) : InOrder own (h.record (.apply level a force now)) := by
  rcases record_apply h level a force now with same | ⟨node, made, makes, -, went⟩
  · rwa [same]
  · have reverted := revert_inOrder ordered level
    have clear : ∀ f ∈ (h.character.revert level).1.features, isOfLevel level f = false := by
      obtain ⟨block, stands, accounts⟩ := reverted.block level
      have none : block = [] := by
        simpa [Accounts, record, Character.record?_revert] using accounts
      rw [none, IsBlock.nil_iff] at stands
      exact stands
    have uniform := Character.levelEntries_uniform a.ruleset node level made
    obtain ⟨before, after, left, new⟩ := commit_splits ordered a.ruleset node level made now
    rw [went]
    refine ⟨fun l => ?_, ?_, ?_, fun l => ?_⟩
    · have kept := reverted.filled l
      simp only [record, Character.record?_revert] at kept
      rw [Character.record?_committed, Character.advancement_committed, Dict.get?_insert, ← kept]
      by_cases same : l = level <;> simp [same]
    · have kept := reverted.manual
      have engine : (levelEntries a.ruleset node level made).filter (fun f => !f.isEngineOwned)
          = [] := by
        refine List.filter_eq_nil_iff.2 fun f member => ?_
        have own := uniform f member
        simp only [isOfLevel, Bool.and_eq_true] at own
        simp [own.2]
      simp only [Character.manualFeatures, record, left, List.filter_append] at kept
      simp only [Character.manualFeatures, new, List.filter_append, engine, List.append_nil, kept]
    · have tidy := reverted.tidy
      simp only [record, left] at tidy
      simp only [new]
      intro f member
      simp only [List.mem_append] at member tidy
      rcases member with (first | own) | last
      · exact tidy f (.inl first)
      · exact Character.isTidy_of_isOfLevel (uniform f own)
      · exact tidy f (.inr last)
    · simp only [new, Accounts, Character.record?_committed]
      by_cases same : l = level
      · subst same
        refine ⟨_, .of_apart uniform (by rwa [← left]), ?_⟩
        simp only [if_true]
        exact ⟨a, rfl, node, made, makes, rfl, rfl⟩
      · obtain ⟨block, stands, accounts⟩ := ordered.block l
        have foreign : ∀ f : Feature, f.level = level → isOfLevel l f = false := by
          intro f here
          simp [isOfLevel, here, Ne.symm same]
        refine ⟨block, ?_, by simpa [same, Accounts] using accounts⟩
        rw [← new]
        exact Character.committed_block stands foreign a.ruleset node made now

theorem record_inOrder (ordered : InOrder own h) (d : Deed) :
    InOrder (own ++ d.written?.toList) (h.record d) := by
  cases d with
  | apply level a force now => simpa [Deed.written?] using apply_inOrder ordered level a force now
  | revert level => simpa [Deed.written?] using revert_inOrder ordered level
  | write f manual => simpa [Deed.written?] using write_inOrder ordered f manual

theorem after_inOrder {c : Character} (fresh : c.advancement = .empty)
    (unmarked : ∀ f ∈ c.features, f.tags.grant = false ∧ f.tags.choice = false)
    (deeds : List Deed) :
    InOrder (c.features ++ deeds.filterMap Deed.written?) (after c deeds) := by
  suffices later : ∀ {own h}, InOrder own h →
      InOrder (own ++ deeds.filterMap Deed.written?) (deeds.foldl record h) from
    later (start_inOrder fresh unmarked)
  intro own h ordered
  induction deeds generalizing own h with
  | nil => simpa using ordered
  | cons d deeds ih =>
    have next := ih (record_inOrder ordered d)
    cases wrote : d.written? <;> simpa [List.filterMap_cons, wrote] using next

end Chronicle

namespace Application

-- the features that a level gives a character who has none
def Gives (a : Application) (level : Int) (block : List Feature) : Prop :=
  ∀ (c : Character) (force : Bool) (now : Moment), c.features = [] →
    (c.isApplied level && !force) = false →
    ∃ d, a.on level force now c = .ok d ∧ d.features = block

-- what the ledger says of an application: the validated picks, or the grants if there are none
def Records (a : Application) (level : Int) (record : LevelRecord) : Prop :=
  ∃ node, a.ruleset.node? a.classId level = some node ∧
    if node.choices = [] then record = Dict.empty.insert grantsKey node.grants
    else (node.validate a.selections).result = .ok (record.mapValues .ids)

variable {a : Application} {level : Int} {record : LevelRecord} {block : List Feature}

theorem Accounts.gives (accounts : a.Accounts level record block) : a.Gives level block := by
  obtain ⟨node, made, makes, -, rfl⟩ := accounts
  intro c force now none busy
  refine ⟨_, on_makes makes busy, ?_⟩
  have left : (c.revert level).1.features = [] := by
    unfold Character.revert
    split <;> simp [none]
  rw [Character.committed_features, left, none]
  simp [Character.moveBlock, levelEntries]

theorem Accounts.records (accounts : a.Accounts level record block) : a.Records level record := by
  obtain ⟨node, made, makes, rfl, -⟩ := accounts
  refine ⟨node, makes.found, ?_⟩
  split
  · rename_i asks
    exact recordOf_made_nil makes.chosen asks
  · rename_i asks
    exact recordOf_made makes.chosen asks

end Application

namespace Chronicle

/-- After any run, each level stands as its last application left it, and the player's features stay. -/
theorem after_kept (c : Character) (fresh : c.advancement = .empty)
    (unmarked : ∀ f ∈ c.features, f.tags.grant = false ∧ f.tags.choice = false)
    (deeds : List Deed) :
    let h := after c deeds
    h.character.manualFeatures = c.features ++ deeds.filterMap Deed.written? ∧
      ∀ level,
        match h.character.advancement.get? (toString level) with
        | none => ∀ f ∈ h.character.features, isOfLevel level f = false
        | some record => ∃ a block, h.last level = some a ∧
            IsBlock (isOfLevel level) block h.character.features ∧
            a.Gives level block ∧ a.Records level record := by
  intro h
  have ordered := after_inOrder fresh unmarked deeds
  refine ⟨ordered.manual, fun level => ?_⟩
  obtain ⟨block, stands, accounts⟩ := ordered.block level
  unfold Accounts at accounts
  rw [ordered.filled] at accounts
  change match (after c deeds).character.advancement.get? (toString level) with
    | none => _
    | some record => _
  split
  · rename_i bare
    rw [bare] at accounts
    rw [accounts, IsBlock.nil_iff] at stands
    exact stands
  · rename_i record recorded
    rw [recorded] at accounts
    obtain ⟨a, last, accounts⟩ := accounts
    exact ⟨a, block, last, stands, accounts.gives, accounts.records⟩

end Chronicle

-- a character to try runs on

namespace Novice

def firstDay : Moment := ⟨⟨2020, 1, 1⟩, ⟨0, 0, 0, 0⟩, none⟩

def spellChoice (id : String) : Choice := ⟨id, "", "", "spells", .open, 1⟩

def rules : Ruleset where
  id := "book"
  name := "Book"
  version := "1"
  classes := Dict.empty.insert "wizard"
    { id := "wizard"
      name := "Wizard"
      hitDie := 6
      progression :=
        (Dict.empty.insert 2 ⟨["ward"], [spellChoice "a"]⟩).insert 3 ⟨[], [spellChoice "b"]⟩
      castingAbility := none
      spellSlots := .empty }
  pools := ⟨[⟨"light", "Light", some 1, .empty, [], none, ""⟩], [], [], [], .empty⟩
  features := .empty
  importedAt := firstDay
  document := .null

def scar : Feature := ⟨"scar", "Scar", 2, "", .manualOnly⟩

def oath : Feature := ⟨"oath", "Oath", 3, "", .manualOnly⟩

def novice : Character where
  id := "hero"
  name := "Hero"
  rulesetId := some "book"
  classId := some "wizard"
  subclassId := none
  level := 1
  abilities := .empty
  hp := ⟨1, 1, 0⟩
  ac := 10
  speed := 30
  skillRanks := .empty
  saves := .empty
  inventory := []
  spells := ⟨.empty, .empty⟩
  infusions := .empty
  features := [scar]
  advancement := .empty
  notes := ""
  portrait := none
  createdAt := firstDay
  updatedAt := firstDay

def picking (id : String) : Application :=
  ⟨rules, some "wizard", .byChoice (Dict.empty.insert id (.listed (.ids ["light"])))⟩

def deeds : List Deed :=
  [.apply 2 (picking "a") false firstDay, .write oath rfl, .apply 3 (picking "b") false firstDay,
    .apply 2 (picking "b") true firstDay, .apply 2 (picking "a") true firstDay, .revert 3]

end Novice

open Novice in
theorem after_kept_novice :
    novice.advancement = .empty ∧
      (∀ f ∈ novice.features, f.tags.grant = false ∧ f.tags.choice = false) ∧
      (Chronicle.after novice deeds).character.manualFeatures = [scar, oath] ∧
      ∀ level,
        match (Chronicle.after novice deeds).character.advancement.get? (toString level) with
        | none => ∀ f ∈ (Chronicle.after novice deeds).character.features,
            isOfLevel level f = false
        | some record => ∃ a block, (Chronicle.after novice deeds).last level = some a ∧
            IsBlock (isOfLevel level) block (Chronicle.after novice deeds).character.features ∧
            a.Gives level block ∧ a.Records level record := by
  have fresh : novice.advancement = .empty := rfl
  have unmarked : ∀ f ∈ novice.features, f.tags.grant = false ∧ f.tags.choice = false := by decide
  have kept := Chronicle.after_kept novice fresh unmarked deeds
  exact ⟨fresh, unmarked, kept.1, kept.2⟩

end Tabletop
