import Tabletop.Proofs.Rereading
import Tabletop.Proofs.Shelf

set_option autoImplicit false

namespace Tabletop

open Character (committed pickedIds)

-- no choice of the node writes over the picks of another, and none is taken for the grants
theorem picked_of_made {r : Ruleset} {node : Node} {s : Selections} {level : Int} {made : List Made}
    (parsed : node.IsParsed level) (chosen : node.made r s = .ok made) {m : Made} (member : m ∈ made)
    {id : String} (picked : id ∈ m.picks) : id ∈ pickedIds (recordOf node made) := by
  have choices := made_choices chosen
  have filled : made.isEmpty = false := List.isEmpty_eq_false_iff.2 (List.ne_nil_of_mem member)
  have distinct : ((made.map fun m => (m.choice.id, m.picks)).map (·.1)).Nodup := by
    have ids := parsed.distinct
    rw [← choices] at ids
    simpa [Function.comp_def] using ids
  have reserved : m.choice.id ≠ grantsKey := by
    refine parsed.reserved m.choice ?_
    rw [← choices]
    exact List.mem_map_of_mem member
  rw [mem_pickedIds, recordOf, filled]
  simp only [Bool.false_eq_true, if_false, Dict.entries_ofList distinct]
  exact ⟨_, List.mem_map_of_mem member, reserved, picked⟩

namespace Character

def OnRecord (c : Character) (id : String) : Prop :=
  ∃ level record, c.record? level = some record ∧ id ∈ pickedIds record

/-- Every option on a shelf is one of `own`, or a pick of a level that is applied. -/
def Accounted (own : Shelf → IdSet) (c : Character) : Prop :=
  ∀ shelf, ∀ id ∈ Shelf.of c shelf, id ∈ own shelf ∨ c.OnRecord id

variable {own : Shelf → IdSet} {c : Character}

-- an option that is left when a level is reverted is on the record of another one
theorem OnRecord.revert {level : Int} {id : String} (recorded : c.OnRecord id)
    (left : ∀ record, c.record? level = some record → id ∉ pickedIds record) :
    (c.revert level).1.OnRecord id := by
  obtain ⟨l, record, found, picked⟩ := recorded
  have other : l ≠ level := by
    rintro rfl
    exact left record found picked
  exact ⟨l, record, by rw [record?_revert, if_neg other, found], picked⟩

theorem Accounted.revert (accounted : c.Accounted own) (level : Int) :
    (c.revert level).1.Accounted own := by
  intro shelf id member
  obtain ⟨held, left⟩ := (mem_revert c level shelf id).1 member
  exact (accounted shelf id held).imp_right fun recorded => recorded.revert left

theorem OnRecord.committed {r : Ruleset} {node : Node} {level : Int} {made : List Made}
    {now : Moment} {id : String} (recorded : (c.revert level).1.OnRecord id) :
    (committed r node level made now c).OnRecord id := by
  obtain ⟨l, record, found, picked⟩ := recorded
  rw [record?_revert] at found
  have other : l ≠ level := by
    rintro rfl
    simp at found
  rw [if_neg other] at found
  exact ⟨l, record, by rw [record?_committed, if_neg other, found], picked⟩

theorem Accounted.committed (accounted : c.Accounted own) {r : Ruleset} {node : Node} {level : Int}
    {s : Selections} {made : List Made} (parsed : node.IsParsed level)
    (chosen : node.made r s = .ok made) (now : Moment) :
    (committed r node level made now c).Accounted own := by
  intro shelf id member
  rcases (mem_committed r node level made now c shelf id).1 member with left | ⟨m, of, picked, -⟩
  · exact (accounted.revert level shelf id left).imp_right OnRecord.committed
  · have recorded : (Character.committed r node level made now c).record? level =
        some (recordOf node made) := by rw [record?_committed, if_pos rfl]
    exact .inr ⟨level, _, recorded, picked_of_made parsed chosen of picked⟩

end Character

def Deed.IsTaught : Deed → Prop
  | .apply _ a _ _ => ∃ imported d, (Ruleset.ofDocument imported d).result = .ok a.ruleset
  | _ => True

namespace Chronicle

variable {own : Shelf → IdSet}

theorem record_accounted {h : Chronicle} (accounted : h.character.Accounted own) {d : Deed}
    (taught : d.IsTaught) : (h.record d).character.Accounted own := by
  cases d with
  | apply level a force now =>
    obtain ⟨imported, document, read⟩ := taught
    rcases h.record_apply level a force now with idle | ⟨node, made, ⟨found, chosen⟩, -, went⟩
    · rwa [idle]
    · rw [went]
      exact accounted.committed (Ruleset.node?_parsed read found) chosen now
  | revert level => exact accounted.revert level
  | write f manual => exact accounted

theorem after_accounted {c : Character} {deeds : List Deed} (taught : ∀ d ∈ deeds, d.IsTaught) :
    (after c deeds).character.Accounted (Shelf.of c) := by
  induction deeds using List.reverseRecOn with
  | nil => exact fun shelf id held => .inl held
  | append_singleton deeds d ih =>
    rw [List.forall_mem_append, List.forall_mem_singleton] at taught
    rw [after_snoc]
    exact record_accounted (ih taught.1) taught.2

/-- After every step of a run, an option on a shelf was there when the run began, or it is a pick of a
level that is applied. -/
theorem after_leaves_none (c : Character) {deeds : List Deed} (taught : ∀ d ∈ deeds, d.IsTaught) :
    ∀ done, done <+: deeds → (after c done).character.Accounted (Shelf.of c) := by
  intro done upTo
  apply after_accounted
  intro d member
  exact taught d (upTo.subset member)

end Chronicle

-- a level is picked again with another spell, and then reverted

namespace Recruit

open Ruleset.Primer (shelved single)

def spellbook : Value :=
  .map [(.str "meta", single "id" (.str "r")),
    (.str "classes", single "wizard" (single "progression" (single "2" (single "choices" (.list
      [.map [(.str "id", .str "a"), (.str "from", .str "spells"), (.str "count", .int 1)]]))))),
    (.str "spells", .list [single "id" (.str "light"), single "id" (.str "frost")])]

def spells : Ruleset :=
  (Ruleset.ofDocument shelved spellbook).result.toOption.get (by decide +kernel)

def study (id : String) : Application :=
  ⟨spells, some "wizard", .byChoice (Dict.empty.insert "a" (.listed (.ids [id])))⟩

def studies : List Deed :=
  [.apply 2 (study "light") false shelved, .apply 2 (study "frost") true shelved, .revert 2]

theorem studies_taught : ∀ d ∈ studies, d.IsTaught := by
  have taught : ∃ imported d, (Ruleset.ofDocument imported d).result = .ok spells :=
    ⟨shelved, spellbook, ok_of_get (by decide +kernel)⟩
  simp only [studies, List.forall_mem_cons]
  exact ⟨taught, taught, trivial, by simp⟩

end Recruit

open Recruit Novice in
theorem after_leaves_none_recruit :
    (∀ d ∈ studies, d.IsTaught) ∧
      (Shelf.of (Chronicle.after novice (studies.take 1)).character .known).ids = ["light"] ∧
      (Shelf.of (Chronicle.after novice (studies.take 2)).character .known).ids = ["frost"] ∧
      ∀ done, done <+: studies → (Chronicle.after novice done).character.Accounted (Shelf.of novice) :=
  ⟨studies_taught, by decide +kernel, by decide +kernel,
    Chronicle.after_leaves_none novice studies_taught⟩

end Tabletop
