import Tabletop.Proofs.RecordReading
import Tabletop.Store.Characters

set_option autoImplicit false

namespace Tabletop

open Tabletop.Json (Proper)

-- every part of a character's record is a proper document

theorem proper_ofStrings (ss : List String) : Proper (.ofStrings ss) := by
  refine Proper.list fun x member => ?_
  obtain ⟨s, -, rfl⟩ := List.mem_map.1 member
  exact Proper.str s

theorem proper_ofText? (s : Option String) : Proper (.ofText? s) := by
  cases s with
  | none => exact Proper.null
  | some s => exact Proper.str s

theorem Dict.proper_toValue {α : Type} {f : α → Value} (d : Dict String α)
    (proper : ∀ a, Proper (f a)) : Proper (d.toValue f) := by
  refine Proper.map (.of_names d.keys ?_ d.distinct) fun e member => ?_
  · simp [keys, Function.comp_def]
  · obtain ⟨entry, -, rfl⟩ := List.mem_map.1 member
    exact proper entry.2

theorem HitPoints.proper_toValue (h : HitPoints) : Proper h.toValue := by
  refine Proper.map (.of_names ["current", "max", "temp"] rfl (by decide)) ?_
  simp [Proper.int]

theorem Item.proper_toValue (i : Item) : Proper i.toValue := by
  have weight : Proper (i.weight.elim .null .float) := by
    cases i.weight with
    | none => exact Proper.null
    | some w => exact Proper.float w
  refine Proper.map (.of_names ["id", "name", "quantity", "note", "weight"] rfl
    (by decide)) ?_
  simp [Proper.str, Proper.int, weight]

theorem Feature.proper_toValue (f : Feature) : Proper f.toValue := by
  refine Proper.map (.of_names ["id", "name", "level", "text", "tags"] rfl
    (by decide)) ?_
  simp [Proper.str, Proper.int, proper_ofStrings]

theorem SpellBook.proper_toValue (b : SpellBook) : Proper b.toValue := by
  refine Proper.map (.of_names ["cantrips", "known"] rfl (by decide)) ?_
  simp [IdSet.toValue, proper_ofStrings]

theorem proper_infusions (s : IdSet) : Proper (infusionsToValue s) := by
  refine Proper.map (.of_names ["learned"] rfl (by decide)) ?_
  simp [IdSet.toValue, proper_ofStrings]

theorem Ledger.proper_toValue (l : Ledger) : Proper l.toValue :=
  Dict.proper_toValue l fun r => Dict.proper_toValue r proper_ofStrings

namespace Character

theorem entries_proper (c : Character) : ∀ e ∈ c.entries, Proper e.2 := by
  have inventory : Proper (.list (c.inventory.map Item.toValue)) := by
    refine Proper.list fun x member => ?_
    obtain ⟨i, -, rfl⟩ := List.mem_map.1 member
    exact i.proper_toValue
  have features : Proper (.list (c.features.map Feature.toValue)) := by
    refine Proper.list fun x member => ?_
    obtain ⟨f, -, rfl⟩ := List.mem_map.1 member
    exact f.proper_toValue
  change ∀ e ∈ Value.entriesOrEmpty c.toValue, Proper e.2
  simp only [toValue, Value.entriesOrEmpty, List.forall_mem_cons]
  refine ⟨.str _, .str _, proper_ofText? _, proper_ofText? _, proper_ofText? _, .int _,
    c.abilities.proper_toValue .int, c.hp.proper_toValue, .int _, .int _,
    c.skillRanks.proper_toValue .int, proper_ofStrings _, inventory, c.spells.proper_toValue,
    proper_infusions _, features, Ledger.proper_toValue _, .str _, proper_ofText? _, .str _, .str _,
    by simp⟩

theorem proper_toValue (c : Character) : Proper c.toValue :=
  Proper.map c.entries_members c.entries_proper

-- what the store remembers of a character that it saved or loaded
def fingerprint (c : Character) : Value :=
  (Record.fingerprintOf c.toValue).toOption.getD .null

theorem fingerprint_members (c : Character) :
    ∃ fs, Record.fingerprintOf c.toValue = .ok (.map fs) ∧
      ∀ f, f ∈ fs ↔ ∃ v, (f.1, v) ∈ c.entries ∧ Json.sorted v = .ok f.2 := by
  obtain ⟨fs, sorts, plain, mem⟩ := Json.sorted_map c.entries_members.text c.entries_proper
  refine ⟨fs, ?_, mem⟩
  have whole : c.toValue = .map c.entries := rfl
  rw [Record.fingerprintOf, whole, sorts]
  exact plain

theorem fingerprintOf_toValue (c : Character) :
    Record.fingerprintOf c.toValue = .ok c.fingerprint := by
  obtain ⟨fs, found, -⟩ := c.fingerprint_members
  rw [fingerprint, found]
  rfl

-- records with one fingerprint have fields with one sorted form
theorem fingerprint_field {c d : Character} (same : c.fingerprint = d.fingerprint)
    (name : String) {v w : Value} (first : (.str name, v) ∈ c.entries)
    (second : (.str name, w) ∈ d.entries) : Json.sorted v = Json.sorted w := by
  obtain ⟨fs, found, mem⟩ := c.fingerprint_members
  obtain ⟨gs, found', mem'⟩ := d.fingerprint_members
  have whole : fs = gs := by
    rw [fingerprintOf_toValue, Except.ok.injEq] at found found'
    rw [found, found'] at same
    exact Value.map.inj same
  obtain ⟨x, sorts, -⟩ := (c.entries_proper _ first).sorts
  have shared : ((.str name, x) : Value × Value) ∈ gs := by
    rw [← whole, mem]
    exact ⟨v, first, sorts⟩
  obtain ⟨w', there, sorts'⟩ := (mem' _).1 shared
  rw [sorts, d.entries_members.unique second there, sorts']

theorem fingerprint_level {c d : Character} (same : c.fingerprint = d.fingerprint) :
    c.level = d.level := by
  have level := fingerprint_field same "level" (v := .int c.level) (w := .int d.level)
    (mem_of_field? rfl) (mem_of_field? rfl)
  simpa [Json.sorted] using level

end Character

end Tabletop
