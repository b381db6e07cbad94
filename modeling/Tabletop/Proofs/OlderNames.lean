import Mathlib.Data.List.Forall2
import Tabletop.Proofs.AgreeingFields

set_option autoImplicit false

namespace Tabletop

open Tabletop.Field (Entries)

theorem Value.field?_append (name : String) (es fs : Entries) :
    Value.field? name (es ++ fs) = (Value.field? name es).or (Value.field? name fs) := by
  induction es with
  | nil => simp [Value.field?]
  | cons e es ih =>
    obtain ⟨k, v⟩ := e
    cases here : Value.isKey name k <;> simp [Value.field?, here, ih]

theorem Value.field?_eq_find? (name : String) (es : Entries) : Value.field? name es = Dict.find? (.str name) es := by
  induction es with
  | nil => rfl
  | cons e es ih =>
    obtain ⟨k, v⟩ := e
    rw [Value.field?, Dict.find?, ih]
    congr 1
    cases k <;> simp [Value.isKey]

theorem Value.Members.field?_iff {es : Entries} (members : Value.Members es) {name : String} {v : Value} :
    Value.field? name es = some v ↔ (.str name, v) ∈ es :=
  ⟨mem_of_field?, fun member => by rw [Value.field?_eq_find?, Dict.find?_of_mem members.distinct member]⟩

namespace Character

variable {names : List (String × String)} {name : String} {es : Entries}

theorem field?_renameField {old new : String} (current : name ≠ old) :
    Value.field? name (renameField es (old, new)) =
      if new = name then (Value.field? name es).or (Value.field? old es) else Value.field? name es := by
  simp only [renameField]
  cases given : Value.field? old es with
  | none => simp
  | some v =>
    dsimp only
    by_cases own : new = name
    · subst own
      rw [if_pos rfl]
      cases taken : Value.field? new es with
      | some w => simp [Value.hasField, taken]
      | none =>
        simp [Value.hasField, taken, Value.field?_append, Value.field?_dropField_of_ne current.symm, Value.field?,
          Value.isKey]
    · rw [if_neg own]
      split
      · rfl
      · simp [Value.field?_append, Value.field?_dropField_of_ne current.symm, Value.field?, Value.isKey, own]

def olderNames (names : List (String × String)) (name : String) : List String :=
  (names.filter fun n => n.2 = name).map (·.1)

theorem mem_olderNames {old : String} : old ∈ olderNames names name ↔ (old, name) ∈ names := by
  simp [olderNames]

theorem field?_foldl_renameField (distinct : (names.map (·.1)).Nodup)
    (fresh : ∀ n ∈ names, ∀ m ∈ names, n.1 ≠ m.2) (current : ∀ n ∈ names, name ≠ n.1) :
    Value.field? name (names.foldl renameField es) =
      (name :: olderNames names name).findSome? (Value.field? · es) := by
  induction names generalizing es with
  | nil => simp [olderNames]
  | cons n names ih =>
    obtain ⟨old, new⟩ := n
    rw [List.map_cons, List.nodup_cons] at distinct
    rw [List.forall_mem_cons] at current
    have rest : (olderNames names name).findSome? (Value.field? · (renameField es (old, new))) =
        (olderNames names name).findSome? (Value.field? · es) := by
      rw [← List.head?_filterMap, ← List.head?_filterMap]
      refine congrArg List.head? (List.filterMap_congr fun other older => ?_)
      rw [mem_olderNames] at older
      have apart : other ≠ old := by
        rintro rfl
        exact distinct.1 (List.mem_map_of_mem (f := (·.1)) older)
      rw [field?_renameField apart, if_neg (fresh _ (.tail _ older) _ (.head _)).symm]
    rw [List.foldl_cons, ih distinct.2 (fun n member m member' => fresh n (.tail _ member) m (.tail _ member'))
      current.2, List.findSome?_cons, rest, field?_renameField current.1]
    by_cases own : new = name
    · have older : olderNames ((old, new) :: names) name = old :: olderNames names name := by
        simp [olderNames, own]
      rw [older, if_pos own, List.findSome?_cons, List.findSome?_cons]
      cases Value.field? name es with
      | some v => rfl
      | none => rfl
    · have older : olderNames ((old, new) :: names) name = olderNames names name := by
        simp [olderNames, own]
      rw [older, if_neg own, List.findSome?_cons]

end Character

end Tabletop
