import Tabletop.Proofs.DocumentCheck

set_option autoImplicit false

namespace Tabletop

def Numbers (key : Value) (n : Int) : Prop :=
  Text.isDigits key.text = true ∧ integerOf key.text = .ok n

theorem Numbers.unique {key : Value} {m n : Int} (first : Numbers key m) (second : Numbers key n) : m = n := by
  cases first.2.symm.trans second.2
  rfl

-- texts that are told apart

theorem append_cons_inj {c : Char} {xs ys ds es : List Char} (first : c ∉ ds) (second : c ∉ es)
    (same : xs ++ c :: ds = ys ++ c :: es) : xs = ys ∧ ds = es := by
  induction xs generalizing ys with
  | nil =>
    cases ys with
    | nil => exact ⟨rfl, List.tail_eq_of_cons_eq same⟩
    | cons y ys =>
      obtain ⟨-, rest⟩ := List.cons.inj same
      exact absurd (rest ▸ List.mem_append_right ys (.head _)) first
  | cons x xs ih =>
    cases ys with
    | nil =>
      obtain ⟨-, rest⟩ := List.cons.inj same
      exact absurd (rest.symm ▸ List.mem_append_right xs (.head _)) second
    | cons y ys =>
      obtain ⟨rfl, rest⟩ := List.cons.inj same
      have whole := ih rest
      exact ⟨congrArg (x :: ·) whole.1, whole.2⟩

theorem not_mem_repr {c : Char} (other : c.isDigit = false) (n : Nat) : c ∉ n.repr.toList := by
  intro member
  rw [Nat.toList_repr, ← Bool.not_eq_true] at *
  exact other (Nat.isDigit_of_mem_toDigits (by decide) (by decide) member)

theorem not_mem_digits {c : Char} (other : Text.isDigitChar c = false) {s : String}
    (digits : Text.isDigits s = true) : c ∉ s.toList := by
  intro member
  simp only [Text.isDigits, Bool.and_eq_true, List.all_eq_true] at digits
  exact absurd (digits.2 c member) (by simp [other])

namespace Ruleset.Check

theorem levelKey?_some_iff {key : Value} {n : Int} :
    levelKey? key = .ok (some n) ↔ Numbers key n ∧ 1 ≤ n ∧ n ≤ 20 := by
  unfold levelKey? Numbers
  by_cases digits : Text.isDigits key.text = true
  · rw [if_pos digits]
    cases read : integerOf key.text with
    | error cause => exact iff_of_false nofun (by simp)
    | ok m =>
      simp only [digits, true_and, ok_bind, Except.ok.injEq]
      by_cases bounds : 1 ≤ m ∧ m ≤ 20
      · simp only [bounds, and_self, if_true, pure_eq_ok, Option.some.injEq]
        exact ⟨fun same => ⟨same, same ▸ bounds⟩, fun same => same.1⟩
      · simp only [bounds, if_false, pure_eq_ok, reduceCtorEq, false_iff]
        rintro ⟨rfl, low, high⟩
        exact bounds ⟨low, high⟩
  · simp [digits]

-- issues and what they are about

theorem mem_nodesIssues {place : String} {es : Entries} {issues : List Issue}
    (found : nodesIssues place es = .ok issues) {i : Issue} :
    i ∈ issues ↔ ∃ e ∈ es, ∃ own, nodeIssues place e.1 e.2 = .ok own ∧ i ∈ own := by
  induction es generalizing issues with
  | nil =>
    cases found
    simp
  | cons e es ih =>
    simp only [nodesIssues, bind_eq_ok] at found
    obtain ⟨first, node, rest, nodes, same⟩ := found
    cases same
    simp [ih nodes, node]

theorem mem_classesIssues {es : Entries} {issues : List Issue} (found : classesIssues es = .ok issues)
    {i : Issue} : i ∈ issues ↔ ∃ e ∈ es, ∃ own, classIssues e.1 e.2 = .ok own ∧ i ∈ own := by
  induction es generalizing issues with
  | nil =>
    cases found
    simp
  | cons e es ih =>
    simp only [classesIssues, bind_eq_ok] at found
    obtain ⟨first, one, rest, others, same⟩ := found
    cases same
    simp [ih others, one]

theorem completes_of_mem {es : Entries} {issues : List Issue} (found : classesIssues es = .ok issues)
    {e : Value × Value} (member : e ∈ es) : Completes (classIssues e.1 e.2) := by
  induction es generalizing issues with
  | nil => contradiction
  | cons c es ih =>
    simp only [classesIssues, bind_eq_ok] at found
    obtain ⟨first, one, rest, others, -⟩ := found
    rcases List.mem_cons.1 member with rfl | later
    · exact ⟨first, one⟩
    · exact ih others later

def levelKinds : List String :=
  ["invalid_level_key", "invalid_choice", "duplicate_choice_id"]

def progressionPlace (classKey : Value) : String :=
  "classes." ++ classKey.text ++ ".progression"

theorem mem_classIssues {key data : Value} {issues : List Issue} (found : classIssues key data = .ok issues)
    {i : Issue} (kind : i.kind ∈ levelKinds) : i ∈ issues ↔ ∃ fields, data = .map fields ∧
      ∃ e ∈ Value.entriesOrEmpty (Value.field "progression" fields), ∃ own,
        nodeIssues (progressionPlace key) e.1 e.2 = .ok own ∧ i ∈ own := by
  have other {k message place : String} (apart : k ∉ levelKinds) : i ≠ warning k message place := by
    rintro rfl
    exact apart kind
  cases data with
  | map fields =>
    have unnamed {b : Bool} {message place : String} :
        i ∉ (if b then [] else [warning "missing_class_name" message place]) := by
      cases b
      · simpa using other (by decide)
      · simp
    simp only [classIssues] at found
    split at found
    · rename_i empty
      cases found
      simp [unnamed, empty, other (show "missing_progression" ∉ levelKinds by decide)]
    · simp only [bind_eq_ok] at found
      obtain ⟨rest, nodes, same⟩ := found
      cases same
      rw [List.mem_append, or_iff_right unnamed, mem_nodesIssues nodes]
      simp [progressionPlace]
  | _ =>
    cases found
    simp [other (show "invalid_class" ∉ levelKinds by decide)]

end Ruleset.Check

namespace Ruleset

open Check

theorem metaIssues_kind {fields : Entries} {i : Issue} (member : i ∈ metaIssues fields) : i.kind ∉ levelKinds := by
  unfold metaIssues at member
  rw [List.mem_append] at member
  rcases member with member | member <;> split at member <;> simp only [List.not_mem_nil, List.mem_singleton] at member
  all_goals
    rw [member]
    decide

theorem poolIssues_kind {es : Entries} {i : Issue} (member : i ∈ poolIssues es) : i.kind ∉ levelKinds := by
  simp only [poolIssues] at member
  split at member
  · contradiction
  · rw [List.mem_singleton.1 member]
    exact (by decide : "missing_pools" ∉ levelKinds)

theorem mem_check {d : Value} {report : Report} (checked : check d = .ok report) {i : Issue}
    (kind : i.kind ∈ levelKinds) : i ∈ report.issues ↔ ∃ c ∈ declaredClasses d, ∃ fields, c.2 = .map fields ∧
      ∃ e ∈ Value.entriesOrEmpty (Value.field "progression" fields), ∃ own,
        nodeIssues (progressionPlace c.1) e.1 e.2 = .ok own ∧ i ∈ own := by
  cases d with
  | map es =>
    simp only [check, bind_eq_ok] at checked
    obtain ⟨issues, classes, same⟩ := checked
    cases same
    rw [List.mem_append, List.mem_append, or_iff_left fun member => poolIssues_kind member kind,
      or_iff_right fun member => metaIssues_kind member kind, declaredClasses]
    cases given : Value.field "classes" es with
    | map entries =>
      rw [given, documentClassIssues] at classes
      rw [mem_classesIssues classes, Value.entriesOrEmpty]
      constructor
      · rintro ⟨c, member, own, found, listed⟩
        exact ⟨c, member, (mem_classIssues found kind).1 listed⟩
      · rintro ⟨c, member, own⟩
        obtain ⟨issues, found⟩ := completes_of_mem classes member
        exact ⟨c, member, issues, found, (mem_classIssues found kind).2 own⟩
    | _ =>
      rw [given] at classes
      cases classes
      simp only [List.mem_singleton, Value.entriesOrEmpty, List.not_mem_nil, false_and, exists_false, iff_false]
      rintro rfl
      exact absurd kind (by decide)
  | _ =>
    cases checked
    simp only [List.mem_singleton, declaredClasses, List.not_mem_nil, false_and, exists_false, iff_false]
    rintro rfl
    exact absurd kind (by decide)

end Ruleset

namespace Ruleset.Check

-- the choices of a level

def choiceSpot (nodeField : String) (i : Nat) : String :=
  nodeField ++ ".choices[" ++ toString i ++ "]"

def choicePlace (classKey key : Value) (i : Nat) : String :=
  choiceSpot (progressionPlace classKey ++ "." ++ key.text) i

theorem choicePlace_injective {c c' key key' : Value} {i i' : Nat} (digits : Text.isDigits key.text = true)
    (digits' : Text.isDigits key'.text = true) (same : choicePlace c key i = choicePlace c' key' i') :
    c.text = c'.text ∧ key.text = key'.text ∧ i = i' := by
  have chars (c key : Value) (i : Nat) : (choicePlace c key i).toList =
      ((progressionPlace c).toList ++ '.' :: key.text.toList) ++ ".choices".toList ++ '[' :: i.repr.toList ++ [']'] := by
    simp [choicePlace, choiceSpot, String.toList_append]
  have same := congrArg String.toList same
  rw [chars, chars] at same
  obtain ⟨same, numbers⟩ := append_cons_inj (not_mem_repr (by decide) i) (not_mem_repr (by decide) i')
    (List.append_cancel_right same)
  obtain ⟨places, keys⟩ := append_cons_inj (not_mem_digits (by decide) digits) (not_mem_digits (by decide) digits')
    (List.append_cancel_right same)
  have classes := String.toList_injective places
  rw [progressionPlace, progressionPlace, String.append_left_inj, String.append_right_inj] at classes
  exact ⟨classes, String.toList_injective keys, natRepr_injective (String.toList_injective numbers)⟩

end Ruleset.Check

end Tabletop
