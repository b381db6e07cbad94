import Tabletop.Proofs.Numerals
import Tabletop.Proofs.RecordReading
import Tabletop.Ruleset.Check

set_option autoImplicit false

namespace Tabletop

def Completes {ε α : Type} (x : Except ε α) : Prop :=
  ∃ a, x = .ok a

section Completes

variable {ε α β : Type} {x : Except ε α}

@[simp] theorem completes_ok (a : α) : Completes (.ok a : Except ε α) := ⟨a, rfl⟩

@[simp] theorem completes_pure (a : α) : Completes (pure a : Except ε α) := ⟨a, rfl⟩

@[simp] theorem completes_error (e : ε) : ¬ Completes (.error e : Except ε α) :=
  fun ⟨_, same⟩ => nomatch same

@[simp] theorem ok_bind (a : α) (f : α → Except ε β) : (.ok a >>= f) = f a := rfl

@[simp] theorem error_bind (e : ε) (f : α → Except ε β) : (.error e >>= f) = .error e := rfl

@[simp] theorem completes_map {f : α → β} : Completes (f <$> x) ↔ Completes x := by
  cases x <;> simp [Functor.map, Except.map]

theorem completes_bind_of_ok {f : α → Except ε β} {p : Prop}
    (next : ∀ a, x = .ok a → (Completes (f a) ↔ p)) : Completes (x >>= f) ↔ Completes x ∧ p := by
  cases x with
  | error e => simp [bind, Except.bind]
  | ok a => simpa [bind, Except.bind] using next a rfl

theorem completes_bind {f : α → Except ε β} {p : Prop} (next : ∀ a, Completes (f a) ↔ p) :
    Completes (x >>= f) ↔ Completes x ∧ p :=
  completes_bind_of_ok fun a _ => next a

@[simp] theorem completes_bind_pure {f : α → β} : Completes (x >>= fun a => pure (f a)) ↔ Completes x := by
  cases x <;> simp [bind, Except.bind]

end Completes

namespace Value

def IsWalkable : Value → Prop
  | .bool b => b = false
  | .int i => i = 0
  | .float d => d.isZero = true
  | _ => True

def IsOptionalMap (v : Value) : Prop :=
  v.isMap = true ∨ v.isTruthy = false

theorem looped_completes {v : Value} (json : v.IsJson) : Completes v.looped ↔ v.IsWalkable := by
  have empty_or (b : Bool) (xs : List Value) :
      Completes (if b then .ok xs else .ok [] : Except Breakdown (List Value)) := by
    cases b <;> simp
  cases json with
  | null => simp [looped, isTruthy, IsWalkable]
  | bool b => cases b <;> simp [looped, isTruthy, members, IsWalkable]
  | int i => by_cases zero : i = 0 <;> simp [looped, isTruthy, members, IsWalkable, zero]
  | float d => cases zero : d.isZero <;> simp [looped, isTruthy, members, IsWalkable, zero]
  | str s => exact iff_of_true (empty_or _ _) trivial
  | list _ => exact iff_of_true (empty_or _ _) trivial
  | map _ _ => exact iff_of_true (empty_or _ _) trivial

theorem field_json {es : List (Value × Value)} (json : (map es).IsJson) (name : String) :
    (field name es).IsJson := by
  unfold field
  cases found : field? name es with
  | none => exact .null
  | some v => exact json.of_mem (mem_of_field? found)

theorem entriesOrEmpty_json {v : Value} (json : v.IsJson) : (map v.entriesOrEmpty).IsJson := by
  have none : (map []).IsJson := .map ⟨by simp, by simp⟩ (by simp)
  cases json with
  | map members all => exact .map members all
  | _ => exact none

end Value

namespace Ruleset

open Check (Entries)

def IsAccepted : Value → Prop
  | .map es =>
    (Value.field "id" (Value.entriesOrEmpty (Value.field "meta" es))).isTruthy = true ∧
      (Value.field "classes" es).isMap = true
  | _ => False

def declaredClasses : Value → Entries
  | .map es => Value.entriesOrEmpty (Value.field "classes" es)
  | _ => []

/-- A level that can be looked at: digits in its key are a numeral, and its choices have members. -/
def LevelReads (key node : Value) : Prop :=
  (Text.isDigits key.text = true → Text.IsNumeral key.text) ∧
    ∀ level fields, Check.levelKey? key = .ok (some level) → node = .map fields →
      (Value.field "choices" fields).IsWalkable

def ClassReads (fields : Entries) : Prop :=
  ∀ e ∈ Value.entriesOrEmpty (Value.field "progression" fields), LevelReads e.1 e.2

def ClassesRead (classes : Entries) : Prop :=
  ∀ e ∈ classes, ∀ fields ∈ e.2.entries?, ClassReads fields

def IsChecked (d : Value) : Prop :=
  ClassesRead (declaredClasses d)

namespace Check

-- when the check goes through

theorem levelKey?_completes (key : Value) :
    Completes (levelKey? key) ↔ (Text.isDigits key.text = true → Text.IsNumeral key.text) := by
  unfold levelKey?
  by_cases digits : Text.isDigits key.text = true
  · rw [if_pos digits, ← integerOf_digits_iff digits]
    simp only [digits, true_imp_iff]
    exact completes_map
  · simp [digits]

theorem nodeIssues_completes (place : String) {key node : Value} (json : node.IsJson) :
    Completes (nodeIssues place key node) ↔ LevelReads key node := by
  unfold LevelReads nodeIssues
  rw [← levelKey?_completes]
  rcases levelKey? key with cause | _ | level
  · simp
  · simp
  · cases json with
    | @map fields members all =>
      have walks := Value.looped_completes (Value.field_json (.map members all) "choices")
      simp [← walks]
    | _ => simp

theorem nodesIssues_completes (place : String) {es : Entries} (json : ∀ e ∈ es, e.2.IsJson) :
    Completes (nodesIssues place es) ↔ ∀ e ∈ es, LevelReads e.1 e.2 := by
  induction es with
  | nil => simp [nodesIssues]
  | cons e es ih =>
    obtain ⟨key, node⟩ := e
    rw [List.forall_mem_cons] at json ⊢
    rw [← nodeIssues_completes place json.1, ← ih json.2]
    exact completes_bind fun _ => completes_map

theorem classIssues_completes (key : Value) {data : Value} (json : data.IsJson) :
    Completes (classIssues key data) ↔ ∀ fields ∈ data.entries?, ClassReads fields := by
  cases json with
  | @map fields members all =>
    have entries : ∀ e ∈ Value.entriesOrEmpty (Value.field "progression" fields), e.2.IsJson :=
      fun e => (Value.entriesOrEmpty_json (Value.field_json (.map members all) "progression")).of_mem
    have nodes := nodesIssues_completes ("classes." ++ key.text ++ ".progression") entries
    simp only [classIssues, ClassReads, Value.entries?, Option.mem_some_iff, forall_eq', ← nodes]
    split
    · rename_i empty
      simp [empty, nodesIssues]
    · simp
  | _ => simp [classIssues, Value.entries?]

theorem classesIssues_completes {es : Entries} (json : ∀ e ∈ es, e.2.IsJson) :
    Completes (classesIssues es) ↔ ClassesRead es := by
  induction es with
  | nil => simp [classesIssues, ClassesRead]
  | cons e es ih =>
    obtain ⟨key, data⟩ := e
    rw [List.forall_mem_cons] at json
    rw [ClassesRead, List.forall_mem_cons, ← ClassesRead, ← classIssues_completes key json.1, ← ih json.2]
    exact completes_bind fun _ => completes_map

-- what the classes hold is never an error

def Mild (issues : List Issue) : Prop :=
  ∀ i ∈ issues, i.severity = .warning

theorem Mild.nil : Mild [] := by
  simp [Mild]

theorem Mild.append {issues more : List Issue} (first : Mild issues) (second : Mild more) :
    Mild (issues ++ more) := by
  intro i member
  exact (List.mem_append.1 member).elim (first i) (second i)

theorem mild_warning (kind message place : String) : Mild [warning kind message place] := by
  simp [Mild, warning]

theorem Mild.errors {issues : List Issue} (mild : Mild issues) (subject : String) :
    (Report.mk subject issues).errors = [] := by
  rw [Report.errors, Report.ofSeverity, List.filter_eq_nil_iff]
  intro i member
  simp [mild i member]

theorem choiceIssues_mild (place level : String) (i : Nat) (seen : List String) (cs : List Value) :
    Mild (choiceIssues place level i seen cs) := by
  induction cs generalizing i seen with
  | nil => exact .nil
  | cons c cs ih =>
    simp only [choiceIssues]
    split
    · exact (mild_warning _ _ _).append (ih _ _)
    · split
      · exact (mild_warning _ _ _).append (ih _ _)
      · exact ih _ _

theorem nodeIssues_mild {place : String} {key node : Value} {issues : List Issue}
    (found : nodeIssues place key node = .ok issues) : Mild issues := by
  simp only [nodeIssues, bind_eq_ok] at found
  obtain ⟨_ | level, -, found⟩ := found
  · cases found
    exact mild_warning _ _ _
  · cases node with
    | map fields =>
      simp only [bind_eq_ok] at found
      obtain ⟨choices, -, found⟩ := found
      cases found
      exact choiceIssues_mild _ _ _ _ _
    | _ =>
      cases found
      exact .nil

theorem nodesIssues_mild {place : String} {es : Entries} {issues : List Issue}
    (found : nodesIssues place es = .ok issues) : Mild issues := by
  induction es generalizing issues with
  | nil =>
    cases found
    exact .nil
  | cons e es ih =>
    simp only [nodesIssues, bind_eq_ok] at found
    obtain ⟨first, node, rest, nodes, same⟩ := found
    cases same
    exact (nodeIssues_mild node).append (ih nodes)

theorem classIssues_mild {key data : Value} {issues : List Issue}
    (found : classIssues key data = .ok issues) : Mild issues := by
  cases data with
  | map fields =>
    have unnamed (b : Bool) (kind message place : String) :
        Mild (if b then [] else [warning kind message place]) := by
      cases b
      · exact mild_warning _ _ _
      · exact .nil
    simp only [classIssues] at found
    split at found
    · cases found
      exact (unnamed _ _ _ _).append (mild_warning _ _ _)
    · simp only [bind_eq_ok] at found
      obtain ⟨rest, nodes, same⟩ := found
      cases same
      exact (unnamed _ _ _ _).append (nodesIssues_mild nodes)
  | _ =>
    cases found
    exact mild_warning _ _ _

theorem classesIssues_mild {es : Entries} {issues : List Issue}
    (found : classesIssues es = .ok issues) : Mild issues := by
  induction es generalizing issues with
  | nil =>
    cases found
    exact .nil
  | cons e es ih =>
    simp only [classesIssues, bind_eq_ok] at found
    obtain ⟨first, one, rest, others, same⟩ := found
    cases same
    exact (classIssues_mild one).append (ih others)

theorem poolIssues_mild (es : Entries) : Mild (poolIssues es) := by
  simp only [poolIssues]
  split
  · exact .nil
  · exact mild_warning _ _ _

end Check

open Check

theorem errors_append (subject : String) (issues more : List Issue) :
    (Report.mk subject (issues ++ more)).errors =
      (Report.mk subject issues).errors ++ (Report.mk subject more).errors := by
  simp [Report.errors, Report.ofSeverity]

theorem check_completes {d : Value} (json : d.IsJson) : Completes (check d) ↔ IsChecked d := by
  cases json with
  | @map es members all =>
    have classes := Value.field_json (.map members all) "classes"
    have reads : Completes (documentClassIssues (Value.field "classes" es)) ↔
        IsChecked (.map es) := by
      change _ ↔ ClassesRead (Value.entriesOrEmpty (Value.field "classes" es))
      cases given : Value.field "classes" es with
      | map entries => exact classesIssues_completes fun e => (given ▸ classes).of_mem
      | _ => simp [documentClassIssues, Value.entriesOrEmpty, ClassesRead]
    rw [← reads, check]
    simp
  | _ => simp [check, IsChecked, ClassesRead, declaredClasses]

theorem check_valid {d : Value} {report : Report} (checked : check d = .ok report) :
    report.valid = true ↔ IsAccepted d := by
  cases d with
  | map es =>
    simp only [check, bind_eq_ok] at checked
    obtain ⟨issues, classes, same⟩ := checked
    cases same
    have head (subject : String) (fields : Entries) :
        (Report.mk subject (metaIssues fields)).errors = [] ↔
          (Value.field "id" fields).isTruthy = true := by
      unfold metaIssues
      split <;> split <;> simp_all [Report.errors, Report.ofSeverity, error, warning]
    have body (subject : String) : (Report.mk subject issues).errors = [] ↔
        (Value.field "classes" es).isMap = true := by
      cases given : Value.field "classes" es with
      | map entries =>
        rw [given, documentClassIssues] at classes
        simp [(classesIssues_mild classes).errors, Value.isMap]
      | _ =>
        rw [given] at classes
        cases classes
        simp [Report.errors, Report.ofSeverity, error, Value.isMap]
    rw [Report.valid, List.isEmpty_iff, errors_append, errors_append, (poolIssues_mild es).errors,
      List.append_nil, List.append_eq_nil_iff, head, body, IsAccepted]
  | _ =>
    cases checked
    simp [Report.valid, Report.errors, Report.ofSeverity, error, IsAccepted]

end Ruleset

end Tabletop
