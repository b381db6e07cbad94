import Mathlib.Data.List.Nodup
import Tabletop.Proofs.CharacterRecord
import Tabletop.Store

set_option autoImplicit false

namespace Tabletop

namespace Value

/-- Equal up to the order of the members of maps. -/
inductive Alike : Value → Value → Prop where
  | same (v : Value) : Alike v v
  | list {xs ys : List Value} (length : xs.length = ys.length)
      (each : ∀ e ∈ xs.zip ys, Alike e.1 e.2) : Alike (.list xs) (.list ys)
  | map {es fs : List (Value × Value)} (names : ∀ k, k ∈ es.map (·.1) ↔ k ∈ fs.map (·.1))
      (each : ∀ k v w, (k, v) ∈ es → (k, w) ∈ fs → Alike v w) : Alike (.map es) (.map fs)

end Value

namespace Json

open Tabletop.Value (Members Alike IsJson)

-- the order of distinct members does not show in their sorted form

theorem mergeSort_ascending (es : List (Value × Value)) :
    (es.mergeSort fun a b => decide (textOf a.1 ≤ textOf b.1)).Pairwise
      fun a b => textOf a.1 ≤ textOf b.1 := by
  refine (List.pairwise_mergeSort ?_ ?_ es).imp of_decide_eq_true
  · intro a b c first second
    exact decide_eq_true (String.le_trans (of_decide_eq_true first) (of_decide_eq_true second))
  · intro a b
    simpa using String.le_total (textOf a.1) (textOf b.1)

theorem sortMembers_of_perm {es fs : List (Value × Value)} (members : Members es)
    (perm : es.Perm fs) : sortMembers es = sortMembers fs := by
  have text : ∀ f ∈ fs, ∃ name, f.1 = .str name := fun f member =>
    members.text f (perm.mem_iff.2 member)
  unfold sortMembers
  rw [perm.length_eq, allText_of_text members.text, allText_of_text text]
  by_cases few : fs.length ≤ 1
  · rw [if_pos few, if_pos few]
    match fs, few with
    | [], _ => rw [perm.eq_nil]
    | [f], _ => rw [List.perm_singleton.1 perm]
  · rw [if_neg few, if_neg few, if_pos rfl, if_pos rfl]
    refine congrArg Except.ok (List.Perm.eq_of_pairwise ?_ (mergeSort_ascending es)
      (mergeSort_ascending fs) ((List.mergeSort_perm es _).trans
        (perm.trans (List.mergeSort_perm fs _).symm)))
    rintro ⟨k, v⟩ ⟨l, w⟩ here there below above
    rw [List.mem_mergeSort] at here there
    have there := perm.mem_iff.2 there
    obtain ⟨name, rfl⟩ := members.text _ here
    obtain ⟨other, rfl⟩ := members.text _ there
    obtain rfl : name = other := String.le_antisymm below above
    rw [members.unique here there]

theorem sortedEntries_names {es fs : List (Value × Value)} (sorts : sortedEntries es = .ok fs) :
    fs.map (·.1) = es.map (·.1) := by
  induction es generalizing fs with
  | nil =>
    cases sorts
    rfl
  | cons e es ih =>
    obtain ⟨k, v⟩ := e
    rw [sortedEntries] at sorts
    cases first : sorted v with
    | error cause => simp [first, bind, Except.bind] at sorts
    | ok w =>
      cases rest : sortedEntries es with
      | error cause => simp [first, rest, bind, Except.bind] at sorts
      | ok gs =>
        simp only [first, rest, bind, Except.bind, pure, Except.pure, Except.ok.injEq] at sorts
        simp [← sorts, ih rest]

theorem sorted_of_perm {es fs es' fs' : List (Value × Value)} (members : Members es)
    (members' : Members fs) (sorts : sortedEntries es = .ok es') (sorts' : sortedEntries fs = .ok fs')
    (mem : ∀ e, e ∈ es' ↔ e ∈ fs') : sorted (.map es) = sorted (.map fs) := by
  have names := sortedEntries_names sorts
  have distinct : es'.Nodup := .of_map _ (names ▸ members.distinct)
  have distinct' : fs'.Nodup := .of_map _ (sortedEntries_names sorts' ▸ members'.distinct)
  have perm : es'.Perm fs' := (List.perm_ext_iff_of_nodup distinct distinct').2 mem
  have sortable : Members es' := by
    refine ⟨fun e member => ?_, names ▸ members.distinct⟩
    have key : e.1 ∈ es.map (·.1) := names ▸ List.mem_map_of_mem member
    obtain ⟨f, old, same⟩ := List.mem_map.1 key
    exact same ▸ members.text f old
  simp only [sorted, sorts, sorts', bind, Except.bind, sortMembers_of_perm sortable perm]

theorem sortedAll_congr {xs ys : List Value} (length : xs.length = ys.length)
    (each : ∀ e ∈ xs.zip ys, sorted e.1 = sorted e.2) : sortedAll xs = sortedAll ys := by
  induction xs generalizing ys with
  | nil => rw [List.length_eq_zero_iff.1 length.symm]
  | cons x xs ih =>
    cases ys with
    | nil => simp at length
    | cons y ys =>
      simp only [List.zip_cons_cons, List.forall_mem_cons] at each
      rw [sortedAll, sortedAll, each.1, ih (Nat.succ.inj length) each.2]

theorem sortedAll_inj {xs ys : List Value} (all : ∀ x ∈ xs, Proper x) (all' : ∀ y ∈ ys, Proper y)
    (same : sortedAll xs = sortedAll ys) :
    xs.length = ys.length ∧ ∀ e ∈ xs.zip ys, sorted e.1 = sorted e.2 := by
  induction xs generalizing ys with
  | nil =>
    cases ys with
    | nil => simp
    | cons y ys =>
      obtain ⟨zs, sorts, -⟩ := sortedAll_proper all'
      rw [sorts, sortedAll, Except.ok.injEq] at same
      simp only [sortedAll, ← same, bind, Except.bind] at sorts
      split at sorts
      · cases sorts
      · split at sorts <;> cases sorts
  | cons x xs ih =>
    rw [List.forall_mem_cons] at all
    obtain ⟨v, first, -⟩ := all.1.sorts
    obtain ⟨vs, rest, -⟩ := sortedAll_proper all.2
    cases ys with
    | nil => simp [sortedAll, first, rest, bind, Except.bind, pure, Except.pure] at same
    | cons y ys =>
      rw [List.forall_mem_cons] at all'
      obtain ⟨w, first', -⟩ := all'.1.sorts
      obtain ⟨ws, rest', -⟩ := sortedAll_proper all'.2
      simp only [sortedAll, first, rest, first', rest', bind, Except.bind, pure, Except.pure,
        Except.ok.injEq, List.cons.injEq] at same
      obtain ⟨length, each⟩ := ih all.2 all'.2 (by rw [rest, rest', same.2])
      refine ⟨congrArg (· + 1) length, ?_⟩
      rw [List.zip_cons_cons, List.forall_mem_cons]
      exact ⟨by rw [first, first', same.1], each⟩

theorem sorted_of_alike {v w : Value} (alike : Alike v w) (json : v.IsJson) (json' : w.IsJson) :
    sorted v = sorted w := by
  induction alike with
  | same v => rfl
  | list length each ih =>
    cases json with | list all => ?_
    cases json' with | list all' => ?_
    have same := sortedAll_congr length fun e member =>
      ih e member (all _ (List.of_mem_zip member).1) (all' _ (List.of_mem_zip member).2)
    rw [sorted, sorted, same]
  | @map es fs names each ih =>
    obtain ⟨es', sorts, mem, -⟩ := sortedEntries_proper fun e member => (json.of_mem member).proper
    obtain ⟨fs', sorts', mem', -⟩ := sortedEntries_proper fun f member => (json'.of_mem member).proper
    refine sorted_of_perm json.members json'.members sorts sorts' fun g => ?_
    obtain ⟨k, x⟩ := g
    rw [mem, mem']
    constructor
    · rintro ⟨v, here, value⟩
      obtain ⟨⟨_, w⟩, there, rfl⟩ := List.mem_map.1 ((names k).1 (List.mem_map_of_mem here))
      exact ⟨w, there, ih _ v w here there (json.of_mem here) (json'.of_mem there) ▸ value⟩
    · rintro ⟨w, there, value⟩
      obtain ⟨⟨_, v⟩, here, rfl⟩ := List.mem_map.1 ((names k).2 (List.mem_map_of_mem there))
      exact ⟨v, here, (ih _ v w here there (json.of_mem here) (json'.of_mem there)).trans value⟩

-- a list sorts to a list and a map to a map, and the rest is its own sorted form
theorem sorted_shape {v : Value} (json : v.IsJson) :
    (∃ xs ys, v = .list xs ∧ sorted v = .ok (.list ys)) ∨
      (∃ es fs, v = .map es ∧ sorted v = .ok (.map fs)) ∨
      sorted v = .ok v ∧ (∀ xs, v ≠ .list xs) ∧ ∀ es, v ≠ .map es := by
  cases json with
  | null | bool | int | float | str => exact .inr (.inr ⟨rfl, nofun, nofun⟩)
  | @list xs all =>
    obtain ⟨ys, sorts, -⟩ := sortedAll_proper fun x member => (all x member).proper
    exact .inl ⟨xs, ys, rfl, by rw [sorted, sorts]; rfl⟩
  | @map es members all =>
    obtain ⟨fs, sorts, -⟩ := sorted_map members.text fun e member => (all e member).proper
    exact .inr (.inl ⟨es, fs, rfl, sorts⟩)

-- sorting keeps the names
theorem mem_names_sorted {es gs : List (Value × Value)} (all : ∀ e ∈ es, Proper e.2)
    (mem : ∀ g, g ∈ gs ↔ ∃ v, (g.1, v) ∈ es ∧ sorted v = .ok g.2) (k : Value) :
    k ∈ gs.map (·.1) ↔ k ∈ es.map (·.1) := by
  simp only [List.mem_map]
  constructor
  · rintro ⟨g, member, rfl⟩
    obtain ⟨v, old, -⟩ := (mem g).1 member
    exact ⟨_, old, rfl⟩
  · rintro ⟨e, member, rfl⟩
    obtain ⟨x, sorts, -⟩ := (all e member).sorts
    exact ⟨(e.1, x), (mem _).2 ⟨e.2, member, sorts⟩, rfl⟩

-- two maps that sort to the same members
theorem alike_of_members {es fs gs : List (Value × Value)} (all : ∀ e ∈ es, Proper e.2)
    (all' : ∀ f ∈ fs, Proper f.2) (members : Members fs)
    (mem : ∀ g, g ∈ gs ↔ ∃ v, (g.1, v) ∈ es ∧ sorted v = .ok g.2)
    (mem' : ∀ g, g ∈ gs ↔ ∃ w, (g.1, w) ∈ fs ∧ sorted w = .ok g.2)
    (each : ∀ k v w, (k, v) ∈ es → (k, w) ∈ fs → sorted v = sorted w → Alike v w) :
    Alike (.map es) (.map fs) := by
  refine .map (fun k => ?_) fun k v w here there => ?_
  · rw [← mem_names_sorted all mem, mem_names_sorted all' mem']
  · obtain ⟨x, value, -⟩ := (all _ here).sorts
    obtain ⟨w', there', value'⟩ := (mem' (k, x)).1 ((mem (k, x)).2 ⟨v, here, value⟩)
    obtain rfl := members.unique there there'
    exact each k v w here there (value.trans value'.symm)

theorem eq_of_sorted_flat {v w : Value} (json : w.IsJson) (same : sorted v = sorted w)
    (flat : sorted v = .ok v) (noList : ∀ xs, v ≠ .list xs) (noMap : ∀ es, v ≠ .map es) : v = w := by
  rw [flat] at same
  rcases sorted_shape json with ⟨xs, ys, -, sorts⟩ | ⟨es, fs, -, sorts⟩ | ⟨sorts, -, -⟩
  · rw [sorts, Except.ok.injEq] at same
    exact absurd same (noList ys)
  · rw [sorts, Except.ok.injEq] at same
    exact absurd same (noMap fs)
  · rw [sorts, Except.ok.injEq] at same
    exact same

theorem alike_of_sorted {v w : Value} (json : v.IsJson) (json' : w.IsJson)
    (same : sorted v = sorted w) : Alike v w := by
  induction json generalizing w with
  | null | bool | int | float | str =>
    cases eq_of_sorted_flat json' same rfl nofun nofun
    exact .same _
  | @list xs all ih =>
    obtain ⟨vs, rest, -⟩ := sortedAll_proper fun x member => (all x member).proper
    have sorts : sorted (.list xs) = .ok (.list vs) := by
      rw [sorted, rest]
      rfl
    rw [sorts] at same
    cases json' with
    | null | bool | int | float | str => cases same
    | @list ys all' =>
      obtain ⟨ws, rest', -⟩ := sortedAll_proper fun y member => (all' y member).proper
      have whole : vs = ws := by
        simpa [sorted, rest', bind, Except.bind, pure, Except.pure] using same
      obtain ⟨length, each⟩ := sortedAll_inj (fun x member => (all x member).proper)
        (fun y member => (all' y member).proper) (by rw [rest, rest', whole])
      refine .list length fun e member => ?_
      obtain ⟨here, there⟩ := List.of_mem_zip member
      exact ih _ here (all' _ there) (each e member)
    | @map fs members' all' =>
      obtain ⟨gs, sorts', -⟩ := sorted_map members'.text fun e member => (all' e member).proper
      rw [sorts'] at same
      cases same
  | @map es members all ih =>
    obtain ⟨gs, sorts, -, mem⟩ := sorted_map members.text fun e member => (all e member).proper
    rw [sorts] at same
    cases json' with
    | null | bool | int | float | str => cases same
    | @list ys all' =>
      obtain ⟨ws, rest', -⟩ := sortedAll_proper fun y member => (all' y member).proper
      simp [sorted, rest', bind, Except.bind, pure, Except.pure] at same
    | @map fs members' all' =>
      obtain ⟨hs, sorts', -, mem'⟩ := sorted_map members'.text fun e member => (all' e member).proper
      rw [sorts', Except.ok.injEq, Value.map.injEq] at same
      subst same
      refine alike_of_members (fun e member => (all e member).proper)
        (fun f member => (all' f member).proper) members' mem mem' fun k v w here there value => ?_
      exact ih _ here (all' _ there) value

theorem sorted_eq_iff {v w : Value} (json : v.IsJson) (json' : w.IsJson) :
    sorted v = sorted w ↔ Alike v w :=
  ⟨alike_of_sorted json json', fun alike => sorted_of_alike alike json json'⟩

end Json

namespace Record

open Tabletop.Value (Alike IsJson)

theorem fingerprintOf_json {v : Value} (json : v.IsJson) : fingerprintOf v = Json.sorted v := by
  obtain ⟨w, sorts, plain⟩ := json.proper.sorts
  rw [fingerprintOf, sorts]
  exact plain

theorem fingerprint_eq_iff {v w : Value} (json : v.IsJson) (json' : w.IsJson) :
    fingerprintOf v = fingerprintOf w ↔ Alike v w := by
  rw [fingerprintOf_json json, fingerprintOf_json json', Json.sorted_eq_iff json json']

end Record

end Tabletop
