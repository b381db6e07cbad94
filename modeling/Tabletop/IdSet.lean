set_option autoImplicit false

namespace Tabletop

structure IdSet where
  ids : List String
  ascending : ids.Pairwise (· < ·)
deriving Repr

namespace IdSet

instance : DecidableEq IdSet := fun a b =>
  if h : a.ids = b.ids then .isTrue (by cases a; cases b; simp_all)
  else .isFalse (fun e => h (by rw [e]))

def empty : IdSet :=
  ⟨[], .nil⟩

instance : Inhabited IdSet := ⟨empty⟩

def isEmpty (s : IdSet) : Bool :=
  s.ids.isEmpty

def contains (s : IdSet) (id : String) : Bool :=
  s.ids.contains id

def place (id : String) : List String → List String
  | [] => [id]
  | x :: xs =>
    if id < x then id :: x :: xs
    else if id = x then x :: xs
    else x :: place id xs

theorem mem_place {id x : String} {xs : List String} :
    x ∈ place id xs ↔ x = id ∨ x ∈ xs := by
  induction xs with
  | nil => simp [place]
  | cons y ys ih =>
    simp only [place]
    split
    · simp
    · split
      · simp_all
      · simp_all; grind

theorem place_ascending {id : String} {xs : List String} (h : xs.Pairwise (· < ·)) :
    (place id xs).Pairwise (· < ·) := by
  induction xs with
  | nil => simp [place]
  | cons y ys ih =>
    rw [List.pairwise_cons] at h
    simp only [place]
    split
    · rename_i hlt
      refine List.pairwise_cons.2 ⟨?_, List.pairwise_cons.2 h⟩
      intro z hz
      rcases List.mem_cons.1 hz with rfl | hz
      · exact hlt
      · exact Std.lt_trans hlt (h.1 z hz)
    · split
      · exact List.pairwise_cons.2 h
      · rename_i hnlt hne
        refine List.pairwise_cons.2 ⟨?_, ih h.2⟩
        intro z hz
        rcases mem_place.1 hz with rfl | hz
        · rcases Std.lt_trichotomy y z with hl | he | hg
          · exact hl
          · exact absurd he.symm hne
          · exact absurd hg hnlt
        · exact h.1 z hz

def insert (s : IdSet) (id : String) : IdSet :=
  ⟨place id s.ids, place_ascending s.ascending⟩

def union (s : IdSet) (ids : List String) : IdSet :=
  ids.foldl insert s

def ofList (ids : List String) : IdSet :=
  empty.union ids

def without (s : IdSet) (ids : List String) : IdSet :=
  ⟨s.ids.filter fun id => !ids.contains id, s.ascending.sublist List.filter_sublist⟩

instance : Membership String IdSet where
  mem s id := id ∈ s.ids

theorem mem_def {s : IdSet} {id : String} : id ∈ s ↔ id ∈ s.ids := Iff.rfl

@[simp] theorem mem_insert {s : IdSet} {id x : String} : x ∈ s.insert id ↔ x = id ∨ x ∈ s :=
  mem_place

@[simp] theorem mem_union {s : IdSet} {ids : List String} {x : String} :
    x ∈ s.union ids ↔ x ∈ ids ∨ x ∈ s := by
  induction ids generalizing s with
  | nil => simp [union]
  | cons y ys ih =>
    have := @ih (s.insert y)
    simp only [union, List.foldl_cons] at this ⊢
    rw [this, mem_insert]
    simp only [List.mem_cons]
    grind

@[simp] theorem mem_without {s : IdSet} {ids : List String} {x : String} :
    x ∈ s.without ids ↔ x ∈ s ∧ x ∉ ids := by
  simp [mem_def, without]

end IdSet

end Tabletop
