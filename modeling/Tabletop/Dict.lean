set_option autoImplicit false

namespace Tabletop

-- one entry for each key, in the order of first writing
structure Dict (κ α : Type) where
  entries : List (κ × α)
  distinct : (entries.map (·.1)).Nodup
deriving Repr

namespace Dict

variable {κ α β : Type}

instance [DecidableEq κ] [DecidableEq α] : DecidableEq (Dict κ α) := fun a b =>
  if h : a.entries = b.entries then
    .isTrue (by cases a; cases b; simp_all)
  else .isFalse (fun e => h (by rw [e]))

@[ext] theorem ext {a b : Dict κ α} (h : a.entries = b.entries) : a = b := by
  cases a; cases b; simp_all

theorem nodup_filter {es : List (κ × α)} (p : κ × α → Bool) (h : (es.map (·.1)).Nodup) :
    ((es.filter p).map (·.1)).Nodup :=
  h.sublist (List.filter_sublist.map _)

def empty : Dict κ α :=
  ⟨[], List.nodup_nil⟩

instance : Inhabited (Dict κ α) := ⟨empty⟩

def keys (d : Dict κ α) : List κ :=
  d.entries.map (·.1)

def isEmpty (d : Dict κ α) : Bool :=
  d.entries.isEmpty

variable [DecidableEq κ]

def find? (key : κ) : List (κ × α) → Option α
  | [] => none
  | (k, v) :: es => if k = key then some v else find? key es

def get? (d : Dict κ α) (key : κ) : Option α :=
  find? key d.entries

def contains (d : Dict κ α) (key : κ) : Bool :=
  (d.get? key).isSome

def put (key : κ) (value : α) : List (κ × α) → List (κ × α)
  | [] => [(key, value)]
  | (k, v) :: es => if k = key then (k, value) :: es else (k, v) :: put key value es

theorem mem_keys_put {key k : κ} {value : α} {es : List (κ × α)} :
    k ∈ (put key value es).map (·.1) ↔ k = key ∨ k ∈ es.map (·.1) := by
  induction es with
  | nil => simp [put]
  | cons e es ih =>
    obtain ⟨l, v⟩ := e
    by_cases h : l = key
    · simp_all [put]
    · simp_all [put]; grind

theorem nodup_put {key : κ} {value : α} {es : List (κ × α)} (h : (es.map (·.1)).Nodup) :
    ((put key value es).map (·.1)).Nodup := by
  induction es with
  | nil => simp [put]
  | cons e es ih =>
    obtain ⟨l, v⟩ := e
    simp only [List.map_cons, List.nodup_cons] at h
    by_cases hl : l = key
    · simpa [put, hl] using ⟨by simpa [hl] using h.1, h.2⟩
    · simp only [put, hl, if_false, List.map_cons, List.nodup_cons]
      refine ⟨?_, ih h.2⟩
      rw [mem_keys_put]
      rintro (rfl | hm)
      · exact hl rfl
      · exact h.1 hm

def insert (d : Dict κ α) (key : κ) (value : α) : Dict κ α :=
  ⟨put key value d.entries, nodup_put d.distinct⟩

def filter (d : Dict κ α) (p : κ × α → Bool) : Dict κ α :=
  ⟨d.entries.filter p, nodup_filter p d.distinct⟩

def erase (d : Dict κ α) (key : κ) : Dict κ α :=
  d.filter fun e => e.1 ≠ key

-- later entries win, at the place of the first
def ofList (es : List (κ × α)) : Dict κ α :=
  es.foldl (fun d e => d.insert e.1 e.2) empty

theorem find?_put {key k : κ} {value : α} {es : List (κ × α)} :
    find? k (put key value es) = if k = key then some value else find? k es := by
  induction es with
  | nil => by_cases h : k = key <;> simp_all [put, find?, eq_comm]
  | cons e es ih =>
    obtain ⟨l, v⟩ := e
    by_cases hl : l = key
    · subst hl
      by_cases hk : k = l <;> simp_all [put, find?, eq_comm]
    · by_cases hk : l = k
      · subst hk
        simp [put, hl, find?]
      · simp [put, hl, find?, hk, ih]

@[simp] theorem get?_insert (d : Dict κ α) (key k : κ) (value : α) :
    (d.insert key value).get? k = if k = key then some value else d.get? k :=
  find?_put

theorem find?_filter_ne {key k : κ} {es : List (κ × α)} :
    find? k (es.filter fun e => e.1 ≠ key) = if k = key then none else find? k es := by
  induction es with
  | nil => simp [find?]
  | cons e es ih =>
    obtain ⟨l, v⟩ := e
    by_cases hl : l = key <;> by_cases hk : l = k <;> simp_all [find?]

@[simp] theorem get?_erase (d : Dict κ α) (key k : κ) :
    (d.erase key).get? k = if k = key then none else d.get? k :=
  find?_filter_ne

end Dict

end Tabletop
