import Tabletop.Dict

set_option autoImplicit false

namespace Tabletop.Dict

variable {κ α β : Type} [DecidableEq κ]

@[simp] theorem get?_empty (key : κ) : (empty : Dict κ α).get? key = none := rfl

theorem find?_of_mem {key : κ} {value : α} {es : List (κ × α)} (distinct : (es.map (·.1)).Nodup)
    (member : (key, value) ∈ es) : find? key es = some value := by
  induction es with
  | nil => simp at member
  | cons e es ih =>
    obtain ⟨k, v⟩ := e
    simp only [List.map_cons, List.nodup_cons] at distinct
    rcases List.mem_cons.1 member with here | later
    · cases here
      simp [find?]
    · have apart : k ≠ key := by
        rintro rfl
        exact distinct.1 (List.mem_map_of_mem (f := (·.1)) later)
      simp [find?, apart, ih distinct.2 later]

theorem mem_of_find? {key : κ} {value : α} {es : List (κ × α)} (found : find? key es = some value) :
    (key, value) ∈ es := by
  induction es with
  | nil => contradiction
  | cons e es ih =>
    obtain ⟨k, w⟩ := e
    unfold find? at found
    split at found
    · rename_i same
      simp_all
    · exact List.mem_cons_of_mem _ (ih found)

theorem mem_of_get? {d : Dict κ α} {key : κ} {value : α} (found : d.get? key = some value) :
    (key, value) ∈ d.entries :=
  mem_of_find? found

theorem get?_eq_some_iff {d : Dict κ α} {key : κ} {value : α} :
    d.get? key = some value ↔ (key, value) ∈ d.entries :=
  ⟨mem_of_get?, find?_of_mem d.distinct⟩

theorem isEmpty_eq_false_iff {d : Dict κ α} : d.isEmpty = false ↔ ∃ key value, d.get? key = some value := by
  simp only [get?_eq_some_iff]
  rw [isEmpty, List.isEmpty_eq_false_iff_exists_mem, Prod.exists]

theorem find?_eq_none_iff {key : κ} {es : List (κ × α)} :
    find? key es = none ↔ key ∉ es.map (·.1) := by
  induction es with
  | nil => simp [find?]
  | cons e es ih =>
    obtain ⟨k, v⟩ := e
    by_cases here : k = key
    · simp [find?, here]
    · simp [find?, here, ih, Ne.symm here]

theorem get?_eq_none_iff {d : Dict κ α} {key : κ} : d.get? key = none ↔ key ∉ d.keys :=
  find?_eq_none_iff

theorem contains_iff {d : Dict κ α} {key : κ} : d.contains key = true ↔ key ∈ d.keys := by
  rw [contains, Option.isSome_iff_ne_none, Ne, get?_eq_none_iff, Decidable.not_not]

theorem erase_of_absent {d : Dict κ α} {key : κ} (absent : d.get? key = none) : d.erase key = d := by
  refine ext (List.filter_eq_self.2 fun e member => ?_)
  rw [decide_eq_true_eq]
  rintro rfl
  exact get?_eq_none_iff.1 absent (List.mem_map_of_mem member)

theorem put_of_not_mem {key : κ} {value : α} {es : List (κ × α)} (new : key ∉ es.map (·.1)) :
    put key value es = es ++ [(key, value)] := by
  induction es with
  | nil => rfl
  | cons e es ih =>
    obtain ⟨k, v⟩ := e
    simp only [List.map_cons, List.mem_cons, not_or] at new
    simp [put, Ne.symm new.1, ih new.2]

theorem entries_insert_of_new {d : Dict κ α} {key : κ} (value : α) (new : d.get? key = none) :
    (d.insert key value).entries = d.entries ++ [(key, value)] :=
  put_of_not_mem (get?_eq_none_iff.1 new)

@[simp] theorem erase_erase (d : Dict κ α) (key : κ) : (d.erase key).erase key = d.erase key :=
  ext (by simp [erase, filter])

theorem filter_put (key : κ) (value : α) (es : List (κ × α)) :
    ((put key value es).filter fun e => e.1 ≠ key) = es.filter fun e => e.1 ≠ key := by
  induction es with
  | nil => simp [put]
  | cons e es ih =>
    obtain ⟨k, v⟩ := e
    by_cases here : k = key
    · simp [put, here]
    · simpa [put, here] using ih

@[simp] theorem erase_insert (d : Dict κ α) (key : κ) (value : α) :
    (d.insert key value).erase key = d.erase key :=
  ext (filter_put key value d.entries)

@[simp] theorem isEmpty_insert (d : Dict κ α) (key : κ) (value : α) :
    (d.insert key value).isEmpty = false := by
  cases h : d.entries with
  | nil => simp [isEmpty, insert, h, put]
  | cons e es =>
    simp only [isEmpty, insert, h, put]
    split <;> rfl

theorem isEmpty_foldl_insert (es : List (κ × α)) {d : Dict κ α} (filled : d.isEmpty = false) :
    (es.foldl (fun d e => d.insert e.1 e.2) d).isEmpty = false := by
  induction es generalizing d with
  | nil => exact filled
  | cons e es ih => exact ih (isEmpty_insert d e.1 e.2)

@[simp] theorem isEmpty_ofList (es : List (κ × α)) : (ofList es).isEmpty = es.isEmpty := by
  cases es with
  | nil => rfl
  | cons e es => simpa [ofList] using isEmpty_foldl_insert es (isEmpty_insert empty e.1 e.2)

theorem entries_foldl_insert (es : List (κ × α)) (d : Dict κ α)
    (distinct : ((d.entries ++ es).map (·.1)).Nodup) :
    (es.foldl (fun d e => d.insert e.1 e.2) d).entries = d.entries ++ es := by
  induction es generalizing d with
  | nil => simp
  | cons e es ih =>
    have new : d.get? e.1 = none := by
      rw [get?_eq_none_iff]
      intro old
      rw [List.map_append, List.map_cons] at distinct
      exact (List.nodup_append.1 distinct).2.2 _ old _ (List.mem_cons_self ..) rfl
    rw [List.foldl_cons, ih, entries_insert_of_new _ new, List.append_assoc, List.singleton_append]
    rwa [entries_insert_of_new _ new, List.append_assoc, List.singleton_append]

theorem entries_ofList {es : List (κ × α)} (distinct : (es.map (·.1)).Nodup) :
    (ofList es).entries = es := by
  simpa [ofList, empty] using entries_foldl_insert es empty (by simpa [empty] using distinct)

theorem get?_ofList_iff {es : List (κ × α)} (distinct : (es.map (·.1)).Nodup) {key : κ} {value : α} :
    (ofList es).get? key = some value ↔ (key, value) ∈ es := by
  rw [get?_eq_some_iff, entries_ofList distinct]

theorem ofList_entries (d : Dict κ α) : ofList d.entries = d :=
  ext (entries_ofList d.distinct)

theorem keys_insert (d : Dict κ α) (key : κ) (value : α) :
    (d.insert key value).keys = if key ∈ d.keys then d.keys else d.keys ++ [key] := by
  have keys (es : List (κ × α)) : (put key value es).map (·.1) =
      if key ∈ es.map (·.1) then es.map (·.1) else es.map (·.1) ++ [key] := by
    induction es with
    | nil => simp [put]
    | cons e es ih =>
      obtain ⟨k, v⟩ := e
      by_cases here : k = key
      · simp [put, here]
      · simp only [put, here, if_false, List.map_cons, ih, List.mem_cons, Ne.symm here, false_or]
        split <;> rfl
  exact keys d.entries

theorem put_at {key : κ} {old value : α} {before after : List (κ × α)}
    (new : key ∉ before.map (·.1)) :
    put key value (before ++ (key, old) :: after) = before ++ (key, value) :: after := by
  induction before with
  | nil => simp [put]
  | cons e before ih =>
    obtain ⟨k, v⟩ := e
    simp only [List.map_cons, List.mem_cons, not_or] at new
    simp [put, Ne.symm new.1, ih new.2]

theorem entries_foldl_replace (es olds before : List (κ × α)) (d : Dict κ α)
    (held : d.entries = before ++ olds) (same : olds.map (·.1) = es.map (·.1)) :
    (es.foldl (fun d e => d.insert e.1 e.2) d).entries = before ++ es := by
  induction es generalizing olds before d with
  | nil =>
    have none : olds = [] := by simpa using same
    simpa [none] using held
  | cons e es ih =>
    cases olds with
    | nil => simp at same
    | cons old olds =>
      obtain ⟨k, v⟩ := old
      simp only [List.map_cons, List.cons.injEq] at same
      obtain ⟨rfl, rest⟩ := same
      have new : e.1 ∉ before.map (·.1) := by
        have distinct := d.distinct
        rw [held, List.map_append, List.map_cons] at distinct
        exact fun member => (List.nodup_append.1 distinct).2.2 _ member _ (List.mem_cons_self ..) rfl
      have written : (d.insert e.1 e.2).entries = before ++ [e] ++ olds := by
        change put e.1 e.2 d.entries = _
        rw [held, put_at new]
        simp
      rw [List.foldl_cons, ih olds (before ++ [e]) _ written rest]
      simp

theorem mem_put {key : κ} {value : α} {es : List (κ × α)} {e : κ × α}
    (member : e ∈ put key value es) : e = (key, value) ∨ e ∈ es := by
  induction es with
  | nil => simpa [put] using member
  | cons f es ih =>
    obtain ⟨k, v⟩ := f
    unfold put at member
    split at member
    · rename_i same
      rcases List.mem_cons.1 member with rfl | rest
      · exact .inl (by rw [same])
      · exact .inr (List.mem_cons_of_mem _ rest)
    · rcases List.mem_cons.1 member with rfl | rest
      · exact .inr (List.mem_cons_self ..)
      · exact (ih rest).imp_right (List.mem_cons_of_mem _)

-- what holds of the first entries and of every entry written holds of all
theorem forall_insert {p : κ × α → Prop} {d : Dict κ α} {key : κ} {value : α}
    (all : ∀ e ∈ d.entries, p e) (new : p (key, value)) : ∀ e ∈ (d.insert key value).entries, p e := by
  intro e member
  rcases mem_put member with rfl | old
  · exact new
  · exact all e old

-- the same for what is found under a key
theorem forall_get?_insert {p : κ → α → Prop} {d : Dict κ α} {key : κ} {value : α}
    (old : ∀ k v, k ≠ key → d.get? k = some v → p k v) (new : p key value) :
    ∀ k v, (d.insert key value).get? k = some v → p k v := by
  intro k v found
  rw [get?_insert] at found
  split at found
  · rename_i same
    cases found
    exact same ▸ new
  · rename_i apart
    exact old k v apart found

theorem mem_of_mem_ofList {es : List (κ × α)} {e : κ × α} (member : e ∈ (ofList es).entries) :
    e ∈ es := by
  have all (more : List (κ × α)) (d : Dict κ α) (old : ∀ e ∈ d.entries, e ∈ es)
      (new : ∀ e ∈ more, e ∈ es) :
      ∀ e ∈ (more.foldl (fun d e => d.insert e.1 e.2) d).entries, e ∈ es := by
    induction more generalizing d with
    | nil => exact old
    | cons e more ih =>
      rw [List.forall_mem_cons] at new
      exact ih _ (forall_insert old new.1) new.2
  exact all es empty (by simp [empty]) (fun e member => member) e member

variable {f : α → β}

theorem put_mapped (key : κ) (value : α) (es : List (κ × α)) :
    (put key value es).map (fun e => (e.1, f e.2)) =
      put key (f value) (es.map fun e => (e.1, f e.2)) := by
  induction es with
  | nil => rfl
  | cons e es ih =>
    obtain ⟨k, v⟩ := e
    by_cases here : k = key
    · simp [put, here]
    · simp [put, here, ih]

def mapValues (f : α → β) (d : Dict κ α) : Dict κ β :=
  ⟨d.entries.map fun e => (e.1, f e.2), by simpa [Function.comp_def] using d.distinct⟩

omit [DecidableEq κ] in
@[simp] theorem mapValues_empty : (empty : Dict κ α).mapValues f = empty := rfl

@[simp] theorem get?_mapValues (d : Dict κ α) (key : κ) :
    (d.mapValues f).get? key = (d.get? key).map f := by
  have found (es : List (κ × α)) :
      find? key (es.map fun e => (e.1, f e.2)) = (find? key es).map f := by
    induction es with
    | nil => rfl
    | cons e es ih =>
      simp only [List.map_cons, find?, ih]
      split <;> rfl
  exact found d.entries

@[simp] theorem mapValues_insert (d : Dict κ α) (key : κ) (value : α) :
    (d.insert key value).mapValues f = (d.mapValues f).insert key (f value) :=
  ext (put_mapped key value d.entries)

end Tabletop.Dict
