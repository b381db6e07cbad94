import Tabletop.Json.Writer

set_option autoImplicit false

namespace Tabletop

namespace Value

structure Members (es : List (Value × Value)) : Prop where
  text : ∀ e ∈ es, ∃ name, e.1 = .str name
  distinct : (es.map (·.1)).Nodup

theorem Members.of_names {es : List (Value × Value)} (names : List String)
    (named : es.map (·.1) = names.map .str) (distinct : names.Nodup) : Members es where
  text e member := by
    have key : e.1 ∈ es.map (·.1) := List.mem_map_of_mem member
    rw [named, List.mem_map] at key
    obtain ⟨name, -, same⟩ := key
    exact ⟨name, same.symm⟩
  distinct := by
    rw [named]
    exact List.pairwise_map.2 (distinct.imp fun apart same => apart (Value.str.inj same))

theorem sameKey_str (s t : String) : sameKey (.str s) (.str t) = (s == t) := by
  simp [sameKey, ratio?, same]

theorem sameKey_name (k : Value) (name : String) : sameKey k (.str name) = isKey name k := by
  rcases k with _ | b | i | (_ | _ | _) | s | bs | d | m | xs | xs | xs | es <;>
    simp [sameKey, ratio?, Double.toRatio?, same, isKey]

theorem field?_setField {es : List (Value × Value)} {name other : String} {v : Value} :
    field? other (setField name v es) = if name = other then some v else field? other es := by
  induction es with
  | nil => simp [setField, putEntry, field?, isKey]
  | cons e es ih =>
    obtain ⟨k, w⟩ := e
    rw [setField] at ih
    rw [setField, putEntry, sameKey_name]
    cases here : isKey name k with
    | true =>
      obtain ⟨s, rfl⟩ : ∃ s, k = .str s := by
        cases k <;> simp_all [isKey]
      obtain rfl : s = name := by simpa [isKey] using here
      by_cases same : s = other <;> simp [field?, isKey, same]
    | false =>
      rw [if_neg Bool.false_ne_true, field?, field?, ih]
      cases there : isKey other k with
      | false => rfl
      | true =>
        have apart : name ≠ other := by
          rintro rfl
          rw [here] at there
          cases there
        rw [if_pos rfl, if_pos rfl, if_neg apart]

theorem putEntry_of_new {name : String} {v : Value} {es : List (Value × Value)}
    (text : ∀ e ∈ es, ∃ name, e.1 = .str name) (new : Value.str name ∉ es.map (·.1)) :
    putEntry (.str name) v es = es ++ [(.str name, v)] := by
  induction es with
  | nil => rfl
  | cons e es ih =>
    obtain ⟨k, w⟩ := e
    rw [List.forall_mem_cons] at text
    obtain ⟨⟨other, rfl⟩, rest⟩ := text
    simp only [List.map_cons, List.mem_cons, not_or, Value.str.injEq] at new
    have apart : (other == name) = false := by simpa using Ne.symm new.1
    simp [putEntry, sameKey_str, apart, ih rest new.2]

theorem foldl_putEntry {es fs : List (Value × Value)} (members : Members (fs ++ es)) :
    es.foldl (fun es e => putEntry e.1 e.2 es) fs = fs ++ es := by
  induction es generalizing fs with
  | nil => simp
  | cons e es ih =>
    obtain ⟨k, v⟩ := e
    obtain ⟨name, rfl⟩ := members.text _ (List.mem_append_right _ (List.mem_cons_self ..))
    have new : Value.str name ∉ fs.map (·.1) := by
      intro old
      have distinct := members.distinct
      rw [List.map_append, List.map_cons] at distinct
      exact (List.nodup_append.1 distinct).2.2 _ old _ (List.mem_cons_self ..) rfl
    rw [List.foldl_cons, putEntry_of_new (fun e member => members.text e (by simp [member])) new]
    rw [ih (by simpa using members)]
    simp

theorem mapOf_members {es : List (Value × Value)} (members : Members es) : mapOf es = .map es := by
  rw [mapOf, foldl_putEntry (by simpa using members)]
  rfl

end Value

namespace Json

/-- Writing the document as JSON and reading it again changes nothing, and its members can be sorted. -/
structure Proper (v : Value) : Prop where
  plain : plain v = .ok v
  back : readBack v = v
  sorts : ∃ w, sorted v = .ok w ∧ Json.plain w = .ok w

theorem Proper.str (s : String) : Proper (.str s) := ⟨rfl, rfl, _, rfl, rfl⟩

theorem Proper.int (i : Int) : Proper (.int i) := ⟨rfl, rfl, _, rfl, rfl⟩

theorem Proper.float (d : Double) : Proper (.float d) := ⟨rfl, rfl, _, rfl, rfl⟩

theorem Proper.null : Proper .null := ⟨rfl, rfl, _, rfl, rfl⟩

theorem plainAll_self {xs : List Value} (all : ∀ x ∈ xs, plain x = .ok x) :
    plainAll xs = .ok xs := by
  induction xs with
  | nil => rfl
  | cons x xs ih =>
    rw [List.forall_mem_cons] at all
    simp [plainAll, all.1, ih all.2, bind, Except.bind, pure, Except.pure]

theorem plainEntries_self {es : List (Value × Value)}
    (all : ∀ e ∈ es, (∃ name, e.1 = .str name) ∧ plain e.2 = .ok e.2) :
    plainEntries es = .ok es := by
  induction es with
  | nil => rfl
  | cons e es ih =>
    obtain ⟨k, v⟩ := e
    rw [List.forall_mem_cons] at all
    obtain ⟨⟨⟨name, rfl⟩, plain⟩, rest⟩ := all
    simp_all [plainEntries, memberName?, bind, Except.bind, pure, Except.pure]

theorem readBackAll_self {xs : List Value} (all : ∀ x ∈ xs, readBack x = x) :
    readBackAll xs = xs := by
  induction xs with
  | nil => rfl
  | cons x xs ih =>
    rw [List.forall_mem_cons] at all
    rw [readBackAll, all.1, ih all.2]

theorem readBackEntries_self {es : List (Value × Value)} (all : ∀ e ∈ es, readBack e.2 = e.2) :
    readBackEntries es = es := by
  induction es with
  | nil => rfl
  | cons e es ih =>
    rw [List.forall_mem_cons] at all
    rw [readBackEntries, all.1, ih all.2]

theorem sortedAll_proper {xs : List Value} (all : ∀ x ∈ xs, Proper x) :
    ∃ ys, sortedAll xs = .ok ys ∧ ∀ y ∈ ys, plain y = .ok y := by
  induction xs with
  | nil => exact ⟨[], rfl, by simp⟩
  | cons x xs ih =>
    rw [List.forall_mem_cons] at all
    obtain ⟨y, sorts, plain⟩ := all.1.sorts
    obtain ⟨ys, rest, plains⟩ := ih all.2
    refine ⟨y :: ys, ?_, List.forall_mem_cons.2 ⟨plain, plains⟩⟩
    simp [sortedAll, sorts, rest, bind, Except.bind, pure, Except.pure]

theorem sortedEntries_proper {es : List (Value × Value)} (all : ∀ e ∈ es, Proper e.2) :
    ∃ fs, sortedEntries es = .ok fs ∧
      (∀ f, f ∈ fs ↔ ∃ v, (f.1, v) ∈ es ∧ sorted v = .ok f.2) ∧ ∀ f ∈ fs, plain f.2 = .ok f.2 := by
  induction es with
  | nil => exact ⟨[], rfl, by simp, by simp⟩
  | cons e es ih =>
    obtain ⟨k, v⟩ := e
    rw [List.forall_mem_cons] at all
    obtain ⟨w, sorts, plain⟩ := all.1.sorts
    obtain ⟨fs, rest, mem, plains⟩ := ih all.2
    refine ⟨(k, w) :: fs, ?_, fun f => ?_, List.forall_mem_cons.2 ⟨plain, plains⟩⟩
    · simp [sortedEntries, sorts, rest, bind, Except.bind, pure, Except.pure]
    · obtain ⟨l, x⟩ := f
      simp only [List.mem_cons, mem, Prod.mk.injEq]
      grind

theorem allText_of_text {es : List (Value × Value)} (text : ∀ e ∈ es, ∃ name, e.1 = .str name) :
    allText es = true := by
  induction es with
  | nil => rfl
  | cons e es ih =>
    obtain ⟨k, v⟩ := e
    rw [List.forall_mem_cons] at text
    obtain ⟨⟨name, rfl⟩, rest⟩ := text
    exact ih rest

theorem sortMembers_perm {es : List (Value × Value)} (text : ∀ e ∈ es, ∃ name, e.1 = .str name) :
    ∃ fs, sortMembers es = .ok fs ∧ fs.Perm es := by
  unfold sortMembers
  split
  · exact ⟨es, rfl, .refl es⟩
  · rw [if_pos (allText_of_text text)]
    exact ⟨_, rfl, List.mergeSort_perm ..⟩

theorem Proper.list {xs : List Value} (all : ∀ x ∈ xs, Proper x) : Proper (.list xs) where
  plain := by
    rw [Json.plain, plainAll_self fun x member => (all x member).plain]
    rfl
  back := by rw [readBack, readBackAll_self fun x member => (all x member).back]
  sorts := by
    obtain ⟨ys, sorts, plains⟩ := sortedAll_proper all
    refine ⟨.list ys, by rw [sorted, sorts]; rfl, ?_⟩
    rw [Json.plain, plainAll_self plains]
    rfl

theorem sorted_map {es : List (Value × Value)} (text : ∀ e ∈ es, ∃ name, e.1 = .str name)
    (all : ∀ e ∈ es, Proper e.2) :
    ∃ fs, sorted (.map es) = .ok (.map fs) ∧ Json.plain (.map fs) = .ok (.map fs) ∧
      ∀ f, f ∈ fs ↔ ∃ v, (f.1, v) ∈ es ∧ sorted v = .ok f.2 := by
  obtain ⟨fs, sorts, mem, plains⟩ := sortedEntries_proper all
  have names : ∀ f ∈ fs, ∃ name, f.1 = .str name := by
    intro f member
    obtain ⟨v, old, -⟩ := (mem f).1 member
    exact text (f.1, v) old
  obtain ⟨gs, sortMembers, perm⟩ := sortMembers_perm names
  refine ⟨gs, ?_, ?_, fun g => by rw [perm.mem_iff, mem]⟩
  · rw [sorted, sorts]
    simp [bind, Except.bind, sortMembers, pure, Except.pure]
  · rw [Json.plain, plainEntries_self fun g member =>
      ⟨names g (perm.mem_iff.1 member), plains g (perm.mem_iff.1 member)⟩]
    rfl

theorem Proper.map {es : List (Value × Value)} (members : Value.Members es)
    (all : ∀ e ∈ es, Proper e.2) : Proper (.map es) where
  plain := by
    rw [Json.plain, plainEntries_self fun e member =>
      ⟨members.text e member, (all e member).plain⟩]
    rfl
  back := by
    rw [readBack, readBackEntries_self fun e member => (all e member).back,
      Value.mapOf_members members]
  sorts := by
    obtain ⟨fs, sorts, plain, -⟩ := sorted_map members.text all
    exact ⟨.map fs, sorts, plain⟩

end Json

namespace Value

/-- The values that a JSON text holds. -/
inductive IsJson : Value → Prop where
  | null : IsJson .null
  | bool (b : Bool) : IsJson (.bool b)
  | int (i : Int) : IsJson (.int i)
  | float (d : Double) : IsJson (.float d)
  | str (s : String) : IsJson (.str s)
  | list {xs : List Value} (all : ∀ x ∈ xs, IsJson x) : IsJson (.list xs)
  | map {es : List (Value × Value)} (members : Members es) (all : ∀ e ∈ es, IsJson e.2) :
    IsJson (.map es)

theorem IsJson.proper {v : Value} (json : v.IsJson) : Json.Proper v := by
  induction json with
  | null => exact .null
  | bool b => exact ⟨rfl, rfl, _, rfl, rfl⟩
  | int i => exact .int i
  | float d => exact .float d
  | str s => exact .str s
  | list _ ih => exact .list ih
  | map members _ ih => exact .map members ih

theorem IsJson.of_mem {es : List (Value × Value)} (json : (Value.map es).IsJson) {e : Value × Value}
    (member : e ∈ es) : e.2.IsJson := by
  cases json with
  | map _ all => exact all e member

theorem IsJson.members {es : List (Value × Value)} (json : (Value.map es).IsJson) : Members es := by
  cases json with
  | map members _ => exact members

end Value

end Tabletop
