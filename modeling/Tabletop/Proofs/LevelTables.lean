import Mathlib.Data.List.Induction
import Tabletop.Character.Stats
import Tabletop.Proofs.Dict
import Tabletop.Proofs.DocumentCheck

set_option autoImplicit false

namespace Tabletop

namespace Stats

variable {α β γ : Type}

-- the keys of a table as numbers

theorem levelKeys_completes (keys : List String) :
    Completes (levelKeys keys) ↔ ∀ key ∈ keys, Text.isDigits key = true → Text.IsNumeral key := by
  induction keys with
  | nil => simp [levelKeys]
  | cons key keys ih =>
    rw [List.forall_mem_cons, ← ih, levelKeys]
    by_cases digits : Text.isDigits key = true
    · rw [if_pos digits, ← integerOf_digits_iff digits]
      simp only [digits, true_imp_iff]
      exact completes_bind fun _ => completes_map
    · simp [digits]

theorem mem_levelKeys {keys : List String} {ns : List Int} (found : levelKeys keys = .ok ns) (n : Int) :
    n ∈ ns ↔ ∃ key ∈ keys, Text.isDigits key = true ∧ integerOf key = .ok n := by
  induction keys generalizing ns with
  | nil =>
    cases found
    simp
  | cons key keys ih =>
    unfold levelKeys at found
    split at found
    · rename_i digits
      simp only [bind_eq_ok, pure_eq_ok] at found
      obtain ⟨first, read, rest, reads, rfl⟩ := found
      have same : n = first ↔ first = n := eq_comm
      simp [ih reads, digits, read, same]
    · rename_i plain
      simp [ih found, plain]

theorem sortedKeys_ascending (ns : List Int) : (sortedKeys ns).Pairwise (· ≤ ·) :=
  (List.pairwise_mergeSort (by simp; omega) (by simp; omega) ns).imp of_decide_eq_true

theorem mem_sortedKeys {ns : List Int} {n : Int} : n ∈ sortedKeys ns ↔ n ∈ ns :=
  List.mem_mergeSort

theorem natural_of_mem {keys : List String} {ns : List Int} (found : levelKeys keys = .ok ns) {n : Int}
    (member : n ∈ ns) : ∃ m : Nat, n = m := by
  obtain ⟨key, -, digits, read⟩ := (mem_levelKeys found n).1 member
  obtain ⟨m, same, -⟩ := integerOf_digits digits read
  exact ⟨m, same⟩

-- what the last key of a walk gives

theorem getLast?_given {g : Int → Option γ} {ks : List Int} (ascending : ks.Pairwise (· ≤ ·)) (w : γ) :
    (ks.filterMap g).getLast? = some w ↔
      ∃ k ∈ ks, g k = some w ∧ ∀ l ∈ ks, (g l).isSome = true → l ≤ k := by
  induction ks using List.reverseRecOn with
  | nil => simp
  | append_singleton ks k ih =>
    obtain ⟨before, -, below⟩ := List.pairwise_append.1 ascending
    have last (l : Int) (member : l ∈ ks) : l ≤ k := below l member k (List.mem_singleton_self k)
    rw [List.filterMap_append, List.getLast?_append]
    cases here : g k with
    | none =>
      simp only [List.filterMap_cons, here, List.filterMap_nil, List.getLast?_nil, Option.none_or, ih before]
      simp [or_and_right, exists_or, or_imp, forall_and, here]
    | some v =>
      simp only [List.filterMap_cons, here, List.filterMap_nil, List.getLast?_singleton, Option.some_or,
        Option.some.injEq]
      constructor
      · rintro rfl
        refine ⟨k, by simp, here, fun l member _ => ?_⟩
        rcases List.mem_append.1 member with old | new
        · exact last l old
        · exact Int.le_of_eq (List.mem_singleton.1 new)
      · rintro ⟨l, member, given, most⟩
        have above : k ≤ l := most k (by simp) (by simp [here])
        rcases List.mem_append.1 member with old | new
        · obtain rfl : l = k := Int.le_antisymm (last l old) above
          exact Option.some.inj (here.symm.trans given)
        · rw [List.mem_singleton.1 new] at given
          exact Option.some.inj (here.symm.trans given)

theorem foldl_given (g : Int → Option γ) (ks : List Int) (v : γ) :
    ks.foldl (fun v k => (g k).getD v) v = (ks.filterMap g).getLast?.getD v := by
  induction ks generalizing v with
  | nil => rfl
  | cons k ks ih =>
    rw [List.foldl_cons, ih]
    cases here : g k with
    | none => rw [List.filterMap_cons_none here, Option.getD_none]
    | some w => simp [List.filterMap_cons_some here, List.getLast?_cons]

theorem lookup_entries (d : Dict String α) (key : String) : d.entries.lookup key = d.get? key := by
  have found (es : List (String × α)) : es.lookup key = Dict.find? key es := by
    induction es with
    | nil => rfl
    | cons e es ih =>
      obtain ⟨k, v⟩ := e
      by_cases same : k = key
      · simp [Dict.find?, same]
      · have apart : (key == k) = false := by simpa using Ne.symm same
        simp [List.lookup_cons, apart, Dict.find?, same, ih]
  exact found d.entries

@[simp] theorem entryAt_entries (d : Dict String α) (n : Nat) : entryAt d.entries n = d.get? n.repr :=
  lookup_entries d n.repr

theorem mem_of_entryAt {table : List (String × α)} {n : Int} {entry : α}
    (held : entryAt table n = some entry) : (toString n, entry) ∈ table := by
  obtain ⟨before, after, rfl, -⟩ := List.lookup_eq_some_iff.1 held
  exact List.mem_append_right _ List.mem_cons_self

-- tables of values

def reached (table : List (String × α)) (level n : Int) : Option (Option α) :=
  if n ≤ level then some (entryAt table n) else none

theorem scalarAt_reached (table : List (String × α)) (level : Int) (fallback : Option α) {ns : List Int}
    (found : levelKeys (table.map (·.1)) = .ok ns) :
    scalarAt table level fallback =
      .ok (((sortedKeys ns).filterMap (reached table level)).getLast?.getD fallback) := by
  have step (v : Option α) (n : Int) :
      (if n ≤ level then entryAt table n else v) = (reached table level n).getD v := by
    unfold reached
    split <;> rfl
  rw [scalarAt, found, ok_bind]
  simp only [step, foldl_given]
  rfl

theorem scalarAt_completes (table : List (String × α)) (level : Int) (fallback : Option α) :
    Completes (scalarAt table level fallback) ↔
      ∀ key ∈ table.map (·.1), Text.isDigits key = true → Text.IsNumeral key := by
  rw [← levelKeys_completes]
  exact completes_map

structure IsHighest (table : Dict String α) (level : Int) (key : String) : Prop where
  member : key ∈ table.keys
  reached : Text.numberOf key ≤ level
  most : ∀ other ∈ table.keys, (Text.numberOf other : Int) ≤ level →
    Text.numberOf other ≤ Text.numberOf key

theorem integerOf_plain {key : String} (plain : Text.IsPlain key)
    (short : key.toList.length ≤ Text.maxDigits) : integerOf key = .ok (Text.numberOf key) := by
  rw [integerOf, Text.readInteger_plain plain short]

theorem levels_of_plain {keys : List String} (plain : ∀ key ∈ keys, Text.IsPlain key)
    (short : ∀ key ∈ keys, key.toList.length ≤ Text.maxDigits) :
    ∃ ns, levelKeys keys = .ok ns ∧ ∀ n, n ∈ ns ↔ ∃ key ∈ keys, n = Text.numberOf key := by
  have numerals : ∀ key ∈ keys, Text.isDigits key = true → Text.IsNumeral key :=
    fun key member _ => (Text.isNumeral_plain (plain key member)).2 (short key member)
  obtain ⟨ns, found⟩ := (levelKeys_completes keys).2 numerals
  refine ⟨ns, found, fun n => (mem_levelKeys found n).trans (exists_congr fun key => ?_)⟩
  refine and_congr_right fun member => ?_
  rw [Text.isDigits_plain (plain key member), integerOf_plain (plain key member) (short key member)]
  simp [eq_comm]

/-- The value of the highest key that the level has reached, if that key is written without zeros in
front, and nothing if there are any. -/
theorem scalarAt_highest {table : Dict String α} (plain : ∀ key ∈ table.keys, Text.IsPlain key)
    (apart : ∀ key ∈ table.keys, ∀ other ∈ table.keys,
      Text.numberOf key = Text.numberOf other → key = other)
    (level : Int) (fallback : Option α) :
    ((∃ found, scalarAt table.entries level fallback = .ok found) ↔
        ∀ key ∈ table.keys, key.toList.length ≤ Text.maxDigits) ∧
      ∀ found, scalarAt table.entries level fallback = .ok found →
        (∀ key ∈ table.keys, level < Text.numberOf key) ∧ found = fallback ∨
          ∃ key value, IsHighest table level key ∧ table.get? key = some value ∧
            found = if key = (Text.numberOf key).repr then some value else none := by
  have completes : Completes (scalarAt table.entries level fallback) ↔
      ∀ key ∈ table.keys, key.toList.length ≤ Text.maxDigits := by
    rw [scalarAt_completes]
    refine forall₂_congr fun key member => ?_
    rw [Text.isDigits_plain (plain key member), Text.isNumeral_plain (plain key member)]
    simp
  refine ⟨completes, fun found reads => ?_⟩
  obtain ⟨ns, keyed, mem⟩ := levels_of_plain plain (completes.1 ⟨found, reads⟩)
  rw [scalarAt_reached table.entries level fallback keyed, Except.ok.injEq] at reads
  cases last : ((sortedKeys ns).filterMap (reached table.entries level)).getLast? with
  | none =>
    rw [last, Option.getD_none] at reads
    rw [List.getLast?_eq_none_iff, List.filterMap_eq_nil_iff] at last
    refine .inl ⟨fun key member => ?_, reads.symm⟩
    have above := last (Text.numberOf key) (mem_sortedKeys.2 ((mem _).2 ⟨key, member, rfl⟩))
    simpa [reached] using above
  | some given =>
    rw [last, Option.getD_some] at reads
    obtain ⟨n, there, gives, most⟩ := (getLast?_given (sortedKeys_ascending ns) given).1 last
    obtain ⟨key, member, rfl⟩ := (mem n).1 (mem_sortedKeys.1 there)
    unfold reached at gives most
    split at gives
    · rename_i within
      rw [entryAt_entries, Option.some.injEq, reads] at gives
      have highest : IsHighest table level key := by
        refine ⟨member, within, fun other there below => ?_⟩
        have bound := most (Text.numberOf other) (mem_sortedKeys.2 ((mem _).2 ⟨other, there, rfl⟩))
          (by rw [if_pos below]; rfl)
        exact Int.ofNat_le.1 bound
      obtain ⟨value, held⟩ := Option.isSome_iff_exists.1 (Dict.contains_iff.2 member)
      refine .inr ⟨key, value, highest, held, ?_⟩
      split
      · rename_i own
        rw [← gives, ← own, held]
      · rename_i padded
        rw [← gives, Dict.get?_eq_none_iff]
        intro there
        refine padded (apart key member _ there ?_)
        rw [Text.numberOf_repr]
    · contradiction

def tiers : Dict String Int := .ofList [("10", 8), ("2", 4), ("06", 6)]

theorem scalarAt_highest_tiers :
    (∀ key ∈ tiers.keys, Text.IsPlain key) ∧
      (∀ key ∈ tiers.keys, ∀ other ∈ tiers.keys,
        Text.numberOf key = Text.numberOf other → key = other) ∧
      scalarAt tiers.entries 12 (some 0) = .ok (some 8) := by
  have plain : ∀ key ∈ tiers.keys, Text.IsPlain key := by
    decide +kernel
  have apart : ∀ key ∈ tiers.keys, ∀ other ∈ tiers.keys,
      Text.numberOf key = Text.numberOf other → key = other := by
    decide +kernel
  obtain ⟨completes, reads⟩ := scalarAt_highest plain apart 12 (some 0)
  obtain ⟨found, here⟩ := completes.2 (by decide +kernel)
  refine ⟨plain, apart, ?_⟩
  rw [here]
  rcases reads found here with ⟨above, -⟩ | ⟨key, value, highest, held, rfl⟩
  · exact absurd (above "2" (by decide)) (by decide +kernel)
  · have ten : key = "10" := by
      have all : ∀ key ∈ tiers.keys, Text.numberOf "10" ≤ Text.numberOf key → key = "10" := by
        decide +kernel
      exact all key highest.member (highest.most "10" (by decide) (by decide +kernel))
    subst ten
    have eight : value = 8 := Option.some.inj (held.symm.trans (by decide))
    rw [eight]
    decide +kernel

/-- A key with a zero in front is the highest that is reached, and its value is not found. -/
theorem padded_unread :
    let table : Dict String Int := .ofList [("02", 4)]
    (∀ key ∈ table.keys, Text.IsPlain key) ∧ IsHighest table 2 "02" ∧ table.get? "02" = some 4 ∧
      scalarAt table.entries 2 (some 0) = .ok none := by
  exact ⟨by decide +kernel, ⟨by decide, by decide +kernel, by decide +kernel⟩, by decide,
    by decide +kernel⟩

-- tables of slots

theorem get?_foldl_insert (es : List (String × β)) (d : Dict String β) (key : String) :
    (es.foldl (fun d e => d.insert e.1 e.2) d).get? key = ((Dict.ofList es).get? key).or (d.get? key) := by
  induction es using List.reverseRecOn with
  | nil => rfl
  | append_singleton es e ih =>
    have last : Dict.ofList (es ++ [e]) = (Dict.ofList es).insert e.1 e.2 := by
      rw [Dict.ofList, List.foldl_append]
      rfl
    rw [last, List.foldl_append, List.foldl_cons, List.foldl_nil, Dict.get?_insert, Dict.get?_insert, ih]
    split
    · rfl
    · rfl

def given (chunkOf : α → Except Breakdown (List (String × β))) (table : List (String × α)) (slot : String)
    (n : Int) : Option β :=
  (entryAt table n).bind fun entry =>
    (chunkOf entry).toOption.bind fun chunk => (Dict.ofList chunk).get? slot

section Slots

variable {chunkOf : α → Except Breakdown (List (String × β))} {table : List (String × α)}

theorem mergeChunks_gives (reads : ∀ e ∈ table, Completes (chunkOf e.2)) (ks : List Int)
    (slots : Dict String β) :
    ∃ merged, mergeChunks chunkOf table slots ks = .ok merged ∧
      ∀ slot, merged.get? slot =
        (ks.filterMap (given chunkOf table slot)).getLast?.or (slots.get? slot) := by
  induction ks generalizing slots with
  | nil => exact ⟨slots, rfl, fun slot => rfl⟩
  | cons k ks ih =>
    cases entry : entryAt table k with
    | none =>
      obtain ⟨merged, found, gives⟩ := ih slots
      refine ⟨merged, by rw [mergeChunks, entry]; exact found, fun slot => ?_⟩
      have nothing : given chunkOf table slot k = none := by rw [given, entry]; rfl
      rw [gives, List.filterMap_cons_none nothing]
    | some e =>
      obtain ⟨chunk, read⟩ := reads _ (mem_of_entryAt entry)
      obtain ⟨merged, found, gives⟩ := ih (mergeChunk slots chunk)
      refine ⟨merged, by rw [mergeChunks, entry]; simp only [read, ok_bind, found], fun slot => ?_⟩
      have own : given chunkOf table slot k = (Dict.ofList chunk).get? slot := by
        rw [given, entry, Option.bind_some, read]
        rfl
      rw [gives, mergeChunk, get?_foldl_insert, ← own]
      cases here : given chunkOf table slot k with
      | none => rw [List.filterMap_cons_none here, Option.none_or]
      | some w => simp [List.filterMap_cons_some here, List.getLast?_cons]

theorem slotsAt_completes (reads : ∀ e ∈ table, Completes (chunkOf e.2)) (level : Int) :
    Completes (slotsAt chunkOf table level) ↔
      ∀ key ∈ table.map (·.1), Text.isDigits key = true → Text.IsNumeral key := by
  rw [← levelKeys_completes, slotsAt, completes_bind (p := True), and_true]
  intro ns
  obtain ⟨merged, found, -⟩ := mergeChunks_gives reads ((sortedKeys ns).filter fun k => k ≤ level) .empty
  exact iff_of_true ⟨merged, found⟩ trivial

theorem mem_levels_of_entry {ns : List Int} (found : levelKeys (table.map (·.1)) = .ok ns) {n : Nat}
    {entry : α} (held : entryAt table n = some entry) : (n : Int) ∈ ns := by
  have member : n.repr ∈ table.map (·.1) := List.mem_map_of_mem (mem_of_entryAt held)
  have plain := Text.plain_repr n
  have numeral := (levelKeys_completes _).1 ⟨ns, found⟩ n.repr member (Text.isDigits_plain plain)
  have read := integerOf_plain plain ((Text.isNumeral_plain plain).1 numeral)
  rw [Text.numberOf_repr] at read
  exact (mem_levelKeys found n).2 ⟨n.repr, member, Text.isDigits_plain plain, read⟩

theorem slotsAt_get? (reads : ∀ e ∈ table, Completes (chunkOf e.2)) {level : Int} {slots : Dict String β}
    (found : slotsAt chunkOf table level = .ok slots) (slot : String) :
    (∀ w, slots.get? slot = some w ↔ ∃ n : Nat, (n : Int) ≤ level ∧ given chunkOf table slot n = some w ∧
        ∀ m : Nat, (m : Int) ≤ level → (given chunkOf table slot m).isSome = true → m ≤ n) ∧
      (slots.get? slot = none ↔ ∀ n : Nat, (n : Int) ≤ level → given chunkOf table slot n = none) := by
  rw [slotsAt, bind_eq_ok] at found
  obtain ⟨ns, keyed, merges⟩ := found
  obtain ⟨merged, same, gives⟩ :=
    mergeChunks_gives reads ((sortedKeys ns).filter fun k => k ≤ level) .empty
  obtain rfl : merged = slots := Except.ok.inj (same.symm.trans merges)
  have ascending : ((sortedKeys ns).filter fun k => k ≤ level).Pairwise (· ≤ ·) :=
    (sortedKeys_ascending ns).filter _
  have within (k : Int) : (k ∈ (sortedKeys ns).filter fun k => k ≤ level) ↔ k ∈ ns ∧ k ≤ level := by
    rw [List.mem_filter, mem_sortedKeys, decide_eq_true_eq]
  have named {n : Nat} (some : (given chunkOf table slot n).isSome = true) : (n : Int) ∈ ns := by
    cases held : entryAt table n with
    | none => simp [given, held] at some
    | some entry => exact mem_levels_of_entry keyed held
  rw [gives, Dict.get?_empty, Option.or_none]
  constructor
  · intro w
    rw [getLast?_given ascending]
    constructor
    · rintro ⟨k, member, gives, most⟩
      obtain ⟨there, below⟩ := (within k).1 member
      obtain ⟨n, rfl⟩ := natural_of_mem keyed there
      refine ⟨n, below, gives, fun m low given => ?_⟩
      exact Int.ofNat_le.1 (most m ((within m).2 ⟨named given, low⟩) given)
    · rintro ⟨n, below, gives, most⟩
      refine ⟨n, (within n).2 ⟨named (by rw [gives]; rfl), below⟩, gives, fun l member given => ?_⟩
      obtain ⟨there, low⟩ := (within l).1 member
      obtain ⟨m, rfl⟩ := natural_of_mem keyed there
      exact Int.ofNat_le.2 (most m low given)
  · rw [List.getLast?_eq_none_iff, List.filterMap_eq_nil_iff]
    constructor
    · intro none n below
      by_contra some
      have gives := Option.isSome_iff_ne_none.2 some
      exact some (none n ((within n).2 ⟨named gives, below⟩))
    · intro none k member
      obtain ⟨there, below⟩ := (within k).1 member
      obtain ⟨n, rfl⟩ := natural_of_mem keyed there
      exact none n below

end Slots

def slotsIn : Value → Dict String Value
  | .map es => .ofList (es.map fun e => (e.1.text, e.2))
  | _ => .empty

def slotOf (table : Dict String Value) (level : Nat) (slot : String) : Option Value :=
  (table.get? level.repr).bind fun entry => (slotsIn entry).get? slot

theorem valueChunk_held {v : Value} (held : v = .null ∨ ∃ es, v = .map es) :
    ∃ chunk, valueChunk v = .ok chunk ∧ Dict.ofList chunk = slotsIn v := by
  rcases held with rfl | ⟨es, rfl⟩
  · exact ⟨[], rfl, rfl⟩
  · exact ⟨_, rfl, rfl⟩

theorem given_held {table : Dict String Value} (held : ∀ e ∈ table.entries, e.2 = .null ∨ ∃ es, e.2 = .map es)
    (slot : String) (n : Nat) : given valueChunk table.entries slot n = slotOf table n slot := by
  rw [given, slotOf, entryAt_entries]
  cases entry : table.get? n.repr with
  | none => rfl
  | some v =>
    obtain ⟨chunk, read, same⟩ := valueChunk_held (held _ (Dict.mem_of_get? entry))
    rw [Option.bind_some, Option.bind_some, read, ← same]
    rfl

theorem get?_of_perm {d other : Dict String α} (perm : other.entries.Perm d.entries) (key : String) :
    other.get? key = d.get? key := by
  cases found : d.get? key with
  | none =>
    rw [Dict.get?_eq_none_iff] at found ⊢
    exact fun there => found ((perm.map (·.1)).mem_iff.1 there)
  | some v => exact Dict.find?_of_mem other.distinct (perm.mem_iff.2 (Dict.mem_of_get? found))

/-- Each slot is there if a level that has been reached gives it, as the highest such level does, and in
whatever order the table is written. -/
theorem slotsAt_lastWriter {table : Dict String Value} (plain : ∀ key ∈ table.keys, ∃ n : Nat, key = n.repr)
    (held : ∀ e ∈ table.entries, e.2 = .null ∨ ∃ es, e.2 = .map es) (level : Int) :
    ((∃ slots, slotsAt valueChunk table.entries level = .ok slots) ↔
        ∀ key ∈ table.keys, key.toList.length ≤ Text.maxDigits) ∧
      ∀ slots, slotsAt valueChunk table.entries level = .ok slots →
        (∀ slot, slots.contains slot = true ↔
          ∃ n : Nat, (n : Int) ≤ level ∧ (slotOf table n slot).isSome = true) ∧
        (∀ slot (n : Nat), (n : Int) ≤ level → (slotOf table n slot).isSome = true →
          (∀ m : Nat, (m : Int) ≤ level → (slotOf table m slot).isSome = true → m ≤ n) →
          slots.get? slot = slotOf table n slot) ∧
        ∀ other : Dict String Value, other.entries.Perm table.entries →
          ∃ others, slotsAt valueChunk other.entries level = .ok others ∧
            ∀ slot, others.get? slot = slots.get? slot := by
  have reads : ∀ e ∈ table.entries, Completes (valueChunk e.2) := fun e member =>
    let ⟨chunk, read, _⟩ := valueChunk_held (held e member)
    ⟨chunk, read⟩
  have completes : Completes (slotsAt valueChunk table.entries level) ↔
      ∀ key ∈ table.keys, key.toList.length ≤ Text.maxDigits := by
    rw [slotsAt_completes reads]
    refine forall₂_congr fun key member => ?_
    obtain ⟨n, rfl⟩ := plain key member
    rw [Text.isDigits_repr, Text.isNumeral_plain (Text.plain_repr n)]
    simp
  refine ⟨completes, fun slots found => ?_⟩
  have gives (slot : String) := slotsAt_get? reads found slot
  simp only [given_held held] at gives
  refine ⟨fun slot => ?_, fun slot n below some most => ?_, fun other perm => ?_⟩
  · rw [Dict.contains, Option.isSome_iff_ne_none, Ne, (gives slot).2]
    simp [Option.isSome_iff_ne_none]
  · obtain ⟨w, here⟩ := Option.isSome_iff_exists.1 some
    rw [here]
    exact ((gives slot).1 w).2 ⟨n, below, here, most⟩
  · have held' : ∀ e ∈ other.entries, e.2 = .null ∨ ∃ es, e.2 = .map es :=
      fun e member => held e (perm.mem_iff.1 member)
    have reads' : ∀ e ∈ other.entries, Completes (valueChunk e.2) :=
      fun e member => reads e (perm.mem_iff.1 member)
    have keyed : ∀ key ∈ other.entries.map (·.1), Text.isDigits key = true → Text.IsNumeral key :=
      fun key member => (slotsAt_completes reads level).1 ⟨slots, found⟩ key
        ((perm.map (·.1)).mem_iff.1 member)
    obtain ⟨others, found'⟩ := (slotsAt_completes reads' level).2 keyed
    refine ⟨others, found', fun slot => Option.ext fun w => ?_⟩
    have same (n : Nat) : slotOf other n slot = slotOf table n slot := by
      rw [slotOf, slotOf, get?_of_perm perm]
    rw [(slotsAt_get? reads' found' slot).1 w, (gives slot).1 w]
    simp only [given_held held', same]

def casting : Dict String Value :=
  .ofList [("10", .map [(.str "1", .int 4)]), ("3", .null),
    ("2", .map [(.str "1", .int 3), (.str "2", .int 1)])]

theorem slotsAt_lastWriter_casting :
    (∀ key ∈ casting.keys, ∃ n : Nat, key = n.repr) ∧
      (∀ e ∈ casting.entries, e.2 = .null ∨ ∃ es, e.2 = .map es) ∧
      ∃ slots, slotsAt valueChunk casting.entries 12 = .ok slots ∧
        slots.get? "1" = some (.int 4) ∧ slots.get? "2" = some (.int 1) := by
  have plain : ∀ key ∈ casting.keys, ∃ n : Nat, key = n.repr := by
    have keys : casting.keys = [Nat.repr 10, Nat.repr 3, Nat.repr 2] := by decide +kernel
    rw [keys]
    simp
  have held : ∀ e ∈ casting.entries, e.2 = .null ∨ ∃ es, e.2 = .map es := by
    have entries : casting.entries = [("10", .map [(.str "1", .int 4)]), ("3", .null),
        ("2", .map [(.str "1", .int 3), (.str "2", .int 1)])] := rfl
    simp [entries]
  obtain ⟨completes, gives⟩ := slotsAt_lastWriter plain held 12
  obtain ⟨slots, found⟩ := completes.2 (by decide +kernel)
  obtain ⟨-, highest, -⟩ := gives slots found
  have upTo (slot : String) (n : Nat) (most : ∀ m < 13, (slotOf casting m slot).isSome = true → m ≤ n) :
      ∀ m : Nat, (m : Int) ≤ 12 → (slotOf casting m slot).isSome = true → m ≤ n :=
    fun m below => most m (by omega)
  have first := highest "1" 10 (by decide) (by decide +kernel) (upTo "1" 10 (by decide +kernel))
  have second := highest "2" 2 (by decide) (by decide +kernel) (upTo "2" 2 (by decide +kernel))
  refine ⟨plain, held, slots, found, ?_, ?_⟩
  · rw [first]
    decide +kernel
  · rw [second]
    decide +kernel

/-- The key of a level with more digits than a number is read from ends the walk. -/
theorem endless_unread :
    let table : Dict String Value := .ofList [((10 ^ Text.maxDigits).repr, .map [])]
    (∀ key ∈ table.keys, ∃ n : Nat, key = n.repr) ∧
      (∀ e ∈ table.entries, e.2 = .null ∨ ∃ es, e.2 = .map es) ∧
      ¬ ∃ slots, slotsAt valueChunk table.entries 20 = .ok slots := by
  intro table
  have entries : table.entries = [((10 ^ Text.maxDigits).repr, .map [])] := rfl
  have keys : table.keys = [(10 ^ Text.maxDigits).repr] := rfl
  refine ⟨by simp [keys], by simp [entries], fun completes => ?_⟩
  have reads : ∀ e ∈ table.entries, Completes (valueChunk e.2) := by
    rw [entries, List.forall_mem_singleton]
    exact ⟨[], rfl⟩
  have plain := Text.plain_repr (10 ^ Text.maxDigits)
  have numeral := (slotsAt_completes reads 20).1 completes _ (List.mem_singleton_self _)
    (Text.isDigits_plain plain)
  have short := (Text.isNumeral_plain plain).1 numeral
  rw [Nat.toList_repr, Nat.length_toDigits_le_iff (by decide) (by decide)] at short
  exact Nat.lt_irrefl _ short

end Stats

end Tabletop
