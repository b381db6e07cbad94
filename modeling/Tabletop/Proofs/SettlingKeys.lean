import Tabletop.Proofs.Rereading

set_option autoImplicit false

namespace Tabletop.Text

namespace CaseRun

-- no code point that the run moves ends up in the other run
def misses (a b : CaseRun) : Bool :=
  Nat.blt (a.move a.last) b.first || Nat.blt b.last (a.move a.first) ||
    (Nat.beq b.step 2 && (Nat.beq a.step 2 || Nat.beq a.first a.last) &&
      Nat.beq ((a.move a.first + b.first) % 2) 1)

-- and all of them end up at characters
def lands (a : CaseRun) : Bool :=
  decide (0 ≤ a.first + a.shift) &&
    (Nat.blt (a.move a.last) 0xD800 ||
      Nat.blt 0xDFFF (a.move a.first) && Nat.blt (a.move a.last) 0x110000)

variable {a b : CaseRun} {n : Nat}

theorem covers_iff : a.covers n = true ↔ (a.first ≤ n ∧ n ≤ a.last) ∧ (n - a.first) % a.step = 0 := by
  simp [covers]

theorem lands_iff : a.lands = true ↔ 0 ≤ (a.first : Int) + a.shift ∧
    (a.move a.last < 0xD800 ∨ 0xDFFF < a.move a.first ∧ a.move a.last < 0x110000) := by
  simp [lands, Nat.blt_eq]

theorem misses_iff : a.misses b = true ↔
    (a.move a.last < b.first ∨ b.last < a.move a.first) ∨
      (b.step = 2 ∧ (a.step = 2 ∨ a.first = a.last)) ∧ (a.move a.first + b.first) % 2 = 1 := by
  simp only [misses, Bool.or_eq_true, Bool.and_eq_true, Nat.blt_eq, Nat.beq_eq]

theorem lands_valid (lands : a.lands = true) (covers : a.covers n = true) :
    (a.move n).isValidChar := by
  obtain ⟨-, range⟩ := lands_iff.1 lands
  obtain ⟨⟨low, high⟩, -⟩ := covers_iff.1 covers
  simp only [move, Nat.isValidChar] at *
  omega

theorem toNat_ofNat_move (lands : a.lands = true) (covers : a.covers n = true) :
    (Char.ofNat (a.move n)).toNat = a.move n := by
  rw [Char.ofNat, dif_pos (lands_valid lands covers)]
  rfl

theorem not_covers_move (misses : a.misses b = true) (lands : a.lands = true)
    (covers : a.covers n = true) : b.covers (a.move n) = false := by
  have positive := (lands_iff.1 lands).1
  obtain ⟨⟨low, high⟩, step⟩ := covers_iff.1 covers
  rw [← Bool.not_eq_true, covers_iff]
  rintro ⟨⟨first, last⟩, even⟩
  rcases misses_iff.1 misses with apart | ⟨⟨two, step2 | single⟩, odd⟩
  · simp only [move] at *
    omega
  · rw [two] at even
    rw [step2] at step
    simp only [move] at *
    omega
  · rw [two] at even
    simp only [move] at *
    omega

end CaseRun

theorem upperRuns_land : (upperRuns.all fun a => a.lands) = true := by
  decide +kernel

theorem upperRuns_miss : (upperRuns.all fun a => upperRuns.all fun b => a.misses b) = true := by
  decide +kernel

theorem upperRuns_short :
    (upperRuns.all fun a => upperLong.all fun e => a.misses ⟨e.1, e.1, 1, 0⟩) = true := by
  decide +kernel

theorem upperLong_fixed : ∀ e ∈ upperLong, ∀ n ∈ e.2, upperChar (Char.ofNat n) = [Char.ofNat n] := by
  decide +kernel

-- the first run is that of the letters of ASCII
theorem upperAscii_fixed : ∀ n < 128, upperRuns.head?.any (·.covers n) = false →
    (Char.ofNat n).toUpper = Char.ofNat n := by
  decide +kernel

theorem lookup_none {long : List (Nat × List Nat)} {n : Nat} (apart : ∀ e ∈ long, e.1 ≠ n) :
    long.lookup n = none := by
  rw [List.lookup_eq_none_iff]
  intro e member
  simpa using (apart e member).symm

-- what no run covers and no long mapping lists stays as it is
theorem upperChar_unmapped {c : Char} (free : ∀ b ∈ upperRuns, b.covers c.toNat = false)
    (short : ∀ e ∈ upperLong, e.1 ≠ c.toNat) : upperChar c = [c] := by
  unfold upperChar
  split
  · rename_i ascii
    have fixed := upperAscii_fixed c.toNat ascii (free _ List.mem_cons_self)
    rw [Char.ofNat_toNat] at fixed
    rw [fixed]
  · have none : upperRuns.find? (·.covers c.toNat) = none := by
      rw [List.find?_eq_none]
      simpa using free
    simp only [mapCase, lookup_none short, none]

theorem upperChar_moved {a : CaseRun} (run : a ∈ upperRuns) {n : Nat} (covers : a.covers n = true) :
    upperChar (Char.ofNat (a.move n)) = [Char.ofNat (a.move n)] := by
  have lands := List.all_eq_true.1 upperRuns_land a run
  have misses := List.all_eq_true.1 (List.all_eq_true.1 upperRuns_miss a run)
  have apart := List.all_eq_true.1 (List.all_eq_true.1 upperRuns_short a run)
  have back := CaseRun.toNat_ofNat_move lands covers
  apply upperChar_unmapped
  · intro b other
    rw [back]
    exact CaseRun.not_covers_move (misses b other) lands covers
  · intro e long same
    have missed := CaseRun.not_covers_move (apart e long) lands covers
    rw [← back, ← same] at missed
    simp [CaseRun.covers] at missed

theorem upperChar_upperChar (c : Char) : ∀ d ∈ upperChar c, upperChar d = [d] := by
  intro d member
  unfold upperChar at member
  split at member
  · rename_i ascii
    obtain ⟨low, fixed, -⟩ := char_case ascii
    rw [List.mem_singleton.1 member, upperChar, if_pos low, fixed]
  · rename_i beyond
    unfold mapCase at member
    cases long : upperLong.lookup c.toNat with
    | some ns =>
      simp only [long, List.mem_map] at member
      obtain ⟨n, listed, rfl⟩ := member
      exact upperLong_fixed (c.toNat, ns) (mem_of_lookup long) n listed
    | none =>
      cases run : upperRuns.find? (·.covers c.toNat) with
      | some a =>
        simp only [long, run, List.mem_singleton] at member
        rw [member]
        have covers : a.covers c.toNat = true := by simpa using List.find?_some run
        exact upperChar_moved (List.mem_of_find?_eq_some run) covers
      | none =>
        simp only [long, run, List.mem_singleton] at member
        rw [member]
        simp only [upperChar, beyond, if_false, mapCase, long, run]

theorem upper_upper (s : String) : upper (upper s) = upper s := by
  have fixed (cs : List Char) (all : ∀ c ∈ cs, upperChar c = [c]) : cs.flatMap upperChar = cs := by
    induction cs with
    | nil => rfl
    | cons c cs ih =>
      rw [List.forall_mem_cons] at all
      rw [List.flatMap_cons, all.1, ih all.2]
      rfl
  rw [upper, upper, String.toList_ofList, fixed]
  intro c member
  obtain ⟨d, -, image⟩ := List.mem_flatMap.1 member
  exact upperChar_upperChar d c image

end Tabletop.Text

namespace Tabletop

open Ability (normalizeKey)

-- a key that is in the usual form of another has its own usual form
theorem Ability.normalizeKey_settles (key : String) :
    normalizeKey (normalizeKey (normalizeKey key)) = normalizeKey (normalizeKey key) := by
  have lasting (short name : String) (found : fullNames.lookup name = some short) :
      normalizeKey short = short := normalizeKey_keys short (lookup_key found)
  cases found : fullNames.lookup (Text.lower key) with
  | some short =>
    rw [normalizeKey_of_found found, lasting short _ found, lasting short _ found]
  | none =>
    rw [normalizeKey_of_none found]
    cases again : fullNames.lookup (Text.lower (Text.upper key)) with
    | some short => rw [normalizeKey_of_found again, lasting short _ again]
    | none =>
      have next : normalizeKey (Text.upper key) = Text.upper key := by
        rw [normalizeKey_of_none again, Text.upper_upper]
      rw [next, next]

namespace Character

open Tabletop.Field (Entries)

theorem ofValue_settling {supply : Supply} {v : Value} {c : Character} {notices : List Notice}
    (reads : ofValue supply v = .ok (c, notices)) : c.Settling := by
  obtain ⟨s, -, fields⟩ := ofValue_fields reads
  have fields := readFields_eq_ok fields
  have start : ∀ e ∈ defaultScores.entries, normalizeKey (normalizeKey e.1) = normalizeKey e.1 :=
    fun e member => congrArg normalizeKey (usual_default.stable e member).1
  constructor
  · intro key member
    obtain ⟨e, there, rfl⟩ := List.mem_map.1 member
    have settling : ∀ e ∈ c.abilities.entries, normalizeKey (normalizeKey e.1) = normalizeKey e.1 :=
      abilities_keep (p := fun scores => ∀ e ∈ scores.entries,
          normalizeKey (normalizeKey e.1) = normalizeKey e.1) fields.abilities start
        fun e _ _ _ settling => Dict.forall_insert settling (Ability.normalizeKey_settles e.1.text)
    exact settling e there
  · intro key member
    rcases Field.withDefault_eq_ok fields.saves with ⟨-, same⟩ | ⟨v, -, saved⟩
    · rw [same] at member
      exact absurd member (IdSet.not_mem_empty key)
    · obtain ⟨keys, -, k, -, rfl⟩ := readSaves_of_members (Checked.ofExcept_eq_ok.1 saved) key member
      exact Ability.normalizeKey_settles k.text

end Character

end Tabletop
