import Mathlib.Algebra.Group.Nat.Defs
import Tabletop.Moment.Stamp

set_option autoImplicit false

namespace Tabletop

open Decimal (isAsciiDigit digitOf readNat)

def digits : Nat → Nat → List Char
  | 0, _ => []
  | width + 1, n => digits width (n / 10) ++ [(n % 10).digitChar]

theorem digitChar_reads : ∀ d < 10, isAsciiDigit d.digitChar = true ∧ digitOf d.digitChar = d := by
  decide

theorem digits_length (width n : Nat) : (digits width n).length = width := by
  induction width generalizing n with
  | zero => rfl
  | succ width ih => simp [digits, ih]

theorem digits_all (width n : Nat) : ∀ c ∈ digits width n, isAsciiDigit c = true := by
  induction width generalizing n with
  | zero => simp [digits]
  | succ width ih =>
    intro c member
    rcases List.mem_append.1 member with front | last
    · exact ih _ c front
    · rw [List.mem_singleton.1 last]
      exact (digitChar_reads _ (Nat.mod_lt _ (by decide))).1

theorem digits_zero (width : Nat) : digits width 0 = List.replicate width '0' := by
  induction width with
  | zero => rfl
  | succ width ih => rw [digits, Nat.zero_div, ih, List.replicate_succ']; rfl

theorem padded_toList (width n : Nat) (bound : n < 10 ^ (width + 1)) :
    (padded (width + 1) n).toList = digits (width + 1) n := by
  have unfolded : (padded (width + 1) n).toList =
      List.replicate (width + 1 - (Nat.toDigits 10 n).length) '0' ++ Nat.toDigits 10 n := by
    rw [padded, String.toList_ofList]
  rw [unfolded, digits]
  clear unfolded
  induction width generalizing n with
  | zero =>
    rw [Nat.toDigits_of_lt_base (by omega), Nat.mod_eq_of_lt (by omega)]
    rfl
  | succ width ih =>
    by_cases small : n < 10
    · rw [Nat.toDigits_of_lt_base small, Nat.div_eq_of_lt small, Nat.mod_eq_of_lt small, digits_zero]
      rfl
    · rw [Nat.toDigits_of_base_le (by decide) (by omega), List.length_append]
      have front := ih (n / 10) (by rw [Nat.pow_succ] at bound; omega)
      rw [digits, ← front, List.length_singleton, Nat.add_sub_add_right, List.append_assoc]

theorem readNat_concat (cs : List Char) (c : Char) :
    readNat (cs ++ [c]) = 10 * readNat cs + digitOf c := by
  simp [readNat, Text.digitsValue, List.foldl_append]

theorem readNat_digits (width n : Nat) : readNat (digits width n) = n % 10 ^ width := by
  induction width generalizing n with
  | zero => simp [digits, readNat, Text.digitsValue, Nat.mod_one]
  | succ width ih =>
    rw [digits, readNat_concat, ih, (digitChar_reads _ (Nat.mod_lt _ (by decide))).2, Nat.pow_succ',
      Nat.mod_mul]
    omega

theorem foldl_digits_lt {ds : List Nat} (small : ∀ d ∈ ds, d < 10) (n : Nat) :
    ds.foldl (fun n d => 10 * n + d) n < (n + 1) * 10 ^ ds.length := by
  induction ds generalizing n with
  | nil => simp
  | cons d ds ih =>
    rw [List.forall_mem_cons] at small
    have rest := ih small.2 (10 * n + d)
    have step : (10 * n + d + 1) * 10 ^ ds.length ≤ (10 * (n + 1)) * 10 ^ ds.length :=
      Nat.mul_le_mul_right _ (by omega)
    rw [List.foldl_cons, List.length_cons, Nat.pow_succ', ← Nat.mul_assoc, Nat.mul_comm (n + 1)]
    exact Nat.lt_of_lt_of_le rest step

theorem digitOf_lt {c : Char} (digit : isAsciiDigit c = true) : digitOf c < 10 := by
  simp only [isAsciiDigit, Bool.and_eq_true, decide_eq_true_eq, Char.le_def, UInt32.le_iff_toNat_le] at digit
  have upper : c.toNat ≤ 57 := digit.2
  unfold digitOf
  omega

theorem readNat_lt {cs : List Char} (all : ∀ c ∈ cs, isAsciiDigit c = true) :
    readNat cs < 10 ^ cs.length := by
  have small : ∀ d ∈ cs.map digitOf, d < 10 := by
    simpa using fun c member => digitOf_lt (all c member)
  have bound := foldl_digits_lt small 0
  simpa [readNat, Text.digitsValue] using bound

theorem readNat_scaled_lt {cs : List Char} (all : ∀ c ∈ cs, isAsciiDigit c = true) {width : Nat}
    (short : cs.length ≤ width) : readNat cs * 10 ^ (width - cs.length) < 10 ^ width :=
  calc readNat cs * 10 ^ (width - cs.length)
      < 10 ^ cs.length * 10 ^ (width - cs.length) :=
        Nat.mul_lt_mul_of_pos_right (readNat_lt all) (Nat.pow_pos (by decide))
    _ = 10 ^ width := by rw [← Nat.pow_add, Nat.add_sub_cancel' short]

-- four digits are read two by two

theorem digits_four (n : Nat) : digits 4 n = digits 2 (n / 100) ++ digits 2 (n % 100) := by
  have first : n / 100 / 10 = n / 10 / 10 / 10 := by omega
  have second : n / 100 % 10 = n / 10 / 10 % 10 := by omega
  have third : n % 100 / 10 % 10 = n / 10 % 10 := by omega
  have fourth : n % 100 % 10 = n % 10 := by omega
  simp [digits, first, second, third, fourth]

namespace Moment.Stamp

theorem twoDigits?_digits {n : Nat} (bound : n < 100) (rest : List Char) :
    twoDigits? (digits 2 n ++ rest) = some (n, rest) := by
  have value : readNat (digits 2 n) = n := by
    rw [readNat_digits, Nat.mod_eq_of_lt (by omega)]
  have all := digits_all 2 n
  simp only [digits, List.nil_append, List.cons_append, List.mem_cons] at value all ⊢
  simp [twoDigits?, all, value]

theorem fraction?_digits {n : Nat} (bound : n < 1000000) {rest : List Char}
    (stop : ∀ c, rest.head? = some c → isAsciiDigit c = false) :
    fraction? (digits 6 n ++ rest) = some (n, rest) := by
  have front : (digits 6 n ++ rest).takeWhile isAsciiDigit = digits 6 n := by
    rw [List.takeWhile_append_of_pos (digits_all 6 n)]
    cases rest with
    | nil => simp
    | cons c rest => simp [stop c rfl]
  have length := digits_length 6 n
  have some : (digits 6 n).isEmpty = false := by
    cases empty : digits 6 n with
    | nil => simp [empty] at length
    | cons c cs => rfl
  have all : (digits 6 n).take 6 = digits 6 n := List.take_of_length_le (by omega)
  simp [fraction?, front, some, all, length, readNat_digits, Nat.mod_eq_of_lt bound,
    List.drop_left']

end Moment.Stamp

end Tabletop
