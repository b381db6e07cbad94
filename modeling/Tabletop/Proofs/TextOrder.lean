import Mathlib.Data.String.Basic
import Tabletop.Proofs.IsoText
import Tabletop.Proofs.MomentOrder

set_option autoImplicit false

namespace Tabletop

theorem digitChar_lt_iff : ∀ a < 10, ∀ b < 10, (a.digitChar < b.digitChar ↔ a < b) ∧
    (a.digitChar = b.digitChar ↔ a = b) := by
  decide

-- numbers of as many digits come first, and what follows decides among equal ones
theorem digits_append_lt_iff {width a b : Nat} {xs ys : List Char} (bound : a < 10 ^ width)
    (bound' : b < 10 ^ width) : digits width a ++ xs < digits width b ++ ys ↔ a < b ∨ a = b ∧ xs < ys := by
  induction width generalizing a b xs ys with
  | zero =>
    obtain rfl : a = 0 := by simpa using bound
    obtain rfl : b = 0 := by simpa using bound'
    simp [digits]
  | succ width ih =>
    rw [Nat.pow_succ] at bound bound'
    obtain ⟨less, same⟩ := digitChar_lt_iff (a % 10) (Nat.mod_lt _ (by decide)) (b % 10)
      (Nat.mod_lt _ (by decide))
    simp only [digits, List.append_assoc, List.singleton_append]
    rw [ih (by omega) (by omega), List.cons_lt_cons_iff, less, same]
    by_cases after : xs < ys <;> simp only [after, and_true, and_false, or_false] <;> omega

theorem fractionOf_lt_iff {a b : Nat} (bound : a < 1000000) (bound' : b < 1000000) :
    fractionOf a < fractionOf b ↔ a < b := by
  have digits : digits 6 a ++ [] < digits 6 b ++ [] ↔ _ := digits_append_lt_iff bound bound'
  rw [List.append_nil, List.append_nil] at digits
  unfold fractionOf
  split <;> split
  next whole whole' => simp [whole, whole']
  next whole part => simpa [whole] using Nat.pos_of_ne_zero part
  next part whole => simp [whole]
  next part part' => simp [digits]

namespace Moment

variable {m n : Moment}

open Iso (isoText_toList)

theorem isoText_lt_iff (legible : m.Legible) (legible' : n.Legible) (plain : m.offset = none)
    (plain' : n.offset = none) : m.isoText < n.isoText ↔ m.less n = true := by
  obtain ⟨-, -, year, -, month, -, day⟩ := Date.check_eq_ok legible.date
  obtain ⟨-, -, year', -, month', -, day'⟩ := Date.check_eq_ok legible'.date
  obtain ⟨-, hour, minute, second⟩ := Time.check_eq_ok legible.time
  obtain ⟨-, hour', minute', second'⟩ := Time.check_eq_ok legible'.time
  have short := Date.daysInMonth_le m.date.year m.date.month
  have short' := Date.daysInMonth_le n.date.year n.date.month
  rw [String.lt_iff_toList_lt, isoText_toList legible, isoText_toList legible', less_iff plain, plain, plain',
    Time.text_toList legible.time legible.micro, Time.text_toList legible'.time legible'.micro]
  simp only [offsetText, String.toList_empty, List.append_nil]
  -- part by part, and between the parts the same marks
  simp (disch := omega) only [digits_append_lt_iff, List.cons_lt_cons_iff, lt_irrefl, false_or, true_and,
    fractionOf_lt_iff legible.micro legible'.micro]
  simp [fields, List.cons_lt_cons_iff]

theorem isoText_injective (legible : m.Legible) (legible' : n.Legible) (same : m.isoText = n.isoText) :
    m = n := by
  have read := Iso.parse_isoText legible
  rw [same, Iso.parse_isoText legible'] at read
  exact (Except.ok.inj read).symm

end Moment

end Tabletop
