import Mathlib.Data.List.Lex
import Mathlib.Order.Defs.LinearOrder
import Tabletop.Proofs.Calendar

set_option autoImplicit false

namespace Tabletop

-- what lies under a number has as many units as the number or fewer, and with as many a smaller rest
theorem carry {a u r n : Nat} (pos : 0 < u) (below : a * u + r < n) :
    a < n / u ∨ a = n / u ∧ r < n % u := by
  have whole : a ≤ n / u := (Nat.le_div_iff_mul_le pos).2 (by omega)
  refine (Nat.lt_or_eq_of_le whole).imp_right fun same => ⟨same, ?_⟩
  have parts := Nat.div_add_mod' n u
  rw [← same] at parts
  omega

theorem Time.ofMicros_units {n : Nat} (within : n < 86400000000) :
    Time.ofMicros n = ⟨n / 3600000000, n % 3600000000 / 60000000, n % 3600000000 % 60000000 / 1000000,
      n % 3600000000 % 60000000 % 1000000⟩ := by
  simp only [Time.ofMicros, Time.mk.injEq]
  refine ⟨?_, ?_, ?_, ?_⟩ <;> omega

namespace Moment

def fields (m : Moment) : List Nat :=
  [m.date.year, m.date.month, m.date.day, m.time.hour, m.time.minute, m.time.second, m.time.micro]

variable {a b c : Moment}

theorem less_iff (plain : a.offset = none) : a.less b = true ↔ a.fields < b.fields := by
  simp [less, plain, fieldsLess, fields]

theorem less_trans (plain : a.offset = none) (plain' : b.offset = none) (first : a.less b = true)
    (second : b.less c = true) : a.less c = true := by
  rw [less_iff plain] at first ⊢
  rw [less_iff plain'] at second
  exact lt_trans first second

theorem less_of_not_less (plain : a.offset = none) (plain' : b.offset = none)
    (first : b.less a = false) (second : b.less c = true) : a.less c = true := by
  rw [less_iff plain'] at second
  rw [← Bool.not_eq_true, less_iff plain', not_lt] at first
  rw [less_iff plain]
  exact lt_of_le_of_lt first second

theorem less_of_less_of_not_less (plain : a.offset = none) (plain' : c.offset = none)
    (first : a.less b = true) (second : c.less b = false) : a.less c = true := by
  rw [less_iff plain] at first ⊢
  rw [← Bool.not_eq_true, less_iff plain', not_lt] at second
  exact lt_of_lt_of_le first second

theorem not_less_of_less (plain : a.offset = none) (plain' : b.offset = none) (before : a.less b = true) :
    b.less a = false := by
  rw [less_iff plain] at before
  rw [← Bool.not_eq_true, less_iff plain']
  exact not_lt_of_gt before

theorem less_self (m : Moment) (plain : m.offset = none) : m.less m = false := by
  rw [← Bool.not_eq_true, less_iff plain]
  exact lt_irrefl _

theorem offset_next (m : Moment) : m.next.offset = m.offset := by
  rw [next]
  by_cases within : m.time.micros + 1 < dayMicros
  · rw [if_pos within]
  · rw [if_neg within]

theorem less_next (m : Moment) (plain : m.offset = none) : m.less m.next = true := by
  rw [less_iff plain]
  unfold next
  simp only
  split
  · rename_i within
    simp only [fields, Time.ofMicros_units within, List.cons_lt_cons_iff, lt_irrefl, false_or, true_and]
    generalize later : m.time.micros + 1 = n
    have hours : m.time.hour * 3600000000 +
        (m.time.minute * 60000000 + (m.time.second * 1000000 + m.time.micro)) < n := by
      rw [Time.micros] at later
      omega
    -- the first unit that changes is larger than it was
    refine (carry (by decide) hours).imp_right (And.imp_right fun minutes => ?_)
    refine (carry (by decide) minutes).imp_right (And.imp_right fun seconds => ?_)
    refine (carry (by decide) seconds).imp_right (And.imp_right fun micros => ?_)
    exact .inl micros
  · simp only [fields, Date.next]
    split
    · simp [List.cons_lt_cons_iff]
    · split
      · simp [List.cons_lt_cons_iff]
      · simp [List.cons_lt_cons_iff]

end Moment

end Tabletop
