import Tabletop.Proofs.MomentText

set_option autoImplicit false

namespace Tabletop

namespace Date

theorem daysBeforeYear_succ {year : Nat} (some : 1 ≤ year) :
    daysBeforeYear (year + 1) = daysBeforeYear year + if isLeap year then 366 else 365 := by
  obtain ⟨k, rfl⟩ : ∃ k, year = k + 1 := ⟨year - 1, by omega⟩
  have quarter : (k + 1) / 4 = k / 4 + if (k + 1) % 4 = 0 then 1 else 0 := by
    split <;> omega
  have hundred : (k + 1) / 100 = k / 100 + if (k + 1) % 100 = 0 then 1 else 0 := by
    split <;> omega
  have whole : (k + 1) / 400 = k / 400 + if (k + 1) % 400 = 0 then 1 else 0 := by
    split <;> omega
  have order : k / 100 ≤ k / 4 := by omega
  simp only [daysBeforeYear, isLeap, Nat.add_sub_cancel, quarter, hundred, whole]
  by_cases four : (k + 1) % 4 = 0
  · by_cases century : (k + 1) % 100 = 0
    · by_cases fourth : (k + 1) % 400 = 0 <;> simp [four, century, fourth] <;> omega
    · have never : ¬ (k + 1) % 400 = 0 := by omega
      simp [four, century, never]
      omega
  · have never : ¬ (k + 1) % 100 = 0 ∧ ¬ (k + 1) % 400 = 0 := by omega
    simp [four, never]
    omega

theorem daysBeforeYear_least (year : Nat) : 365 * (year - 1) ≤ daysBeforeYear year := by
  simp only [daysBeforeYear]
  omega

theorem year_fold (days guess : Nat) (start : daysBeforeYear guess ≤ days) (k : Nat) :
    let year := ((List.range k).map (guess + ·)).foldl
      (fun y c => if daysBeforeYear c ≤ days then c else y) guess
    guess ≤ year ∧ year ≤ guess + k ∧ daysBeforeYear year ≤ days ∧
      ∀ c, year < c → c < guess + k → days < daysBeforeYear c := by
  induction k with
  | zero =>
    refine ⟨Nat.le_refl _, Nat.le_refl _, start, fun c above below => ?_⟩
    exact absurd (Nat.lt_trans above below) (Nat.lt_irrefl guess)
  | succ k ih =>
    obtain ⟨least, most, reached, beyond⟩ := ih
    simp only [List.range_succ, List.map_append, List.map_cons, List.map_nil, List.foldl_append,
      List.foldl_cons, List.foldl_nil]
    split
    · exact ⟨by omega, by omega, ‹_›, fun c above below => absurd above (by omega)⟩
    · refine ⟨least, by omega, reached, fun c above below => ?_⟩
      by_cases last : c = guess + k
      · rw [last]
        omega
      · exact beyond c above (by omega)

def monthDays (year : Nat) : Nat → Nat → Nat
  | 0, month => daysInMonth year month
  | k + 1, month => daysInMonth year month + monthDays year k (month + 1)

theorem monthDays_year (year : Nat) : monthDays year 11 1 = if isLeap year then 366 else 365 := by
  cases leap : isLeap year <;> simp [monthDays, daysInMonth, leap]

theorem monthOf_bounds (year : Nat) (k month day : Nat) (within : day < monthDays year k month) :
    month ≤ (monthOf year k month day).1 ∧ (monthOf year k month day).1 ≤ month + k ∧
      (monthOf year k month day).2 < daysInMonth year (monthOf year k month day).1 := by
  induction k generalizing month day with
  | zero => exact ⟨Nat.le_refl _, Nat.le_refl _, within⟩
  | succ k ih =>
    unfold monthOf
    split
    · exact ⟨Nat.le_refl _, Nat.le_add_right _ _, ‹_›⟩
    · rw [monthDays] at within
      obtain ⟨least, most, bound⟩ := ih (month + 1) (day - daysInMonth year month) (by omega)
      exact ⟨by omega, by omega, bound⟩

theorem ofDays_valid {days : Nat} (bound : days ≤ 3652058) : (ofDays days).check = .ok (ofDays days) := by
  have start : daysBeforeYear (days / 366 + 1) ≤ days := by
    simp only [daysBeforeYear]
    omega
  have enough : days < daysBeforeYear (days / 366 + 1 + 40) := by
    have least := daysBeforeYear_least (days / 366 + 1 + 40)
    omega
  obtain ⟨least, most, reached, beyond⟩ := year_fold days (days / 366 + 1) start 40
  simp only [ofDays]
  generalize ((List.range 40).map (days / 366 + 1 + ·)).foldl
    (fun y c => if daysBeforeYear c ≤ days then c else y) (days / 366 + 1) = year at *
  have latest : year ≤ 9999 := by
    simp only [daysBeforeYear] at reached
    omega
  have next : days < daysBeforeYear (year + 1) := by
    by_cases inside : year + 1 < days / 366 + 1 + 40
    · exact beyond _ (Nat.lt_succ_self _) inside
    · by_cases last : year + 1 = days / 366 + 1 + 40
      · rwa [last]
      · rw [show year = days / 366 + 1 + 40 by omega] at reached
        omega
  rw [daysBeforeYear_succ (by omega), ← monthDays_year] at next
  obtain ⟨first, last, day⟩ := monthOf_bounds year 11 1 (days - daysBeforeYear year) (by omega)
  have earliest : 1 ≤ year := by omega
  exact check_ok ⟨earliest, latest⟩ ⟨first, last⟩ ⟨Nat.le_add_left _ _, day⟩

end Date

theorem Date.next_valid {d : Date} (valid : d.check = .ok d) (early : d.year < 9999) :
    d.next.check = .ok d.next ∧ d.next.year ≤ d.year + 1 := by
  obtain ⟨-, first, last, january, december, least, most⟩ := check_eq_ok valid
  have some (year month : Nat) : 1 ≤ daysInMonth year month := by
    unfold daysInMonth
    split <;> split <;> decide
  unfold next
  split
  · exact ⟨check_ok ⟨first, last⟩ ⟨january, december⟩ ⟨by simp, by simpa⟩, Nat.le_succ _⟩
  · split
    · rename_i within
      exact ⟨check_ok ⟨first, last⟩ ⟨Nat.le_add_left _ _, within⟩ ⟨Nat.le_refl _, some ..⟩,
        Nat.le_succ _⟩
    · exact ⟨check_ok ⟨Nat.le_add_left _ _, early⟩ ⟨Nat.le_refl _, (by decide : 1 ≤ 12)⟩
        ⟨Nat.le_refl _, some ..⟩, Nat.le_refl _⟩

theorem Time.ofMicros_valid (n : Nat) :
    (Time.ofMicros n).check = .ok (Time.ofMicros n) ∧ (Time.ofMicros n).micro < 1000000 := by
  refine ⟨check_ok ?_ ?_ ?_, ?_⟩ <;> simp only [ofMicros] <;> omega

theorem Time.ofMicros_micros {n : Nat} (within : n < Moment.dayMicros) :
    (ofMicros n).micros = n := by
  unfold Moment.dayMicros at within
  have hour : n / 1000000 / 3600 = n / 1000000 / 60 / 60 := (Nat.div_div_eq_div_mul _ 60 60).symm
  have day : n / 1000000 / 60 / 60 < 24 := by omega
  have seconds := Nat.div_add_mod (n / 1000000) 60
  have minutes := Nat.div_add_mod (n / 1000000 / 60) 60
  simp only [ofMicros, micros, hour, Nat.mod_eq_of_lt day]
  omega

namespace Moment

theorem ofMicros_legible {n : Nat} (bound : n < 3652059 * dayMicros) :
    (ofMicros n (some 0)).Legible where
  date := Date.ofDays_valid (by unfold dayMicros at bound ⊢; omega)
  time := (Time.ofMicros_valid _).1
  micro := (Time.ofMicros_valid _).2
  offset o same := ⟨0, by decide, by simp [ofMicros] at same; omega⟩

namespace Stamp

theorem ofMicros_epoch {micros : Int} (last : micros.fdiv 1000000 ≤ lastSecond) :
    (ofMicros (micros + epochDays * dayMicros).toNat (some 0)).Legible := by
  apply ofMicros_legible
  rw [Int.fdiv_eq_ediv_of_nonneg _ (by decide)] at last
  simp only [lastSecond] at last
  simp only [epochDays, dayMicros]
  omega

theorem ofUnix_legible {number micro : Int} {m : Moment} (found : ofUnix number micro = some m) :
    m.Legible := by
  simp only [ofUnix] at found
  by_cases large : millisecondBound < number.natAbs
  · simp only [if_pos large] at found
    split at found
    · rename_i within
      rw [Bool.and_eq_true, decide_eq_true_eq, decide_eq_true_eq] at within
      cases found
      exact ofMicros_epoch within.2
    · contradiction
  · simp only [if_neg large] at found
    split at found
    · rename_i within
      rw [Bool.and_eq_true, decide_eq_true_eq, decide_eq_true_eq] at within
      cases found
      exact ofMicros_epoch within.2
    · contradiction

theorem number?_legible {cs : List Char} {m : Moment} (found : number? cs = some m) :
    m.Legible := by
  simp only [number?] at found
  split at found
  · contradiction
  · split at found
    · split at found
      · exact ofUnix_legible found
      · contradiction
    · split at found
      · split at found
        · exact ofUnix_legible found
        · contradiction
      · contradiction
    · contradiction

theorem ofText_legible {s : String} {m : Moment} (found : ofText s = some m) : m.Legible := by
  unfold ofText at found
  cases calendar : calendar? s.toList with
  | some n =>
    simp only [calendar, Option.orElse_eq_or, Option.some_or, Option.some.injEq] at found
    exact found ▸ calendar?_legible calendar
  | none => exact number?_legible (by simpa [calendar] using found)

end Stamp

-- so many microseconds later the calendar has not ended
def Spare (m : Moment) (n : Nat) : Prop :=
  m.date.year < 9999 ∧ n < dayMicros ∨ m.time.micros + n < dayMicros

theorem Spare.mono {m : Moment} {k n : Nat} (spare : m.Spare n) (fewer : k ≤ n) : m.Spare k := by
  unfold Spare at spare ⊢
  omega

theorem next_legible {m : Moment} {n : Nat} (legible : m.Legible) (spare : m.Spare (n + 1)) :
    m.next.Legible ∧ m.next.Spare n := by
  simp only [next]
  split
  · rename_i within
    have time := Time.ofMicros_valid (m.time.micros + 1)
    refine ⟨⟨legible.date, time.1, time.2, legible.offset⟩, ?_⟩
    rcases spare with ⟨early, few⟩ | room
    · exact .inl ⟨early, by omega⟩
    · refine .inr ?_
      rw [Time.ofMicros_micros within]
      omega
  · rename_i past
    obtain ⟨early, few⟩ : m.date.year < 9999 ∧ n + 1 < dayMicros := by
      rcases spare with spare | room
      · exact spare
      · omega
    have date := Date.next_valid legible.date early
    refine ⟨⟨date.1, rfl, Nat.zero_lt_succ _, legible.offset⟩, .inr ?_⟩
    have midnight : Time.micros ⟨0, 0, 0, 0⟩ = 0 := rfl
    rw [midnight]
    omega

theorem next_next_legible {m : Moment} {n : Nat} (legible : m.Legible) (spare : m.Spare (n + 2)) :
    m.next.Legible ∧ m.next.next.Legible ∧ m.next.next.Spare n := by
  obtain ⟨first, more⟩ := next_legible legible spare
  obtain ⟨second, rest⟩ := next_legible first more
  exact ⟨first, second, rest⟩

end Moment

end Tabletop
