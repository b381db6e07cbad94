import Tabletop.Proofs.Digits

set_option autoImplicit false

namespace Tabletop

theorem Date.check_eq_ok {d e : Date} (checked : d.check = .ok e) :
    e = d ∧ 1 ≤ d.year ∧ d.year ≤ 9999 ∧ 1 ≤ d.month ∧ d.month ≤ 12 ∧ 1 ≤ d.day ∧
      d.day ≤ daysInMonth d.year d.month := by
  unfold check at checked
  split at checked
  · contradiction
  · split at checked
    · contradiction
    · split at checked
      · contradiction
      · simp_all
        omega

theorem Date.check_ok {d : Date} (year : 1 ≤ d.year ∧ d.year ≤ 9999)
    (month : 1 ≤ d.month ∧ d.month ≤ 12) (day : 1 ≤ d.day ∧ d.day ≤ daysInMonth d.year d.month) :
    d.check = .ok d := by
  unfold check
  rw [if_neg (by simp; omega), if_neg (by simp; omega), if_neg (by simp; omega)]

theorem Time.check_eq_ok {t u : Time} (checked : t.check = .ok u) :
    u = t ∧ t.hour ≤ 23 ∧ t.minute ≤ 59 ∧ t.second ≤ 59 := by
  unfold check at checked
  split at checked
  · contradiction
  · split at checked
    · contradiction
    · split at checked
      · contradiction
      · simp_all

theorem Time.check_ok {t : Time} (hour : t.hour ≤ 23) (minute : t.minute ≤ 59)
    (second : t.second ≤ 59) : t.check = .ok t := by
  unfold check
  rw [if_neg (by omega), if_neg (by omega), if_neg (by omega)]

theorem Date.daysInMonth_le (year month : Nat) : daysInMonth year month ≤ 31 := by
  unfold daysInMonth
  split
  · split <;> decide
  · split <;> decide

theorem Date.check_self {d e : Date} (checked : d.check = .ok e) : e.check = .ok e := by
  obtain ⟨rfl, -⟩ := check_eq_ok checked
  exact checked

theorem Time.check_self {t u : Time} (checked : t.check = .ok u) : u.check = .ok u := by
  obtain ⟨rfl, -⟩ := check_eq_ok checked
  exact checked

structure Moment.Legible (m : Moment) : Prop where
  date : m.date.check = .ok m.date
  time : m.time.check = .ok m.time
  micro : m.time.micro < 1000000
  offset : ∀ o, m.offset = some o → ∃ minutes, minutes < 1440 ∧ o.natAbs = minutes * 60000000

-- the texts of dates, times and offsets as digits

theorem Date.text_toList {d : Date} (valid : d.check = .ok d) :
    d.text.toList =
      digits 4 d.year ++ ('-' :: (digits 2 d.month ++ ('-' :: digits 2 d.day))) := by
  obtain ⟨-, -, year, -, month, -, day⟩ := Date.check_eq_ok valid
  have short := Date.daysInMonth_le d.year d.month
  simp [Date.text, padded_toList 3 d.year (by omega), padded_toList 1 d.month (by omega),
    padded_toList 1 d.day (by omega)]

def fractionOf (micro : Nat) : List Char :=
  if micro = 0 then [] else '.' :: digits 6 micro

theorem Time.text_toList {t : Time} (valid : t.check = .ok t) (micro : t.micro < 1000000) :
    t.text.toList =
      digits 2 t.hour ++ (':' :: (digits 2 t.minute ++ (':' :: (digits 2 t.second ++
        fractionOf t.micro)))) := by
  obtain ⟨-, hour, minute, second⟩ := Time.check_eq_ok valid
  by_cases whole : t.micro = 0
  · simp [Time.text, fractionOf, whole, padded_toList 1 t.hour (by omega),
      padded_toList 1 t.minute (by omega), padded_toList 1 t.second (by omega)]
  · simp [Time.text, fractionOf, whole, padded_toList 1 t.hour (by omega),
      padded_toList 1 t.minute (by omega), padded_toList 1 t.second (by omega),
      padded_toList 5 t.micro (by omega)]

theorem Moment.clockText_toList {minutes : Nat} (bound : minutes < 1440) :
    (clockText (minutes * 60000000)).toList =
      digits 2 (minutes / 60) ++ (':' :: digits 2 (minutes % 60)) := by
  have hours : minutes * 60000000 / 3600000000 = minutes / 60 := by omega
  have past : minutes * 60000000 / 1000000 / 60 % 60 = minutes % 60 := by omega
  have second : minutes * 60000000 / 1000000 % 60 = 0 := by omega
  have micro : minutes * 60000000 % 1000000 = 0 := by omega
  simp [clockText, Time.ofMicros, hours, past, second, micro,
    padded_toList 1 (minutes / 60) (by omega), padded_toList 1 (minutes % 60) (by omega)]

namespace Moment.Stamp

open Decimal (isAsciiDigit)

theorem date?_text {d : Date} (valid : d.check = .ok d) (rest : List Char) :
    date? (d.text.toList ++ rest) = some (d, rest) := by
  obtain ⟨-, -, year, -, month, -, day⟩ := Date.check_eq_ok valid
  have short := Date.daysInMonth_le d.year d.month
  have text : d.text.toList ++ rest =
      digits 2 (d.year / 100) ++ (digits 2 (d.year % 100) ++
        ('-' :: (digits 2 d.month ++ ('-' :: (digits 2 d.day ++ rest))))) := by
    simp [Date.text_toList valid, digits_four]
  have whole : 100 * (d.year / 100) + d.year % 100 = d.year := by omega
  rw [text, date?]
  simp only [twoDigits?_digits (n := d.year / 100) (by omega),
    twoDigits?_digits (n := d.year % 100) (by omega), twoDigits?_digits (n := d.month) (by omega),
    twoDigits?_digits (n := d.day) (by omega), expect, bind, Option.bind, if_true, whole, valid]

theorem clock?_text {t : Time} (valid : t.check = .ok t) (micro : t.micro < 1000000)
    {rest : List Char} (stop : ∀ c, rest.head? = some c → isAsciiDigit c = false ∧ c ≠ '.' ∧ c ≠ ',') :
    clock? (t.text.toList ++ rest) = some (t, rest) := by
  obtain ⟨-, hour, minute, second⟩ := Time.check_eq_ok valid
  have text : t.text.toList ++ rest =
      digits 2 t.hour ++ (':' :: (digits 2 t.minute ++ (':' :: (digits 2 t.second ++
        ((if t.micro = 0 then [] else '.' :: digits 6 t.micro) ++ rest))))) := by
    simp [Time.text_toList valid micro, fractionOf]
  rw [text, clock?]
  simp only [twoDigits?_digits (n := t.hour) (by omega), twoDigits?_digits (n := t.minute) (by omega),
    twoDigits?_digits (n := t.second) (by omega), expect, bind, Option.bind, if_true]
  by_cases whole : t.micro = 0
  · have same : (⟨t.hour, t.minute, t.second, 0⟩ : Time) = t := by rw [← whole]
    cases rest with
    | nil => simp [whole, same, valid]
    | cons c rest =>
      obtain ⟨-, point, comma⟩ := stop c rfl
      simp only [whole, if_true, List.nil_append, same, valid]
      split
      · rename_i here
        exact absurd (List.cons.inj here).1 point
      · rename_i here
        exact absurd (List.cons.inj here).1 comma
      · rfl
  · have fraction := fraction?_digits micro fun c head => (stop c head).1
    simp [whole, fraction, valid]

theorem signedOffset?_text {minutes : Nat} (bound : minutes < 1440) (sign : Int) :
    signedOffset? sign (clockText (minutes * 60000000)).toList =
      some (some (sign * (minutes * 60000000 : Nat))) := by
  have text : (clockText (minutes * 60000000)).toList =
      digits 2 (minutes / 60) ++ (':' :: (digits 2 (minutes % 60) ++ [])) := by
    rw [clockText_toList bound, List.append_nil]
  have whole : (((minutes / 60 : Nat) : Int) * 60 + (minutes % 60 : Nat)) * 60000000 =
      (minutes * 60000000 : Nat) := by omega
  rw [text, signedOffset?]
  simp only [twoDigits?_digits (n := minutes / 60) (by omega),
    twoDigits?_digits (n := minutes % 60) (by omega), bind, Option.bind]
  rw [if_pos (by simp; omega), whole]

theorem offset?_text {o : Option Int}
    (whole : ∀ x, o = some x → ∃ minutes, minutes < 1440 ∧ x.natAbs = minutes * 60000000)
    (apart : o ≠ some 0) : offset? (offsetText o).toList = some o := by
  cases o with
  | none => rfl
  | some x =>
    obtain ⟨minutes, bound, size⟩ := whole x rfl
    have text := signedOffset?_text bound
    by_cases negative : x < 0
    · have value : -1 * (minutes * 60000000 : Nat) = x := by omega
      rw [offsetText, if_pos negative, size, String.toList_append]
      change signedOffset? (-1) (clockText (minutes * 60000000)).toList = _
      rw [text, value]
    · have value : 1 * (minutes * 60000000 : Nat) = x := by omega
      rw [offsetText, if_neg negative, size, String.toList_append]
      change signedOffset? 1 (clockText (minutes * 60000000)).toList = _
      rw [text, value]

theorem offsetText_stop (o : Option Int) (c : Char) (head : (offsetText o).toList.head? = some c) :
    isAsciiDigit c = false ∧ c ≠ '.' ∧ c ≠ ',' := by
  cases o with
  | none => simp [offsetText] at head
  | some x =>
    by_cases negative : x < 0
    · simp [offsetText, negative] at head
      subst head
      decide
    · simp [offsetText, negative] at head
      subst head
      decide

-- a date and a time, with an ending that stands for an offset
theorem calendar?_text {d : Date} {t : Time} {o : Option Int} (date : d.check = .ok d)
    (time : t.check = .ok t) (micro : t.micro < 1000000) {rest : List Char}
    (stop : ∀ c, rest.head? = some c → isAsciiDigit c = false ∧ c ≠ '.' ∧ c ≠ ',')
    (reads : offset? rest = some o) :
    calendar? (d.text.toList ++ 'T' :: (t.text.toList ++ rest)) = some ⟨d, t, o⟩ := by
  have separator : isSeparator 'T' = true := by decide
  simp only [calendar?, date?_text date, bind, Option.bind, separator, if_true,
    clock?_text time micro stop, reads]

end Moment.Stamp

theorem Moment.Legible.ofText_recordText {m : Moment} (legible : m.Legible) :
    Stamp.ofText m.recordText = some m := by
  have calendar : Stamp.calendar? m.recordText.toList = some m := by
    unfold recordText
    split
    · rename_i universal
      have text : ({ m with offset := none }.isoText ++ "Z").toList =
          m.date.text.toList ++ 'T' :: (m.time.text.toList ++ ['Z']) := by
        simp [isoText, textWith, offsetText]
      rw [text, Stamp.calendar?_text legible.date legible.time legible.micro (o := some 0)
        (by simp; decide) rfl, ← universal]
    · rename_i apart
      have text : m.isoText.toList =
          m.date.text.toList ++ 'T' :: (m.time.text.toList ++ (offsetText m.offset).toList) := by
        simp [isoText, textWith]
      rw [text, Stamp.calendar?_text legible.date legible.time legible.micro
        (Stamp.offsetText_stop _) (Stamp.offset?_text legible.offset apart)]
  rw [Stamp.ofText, calendar]
  rfl

-- what is read

namespace Moment.Stamp

theorem date?_legible {cs rest : List Char} {d : Date} (found : date? cs = some (d, rest)) :
    d.check = .ok d := by
  simp only [date?, bind, Option.bind_eq_some_iff, Prod.exists] at found
  obtain ⟨_, _, -, _, _, -, _, -, _, _, -, _, -, _, _, -, checked⟩ := found
  split at checked
  · rename_i e same
    simp only [Option.some.injEq, Prod.mk.injEq] at checked
    rw [← checked.1]
    exact Date.check_self same
  · simp at checked

theorem fraction?_bound {cs rest : List Char} {n : Nat} (found : fraction? cs = some (n, rest)) :
    n < 1000000 := by
  simp only [fraction?] at found
  split at found
  · contradiction
  · simp only [Option.some.injEq, Prod.mk.injEq] at found
    rw [← found.1]
    refine readNat_scaled_lt (fun c member => ?_) (List.length_take_le ..)
    exact List.all_eq_true.1 List.all_takeWhile c (List.mem_of_mem_take member)

theorem checked_time {t u : Time} {r rest : List Char} (micro : t.micro < 1000000)
    (found : (match t.check with
      | .ok v => some (v, r)
      | .error _ => none) = some (u, rest)) : u.check = .ok u ∧ u.micro < 1000000 := by
  split at found
  · rename_i v same
    simp only [Option.some.injEq, Prod.mk.injEq] at found
    obtain ⟨rfl, -⟩ := found
    exact ⟨Time.check_self same, by rw [(Time.check_eq_ok same).1]; exact micro⟩
  · contradiction

theorem clock?_legible {cs rest : List Char} {t : Time} (found : clock? cs = some (t, rest)) :
    t.check = .ok t ∧ t.micro < 1000000 := by
  simp only [clock?, bind, Option.bind_eq_some_iff, Prod.exists] at found
  obtain ⟨_, _, -, _, -, _, after, -, found⟩ := found
  split at found
  · simp only [Option.bind_eq_some_iff, Prod.exists] at found
    obtain ⟨_, _, -, found⟩ := found
    split at found
    · simp only [Option.bind_eq_some_iff, Prod.exists] at found
      obtain ⟨_, _, fraction, _, _, _, same, found⟩ := found
      cases same
      exact checked_time (fraction?_bound fraction) found
    · simp only [Option.bind_eq_some_iff, Prod.exists] at found
      obtain ⟨_, _, fraction, _, _, _, same, found⟩ := found
      cases same
      exact checked_time (fraction?_bound fraction) found
    · exact checked_time (Nat.zero_lt_succ _) found
  · exact checked_time (Nat.zero_lt_succ _) found

theorem signedOffset?_legible {sign : Int} {cs : List Char} {o : Option Int}
    (unit : sign = 1 ∨ sign = -1) (found : signedOffset? sign cs = some o) :
    ∀ x, o = some x → ∃ minutes, minutes < 1440 ∧ x.natAbs = minutes * 60000000 := by
  simp only [signedOffset?, bind, Option.bind_eq_some_iff, Prod.exists] at found
  obtain ⟨hours, _, -, minutes, _, -, found⟩ := found
  split at found
  · rename_i bound
    simp only [Bool.and_eq_true, decide_eq_true_eq] at bound
    simp only [Option.some.injEq] at found
    rintro x rfl
    refine ⟨hours * 60 + minutes, by omega, ?_⟩
    have value := Option.some.inj found
    rcases unit with rfl | rfl <;> omega
  · contradiction

theorem offset?_legible {cs : List Char} {o : Option Int} (found : offset? cs = some o) :
    ∀ x, o = some x → ∃ minutes, minutes < 1440 ∧ x.natAbs = minutes * 60000000 := by
  unfold offset? at found
  split at found
  · rintro x rfl
    simp at found
  · simp only [Option.some.injEq] at found
    rintro x rfl
    exact ⟨0, by decide, by simp_all⟩
  · simp only [Option.some.injEq] at found
    rintro x rfl
    exact ⟨0, by decide, by simp_all⟩
  · exact signedOffset?_legible (.inl rfl) found
  · exact signedOffset?_legible (.inr rfl) found
  · exact signedOffset?_legible (.inr rfl) found
  · contradiction

theorem calendar?_legible {cs : List Char} {m : Moment} (found : calendar? cs = some m) :
    m.Legible := by
  simp only [calendar?, bind, Option.bind_eq_some_iff, Prod.exists] at found
  obtain ⟨d, r, date, found⟩ := found
  split at found
  · cases found
    exact ⟨date?_legible date, rfl, Nat.zero_lt_succ _, by simp⟩
  · split at found
    · simp only [Option.bind_eq_some_iff, Prod.exists] at found
      obtain ⟨t, r, clock, o, offset, found⟩ := found
      cases found
      have time := clock?_legible clock
      exact ⟨date?_legible date, time.1, time.2, offset?_legible offset⟩
    · contradiction

end Moment.Stamp

end Tabletop
