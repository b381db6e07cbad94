import Tabletop.Moment.Iso
import Tabletop.Proofs.MomentText
import Tabletop.Proofs.RecordNames

set_option autoImplicit false

namespace Tabletop

open Decimal (isAsciiDigit)

namespace Moment.Iso

-- the bytes of a plain text are its characters

theorem byte_ascii : ∀ n < 128, Char.ofNat (UInt8.ofNat n).toNat = Char.ofNat n := by
  decide

theorem bytes_ascii {cs : List Char} (ascii : ∀ c ∈ cs, c.toNat < 128) :
    (cs.flatMap String.utf8EncodeChar).map (fun b => Char.ofNat b.toNat) = cs := by
  induction cs with
  | nil => rfl
  | cons c cs ih =>
    rw [List.forall_mem_cons] at ascii
    have byte : String.utf8EncodeChar c = [UInt8.ofNat c.toNat] := by
      have small : c.val.toNat ≤ 127 := Nat.le_of_lt_succ ascii.1
      simp only [String.utf8EncodeChar, if_pos small]
      rfl
    rw [List.flatMap_cons, List.map_append, byte, ih ascii.2, List.map_singleton,
      byte_ascii _ ascii.1, Char.ofNat_toNat, List.singleton_append]

theorem bytesOf_ascii {text : String} (ascii : ∀ c ∈ text.toList, c.toNat < 128) :
    bytesOf text = text.toList := by
  have bytes : text.toByteArray.data.toList = text.toList.flatMap String.utf8EncodeChar := by
    rw [← String.utf8Encode_toList, List.utf8Encode]
    simp
  rw [bytesOf, Text.utf8_bytes, bytes, bytes_ascii ascii]

theorem digits?_digits (width : Nat) {n : Nat} (bound : n < 10 ^ width) (rest : List Char) :
    digits? width (digits width n ++ rest) = some (n, rest) := by
  have all : (digits width n).all isAsciiDigit = true := List.all_eq_true.2 (digits_all width n)
  cases width with
  | zero =>
    obtain rfl : n = 0 := by simpa using bound
    rfl
  | succ width =>
    have length := digits_length (width + 1) n
    simp only [digits?, List.take_left' length, List.drop_left' length, length, decide_true, all,
      Bool.and_self, if_true, readNat_digits, Nat.mod_eq_of_lt bound]

-- the parts of the text

theorem mark_digit {c : Char} (digit : isAsciiDigit c = true) : isZoneMark c = false := by
  rw [Bool.eq_false_iff]
  intro mark
  simp only [isZoneMark, Bool.or_eq_true, decide_eq_true_eq] at mark
  rcases mark with (rfl | rfl) | rfl <;> exact absurd digit (by decide)

theorem separatorAt?_date {y m d : Nat} (rest : List Char) :
    separatorAt? (digits 4 y ++ ('-' :: (digits 2 m ++ ('-' :: (digits 2 d ++ rest))))) = some 10 := by
  have month := (digitChar_reads (m / 10 % 10) (Nat.mod_lt _ (by decide))).1
  have week : (m / 10 % 10).digitChar ≠ 'W' := by
    intro same
    rw [same] at month
    exact absurd month (by decide)
  have long : ¬ rest.length + 1 + 1 + 1 + 1 + 1 + 1 + 1 + 1 + 1 + 1 = 7 := by omega
  simp [separatorAt?, digits, week, long]

theorem date?_digits {d : Date} (valid : d.check = .ok d) (rest : List Char) :
    date? 10 (digits 4 d.year ++ ('-' :: (digits 2 d.month ++ ('-' :: (digits 2 d.day ++ rest))))) =
      some d := by
  obtain ⟨-, -, year, -, month, -, day⟩ := Date.check_eq_ok valid
  have short := Date.daysInMonth_le d.year d.month
  have week : peek (digits 2 d.month ++ ('-' :: (digits 2 d.day ++ rest))) ≠ 'W' := by
    have digit := (digitChar_reads (d.month / 10 % 10) (Nat.mod_lt _ (by decide))).1
    intro same
    have same : (d.month / 10 % 10).digitChar = 'W' := same
    rw [same] at digit
    exact absurd digit (by decide)
  simp only [date?, digits?_digits 4 (n := d.year) (by omega), bind, Option.bind]
  rw [if_neg (by simpa [peek] using week)]
  simp [peek, digits?_digits 2 (n := d.month) (by omega), dropDash,
    digits?_digits 2 (n := d.day) (by omega)]

theorem clock?_digits {t : Time} (valid : t.check = .ok t) (micro : t.micro < 1000000)
    {rest : List Char} (stop : ∀ c, rest.head? = some c → isAsciiDigit c = false) :
    clock? t.text.length (t.text.toList ++ rest) =
      some ⟨[t.hour, t.minute, t.second], t.micro, rest.isEmpty⟩ := by
  obtain ⟨-, hour, minute, second⟩ := Time.check_eq_ok valid
  rw [← String.length_toList, Time.text_toList valid micro]
  by_cases whole : t.micro = 0
  · simp [clock?, clockFrom?, fractionOf, whole, digits_length, peek,
      digits?_digits 2 (n := t.hour) (by omega),
      digits?_digits 2 (n := t.minute) (by omega),
      digits?_digits 2 (n := t.second) (by omega)]
  · have after : rest.dropWhile isAsciiDigit = rest := by
      cases rest with
      | nil => rfl
      | cons c rest => simp [stop c rfl]
    simp [clock?, clockFrom?, fraction?, fractionOf, whole, digits_length, peek, after,
      digits?_digits 2 (n := t.hour) (by omega),
      digits?_digits 2 (n := t.minute) (by omega),
      digits?_digits 2 (n := t.second) (by omega),
      digits?_digits 6 (n := t.micro) (by omega)]

theorem zoneAt_append {front back : List Char} (filled : front ≠ [])
    (plain : ∀ c ∈ front, isZoneMark c = false) (marked : ∀ c, back.head? = some c → isZoneMark c = true) :
    zoneAt (front ++ back) = front.length := by
  cases front with
  | nil => exact absurd rfl filled
  | cons c front =>
    rw [List.forall_mem_cons] at plain
    have stop : back.takeWhile (fun c => !isZoneMark c) = [] := by
      cases back with
      | nil => rfl
      | cons d back => simp [marked d rfl]
    have all : ∀ c ∈ front, (!isZoneMark c) = true := by simpa using plain.2
    have first : isZoneMark (peek (c :: front ++ back)) = false := plain.1
    rw [zoneAt, first, if_neg Bool.false_ne_true]
    simp [List.takeWhile_append_of_pos all, stop, Nat.add_comm]

theorem text_chars {t : Time} (valid : t.check = .ok t) (micro : t.micro < 1000000) :
    ∀ c ∈ t.text.toList, isAsciiDigit c = true ∨ c = ':' ∨ c = '.' := by
  have digits (width n : Nat) : ∀ c ∈ digits width n, isAsciiDigit c = true ∨ c = ':' ∨ c = '.' :=
    fun c member => .inl (digits_all width n c member)
  have fraction : ∀ c ∈ fractionOf t.micro, isAsciiDigit c = true ∨ c = ':' ∨ c = '.' := by
    unfold fractionOf
    split
    · simp
    · exact List.forall_mem_cons.2 ⟨.inr (.inr rfl), digits _ _⟩
  rw [Time.text_toList valid micro]
  simp only [List.forall_mem_append, List.forall_mem_cons]
  exact ⟨digits _ _, .inr (.inl trivial), digits _ _, .inr (.inl trivial), digits _ _, fraction⟩

theorem clock?_clockText {minutes : Nat} (bound : minutes < 1440) :
    clock? (clockText (minutes * 60000000)).toList.length (clockText (minutes * 60000000)).toList =
      some ⟨[minutes / 60, minutes % 60], 0, true⟩ := by
  have last := digits?_digits 2 (n := minutes % 60) (by omega) []
  rw [List.append_nil] at last
  rw [clockText_toList bound]
  simp [clock?, clockFrom?, digits_length, peek, digits?_digits 2 (n := minutes / 60) (by omega),
    last]

theorem offsetOf_minutes (minutes : Nat) :
    offsetOf ⟨minutes / 60, minutes % 60, 0, 0⟩ = (minutes * 60000000 : Nat) := by
  have micros : Time.micros ⟨minutes / 60, minutes % 60, 0, 0⟩ = minutes * 60000000 := by
    simp only [Time.micros]
    omega
  rw [offsetOf, micros]
  split
  · rename_i small
    omega
  · rfl

theorem text_unmarked {t : Time} (valid : t.check = .ok t) (micro : t.micro < 1000000) :
    ∀ c ∈ t.text.toList, isZoneMark c = false := by
  intro c member
  rcases text_chars valid micro c member with digit | rfl | rfl
  · exact mark_digit digit
  · rfl
  · rfl

theorem offsetText_marked (o : Option Int) :
    ∀ c, (offsetText o).toList.head? = some c → isZoneMark c = true := by
  intro c head
  cases o with
  | none => simp [offsetText] at head
  | some x => by_cases negative : x < 0 <;> simp [offsetText, negative] at head <;> subst head <;> rfl

theorem timeAndOffset?_text {t : Time} {o : Option Int} (valid : t.check = .ok t)
    (micro : t.micro < 1000000)
    (whole : ∀ x, o = some x → ∃ minutes, minutes < 1440 ∧ x.natAbs = minutes * 60000000) :
    timeAndOffset? (t.text.toList ++ (offsetText o).toList) = some (t, o) := by
  have filled : t.text.toList ≠ [] := by
    rw [Time.text_toList valid micro]
    simp [digits]
  have marked := offsetText_marked o
  have stop : ∀ c, (offsetText o).toList.head? = some c → isAsciiDigit c = false := by
    intro c head
    rw [Bool.eq_false_iff]
    intro digit
    exact Bool.false_ne_true ((mark_digit digit).symm.trans (marked c head))
  have zone := zoneAt_append filled (text_unmarked valid micro) marked
  rw [String.length_toList] at zone
  unfold timeAndOffset?
  simp only [zone, clock?_digits valid micro stop, bind, Option.bind,
    List.drop_left' String.length_toList]
  cases o with
  | none => rfl
  | some x =>
    obtain ⟨minutes, bound, size⟩ := whole x rfl
    have read := clock?_clockText bound
    have value := offsetOf_minutes minutes
    rw [← size] at read value
    have time : Clock.time ⟨[minutes / 60, minutes % 60], 0, true⟩ = ⟨minutes / 60, minutes % 60, 0, 0⟩ := rfl
    have text : (offsetText (some x)).toList =
        (if x < 0 then '-' else '+') :: (clockText x.natAbs).toList := by
      by_cases negative : x < 0 <;> simp [offsetText, negative]
    rw [text]
    by_cases negative : x < 0
    · have back : -(x.natAbs : Int) = x := by omega
      simp only [if_pos negative, List.isEmpty_cons, peek, List.headD_cons, List.length_cons,
        Nat.add_sub_cancel, List.drop_succ_cons, List.drop_zero, read, time, value, back]
      rfl
    · have back : (x.natAbs : Int) = x := by omega
      simp only [if_neg negative, List.isEmpty_cons, peek, List.headD_cons, List.length_cons,
        Nat.add_sub_cancel, List.drop_succ_cons, List.drop_zero, read, time, value, back]
      rfl

theorem isoText_toList {m : Moment} (legible : m.Legible) :
    m.isoText.toList =
      digits 4 m.date.year ++ ('-' :: (digits 2 m.date.month ++ ('-' :: (digits 2 m.date.day ++
        'T' :: (m.time.text.toList ++ (offsetText m.offset).toList))))) := by
  simp [isoText, textWith, Date.text_toList legible.date]

theorem digit_ascii {c : Char} (digit : isAsciiDigit c = true) : c.toNat < 128 := by
  simp only [isAsciiDigit, Bool.and_eq_true, decide_eq_true_eq, Char.le_def, UInt32.le_iff_toNat_le]
    at digit
  exact Nat.lt_of_le_of_lt digit.2 (by decide)

theorem isoText_ascii {m : Moment} (legible : m.Legible) : ∀ c ∈ m.isoText.toList, c.toNat < 128 := by
  have plain (width n : Nat) : ∀ c ∈ digits width n, c.toNat < 128 := fun c member =>
    digit_ascii (digits_all width n c member)
  have clock : ∀ c ∈ m.time.text.toList, c.toNat < 128 := by
    intro c member
    rcases text_chars legible.time legible.micro c member with digit | rfl | rfl
    · exact digit_ascii digit
    · decide
    · decide
  have zone : ∀ c ∈ (offsetText m.offset).toList, c.toNat < 128 := by
    cases given : m.offset with
    | none => simp [offsetText]
    | some x =>
      obtain ⟨minutes, bound, size⟩ := legible.offset x given
      have clock : ∀ c ∈ (clockText x.natAbs).toList, c.toNat < 128 := by
        rw [size, clockText_toList bound]
        simp only [List.forall_mem_append, List.forall_mem_cons]
        exact ⟨plain _ _, by decide, plain _ _⟩
      by_cases negative : x < 0 <;> simpa [offsetText, negative] using clock
  rw [isoText_toList legible]
  simp only [List.forall_mem_append, List.forall_mem_cons]
  exact ⟨plain _ _, by decide, plain _ _, by decide, plain _ _, by decide, clock, zone⟩

theorem parse_isoText {m : Moment} (legible : m.Legible) : parse m.isoText = .ok m := by
  have offset : ∀ o, m.offset = some o → o.natAbs < dayMicros := by
    intro o given
    obtain ⟨minutes, bound, size⟩ := legible.offset o given
    rw [size, dayMicros]
    omega
  have built : build m.date m.time m.offset = .ok m := by
    unfold build
    rw [legible.date, legible.time]
    cases given : m.offset with
    | none => simp [pure, Except.pure, ← given]
    | some o =>
      have inside := Nat.not_le_of_lt (offset o given)
      simp [pure, Except.pure, inside, ← given]
  have text := isoText_toList legible
  have clock := timeAndOffset?_text legible.time legible.micro legible.offset
  have ten : (digits 4 m.date.year ++ ('-' :: (digits 2 m.date.month ++ ('-' ::
      digits 2 m.date.day)))).length = 10 := by
    simp [digits_length]
  have cut : m.isoText.toList.drop 10 = 'T' :: (m.time.text.toList ++ (offsetText m.offset).toList) := by
    have split : m.isoText.toList = digits 4 m.date.year ++ ('-' :: (digits 2 m.date.month ++ ('-' ::
        digits 2 m.date.day))) ++ 'T' :: (m.time.text.toList ++ (offsetText m.offset).toList) := by
      simp [text]
    rw [split, List.drop_left' ten]
  have long : 10 < m.isoText.toList.length := by
    rw [← Nat.sub_pos_iff_lt, ← List.length_drop, cut]
    exact Nat.succ_pos _
  have after : m.isoText.toList.drop (10 + width (peek (m.isoText.toList.drop 10))) =
      m.time.text.toList ++ (offsetText m.offset).toList := by
    rw [← List.drop_drop, cut]
    rfl
  have separator : separatorAt? m.isoText.toList = some 10 := by rw [text, separatorAt?_date]
  have date : date? 10 m.isoText.toList = some m.date := by rw [text, date?_digits legible.date]
  have enough : ¬ m.isoText.toList.length < 7 := by omega
  simp only [parse, bytesOf_ascii (isoText_ascii legible), if_neg enough, separator, date, after, clock,
    if_neg (Nat.not_le_of_lt long), bind, Option.bind, pure, built]

end Moment.Iso

end Tabletop
