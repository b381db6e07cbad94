import Tabletop.Proofs.LevelText

set_option autoImplicit false

namespace Tabletop

namespace Text

/-- Digits with a decimal value each, and not too many of them. -/
def IsNumeral (s : String) : Prop :=
  (∀ c ∈ s.toList, (decimalValue? c).isSome = true) ∧ s.toList.length ≤ maxDigits

instance (s : String) : Decidable (IsNumeral s) :=
  decidable_of_iff (s.toList.all (fun c => (decimalValue? c).isSome) = true ∧
    s.toList.length ≤ maxDigits) (by simp [IsNumeral])

theorem inRanges_iff {ranges : List (Nat × Nat)} {n : Nat} :
    inRanges ranges n = true ↔ ∃ r ∈ ranges, r.1 ≤ n ∧ n ≤ r.2 := by
  simp [inRanges]

theorem decimalValue?_eq_some {c : Char} {d : Nat} (digit : decimalValue? c = some d) :
    ∃ z ∈ decimalZeros, z ≤ c.toNat ∧ c.toNat ≤ z + 9 ∧ d = c.toNat - z := by
  simp only [decimalValue?, Option.map_eq_some_iff] at digit
  obtain ⟨z, found, rfl⟩ := digit
  have bounds := List.find?_some found
  simp only [Bool.and_eq_true, decide_eq_true_eq] at bounds
  exact ⟨z, List.mem_of_find?_eq_some found, bounds.1, by omega, rfl⟩

-- no digit is a blank

theorem zeros_apart : ∀ z ∈ decimalZeros, ∀ b ∈ blankRanges, b.2 < z ∨ z + 9 < b.1 := by
  decide

theorem otherDigits_apart : ∀ r ∈ otherDigits, ∀ b ∈ blankRanges, b.2 < r.1 ∨ r.2 < b.1 := by
  decide

theorem otherDigits_least : ∀ r ∈ otherDigits, 178 ≤ r.1 := by
  decide

theorem isDigitChar_cases {c : Char} (digit : isDigitChar c = true) :
    (∃ z ∈ decimalZeros, z ≤ c.toNat ∧ c.toNat ≤ z + 9) ∨
      decimalValue? c = none ∧ ∃ r ∈ otherDigits, r.1 ≤ c.toNat ∧ c.toNat ≤ r.2 := by
  cases value : decimalValue? c with
  | some d =>
    obtain ⟨z, member, least, most, -⟩ := decimalValue?_eq_some value
    exact .inl ⟨z, member, least, most⟩
  | none =>
    rw [isDigitChar, value, Option.isSome_none, Bool.false_or] at digit
    exact .inr ⟨rfl, inRanges_iff.1 digit⟩

theorem isWhite_digit {c : Char} (digit : isDigitChar c = true) : isWhite c = false := by
  have dark : isBlank c = false := by
    rw [Bool.eq_false_iff]
    intro blank
    obtain ⟨b, range, least, most⟩ := inRanges_iff.1 blank
    rcases isDigitChar_cases digit with ⟨z, member, above, below⟩ | ⟨-, r, member, above, below⟩
    · have apart := zeros_apart z member b range
      omega
    · have apart := otherDigits_apart r member b range
      omega
  rw [isWhite, dark, Bool.false_and]

theorem digit_ne {c mark : Char} (digit : isDigitChar c = true) (other : isDigitChar mark = false) :
    c ≠ mark := by
  rintro rfl
  rw [digit] at other
  contradiction

theorem digitIn?_digit {c : Char} (digit : isDigitChar c = true) :
    digitIn? 10 c = decimalValue? c := by
  cases value : decimalValue? c with
  | some d =>
    obtain ⟨z, -, least, most, rfl⟩ := decimalValue?_eq_some value
    have small : c.toNat - z < 10 := by omega
    simp [digitIn?, value, small]
  | none =>
    rcases isDigitChar_cases digit with ⟨z, member, least, most⟩ | ⟨-, r, member, least, most⟩
    · have found : (decimalValue? c).isSome = true := by
        rw [decimalValue?, Option.isSome_map, List.find?_isSome]
        exact ⟨z, member, by simp [least]; omega⟩
      simp [value] at found
    · have high := otherDigits_least r member
      have plain (limit : Char) (low : limit.toNat < 178) : ¬ c ≤ limit := by
        intro within
        have order : c.toNat ≤ limit.toNat := within
        omega
      have letter : hexValue? c = none := by
        simp [hexValue?, plain '9' (by decide), plain 'f' (by decide), plain 'F' (by decide)]
      simp [digitIn?, value, letter]

theorem isNumeral_plain {s : String} (plain : IsPlain s) :
    IsNumeral s ↔ s.toList.length ≤ maxDigits := by
  refine and_iff_right fun c member => ?_
  have read := isDigit_read (plain.2 c member)
  rw [← digitIn?_digit read.2.1, read.1]
  rfl

-- reading goes through to the end exactly if every digit has a value

theorem moreDigits_digits {cs : List Char} (digits : ∀ c ∈ cs, isDigitChar c = true) :
    (moreDigits 10 cs).2 = [] ↔ ∀ c ∈ cs, (decimalValue? c).isSome = true := by
  induction cs with
  | nil => simp [moreDigits]
  | cons c cs ih =>
    rw [List.forall_mem_cons] at digits
    have mark : ∀ d rest, c = '_' → cs = d :: rest → False :=
      fun _ _ same _ => digit_ne digits.1 (by decide) same
    rw [moreDigits, digitIn?_digit digits.1, List.forall_mem_cons]
    · cases value : decimalValue? c with
      | none => simp
      | some d => simpa using ih digits.2
    · exact mark

theorem moreDigits_length {cs : List Char} (digits : ∀ c ∈ cs, isDigitChar c = true)
    (values : ∀ c ∈ cs, (decimalValue? c).isSome = true) :
    (moreDigits 10 cs).1.length = cs.length := by
  induction cs with
  | nil => simp [moreDigits]
  | cons c cs ih =>
    rw [List.forall_mem_cons] at digits values
    have mark : ∀ d rest, c = '_' → cs = d :: rest → False :=
      fun _ _ same _ => digit_ne digits.1 (by decide) same
    obtain ⟨d, value⟩ := Option.isSome_iff_exists.1 values.1
    rw [moreDigits, digitIn?_digit digits.1, value]
    · simp [ih digits.2 values.2]
    · exact mark

theorem isDigits_chars {s : String} (digits : isDigits s = true) :
    ∃ c cs, s.toList = c :: cs ∧ ∀ d ∈ c :: cs, isDigitChar d = true := by
  rw [isDigits, Bool.and_eq_true, Bool.not_eq_true', List.all_eq_true] at digits
  cases chars : s.toList with
  | nil => simp [String.toList_eq_nil_iff.1 chars] at digits
  | cons c cs => exact ⟨c, cs, rfl, chars ▸ digits.2⟩

theorem readInteger_digits_iff {s : String} (digits : isDigits s = true) :
    (∃ n, readInteger s = .ok n) ↔ IsNumeral s := by
  obtain ⟨c, cs, chars, all⟩ := isDigits_chars digits
  have whole : trimBy isWhite s.toList = c :: cs := by
    rw [chars, trimBy_self fun d member => isWhite_digit (all d member)]
  rw [List.forall_mem_cons] at all
  have sign : splitMinus (c :: cs) = (false, c :: cs) :=
    splitMinus_digit (digit_ne all.1 (by decide)) (digit_ne all.1 (by decide))
  rw [IsNumeral, chars, List.forall_mem_cons]
  simp only [readInteger, readIn, whole, sign, dropBaseMark_ten, readDigits, digitIn?_digit all.1]
  cases value : decimalValue? c with
  | none => simp
  | some d =>
    simp only [Option.map_some, isTooLong, Option.isSome_some, true_and, List.isEmpty_iff,
      moreDigits_digits all.2]
    by_cases values : ∀ e ∈ cs, (decimalValue? e).isSome = true
    · have length : (d :: (moreDigits 10 cs).1).length = cs.length + 1 := by
        rw [List.length_cons, moreDigits_length all.2 values]
      rw [length, List.length_cons, and_iff_right values, if_pos values]
      by_cases short : cs.length + 1 ≤ maxDigits
      · have fits : ¬ maxDigits < cs.length + 1 := by omega
        simp [short, fits]
      · have long : maxDigits < cs.length + 1 := by omega
        simp [short, long]
    · simp only [values, false_and, iff_false]
      split <;> simp

end Text

theorem integerOf_digits_iff {s : String} (digits : Text.isDigits s = true) :
    (∃ n, integerOf s = .ok n) ↔ Text.IsNumeral s := by
  rw [← Text.readInteger_digits_iff digits, integerOf]
  split <;> simp_all

end Tabletop
