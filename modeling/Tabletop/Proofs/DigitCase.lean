import Tabletop.Proofs.Numerals

set_option autoImplicit false

namespace Tabletop.Text

def digitRanges : List (Nat × Nat) :=
  decimalZeros.map (fun z => (z, z + 9)) ++ otherDigits

theorem isDigitChar_eq (c : Char) : isDigitChar c = inRanges digitRanges c.toNat := by
  rw [Bool.eq_iff_iff, inRanges_iff]
  simp only [isDigitChar, decimalValue?, Option.isSome_map, digitRanges, List.mem_append, List.mem_map,
    Bool.or_eq_true, List.find?_isSome, Bool.and_eq_true, decide_eq_true_eq, inRanges_iff]
  constructor
  · rintro (⟨z, member, least, most⟩ | ⟨r, member, within⟩)
    · exact ⟨(z, z + 9), .inl ⟨z, member, rfl⟩, least, by omega⟩
    · exact ⟨r, .inr member, within⟩
  · rintro ⟨r, ⟨z, member, rfl⟩ | member, least, most⟩
    · exact .inl ⟨z, member, least, by omega⟩
    · exact .inr ⟨r, member, least, most⟩

theorem isDigitChar_ofNat {n : Nat} (plain : inRanges digitRanges n = false) :
    isDigitChar (Char.ofNat n) = false := by
  rw [isDigitChar_eq]
  by_cases valid : n.isValidChar
  · rw [Char.ofNat, dif_pos valid]
    exact plain
  · rw [Char.ofNat, dif_neg valid]
    decide

-- the letters of the table are no digits, and neither are the places they move to

def holdsDigit (low high : Nat) : Bool :=
  digitRanges.any fun d => d.1.ble high && low.ble d.2

theorem inRanges_of_bare {low high n : Nat} (bare : holdsDigit low high = false) (least : low ≤ n)
    (most : n ≤ high) : inRanges digitRanges n = false := by
  rw [holdsDigit, List.any_eq_false] at bare
  rw [inRanges, List.any_eq_false]
  intro d range within
  have apart := bare d range
  simp only [Bool.and_eq_true, decide_eq_true_eq, Nat.ble_eq] at within apart
  omega

theorem runs_bare : ∀ r ∈ lowerRuns, holdsDigit r.first r.last = false ∧
    holdsDigit (r.move r.first) (r.move r.last) = false := by
  decide +kernel

theorem covered_plain {r : CaseRun} (member : r ∈ lowerRuns) {n : Nat} (covered : r.covers n = true) :
    inRanges digitRanges n = false ∧ inRanges digitRanges (r.move n) = false := by
  have bare := runs_bare r member
  simp only [CaseRun.covers, Bool.and_eq_true, decide_eq_true_eq] at covered
  have least : r.move r.first ≤ r.move n := by
    unfold CaseRun.move
    omega
  have most : r.move n ≤ r.move r.last := by
    unfold CaseRun.move
    omega
  exact ⟨inRanges_of_bare bare.1 covered.1.1 covered.1.2, inRanges_of_bare bare.2 least most⟩

theorem asciiDigits : ∀ n < 128, isDigitChar (Char.ofNat n).toLower = isDigitChar (Char.ofNat n) ∧
    (isDigitChar (Char.ofNat n) = true → (Char.ofNat n).toLower = Char.ofNat n) := by
  decide +kernel

theorem mapCase_digit_cases (c : Char) :
    (isDigitChar c = true ∧ mapCase lowerLong lowerRuns c = [c]) ∨
      (isDigitChar c = false ∧ ∃ d ∈ mapCase lowerLong lowerRuns c, isDigitChar d = false) := by
  unfold mapCase
  cases long : lowerLong.lookup c.toNat with
  | some cs =>
    have dotted : c.toNat = 304 ∧ cs = [105, 775] := by
      rw [lowerLong, List.lookup_cons] at long
      split at long
      · rename_i same
        exact ⟨by simpa using same, by simpa using long.symm⟩
      · contradiction
    refine .inr ⟨?_, Char.ofNat 105, by simp [dotted.2], by decide⟩
    rw [isDigitChar_eq, dotted.1]
    decide
  | none =>
    cases run : lowerRuns.find? (·.covers c.toNat) with
    | none =>
      cases digit : isDigitChar c with
      | true => exact .inl ⟨rfl, rfl⟩
      | false => exact .inr ⟨rfl, c, List.mem_singleton_self c, digit⟩
    | some r =>
      have covered := List.find?_some run
      have plain := covered_plain (List.mem_of_find?_eq_some run) covered
      rw [isDigitChar_eq]
      exact .inr ⟨plain.1, _, List.mem_singleton_self _, isDigitChar_ofNat plain.2⟩

theorem lowerChar_digit_cases (c : Char) :
    (isDigitChar c = true ∧ lowerChar c = [c]) ∨
      (isDigitChar c = false ∧ ∃ d ∈ lowerChar c, isDigitChar d = false) := by
  unfold lowerChar
  split
  · rename_i ascii
    have digits := asciiDigits c.toNat ascii
    rw [Char.ofNat_toNat] at digits
    cases digit : isDigitChar c with
    | true => exact .inl ⟨rfl, by rw [digits.2 digit]⟩
    | false => exact .inr ⟨rfl, _, List.mem_singleton_self _, by rw [digits.1, digit]⟩
  · exact mapCase_digit_cases c

theorem lowerFrom_digit_cases (before cs : List Char) :
    ((∀ c ∈ cs, isDigitChar c = true) ∧ lowerFrom before cs = cs) ∨
      ((∃ c ∈ cs, isDigitChar c = false) ∧ ∃ d ∈ lowerFrom before cs, isDigitChar d = false) := by
  induction cs generalizing before with
  | nil => exact .inl ⟨by simp, rfl⟩
  | cons c cs ih =>
    by_cases sigma : c = 'Σ'
    · refine .inr ⟨⟨c, List.mem_cons_self, by rw [sigma]; decide⟩, ?_⟩
      rw [lowerFrom, if_pos sigma]
      split
      · exact ⟨'ς', List.mem_cons_self, by decide⟩
      · exact ⟨'σ', List.mem_cons_self, by decide⟩
    · rw [lowerFrom, if_neg sigma]
      rcases lowerChar_digit_cases c with ⟨digit, own⟩ | ⟨plain, d, member, other⟩
      · rcases ih (c :: before) with ⟨digits, same⟩ | ⟨⟨e, there, plain⟩, d, member, other⟩
        · exact .inl ⟨List.forall_mem_cons.2 ⟨digit, digits⟩, by rw [own, same]; rfl⟩
        · exact .inr ⟨⟨e, List.mem_cons_of_mem _ there, plain⟩, d, List.mem_append_right _ member, other⟩
      · exact .inr ⟨⟨c, List.mem_cons_self, plain⟩, d, List.mem_append_left _ member, other⟩

theorem isDigits_of_plain {s : String} {c : Char} (member : c ∈ s.toList)
    (plain : isDigitChar c = false) : isDigits s = false := by
  rw [isDigits, Bool.and_eq_false_iff]
  exact .inr (List.all_eq_false.2 ⟨c, member, by simp [plain]⟩)

theorem lower_digits {s : String} (digits : isDigits s = true) : lower s = s := by
  rcases lowerFrom_digit_cases [] s.toList with ⟨-, same⟩ | ⟨⟨c, member, plain⟩, -⟩
  · rw [lower, same, String.ofList_toList]
  · rw [isDigits_of_plain member plain] at digits
    contradiction

@[simp] theorem isDigits_lower (s : String) : isDigits (lower s) = isDigits s := by
  rcases lowerFrom_digit_cases [] s.toList with ⟨-, same⟩ | ⟨⟨c, member, plain⟩, d, small, other⟩
  · rw [lower, same, String.ofList_toList]
  · rw [isDigits_of_plain member plain]
    exact isDigits_of_plain (by rwa [lower, String.toList_ofList]) other

end Tabletop.Text
