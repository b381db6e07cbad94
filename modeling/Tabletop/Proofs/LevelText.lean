import Tabletop.Character.Advancement
import Tabletop.Proofs.Digits

set_option autoImplicit false

namespace Tabletop

theorem minus_not_mem_repr (n : Nat) : '-' ∉ n.repr.toList := by
  intro member
  rw [Nat.toList_repr] at member
  have digit := Nat.isDigit_of_mem_toDigits (by decide) (by decide) member
  exact absurd digit (by decide)

theorem natRepr_injective {m n : Nat} (same : m.repr = n.repr) : m = n := by
  have digits := congrArg String.toList same
  rw [Nat.toList_repr, Nat.toList_repr] at digits
  rw [← Nat.ofDigitChars_ten_toDigits (n := m), digits, Nat.ofDigitChars_ten_toDigits]

theorem minus_ne_repr (text : String) (n : Nat) : "-" ++ text ≠ n.repr := by
  intro same
  apply minus_not_mem_repr n
  rw [← same, String.toList_append]
  exact List.mem_append_left _ (by decide)

theorem levelText_injective {a b : Int} (same : toString a = toString b) : a = b := by
  simp only [Int.toString_eq_repr, Int.repr_eq_if] at same
  split at same <;> split at same
  · have := natRepr_injective same
    omega
  · exact absurd same.symm (minus_ne_repr _ _)
  · exact absurd same (minus_ne_repr _ _)
  · have same := natRepr_injective ((String.append_right_inj "-").1 same)
    omega

@[simp] theorem levelText_inj {a b : Int} : a.repr = b.repr ↔ a = b :=
  ⟨fun same => levelText_injective same, fun same => same ▸ rfl⟩

/-- A number of few enough digits to have a text. -/
def IsWritten (n : Int) : Prop :=
  n.natAbs < 10 ^ Text.maxDigits

theorem isWritten_iff_digits {n : Int} :
    IsWritten n ↔ (Nat.toDigits 10 n.natAbs).length ≤ Text.maxDigits :=
  (Nat.length_toDigits_le_iff (by decide) (by decide)).symm

-- the digits are counted, so that the power is not computed
instance (n : Int) : Decidable (IsWritten n) :=
  decidable_of_iff _ isWritten_iff_digits.symm

theorem IsWritten.text {n : Int} (short : IsWritten n) : written n = .ok (toString n) := by
  rw [written, if_pos (isWritten_iff_digits.1 short)]

theorem written_fails {n : Int} (long : ¬IsWritten n) :
    written n = .error (.badValue Text.tooLargeMessage) := by
  rw [written, if_neg (mt isWritten_iff_digits.2 long)]

-- the least number without a text; what it is does not have to be computed
@[irreducible] def unwritten : Int := (10 ^ Text.maxDigits : Nat)

theorem unwritten_long : ¬IsWritten unwritten := by
  rw [IsWritten, unwritten]
  exact Nat.lt_irrefl _

theorem isWritten_of_bounds {n : Int} (least : 0 ≤ n) (most : n ≤ 30) : IsWritten n := by
  have more : 10 ^ 2 ≤ 10 ^ Text.maxDigits := Nat.pow_le_pow_right (by decide) (by decide)
  unfold IsWritten
  omega

namespace Text

def IsPlain (s : String) : Prop :=
  s.toList ≠ [] ∧ ∀ c ∈ s.toList, c.isDigit = true

-- the test runs over the characters of the text, not over all the characters there are
instance (s : String) : Decidable (IsPlain s) :=
  decidable_of_iff (s.toList ≠ [] ∧ s.toList.all Char.isDigit = true) (by simp [IsPlain])

def numberOf (s : String) : Nat :=
  Nat.ofDigitChars 10 s.toList 0

theorem plainDigits_read : ∀ d < 10, let c := Char.ofNat ('0'.toNat + d)
    digitIn? 10 c = some (c.toNat - '0'.toNat) ∧ isDigitChar c = true ∧ isWhite c = false ∧
      c ≠ '-' ∧ c ≠ '+' ∧ c ≠ '_' := by
  decide

theorem isDigit_read {c : Char} (digit : c.isDigit = true) :
    digitIn? 10 c = some (c.toNat - '0'.toNat) ∧ isDigitChar c = true ∧ isWhite c = false ∧
      c ≠ '-' ∧ c ≠ '+' ∧ c ≠ '_' := by
  simp only [Char.isDigit, Bool.and_eq_true, decide_eq_true_eq, ge_iff_le, UInt32.le_iff_toNat_le] at digit
  have least : '0'.toNat ≤ c.toNat := digit.1
  have most : c.toNat ≤ '9'.toNat := digit.2
  have nine : '9'.toNat = '0'.toNat + 9 := rfl
  have facts := plainDigits_read (c.toNat - '0'.toNat) (by omega)
  rwa [Nat.add_sub_cancel' least, Char.ofNat_toNat] at facts

theorem mem_toDigits {n : Nat} {c : Char} (member : c ∈ Nat.toDigits 10 n) :
    ∃ d < 10, c = d.digitChar := by
  induction n using Nat.strongRecOn with
  | ind n ih =>
    by_cases small : n < 10
    · rw [Nat.toDigits_of_lt_base small, List.mem_singleton] at member
      exact ⟨n, small, member⟩
    · rw [Nat.toDigits_of_base_le (by decide) (by omega), List.mem_append,
        List.mem_singleton] at member
      rcases member with front | last
      · exact ih (n / 10) (by omega) front
      · exact ⟨n % 10, Nat.mod_lt _ (by decide), last⟩

theorem trimBy_self {blank : Char → Bool} {cs : List Char} (none : ∀ c ∈ cs, blank c = false) :
    trimBy blank cs = cs := by
  have kept (xs : List Char) (none : ∀ c ∈ xs, blank c = false) : xs.dropWhile blank = xs := by
    cases xs with
    | nil => rfl
    | cons c xs => simp [none c (List.mem_cons_self ..)]
  unfold trimBy
  rw [kept cs none, kept cs.reverse (by simpa using none), List.reverse_reverse]

theorem moreDigits_all {cs : List Char}
    (all : ∀ c ∈ cs, digitIn? 10 c = some (c.toNat - '0'.toNat) ∧ c ≠ '_') :
    moreDigits 10 cs = (cs.map fun c => c.toNat - '0'.toNat, []) := by
  induction cs with
  | nil => rfl
  | cons c cs ih =>
    rw [List.forall_mem_cons] at all
    rw [moreDigits, all.1.1]
    · simp [ih all.2]
    · exact fun _ _ same => absurd same all.1.2

theorem dropBaseMark_ten (cs : List Char) : dropBaseMark 10 cs = cs := by
  unfold dropBaseMark
  split <;> simp [baseMarks]

theorem splitMinus_digit {c : Char} {cs : List Char} (minus : c ≠ '-') (plus : c ≠ '+') :
    splitMinus (c :: cs) = (false, c :: cs) := by
  unfold splitMinus
  split <;> simp_all

theorem readInteger_plain {s : String} (plain : IsPlain s) (length : s.toList.length ≤ maxDigits) :
    readInteger s = .ok (numberOf s) := by
  obtain ⟨some, all⟩ := plain
  unfold readInteger readIn numberOf
  rw [trimBy_self fun c member => (isDigit_read (all c member)).2.2.1]
  generalize s.toList = cs at length some all
  cases cs with
  | nil => contradiction
  | cons c cs =>
    rw [List.forall_mem_cons] at all
    obtain ⟨first, rest⟩ := all
    obtain ⟨digit, -, -, minus, plus, -⟩ := isDigit_read first
    have more := moreDigits_all fun c member =>
      let read := isDigit_read (rest c member)
      ⟨read.1, read.2.2.2.2.2⟩
    have digits : readDigits 10 (c :: cs) =
        Option.some ((c :: cs).map fun c => c.toNat - '0'.toNat, []) := by
      simp only [readDigits, digit, more, Option.map_some, List.map_cons]
    have short : isTooLong 10 ((c :: cs).map fun c => c.toNat - '0'.toNat) = false := by
      simp only [isTooLong, List.length_map]
      simpa using length
    have number : digitsValue 10 ((c :: cs).map fun c => c.toNat - '0'.toNat) =
        Nat.ofDigitChars 10 (c :: cs) 0 := by
      rw [digitsValue, List.foldl_map]
      rfl
    simp only [splitMinus_digit minus plus, dropBaseMark_ten, digits, short, number]
    rfl

theorem isDigits_plain {s : String} (plain : IsPlain s) : isDigits s = true := by
  have some : s.isEmpty = false := by
    rw [Bool.eq_false_iff, ne_eq, String.isEmpty_iff, ← String.toList_eq_nil_iff]
    exact plain.1
  rw [isDigits, some, List.all_eq_true.2 fun c member => (isDigit_read (plain.2 c member)).2.1]
  rfl

theorem plain_repr (n : Nat) : IsPlain n.repr := by
  rw [IsPlain, Nat.toList_repr]
  exact ⟨Nat.toDigits_ne_nil, fun c member => Nat.isDigit_of_mem_toDigits (by decide) (by decide) member⟩

@[simp] theorem numberOf_repr (n : Nat) : numberOf n.repr = n := by
  rw [numberOf, Nat.toList_repr, Nat.ofDigitChars_ten_toDigits]

theorem readInteger_repr {n : Nat} (length : (Nat.toDigits 10 n).length ≤ maxDigits) :
    readInteger n.repr = .ok n := by
  rw [readInteger_plain (plain_repr n) (by rwa [Nat.toList_repr]), numberOf_repr]

theorem isDigits_repr (n : Nat) : isDigits n.repr = true :=
  isDigits_plain (plain_repr n)

-- what is read from digits is the text of a level again

theorem mem_trimBy {blank : Char → Bool} {cs : List Char} {c : Char} (member : c ∈ trimBy blank cs) :
    c ∈ cs := by
  unfold trimBy at member
  rw [List.mem_reverse] at member
  have inner := (List.dropWhile_sublist _).subset member
  rw [List.mem_reverse] at inner
  exact (List.dropWhile_sublist _).subset inner

theorem digitIn?_lt {base d : Nat} {c : Char} (digit : digitIn? base c = some d) : d < base := by
  rw [digitIn?, Option.filter_eq_some_iff] at digit
  simpa using digit.2

theorem moreDigits_lt (base : Nat) (cs : List Char) : ∀ d ∈ (moreDigits base cs).1, d < base := by
  fun_induction moreDigits base cs with
  | case1 => simp
  | case2 c rest d digit ih => exact List.forall_mem_cons.2 ⟨digitIn?_lt digit, ih⟩
  | case3 => simp
  | case4 c rest _ d digit ih => exact List.forall_mem_cons.2 ⟨digitIn?_lt digit, ih⟩
  | case5 => simp

theorem readDigits_lt {base : Nat} {cs rest : List Char} {ds : List Nat}
    (read : readDigits base cs = some (ds, rest)) : ∀ d ∈ ds, d < base := by
  cases cs with
  | nil => contradiction
  | cons c cs =>
    simp only [readDigits, Option.map_eq_some_iff, Prod.mk.injEq] at read
    obtain ⟨d, digit, rfl, -⟩ := read
    exact List.forall_mem_cons.2 ⟨digitIn?_lt digit, moreDigits_lt base cs⟩

theorem minus_mem {cs body : List Char} (negative : splitMinus cs = (true, body)) : '-' ∈ cs := by
  unfold splitMinus at negative
  split at negative
  · exact List.mem_cons_self ..
  · simp at negative
  · simp at negative

-- a number read from digits is not negative, and can be written and read again
theorem readInteger_digits {key : String} {n : Int} (digits : isDigits key = true)
    (read : readInteger key = .ok n) :
    ∃ m : Nat, n = m ∧ (Nat.toDigits 10 m).length ≤ maxDigits := by
  have unsigned : '-' ∉ key.toList := by
    intro member
    rw [isDigits, Bool.and_eq_true, List.all_eq_true] at digits
    exact absurd (digits.2 _ member) (by decide)
  unfold readInteger readIn at read
  cases sign : splitMinus (trimBy isWhite key.toList) with
  | mk negative body =>
    cases negative with
    | true => exact absurd (mem_trimBy (minus_mem sign)) unsigned
    | false =>
      simp only [sign] at read
      cases found : readDigits 10 (dropBaseMark 10 body) with
      | none => simp [found] at read
      | some p =>
        obtain ⟨ds, tail⟩ := p
        simp only [found] at read
        split at read
        · contradiction
        · rename_i short
          split at read
          · have bound := foldl_digits_lt (readDigits_lt found) 0
            refine ⟨digitsValue 10 ds, by simpa using read.symm, ?_⟩
            have length : ds.length ≤ maxDigits := by simpa [isTooLong] using short
            cases ds with
            | nil => exact Nat.le_of_ble_eq_true rfl
            | cons d ds =>
              refine Nat.le_trans ?_ length
              have some : 0 < (d :: ds).length := Nat.zero_lt_succ _
              rw [Nat.length_toDigits_le_iff (by decide) some, digitsValue]
              rwa [Nat.zero_add, Nat.one_mul] at bound
          · contradiction

end Text

/-- The key of a level in a ledger: digits that are the level's own text. -/
def IsLevelKey (key : String) : Prop :=
  Text.isDigits key = true ∧ ∃ n, integerOf key = .ok n ∧ toString n = key

-- digits that are read as a number give a natural one
theorem integerOf_digits {key : String} {n : Int} (digits : Text.isDigits key = true)
    (read : integerOf key = .ok n) :
    ∃ m : Nat, n = m ∧ (Nat.toDigits 10 m).length ≤ Text.maxDigits := by
  unfold integerOf at read
  split at read
  · rename_i found
    cases read
    exact Text.readInteger_digits digits found
  · contradiction

theorem IsLevelKey.eq_repr {key : String} (level : IsLevelKey key) : ∃ n : Nat, key = n.repr := by
  obtain ⟨digits, n, read, rfl⟩ := level
  obtain ⟨m, rfl, -⟩ := integerOf_digits digits read
  exact ⟨m, rfl⟩

theorem isLevelKey_of_length {m : Nat} (length : (Nat.toDigits 10 m).length ≤ Text.maxDigits) :
    IsLevelKey (toString (m : Int)) := by
  have text : toString (m : Int) = m.repr := by
    rw [Int.toString_eq_repr]
    rfl
  rw [text]
  exact ⟨Text.isDigits_repr m, m, by rw [integerOf, Text.readInteger_repr length], text⟩

theorem IsLevelKey.isWritten {level : Int} (key : IsLevelKey (toString level)) : IsWritten level := by
  obtain ⟨digits, n, read, text⟩ := key
  obtain ⟨m, rfl, length⟩ := integerOf_digits digits read
  rw [← levelText_injective text]
  exact isWritten_iff_digits.2 length

theorem isLevelKey_of_read {key : String} {n : Int} (digits : Text.isDigits key = true)
    (read : integerOf key = .ok n) : IsLevelKey (toString n) := by
  obtain ⟨m, rfl, length⟩ := integerOf_digits digits read
  exact isLevelKey_of_length length

theorem isLevelKey_of_level {level : Int} (positive : 0 ≤ level) (bound : level < 100) :
    IsLevelKey (toString level) := by
  obtain ⟨m, rfl⟩ := Int.eq_ofNat_of_zero_le positive
  apply isLevelKey_of_length
  have two := (Nat.length_toDigits_le_iff (b := 10) (n := m) (k := 2) (by decide) (by decide)).2
    (by omega)
  exact Nat.le_trans two (Nat.le_of_ble_eq_true rfl)

end Tabletop
