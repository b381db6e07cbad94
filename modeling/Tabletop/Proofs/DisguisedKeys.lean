import Tabletop.Proofs.LedgerViews
import Tabletop.Proofs.SettlingKeys

/-!
Full names in disguise. A key is looked up in lower case and kept in upper case, and a few letters become
plain ones only in upper case. A full name that is spelled with them is not known at first, is kept in capitals,
and is known when it is met again, so the score that it holds then goes to another key.
-/

set_option autoImplicit false

namespace Tabletop

namespace Text

-- where a case table leads into ASCII from outside

theorem mapCase_ascii {long : List (Nat × List Nat)} {runs : List CaseRun} {letters : List Char}
    (words : ∀ e ∈ long, (∀ n ∈ e.2, (Char.ofNat n).toNat < 128) → Char.ofNat e.1 ∈ letters)
    (moves : ∀ r ∈ runs, r.lands = true ∧
      (128 ≤ r.move r.first ∨ r.last < 128 ∨ r.first = r.last ∧ Char.ofNat r.first ∈ letters))
    {c : Char} (beyond : 128 ≤ c.toNat) (ascii : ∀ d ∈ mapCase long runs c, d.toNat < 128) :
    c ∈ letters := by
  unfold mapCase at ascii
  cases word : long.lookup c.toNat with
  | some ns =>
    simp only [word, List.forall_mem_map] at ascii
    have listed := words (c.toNat, ns) (mem_of_lookup word) ascii
    rwa [Char.ofNat_toNat] at listed
  | none =>
    cases run : runs.find? (·.covers c.toNat) with
    | none =>
      simp only [word, run, List.forall_mem_singleton] at ascii
      omega
    | some r =>
      have covers : r.covers c.toNat = true := by simpa using List.find?_some run
      obtain ⟨lands, out⟩ := moves r (List.mem_of_find?_eq_some run)
      simp only [word, run, List.forall_mem_singleton] at ascii
      obtain ⟨⟨low, high⟩, -⟩ := CaseRun.covers_iff.1 covers
      rcases out with out | out | ⟨single, listed⟩
      · rw [CaseRun.toNat_ofNat_move lands covers] at ascii
        simp only [CaseRun.move] at out ascii
        omega
      · omega
      · have same : r.first = c.toNat := by omega
        rwa [same, Char.ofNat_toNat] at listed

/-- The letters outside of ASCII whose upper case is plain. -/
def foldedLetters : List Char := ['ß', 'ı', 'ſ', 'ﬀ', 'ﬁ', 'ﬂ', 'ﬃ', 'ﬄ', 'ﬅ', 'ﬆ']

theorem upperLong_ascii :
    ∀ e ∈ upperLong, (∀ n ∈ e.2, (Char.ofNat n).toNat < 128) → Char.ofNat e.1 ∈ foldedLetters := by
  decide +kernel

theorem upperRuns_ascii : ∀ r ∈ upperRuns, r.lands = true ∧
    (128 ≤ r.move r.first ∨ r.last < 128 ∨ r.first = r.last ∧ Char.ofNat r.first ∈ foldedLetters) := by
  decide +kernel

theorem mem_foldedLetters {c : Char} (beyond : 128 ≤ c.toNat)
    (ascii : ∀ d ∈ upperChar c, d.toNat < 128) : c ∈ foldedLetters := by
  rw [upperChar, if_neg (by omega)] at ascii
  exact mapCase_ascii upperLong_ascii upperRuns_ascii beyond ascii

theorem lowerLong_ascii :
    ∀ e ∈ lowerLong, (∀ n ∈ e.2, (Char.ofNat n).toNat < 128) → Char.ofNat e.1 ∈ ['\u212a'] := by
  decide +kernel

theorem lowerRuns_ascii : ∀ r ∈ lowerRuns, r.lands = true ∧
    (128 ≤ r.move r.first ∨ r.last < 128 ∨ r.first = r.last ∧ Char.ofNat r.first ∈ ['\u212a']) := by
  decide +kernel

-- only the sign for kelvin has a plain lower case, and that is a `k`
theorem lowerChar_plain {c : Char} (plain : ∀ d ∈ lowerChar c, d.toNat < 128 ∧ d ≠ 'k') :
    c.toNat < 128 := by
  by_contra beyond
  have outside : lowerChar c = mapCase lowerLong lowerRuns c := by rw [lowerChar, if_neg beyond]
  have kelvin := mapCase_ascii lowerLong_ascii lowerRuns_ascii (by omega)
    fun d member => (plain d (outside ▸ member)).1
  have small : 'k' ∈ lowerChar c := by
    rw [List.mem_singleton.1 kelvin]
    decide +kernel
  exact (plain 'k' small).2 rfl

theorem lowerFrom_plain {before cs : List Char}
    (plain : ∀ d ∈ lowerFrom before cs, d.toNat < 128 ∧ d ≠ 'k') : ∀ c ∈ cs, c.toNat < 128 := by
  induction cs generalizing before with
  | nil => simp
  | cons c cs ih =>
    rw [lowerFrom, List.forall_mem_append] at plain
    rw [List.forall_mem_cons]
    refine ⟨?_, ih plain.2⟩
    by_cases sigma : c = 'Σ'
    · rw [if_pos sigma] at plain
      split at plain
      · exact absurd (plain.1 'ς' List.mem_cons_self).1 (by decide)
      · exact absurd (plain.1 'σ' List.mem_cons_self).1 (by decide)
    · rw [if_neg sigma] at plain
      exact lowerChar_plain plain.1

theorem isAscii_of_lower {s : String} (ascii : isAscii (lower s) = true) (k : 'k' ∉ (lower s).toList) :
    isAscii s = true := by
  have all : ∀ d ∈ (lower s).toList, d.toNat < 128 := by simpa [isAscii] using ascii
  rw [lower, String.toList_ofList] at all k
  have plain := lowerFrom_plain fun d member => ⟨all d member, fun same => k (same ▸ member)⟩
  simpa [isAscii] using plain

theorem asciiLowerCase : ∀ n < 128, (Char.ofNat n).toLower.toNat < 128 ∧
    (Char.ofNat n).toLower.toUpper = (Char.ofNat n).toUpper := by
  decide +kernel

theorem upper_lower {s : String} (ascii : isAscii s = true) : upper (lower s) = upper s := by
  have all : ∀ c ∈ s.toList, c.toNat < 128 := by simpa [isAscii] using ascii
  have case (c : Char) (member : c ∈ s.toList) :
      c.toLower.toNat < 128 ∧ c.toLower.toUpper = c.toUpper := by
    have case := asciiLowerCase c.toNat (all c member)
    rwa [Char.ofNat_toNat] at case
  have lowerAscii : isAscii (lower s) = true := by
    rw [lower_ascii ascii]
    simpa [isAscii] using fun c member => (case c member).1
  rw [upper_ascii lowerAscii, upper_ascii ascii, lower_ascii ascii, String.toList_ofList, List.map_map]
  exact congrArg String.ofList (List.map_congr_left fun c member => (case c member).2)

theorem upperChar_infix {s : String} {c : Char} (member : c ∈ s.toList) :
    upperChar c <:+: (upper s).toList := by
  obtain ⟨before, after, whole⟩ := List.append_of_mem member
  rw [upper, String.toList_ofList, whole, List.flatMap_append, List.flatMap_cons]
  exact ⟨_, _, List.append_assoc ..⟩

end Text

namespace Ability

open Text (upper lower upperChar foldedLetters)

def capitals : List String := fullNames.map fun e => upper e.1

/-- The letters that pass for an `i`, an `s` or an `st` of a full name in upper case only. -/
def lookalikes : List Char := ['ı', 'ſ', 'ﬅ', 'ﬆ']

/-- A key that is a full name in upper case, and is spelled with a letter that is plain in upper case only. -/
structure IsDisguised (key : String) : Prop where
  name : upper key ∈ capitals
  letter : ∃ c ∈ key.toList, c ∈ lookalikes

instance (key : String) : Decidable (IsDisguised key) :=
  decidable_of_iff (upper key ∈ capitals ∧ (key.toList.any fun c => lookalikes.contains c) = true)
    ⟨fun ⟨name, letter⟩ => ⟨name, by simpa using letter⟩, fun ⟨name, letter⟩ => ⟨name, by simpa using letter⟩⟩

theorem fullName_plain {name short : String} (found : fullNames.lookup name = some short) :
    isAscii name = true ∧ 'k' ∉ name.toList := by
  have all : ∀ e ∈ fullNames, isAscii e.1 = true ∧ 'k' ∉ e.1.toList := by decide +kernel
  exact all (name, short) (Text.mem_of_lookup found)

theorem capital_of_fullName {name short : String} (found : fullNames.lookup name = some short) :
    upper name ∈ capitals :=
  List.mem_map.2 ⟨(name, short), Text.mem_of_lookup found, rfl⟩

theorem keys_not_capitals : ∀ k ∈ keys, k ∉ capitals := by
  decide +kernel

theorem capitals_ascii : ∀ k ∈ capitals, isAscii k = true := by
  decide +kernel

theorem lookup_lower_capitals : ∀ k ∈ capitals, (fullNames.lookup (lower k)).isSome = true := by
  decide +kernel

-- the other folded letters spell an `f` or a double `s`, which no full name has
theorem lookalike_of_infix {c : Char} (folded : c ∈ foldedLetters) {k : String} (capital : k ∈ capitals)
    (within : upperChar c <:+: k.toList) : c ∈ lookalikes := by
  have all : (foldedLetters.all fun c => capitals.all fun k =>
      decide (upperChar c <:+: k.toList → c ∈ lookalikes)) = true := by
    decide +kernel
  simp only [List.all_eq_true, decide_eq_true_eq] at all
  exact all c folded k capital within

-- what is known in lower case holds plain letters only, so it has no lookalikes
theorem isAscii_of_found {key short : String} (found : fullNames.lookup (lower key) = some short) :
    isAscii key = true :=
  Text.isAscii_of_lower (fullName_plain found).1 (fullName_plain found).2

theorem upper_normalizeKey (key : String) : upper (normalizeKey key) = normalizeKey key := by
  have short : ∀ k ∈ keys, upper k = k := by decide +kernel
  cases found : fullNames.lookup (lower key) with
  | some s =>
    rw [normalizeKey_of_found found]
    exact short s (lookup_key found)
  | none => rw [normalizeKey_of_none found, Text.upper_upper]

theorem found_iff_capitals {key : String} (upperCase : upper key = key) :
    (fullNames.lookup (lower key)).isSome = true ↔ key ∈ capitals := by
  refine ⟨fun known => ?_, lookup_lower_capitals key⟩
  obtain ⟨short, found⟩ := Option.isSome_iff_exists.1 known
  rw [← upperCase, ← Text.upper_lower (isAscii_of_found found)]
  exact capital_of_fullName found

theorem normalizeKey_eq_self_iff {key : String} (upperCase : upper key = key) :
    normalizeKey key = key ↔ key ∉ capitals := by
  rw [← found_iff_capitals upperCase]
  cases found : fullNames.lookup (lower key) with
  | some short =>
    have own := normalizeKey_of_found found
    have known : key ∈ capitals := (found_iff_capitals upperCase).1 (by rw [found]; rfl)
    refine iff_of_false (fun same => ?_) (by simp)
    exact keys_not_capitals short (lookup_key found) (by rwa [← own, same])
  | none => simp [normalizeKey_of_none found, upperCase]

-- the upper case of each letter is a part of the name in capitals, and that is all plain
theorem exists_lookalike {key : String} (name : upper key ∈ capitals) (foreign : isAscii key = false) :
    ∃ c ∈ key.toList, c ∈ lookalikes := by
  obtain ⟨c, member, beyond⟩ : ∃ c ∈ key.toList, 128 ≤ c.toNat := by simpa [isAscii] using foreign
  have within := Text.upperChar_infix member
  have ascii : ∀ d ∈ (upper key).toList, d.toNat < 128 := by
    simpa [isAscii] using capitals_ascii _ name
  have folded := Text.mem_foldedLetters beyond fun d held => ascii d (within.subset held)
  exact ⟨c, member, lookalike_of_infix folded name within⟩

theorem isAscii_eq_false_of_lookalike {key : String} {c : Char} (member : c ∈ key.toList)
    (lookalike : c ∈ lookalikes) : isAscii key = false := by
  have beyond : ∀ c ∈ lookalikes, 128 ≤ c.toNat := by simp [lookalikes]
  simpa [isAscii] using ⟨c, member, beyond c lookalike⟩

theorem normalizeKey_mem_capitals_iff {key : String} : normalizeKey key ∈ capitals ↔ IsDisguised key := by
  cases found : fullNames.lookup (lower key) with
  | some short =>
    rw [normalizeKey_of_found found]
    refine iff_of_false (keys_not_capitals short (lookup_key found)) fun ⟨_, c, member, lookalike⟩ => ?_
    exact absurd (isAscii_of_found found) (by simp [isAscii_eq_false_of_lookalike member lookalike])
  | none =>
    rw [normalizeKey_of_none found]
    refine ⟨fun name => ⟨name, exists_lookalike name ?_⟩, IsDisguised.name⟩
    -- in plain letters the name would have been known at once
    rw [← Bool.not_eq_true]
    intro ascii
    have known := lookup_lower_capitals _ name
    rw [(Text.upper_case ascii).2.2, found] at known
    exact Bool.false_ne_true known

theorem normalizeKey_normalizeKey_iff (key : String) :
    normalizeKey (normalizeKey key) = normalizeKey key ↔ ¬IsDisguised key :=
  (normalizeKey_eq_self_iff (upper_normalizeKey key)).trans (not_congr normalizeKey_mem_capitals_iff)

end Ability

end Tabletop
