import Tabletop.Proofs.CharacterRecord

set_option autoImplicit false

namespace Tabletop

def isAscii (s : String) : Bool :=
  s.toList.all fun c => c.toNat < 128

namespace Text

theorem mem_of_lookup {κ α : Type} [DecidableEq κ] {es : List (κ × α)} {key : κ} {value : α}
    (found : es.lookup key = some value) : (key, value) ∈ es := by
  obtain ⟨before, after, whole, -⟩ := List.lookup_eq_some_iff.1 found
  rw [whole]
  exact List.mem_append_right _ List.mem_cons_self

theorem lowerFrom_ascii {before cs : List Char} (ascii : ∀ c ∈ cs, c.toNat < 128) :
    lowerFrom before cs = cs.map Char.toLower := by
  induction cs generalizing before with
  | nil => rfl
  | cons c cs ih =>
    rw [List.forall_mem_cons] at ascii
    have plain : c ≠ 'Σ' := by
      rintro rfl
      exact absurd ascii.1 (by decide)
    simp [lowerFrom, plain, lowerChar, ascii.1, ih ascii.2]

theorem lower_ascii {s : String} (ascii : isAscii s = true) :
    lower s = String.ofList (s.toList.map Char.toLower) := by
  rw [lower, lowerFrom_ascii (by simpa [isAscii] using ascii)]

theorem upper_ascii {s : String} (ascii : isAscii s = true) :
    upper s = String.ofList (s.toList.map Char.toUpper) := by
  have all : ∀ c ∈ s.toList, c.toNat < 128 := by simpa [isAscii] using ascii
  have flat : ∀ cs : List Char, (∀ c ∈ cs, c.toNat < 128) →
      cs.flatMap upperChar = cs.map Char.toUpper := by
    intro cs all
    induction cs with
    | nil => rfl
    | cons c cs ih =>
      rw [List.forall_mem_cons] at all
      simp [upperChar, all.1, ih all.2]
  rw [upper, flat _ all]

theorem asciiCase : ∀ n < 128, (Char.ofNat n).toUpper.toNat < 128 ∧
    (Char.ofNat n).toUpper.toUpper = (Char.ofNat n).toUpper ∧
    (Char.ofNat n).toUpper.toLower = (Char.ofNat n).toLower := by
  decide +kernel

theorem char_case {c : Char} (ascii : c.toNat < 128) :
    c.toUpper.toNat < 128 ∧ c.toUpper.toUpper = c.toUpper ∧ c.toUpper.toLower = c.toLower := by
  have case := asciiCase c.toNat ascii
  rwa [Char.ofNat_toNat] at case

theorem upper_case {s : String} (ascii : isAscii s = true) :
    isAscii (upper s) = true ∧ upper (upper s) = upper s ∧ lower (upper s) = lower s := by
  have all : ∀ c ∈ s.toList, c.toNat < 128 := by simpa [isAscii] using ascii
  have upperAscii : isAscii (upper s) = true := by
    rw [upper_ascii ascii]
    simpa [isAscii] using fun c member => (char_case (all c member)).1
  refine ⟨upperAscii, ?_, ?_⟩
  · rw [upper_ascii upperAscii, upper_ascii ascii, String.toList_ofList, List.map_map]
    congr 1
    exact List.map_congr_left fun c member => (char_case (all c member)).2.1
  · rw [lower_ascii upperAscii, upper_ascii ascii, lower_ascii ascii, String.toList_ofList,
      List.map_map]
    congr 1
    exact List.map_congr_left fun c member => (char_case (all c member)).2.2

end Text

namespace Ability

theorem lookup_key {name short : String} (found : fullNames.lookup name = some short) :
    short ∈ keys := by
  have all : ∀ e ∈ fullNames, e.2 ∈ keys := by decide
  exact all (name, short) (Text.mem_of_lookup found)

theorem normalizeKey_of_found {key short : String}
    (found : fullNames.lookup (Text.lower key) = some short) : normalizeKey key = short := by
  rw [normalizeKey, found]
  rfl

theorem normalizeKey_of_none {key : String} (none : fullNames.lookup (Text.lower key) = none) :
    normalizeKey key = Text.upper key := by
  rw [normalizeKey, none]
  rfl

theorem normalizeKey_keys : ∀ k ∈ keys, normalizeKey k = k := by
  decide +kernel

-- a key in its usual form keeps it
theorem normalizeKey_stable {key : String} (ascii : isAscii key = true) :
    normalizeKey (normalizeKey key) = normalizeKey key := by
  cases found : fullNames.lookup (Text.lower key) with
  | some short => rw [normalizeKey_of_found found, normalizeKey_keys short (lookup_key found)]
  | none =>
    obtain ⟨-, upper, lower⟩ := Text.upper_case ascii
    have again : fullNames.lookup (Text.lower (Text.upper key)) = none := by rw [lower, found]
    rw [normalizeKey_of_none found, normalizeKey_of_none again, upper]

end Ability

namespace Character

open Ability (normalizeKey)

structure Usual (scores : Dict String Int) : Prop where
  six : Ability.keys <+: scores.keys
  stable : ∀ e ∈ scores.entries, normalizeKey e.1 = e.1 ∧ 1 ≤ e.2 ∧ e.2 ≤ 30

theorem keys_prefix_insert {names : List String} {d : Dict String Int} {key : String} {score : Int}
    (front : names <+: d.keys) : names <+: (d.insert key score).keys := by
  rw [Dict.keys_insert]
  split
  · exact front
  · exact front.trans (List.prefix_append ..)

theorem usual_insert {d : Dict String Int} (usual : Usual d) {key : String} (score : Int)
    (stable : normalizeKey key = key) : Usual (d.insert key (clamp score 1 30)) where
  six := keys_prefix_insert usual.six
  stable := Dict.forall_insert usual.stable ⟨stable, clamp_mem (by decide)⟩

theorem usual_default : Usual defaultScores where
  six := ⟨[], rfl⟩
  stable := by decide +kernel

theorem usual_rescored {scores : Dict String Int}
    (settling : ∀ key ∈ scores.keys, normalizeKey (normalizeKey key) = normalizeKey key) :
    Usual (rescored scores) := by
  unfold rescored
  have all (es : List (String × Int))
      (settling : ∀ e ∈ es, normalizeKey (normalizeKey e.1) = normalizeKey e.1) (d : Dict String Int)
      (usual : Usual d) :
      Usual (es.foldl (fun d e => d.insert (normalizeKey e.1) (clamp e.2 1 30)) d) := by
    induction es generalizing d with
    | nil => exact usual
    | cons e es ih =>
      rw [List.forall_mem_cons] at settling
      exact ih settling.2 _ (usual_insert usual e.2 settling.1)
  exact all _ (fun e member => settling e.1 (List.mem_map_of_mem member)) _ usual_default

theorem foldl_stable {es : List (String × Int)}
    (stable : ∀ e ∈ es, normalizeKey e.1 = e.1 ∧ 1 ≤ e.2 ∧ e.2 ≤ 30) (d : Dict String Int) :
    es.foldl (fun d e => d.insert (normalizeKey e.1) (clamp e.2 1 30)) d =
      es.foldl (fun d e => d.insert e.1 e.2) d := by
  induction es generalizing d with
  | nil => rfl
  | cons e es ih =>
    rw [List.forall_mem_cons] at stable
    rw [List.foldl_cons, List.foldl_cons, stable.1.1, clamp_of_mem stable.1.2.1 stable.1.2.2,
      ih stable.2]

theorem rescored_usual {scores : Dict String Int} (usual : Usual scores) :
    rescored scores = scores := by
  obtain ⟨rest, whole⟩ := usual.six
  rw [rescored, foldl_stable usual.stable]
  apply Dict.ext
  let six := scores.entries.take 6
  have front : defaultScores.entries.map (·.1) = six.map (·.1) := by
    rw [List.map_take]
    change Ability.keys = scores.keys.take 6
    rw [← whole]
    rfl
  have first : (six.foldl (fun d e => d.insert e.1 e.2) defaultScores).entries = six :=
    Dict.entries_foldl_replace six _ [] _ rfl front
  conv => lhs; rw [← List.take_append_drop 6 scores.entries, List.foldl_append]
  rw [Dict.entries_foldl_insert, first, List.take_append_drop]
  rw [first, List.take_append_drop]
  exact scores.distinct

structure Settling (c : Character) : Prop where
  abilities : ∀ key ∈ c.abilities.keys, normalizeKey (normalizeKey key) = normalizeKey key
  saves : ∀ key ∈ c.saves, normalizeKey (normalizeKey key) = normalizeKey key

structure AsciiKeys (c : Character) : Prop where
  abilities : ∀ key ∈ c.abilities.keys, isAscii key = true
  saves : ∀ key ∈ c.saves, isAscii key = true

theorem AsciiKeys.settling {c : Character} (ascii : c.AsciiKeys) : c.Settling where
  abilities key member := Ability.normalizeKey_stable (ascii.abilities key member)
  saves key member := Ability.normalizeKey_stable (ascii.saves key member)

theorem resaved_stable {saves : IdSet} (stable : ∀ key ∈ saves, normalizeKey key = key) :
    resaved saves = saves := by
  have same : saves.ids.map normalizeKey = saves.ids := List.map_congr_left stable |>.trans (List.map_id _)
  rw [resaved, same, IdSet.ofList_ids]

theorem settled_settled {c : Character} (settling : c.Settling) : c.settled.settled = c.settled := by
  have scores : rescored (rescored c.abilities) = rescored c.abilities :=
    rescored_usual (usual_rescored settling.abilities)
  have saves : resaved (resaved c.saves) = resaved c.saves := by
    refine resaved_stable fun key member => ?_
    obtain ⟨old, held, rfl⟩ := mem_resaved.1 member
    exact settling.saves old held
  simp only [settled, scores, saves]

end Character

end Tabletop
