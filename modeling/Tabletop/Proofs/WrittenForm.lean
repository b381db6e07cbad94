import Mathlib.Data.List.Forall2
import Tabletop.Proofs.LevelText
import Tabletop.Proofs.RecordReading

set_option autoImplicit false

namespace Tabletop

open Tabletop.Field (Entries)

namespace Json

/-- `w` is what JSON holds in place of `v`. -/
def Written (v w : Value) : Prop :=
  plain v = .ok w

structure MemberWritten (e f : Value × Value) : Prop where
  name : ∃ name, memberName? e.1 = some name ∧ f.1 = .str name
  value : Written e.2 f.2

variable {v w : Value} {xs ys : List Value} {es fs : Entries}

theorem plainAll_eq_ok : plainAll xs = .ok ys ↔ List.Forall₂ Written xs ys := by
  induction xs generalizing ys with
  | nil => simp [plainAll, eq_comm]
  | cons x xs ih =>
    simp only [plainAll, bind_eq_ok, pure_eq_ok, List.forall₂_cons_left_iff, ih]
    constructor
    · rintro ⟨y, first, ys, rest, rfl⟩
      exact ⟨y, ys, first, rest, rfl⟩
    · rintro ⟨y, ys, first, rest, rfl⟩
      exact ⟨y, first, ys, rest, rfl⟩

theorem plainEntries_eq_ok : plainEntries es = .ok fs ↔ List.Forall₂ MemberWritten es fs := by
  induction es generalizing fs with
  | nil => simp [plainEntries, eq_comm]
  | cons e es ih =>
    obtain ⟨k, v⟩ := e
    rw [plainEntries, List.forall₂_cons_left_iff]
    cases named : memberName? k with
    | none =>
      refine iff_of_false (by simp) ?_
      rintro ⟨f, -, ⟨⟨name, found, -⟩, -⟩, -⟩
      rw [named] at found
      cases found
    | some name =>
      simp only [bind_eq_ok, pure_eq_ok, ih]
      constructor
      · rintro ⟨w, value, fs, rest, rfl⟩
        exact ⟨(.str name, w), fs, ⟨⟨name, named, rfl⟩, value⟩, rest, rfl⟩
      · rintro ⟨⟨l, w⟩, fs, ⟨⟨other, found, key⟩, value⟩, rest, rfl⟩
        cases named.symm.trans found
        cases key
        exact ⟨w, value, fs, rest, rfl⟩

theorem written_list : Written (.list xs) w ↔ ∃ ys, List.Forall₂ Written xs ys ∧ .list ys = w := by
  simp only [Written, plain, bind_eq_ok, pure_eq_ok, plainAll_eq_ok]

theorem written_tuple : Written (.tuple xs) w ↔ ∃ ys, List.Forall₂ Written xs ys ∧ .list ys = w := by
  simp only [Written, plain, bind_eq_ok, pure_eq_ok, plainAll_eq_ok]

theorem written_map :
    Written (.map es) w ↔ ∃ fs, List.Forall₂ MemberWritten es fs ∧ .map fs = w := by
  simp only [Written, plain, bind_eq_ok, pure_eq_ok, plainEntries_eq_ok]

-- the words that name members

def isWord (s : String) : Bool :=
  s.toList.all (fun c => c.isAlpha || c = '_') &&
    !(["null", "true", "false", "NaN", "Infinity"].contains s)

theorem not_word_of_mem {cs : List Char} {c : Char} (member : c ∈ cs)
    (foreign : (c.isAlpha || c = '_') = false) : isWord (String.ofList cs) = false := by
  have letters : (cs.all fun c => c.isAlpha || c = '_') = false := by
    rw [List.all_eq_false]
    exact ⟨c, member, by simpa using foreign⟩
  rw [isWord, String.toList_ofList, letters, Bool.false_and]

theorem digitChar_foreign : ∀ d < 10, (d.digitChar.isAlpha || d.digitChar = '_') = false := by
  decide

theorem int_not_word (i : Int) : isWord (toString i) = false := by
  rw [Int.toString_eq_repr, Int.repr_eq_if]
  split
  · obtain ⟨c, cs, digits⟩ := List.exists_cons_of_ne_nil (Nat.toDigits_ne_nil (b := 10) (n := i.toNat))
    have member : c ∈ Nat.toDigits 10 i.toNat := by simp [digits]
    obtain ⟨d, small, rfl⟩ := Text.mem_toDigits member
    rw [← String.ofList_toList (s := i.toNat.repr), Nat.toList_repr]
    exact not_word_of_mem member (digitChar_foreign d small)
  · rw [← String.ofList_toList (s := "-" ++ _), String.toList_append]
    exact not_word_of_mem (c := '-') (List.mem_append_left _ (by decide)) (by decide)

theorem mem_layout (digits : List Char) (place : Int) :
    ∃ c ∈ Double.layout digits place, (c.isAlpha || c = '_') = false := by
  unfold Double.layout
  split
  · exact ⟨'.', by simp, by decide⟩
  · split
    · exact ⟨'.', by simp, by decide⟩
    · by_cases down : place - 1 < 0
      · exact ⟨'-', by simp [down], by decide⟩
      · exact ⟨'+', by simp [down], by decide⟩

theorem signed_not_word {cs : List Char} (negative : Bool)
    (foreign : ∃ c ∈ cs, (c.isAlpha || c = '_') = false) :
    isWord (String.ofList (if negative then '-' :: cs else cs)) = false := by
  obtain ⟨c, member, foreign⟩ := foreign
  refine not_word_of_mem (c := c) ?_ foreign
  split
  · exact List.mem_cons_of_mem _ member
  · exact member

theorem float_not_word (d : Double) : isWord (floatForm d) = false := by
  rcases d with _ | _ | ⟨negative, m, e⟩
  · decide
  · rename_i negative
    cases negative <;> decide
  · refine signed_not_word negative ?_
    split
    · exact ⟨'.', by simp, by decide⟩
    · exact mem_layout _ _

-- a word is the name of the key that is that text, and of no other
theorem key_of_word {k : Value} {name : String} (word : isWord name = true)
    (named : memberName? k = some name) : k = .str name := by
  cases k with
  | str s =>
    cases named
    rfl
  | null =>
    cases named
    revert word
    decide
  | bool b =>
    cases named
    revert word
    cases b <;> decide
  | int i =>
    cases named
    rw [int_not_word] at word
    cases word
  | float d =>
    cases named
    rw [float_not_word] at word
    cases word
  | _ => cases named

-- finding members by words

theorem isKey_written {name : String} {e f : Value × Value} (word : isWord name = true)
    (member : MemberWritten e f) : Value.isKey name f.1 = Value.isKey name e.1 := by
  obtain ⟨other, named, key⟩ := member.name
  rw [key]
  cases here : Value.isKey name (.str other) with
  | true =>
    obtain rfl : other = name := by simpa [Value.isKey] using here
    rw [key_of_word word named]
    exact here.symm
  | false =>
    rw [eq_comm, Bool.eq_false_iff]
    intro there
    have same : e.1 = .str name := by
      cases key : e.1 <;> simp_all [Value.isKey]
    rw [same] at named
    cases named
    simp [Value.isKey] at here

theorem field?_written {name : String} (word : isWord name = true)
    (members : List.Forall₂ MemberWritten es fs) :
    Option.Rel Written (Value.field? name es) (Value.field? name fs) := by
  induction members with
  | nil => exact .none
  | @cons e f es fs member _ ih =>
    rw [Value.field?, Value.field?, isKey_written word member]
    split
    · exact .some member.value
    · exact ih

theorem field_written (name : String) (word : isWord name = true)
    (members : List.Forall₂ MemberWritten es fs) :
    Written (Value.field name es) (Value.field name fs) := by
  have found := field?_written word members
  rw [Value.field, Value.field]
  generalize Value.field? name es = v?, Value.field? name fs = w? at found ⊢
  cases found with
  | none => rfl
  | some value => exact value

theorem setField_written {name : String} (word : isWord name = true)
    (members : List.Forall₂ MemberWritten es fs) (value : Written v w) :
    List.Forall₂ MemberWritten (Value.setField name v es) (Value.setField name w fs) := by
  induction members with
  | nil => exact .cons ⟨⟨name, rfl, rfl⟩, value⟩ .nil
  | @cons e f es fs member rest ih =>
    rw [Value.setField] at ih ⊢
    rw [Value.setField, Value.putEntry, Value.putEntry, Value.sameKey_name, Value.sameKey_name,
      isKey_written word member]
    split
    · exact .cons ⟨member.name, value⟩ rest
    · exact .cons member ih

theorem isMap_written (written : Written v w) : w.isMap = v.isMap := by
  cases v with
  | list xs =>
    obtain ⟨ys, -, rfl⟩ := written_list.1 written
    rfl
  | tuple xs =>
    obtain ⟨ys, -, rfl⟩ := written_tuple.1 written
    rfl
  | map es =>
    obtain ⟨fs, -, rfl⟩ := written_map.1 written
    rfl
  | _ =>
    cases written
    rfl

theorem entries_written (written : Written v w) :
    List.Forall₂ MemberWritten v.entriesOrEmpty w.entriesOrEmpty := by
  cases v with
  | list xs =>
    obtain ⟨ys, -, rfl⟩ := written_list.1 written
    exact .nil
  | tuple xs =>
    obtain ⟨ys, -, rfl⟩ := written_tuple.1 written
    exact .nil
  | map es =>
    obtain ⟨fs, members, rfl⟩ := written_map.1 written
    exact members
  | _ =>
    cases written
    exact .nil

-- what stays the same

def Keeps (v : Value) : Prop :=
  Written v v

/-- What JSON holds in place of the value has the same text, and is empty only if the value is. -/
def KeepsText (v : Value) : Prop :=
  ∀ w, Written v w → w.text = v.text ∧ w.isTruthy = v.isTruthy

def KeepsKey (k : Value) : Prop :=
  memberName? k = some k.text

theorem Keeps.eq (keeps : Keeps v) (written : Written v w) : w = v :=
  Except.ok.inj (written.symm.trans keeps)

theorem Keeps.text (keeps : Keeps v) : KeepsText v := by
  intro w written
  rw [keeps.eq written]
  exact ⟨rfl, rfl⟩

theorem mem_dateText (d : Date) : '-' ∈ d.text.toList := by
  simp [Date.text]

theorem mem_momentText (m : Moment) (separator : String) : '-' ∈ (m.textWith separator).toList := by
  simp [Moment.textWith, mem_dateText]

-- only the empty text is held as the empty text
theorem blank_of_written (written : Written v (.str "")) : v = .str "" := by
  have foreign {c : Char} (same : plain v = .ok (.str v.text)) (member : c ∈ v.text.toList) :
      v = .str "" := by
    have text : v.text = "" := Value.str.inj (Except.ok.inj (same.symm.trans written))
    rw [text] at member
    cases member
  cases v with
  | str s =>
    cases written
    rfl
  | bytes bs => exact foreign (c := 'b') rfl (by simp [Value.text, Value.quoted, Value.quotedBytes])
  | date d => exact foreign rfl (mem_dateText d)
  | moment m => exact foreign rfl (mem_momentText m " ")
  | set xs =>
    have text : (Value.set xs).quoted = "" := Value.str.inj (Except.ok.inj written)
    rw [Value.quoted] at text
    split at text
    · exact absurd text (by decide)
    · simp at text
  | list xs =>
    obtain ⟨ys, -, same⟩ := written_list.1 written
    cases same
  | tuple xs =>
    obtain ⟨ys, -, same⟩ := written_tuple.1 written
    cases same
  | map es =>
    obtain ⟨fs, -, same⟩ := written_map.1 written
    cases same
  | _ => cases written

-- the text of a value that is not empty
theorem keepsText_of_truthy (text : plain v = .ok (.str v.text)) (truthy : v.isTruthy = true) :
    KeepsText v := by
  intro w written
  obtain rfl : w = .str v.text := Except.ok.inj (written.symm.trans text)
  refine ⟨rfl, ?_⟩
  rw [truthy, Value.isTruthy, Bool.not_eq_true', Bool.eq_false_iff]
  intro empty
  rw [String.isEmpty_iff.1 empty] at written
  rw [blank_of_written written] at truthy
  cases truthy

theorem keepsText_date (d : Date) : KeepsText (.date d) :=
  keepsText_of_truthy rfl rfl

theorem keepsText_moment (m : Moment) : KeepsText (.moment m) :=
  keepsText_of_truthy rfl rfl

theorem keepsKey_int (i : Int) : KeepsKey (.int i) := rfl

theorem KeepsKey.eq {e f : Value × Value} (keeps : KeepsKey e.1) (member : MemberWritten e f) :
    f.1 = .str e.1.text := by
  obtain ⟨name, named, key⟩ := member.name
  cases keeps.symm.trans named
  exact key

end Json

end Tabletop
