import Mathlib.Data.Int.Order.Basic
import Mathlib.Order.Lattice
import Tabletop.Proofs.MomentOrder
import Tabletop.Proofs.RecordFiles
import Tabletop.Proofs.Rereading
import Tabletop.Proofs.Restoring

set_option autoImplicit false

namespace Tabletop

open Tabletop.Field (Entries Reader)

-- whether a record is read as a character does not depend on the ids and the time that it is read with

namespace Checked

variable {α β : Type} {x : Checked α}

def Succeeds (x : Checked α) : Prop :=
  ∃ a, x = .ok a

theorem succeeds_map_iff {f : α → β} : (f <$> x).Succeeds ↔ x.Succeeds := by
  simp [Succeeds, map_eq_ok]

theorem succeeds_seq_iff {f : Checked (α → β)} : (f <*> x).Succeeds ↔ f.Succeeds ∧ x.Succeeds := by
  simp [Succeeds, seq_eq_ok]

theorem succeeds_within_iff {step : Step} : (x.within step).Succeeds ↔ x.Succeeds := by
  simp [Succeeds, within_eq_ok]

theorem succeeds_andThen_iff {f : α → Checked β} :
    (x.andThen f).Succeeds ↔ ∃ a, x = .ok a ∧ (f a).Succeeds := by
  simp only [Succeeds, andThen_eq_ok]
  exact ⟨fun ⟨b, a, found, next⟩ => ⟨a, found, b, next⟩, fun ⟨a, found, b, next⟩ => ⟨b, a, found, next⟩⟩

end Checked

open Checked (succeeds_map_iff succeeds_seq_iff succeeds_within_iff succeeds_andThen_iff)

theorem Field.withDefault_succeeds_iff {α : Type} {name : String} {default : α} {read : Reader α}
    {es : Entries} : (withDefault name default read es).Succeeds ↔
      ∀ v, Value.field? name es = some v → (read v).Succeeds := by
  unfold withDefault
  cases Value.field? name es with
  | none => exact iff_of_true ⟨_, rfl⟩ nofun
  | some v => simp [succeeds_within_iff]

theorem Item.read_succeeds (fresh other : String) (v : Value) :
    (Item.read fresh v).Succeeds ↔ (Item.read other v).Succeeds := by
  cases v with
  | map es =>
    simp only [Item.read, Field.record, succeeds_seq_iff, succeeds_map_iff, Field.withDefault_succeeds_iff]
  | _ => exact .rfl

theorem Feature.read_succeeds (fresh other : String) (v : Value) :
    (Feature.read fresh v).Succeeds ↔ (Feature.read other v).Succeeds := by
  cases v with
  | map es =>
    simp only [Feature.read, Field.record, succeeds_seq_iff, succeeds_map_iff, Field.withDefault_succeeds_iff]
  | _ => exact .rfl

section Slots

variable {α : Type} {read : String → Reader α} (alike : ∀ fresh other v, (read fresh v).Succeeds ↔
  (read other v).Succeeds) (supply other : Supply)
include alike

theorem readEach_succeeds (slot slot' i : Nat) (xs : List Value) :
    (readEach read supply slot i xs).Succeeds ↔ (readEach read other slot' i xs).Succeeds := by
  induction xs generalizing slot slot' i with
  | nil => exact .rfl
  | cons x xs ih =>
    simp only [readEach, succeeds_seq_iff, succeeds_map_iff, succeeds_within_iff]
    exact and_congr (alike _ _ x) (ih (slot + 1) (slot' + 1) (i + 1))

theorem readSlots_succeeds (slot slot' : Nat) (v : Value) :
    (readSlots read supply slot v).Succeeds ↔ (readSlots read other slot' v).Succeeds := by
  unfold readSlots
  cases Field.elements? v with
  | none => exact .rfl
  | some xs => exact readEach_succeeds alike supply other slot slot' 0 xs

end Slots

namespace Character

theorem readFields_succeeds (supply other : Supply) (es : Entries) (s : Settled) :
    (readFields supply es s).Succeeds ↔ (readFields other es s).Succeeds := by
  have items := readSlots_succeeds Item.read_succeeds supply other 1 1
  have features (slot : Nat) := readSlots_succeeds Feature.read_succeeds supply other slot slot
  simp only [readFields, succeeds_seq_iff, succeeds_map_iff, succeeds_within_iff,
    Field.withDefault_succeeds_iff, items, features]

theorem ofEntries_succeeds (supply other : Supply) (es : Entries) :
    (ofEntries supply es).Succeeds ↔ (ofEntries other es).Succeeds := by
  simp only [ofEntries, succeeds_andThen_iff]
  refine exists_congr fun s => and_congr_right fun _ => ?_
  exact succeeds_map_iff.trans ((readFields_succeeds supply other _ s).trans succeeds_map_iff.symm)

theorem ofValue_succeeds (supply other : Supply) (v : Value) :
    (ofValue supply v).Succeeds ↔ (ofValue other v).Succeeds := by
  unfold ofValue
  split
  · cases v with
    | map es => exact ofEntries_succeeds supply other es
    | _ => simp only [Field.record]
  · exact ofEntries_succeeds supply other []

-- the order of the times

/-- The times of all of them carry their distance from universal time, or none does. -/
def OneClock (cs : List Character) : Prop :=
  (∀ c ∈ cs, c.updatedAt.offset.isSome = true) ∨ ∀ c ∈ cs, c.updatedAt.offset.isSome = false

end Character

namespace Store

open Character (OneClock)

variable {s : Store} {cs : List Character}

theorem allComparable_iff : allComparable cs = true ↔ OneClock cs := by
  cases cs with
  | nil => simp [allComparable, OneClock]
  | cons c cs =>
    simp only [allComparable, List.all_eq_true, Moment.comparable, beq_iff_eq, OneClock, List.forall_mem_cons]
    cases c.updatedAt.offset.isSome with
    | true => simp [@eq_comm _ true]
    | false => simp [@eq_comm _ false]

def sortLatest (cs : List Character) : List Character :=
  cs.mergeSort fun a b => !a.updatedAt.less b.updatedAt

-- characters whose times are ordered as the members of a linear order are
theorem sortLatest_pairwise {β : Type} [LinearOrder β] (key : Moment → β)
    (less : ∀ c ∈ cs, ∀ d ∈ cs, c.updatedAt.less d.updatedAt = true ↔ key c.updatedAt < key d.updatedAt) :
    (sortLatest cs).Pairwise fun c d => c.updatedAt.less d.updatedAt = false := by
  let order (c d : Character) : Bool := decide (key d.updatedAt ≤ key c.updatedAt)
  have kept : ∀ c ∈ cs, ∀ d ∈ cs, (!c.updatedAt.less d.updatedAt) = order c d := by
    intro c here d there
    rw [Bool.eq_iff_iff, Bool.not_eq_true', ← Bool.not_eq_true, less c here d there, not_lt, decide_eq_true_iff]
  have same : sortLatest cs = cs.mergeSort order := by
    simpa [sortLatest] using List.map_mergeSort (f := id) kept
  have sorted : (cs.mergeSort order).Pairwise fun c d => order c d = true := by
    refine List.pairwise_mergeSort (fun a b c first second => ?_) (fun a b => ?_) cs
    · exact decide_eq_true (le_trans (of_decide_eq_true second) (of_decide_eq_true first))
    · simpa [order] using le_total (key b.updatedAt) (key a.updatedAt)
  rw [same]
  refine sorted.imp_of_mem fun here there before => ?_
  rw [← kept _ (List.mem_mergeSort.1 here) _ (List.mem_mergeSort.1 there)] at before
  simpa using before

theorem sortLatest_latest (oneClock : OneClock cs) :
    (sortLatest cs).Pairwise fun c d => c.updatedAt.less d.updatedAt = false := by
  rcases oneClock with zoned | unzoned
  · refine sortLatest_pairwise (fun m => m.localMicros - m.offset.getD 0) fun c here d there => ?_
    obtain ⟨x, first⟩ := Option.isSome_iff_exists.1 (zoned c here)
    obtain ⟨y, second⟩ := Option.isSome_iff_exists.1 (zoned d there)
    simp [Moment.less, first, second]
  · refine sortLatest_pairwise Moment.fields fun c here d _ => ?_
    exact Moment.less_iff (by simpa using unzoned c here)

-- reading the records

def Enlists (s : Store) (name : String) : Prop :=
  ∃ es, s.HoldsRecord .characters name es ∧ ∃ supply, (Character.ofValue supply (.map es)).Succeeds

def IsRead (e : Supply × Value) (c : Character) : Prop :=
  ∃ notices, Character.ofValue e.1 e.2 = .ok (c, notices)

/-- The characters in the store, one for each file of a record, in the order of the file names. -/
def Roster (s : Store) (cs : List Character) : Prop :=
  ∃ records : List Entries, List.Forall₂ (s.HoldsRecord .characters) (s.recordNames .characters) records ∧
    List.Forall₂ IsRead (s.supply.dealt (records.map .map)) cs

theorem readCharacters_run {records : List Entries}
    (read : List.Forall₂ IsRead (s.supply.dealt (records.map .map)) cs) :
    ∃ t, (readCharacters records).run s = (.ok cs, t) := by
  induction records generalizing s cs with
  | nil =>
    cases read
    exact ⟨s, rfl⟩
  | cons es records ih =>
    cases read with
    | cons here rest =>
      obtain ⟨notices, reads⟩ := here
      obtain ⟨t, runs⟩ := ih (s := s.ticked) rest
      refine ⟨t, ?_⟩
      simp only at reads
      simp [readCharacters, readCharacter, characterOf, Failure.ofChecked, Action.run_bind, run_tick, reads, runs]

theorem exists_isRead {records : List Entries} (supply : Supply)
    (accepted : ∀ es ∈ records, ∃ supply, (Character.ofValue supply (.map es)).Succeeds) :
    ∃ cs, List.Forall₂ IsRead (supply.dealt (records.map .map)) cs := by
  induction records generalizing supply with
  | nil => exact ⟨[], .nil⟩
  | cons es records ih =>
    rw [List.forall_mem_cons] at accepted
    obtain ⟨⟨other, read⟩, rest⟩ := accepted
    obtain ⟨⟨c, notices⟩, reads⟩ := (Character.ofValue_succeeds other supply _).1 read
    obtain ⟨cs, more⟩ := ih supply.next rest
    exact ⟨c :: cs, .cons ⟨notices, reads⟩ more⟩

theorem exists_records {names : List String} (each : ∀ name ∈ names, s.Enlists name) :
    ∃ records : List Entries, List.Forall₂ (s.HoldsRecord .characters) names records ∧
      ∀ es ∈ records, ∃ supply, (Character.ofValue supply (.map es)).Succeeds := by
  induction names with
  | nil => exact ⟨[], .nil, nofun⟩
  | cons name names ih =>
    rw [List.forall_mem_cons] at each
    obtain ⟨⟨es, holds, accepted⟩, rest⟩ := each
    obtain ⟨records, more, all⟩ := ih rest
    exact ⟨es :: records, .cons holds more, List.forall_mem_cons.2 ⟨accepted, all⟩⟩

theorem exists_roster (each : ∀ name ∈ s.recordNames .characters, s.Enlists name) : ∃ cs, s.Roster cs := by
  obtain ⟨records, holds, accepted⟩ := exists_records each
  obtain ⟨cs, read⟩ := exists_isRead s.supply accepted
  exact ⟨cs, records, holds, read⟩

theorem Roster.unique {ds : List Character} (roster : s.Roster cs) (roster' : s.Roster ds) : cs = ds := by
  obtain ⟨records, holds, read⟩ := roster
  obtain ⟨others, holds', read'⟩ := roster'
  have oneRecord : Relator.RightUnique (s.HoldsRecord .characters) :=
    fun _ _ _ first second => first.unique second
  have oneCharacter : Relator.RightUnique IsRead := by
    rintro e c d ⟨notices, first⟩ ⟨notices', second⟩
    cases first.symm.trans second
    rfl
  cases List.right_unique_forall₂' oneRecord holds holds'
  exact List.right_unique_forall₂' oneCharacter read read'

theorem listCharacters_run (roster : s.Roster cs) :
    ∃ t, listCharacters.run s =
      (if allComparable cs then .ok (sortLatest cs) else .error (.breakdown .incomparable), t) := by
  obtain ⟨records, holds, read⟩ := roster
  obtain ⟨known, listed⟩ := listAll_holds holds
  obtain ⟨t, runs⟩ := readCharacters_run (s := { s with known := known }) read
  refine ⟨t, ?_⟩
  simp only [listCharacters, Action.run_bind, listed, runs]
  split <;> rfl

/-- In a store whose character records are each accepted, all characters are listed, none before one that
was updated later, exactly if the times of all of them carry their distance from universal time or none
does. Otherwise the listing breaks down. -/
theorem listCharacters_latest (each : ∀ name ∈ s.recordNames .characters, s.Enlists name) :
    ∃ characters, s.Roster characters ∧
      (OneClock characters ∧ (∃ listed t, listCharacters.run s = (.ok listed, t) ∧ listed.Perm characters ∧
          listed.Pairwise fun c d => c.updatedAt.less d.updatedAt = false) ∨
        ¬ OneClock characters ∧ ∃ t, listCharacters.run s = (.error (.breakdown .incomparable), t)) := by
  obtain ⟨characters, roster⟩ := exists_roster each
  obtain ⟨t, runs⟩ := listCharacters_run roster
  refine ⟨characters, roster, ?_⟩
  by_cases oneClock : OneClock characters
  · rw [if_pos (allComparable_iff.2 oneClock)] at runs
    exact .inl ⟨oneClock, sortLatest characters, t, runs, List.mergeSort_perm .., sortLatest_latest oneClock⟩
  · rw [if_neg fun comparable => oneClock (allComparable_iff.1 comparable)] at runs
    exact .inr ⟨oneClock, t, runs⟩

end Store

-- two characters, one updated a year after the other

namespace Reunion

open Recruit (ok_of_ofChecked)

def today : Supply := ⟨0, ⟨2020, 1, 1⟩, ⟨0, 0, 0, 0⟩, none⟩

def dated (id time : String) : Entries :=
  [(.str "id", .str id), (.str "updated_at", .str time)]

def album (first second : String) : Store :=
  .create ⟨"data", .ofList [(["characters", "a.json"], .document (.map (dated "a" first))),
    (["characters", "b.json"], .document (.map (dated "b" second)))], [], []⟩ [] today

def readAt (supply : Supply) (id time : String) : Except Failure (Character × List Notice) :=
  Failure.ofChecked (Character.ofValue supply (.map (dated id time)))

def older : Character :=
  ((readAt today "a" "2020-01-01T00:00:00").toOption.get (by decide +kernel)).1

def newer : Character :=
  ((readAt today.next "b" "2021-01-01T00:00:00").toOption.get (by decide +kernel)).1

def zoned : Character :=
  ((readAt today "a" "2020-01-01T00:00:00Z").toOption.get (by decide +kernel)).1

variable {first second : String}

theorem album_names : (album first second).recordNames .characters = ["a.json", "b.json"] := by
  have files : (((album first second).disk.files.keys.filter fun p =>
      p.dropLast = (album first second).folder .characters && !p.isEmpty).map Disk.fileName) =
        ["a.json", "b.json"] := rfl
  have ascending : (["a.json", "b.json"] : List String).Pairwise fun a b => decide (a ≤ b) = true := by decide
  rw [Store.recordNames, Disk.names, files, List.mergeSort_of_pairwise ascending]
  decide

theorem album_holds : List.Forall₂ ((album first second).HoldsRecord .characters)
    ((album first second).recordNames .characters) [dated "a" first, dated "b" second] := by
  have json (id time : String) : (Value.map (dated id time)).IsJson :=
    .map (.of_names ["id", "updated_at"] rfl (by decide)) (by simp [dated, Value.IsJson.str])
  rw [album_names]
  refine .cons ⟨⟨_, rfl, .document (json "a" first), ?_⟩, rfl⟩
    (.cons ⟨⟨_, rfl, .document (json "b" second), ?_⟩, rfl⟩ .nil)
  · simp [Content.load?, (json "a" first).proper.back]
  · simp [Content.load?, (json "b" second).proper.back]

theorem album_roster {c d : Character} (read : Store.IsRead (today, .map (dated "a" first)) c)
    (read' : Store.IsRead (today.next, .map (dated "b" second)) d) : (album first second).Roster [c, d] :=
  ⟨_, album_holds, .cons read (.cons read' .nil)⟩

theorem album_enlists {c d : Character} (read : Store.IsRead (today, .map (dated "a" first)) c)
    (read' : Store.IsRead (today.next, .map (dated "b" second)) d) :
    ∀ name ∈ (album first second).recordNames .characters, (album first second).Enlists name := by
  have holds : List.Forall₂ ((album first second).HoldsRecord .characters) _ _ := album_holds
  obtain ⟨notices, reads⟩ := read
  obtain ⟨notices', reads'⟩ := read'
  rw [album_names] at holds ⊢
  cases holds with | cons holds rest => ?_
  cases rest with | cons holds' _ => ?_
  rw [List.forall_mem_cons, List.forall_mem_singleton]
  exact ⟨⟨_, holds, _, _, reads⟩, ⟨_, holds', _, _, reads'⟩⟩

theorem older_read : Store.IsRead (today, .map (dated "a" "2020-01-01T00:00:00")) older :=
  ⟨_, ok_of_ofChecked (ok_of_get (by decide +kernel))⟩

theorem newer_read : Store.IsRead (today.next, .map (dated "b" "2021-01-01T00:00:00")) newer :=
  ⟨_, ok_of_ofChecked (ok_of_get (by decide +kernel))⟩

theorem zoned_read : Store.IsRead (today, .map (dated "a" "2020-01-01T00:00:00Z")) zoned :=
  ⟨_, ok_of_ofChecked (ok_of_get (by decide +kernel))⟩

end Reunion

open Reunion in
theorem listCharacters_latest_reunion :
    (∀ name ∈ (album "2020-01-01T00:00:00" "2021-01-01T00:00:00").recordNames .characters,
        (album "2020-01-01T00:00:00" "2021-01-01T00:00:00").Enlists name) ∧
      ∃ listed t, Store.listCharacters.run (album "2020-01-01T00:00:00" "2021-01-01T00:00:00") = (.ok listed, t) ∧
        listed.Perm [older, newer] ∧ listed.Pairwise fun c d => c.updatedAt.less d.updatedAt = false := by
  have each := album_enlists older_read newer_read
  have roster := album_roster older_read newer_read
  have oneClock : Character.OneClock [older, newer] := by
    refine .inr ?_
    rw [List.forall_mem_cons, List.forall_mem_singleton]
    decide +kernel
  obtain ⟨characters, roster', listing⟩ := Store.listCharacters_latest each
  cases roster.unique roster'
  rcases listing with ⟨-, listed, t, runs, perm, latest⟩ | ⟨apart, -⟩
  · exact ⟨each, listed, t, runs, perm, latest⟩
  · exact absurd oneClock apart

open Reunion in
/-- One time in universal time beside one without a zone: each record is accepted, and there is no list. -/
theorem album_unlisted :
    (∀ name ∈ (album "2020-01-01T00:00:00Z" "2021-01-01T00:00:00").recordNames .characters,
        (album "2020-01-01T00:00:00Z" "2021-01-01T00:00:00").Enlists name) ∧
      ∃ t, Store.listCharacters.run (album "2020-01-01T00:00:00Z" "2021-01-01T00:00:00") =
        (.error (.breakdown .incomparable), t) := by
  obtain ⟨t, runs⟩ := Store.listCharacters_run (album_roster zoned_read newer_read)
  have apart : Store.allComparable [zoned, newer] = false := by decide +kernel
  rw [apart, if_neg Bool.false_ne_true] at runs
  exact ⟨album_enlists zoned_read newer_read, t, runs⟩

end Tabletop
