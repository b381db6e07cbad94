import Mathlib.Data.List.Nodup
import Tabletop.Proofs.Admission
import Tabletop.Proofs.LevelTables

set_option autoImplicit false

namespace Tabletop

open Tabletop.Field (Entries)

namespace Ledger

def IsLeveled (e : Value × Value) : Prop :=
  Text.isDigits e.1.text = true ∧ e.2.isMap = true

instance (e : Value × Value) : Decidable (IsLeveled e) :=
  inferInstanceAs (Decidable (_ ∧ _))

structure Denotes (e : Value × Value) (level : Int) : Prop where
  leveled : IsLeveled e
  number : integerOf e.1.text = .ok level

def Holds (es : Entries) (level : Int) (choice : String) (picks : List String) : Prop :=
  ∃ e ∈ es, Denotes e level ∧ ∃ c ∈ e.2.entriesOrEmpty, c.1.text = choice ∧ idList c.2 = picks

def IsLoose (es : Entries) (choice : String) (picks : List String) : Prop :=
  ∃ e ∈ es, ¬ IsLeveled e ∧ e.1.text = choice ∧ idList e.2 = picks

-- what an entry adds to the records of levels, and to the loose choices

def filed? (e : Value × Value) : Option (String × LevelRecord) :=
  if IsLeveled e ∧ e.2.entriesOrEmpty ≠ [] then
    (integerOf e.1.text).toOption.map fun level => (toString level, levelRecord e.2.entriesOrEmpty)
  else none

def loose? (e : Value × Value) : Option (String × List String) :=
  if IsLeveled e then none else some (e.1.text, idList e.2)

theorem filed?_eq_some {e : Value × Value} {key : String} {record : LevelRecord} :
    filed? e = some (key, record) ↔ ∃ level, Denotes e level ∧ e.2.entriesOrEmpty ≠ [] ∧
      key = toString level ∧ record = levelRecord e.2.entriesOrEmpty := by
  unfold filed?
  split
  · rename_i given
    cases read : integerOf e.1.text with
    | error cause =>
      refine iff_of_false (by simp [Except.toOption]) ?_
      rintro ⟨level, denotes, -⟩
      rw [denotes.number] at read
      cases read
    | ok level =>
      simp only [Except.toOption, Option.map_some, Option.some.injEq, Prod.mk.injEq]
      constructor
      · rintro ⟨rfl, rfl⟩
        exact ⟨level, ⟨given.1, read⟩, given.2, rfl, rfl⟩
      · rintro ⟨other, denotes, -, rfl, rfl⟩
        cases read.symm.trans denotes.number
        exact ⟨rfl, rfl⟩
  · rename_i other
    refine iff_of_false (by simp) ?_
    rintro ⟨level, denotes, some, -⟩
    exact other ⟨denotes.leveled, some⟩

theorem loose?_eq_some {e : Value × Value} {choice : String} {picks : List String} :
    loose? e = some (choice, picks) ↔ ¬ IsLeveled e ∧ e.1.text = choice ∧ idList e.2 = picks := by
  unfold loose?
  split <;> simp_all

theorem sortEntry_eq {s : Sorted} {e : Value × Value}
    (told : ∀ picks ∈ e.2.entries?, picks ≠ [] → Text.isDigits e.1.text = true →
      Text.IsNumeral e.1.text) :
    sortEntry s e.1.text e.2 = .ok
      ⟨(filed? e).toList.foldl (fun d f => d.insert f.1 f.2) s.nested,
        (loose? e).toList.foldl (fun d f => d.insert f.1 f.2) s.flat⟩ := by
  obtain ⟨key, v⟩ := e
  cases digits : Text.isDigits key.text with
  | false => simp [sortEntry, filed?, loose?, IsLeveled, digits, pure, Except.pure]
  | true =>
    cases v with
    | map picks =>
      by_cases empty : picks = []
      · simp [sortEntry, filed?, loose?, IsLeveled, digits, empty, Value.isMap, Value.entriesOrEmpty, pure,
          Except.pure]
      · obtain ⟨level, read⟩ := (integerOf_digits_iff digits).2 (told picks rfl empty digits)
        simp [sortEntry, filed?, loose?, IsLeveled, digits, empty, Value.isMap, Value.entriesOrEmpty, read,
          Except.toOption, pure, Except.pure]
    | _ => simp [sortEntry, filed?, loose?, IsLeveled, digits, Value.isMap, pure, Except.pure]

theorem foldl_filterMap {α β γ : Type} (f : α → Option β) (g : γ → β → γ) (a : α) (as : List α) (c : γ) :
    ((a :: as).filterMap f).foldl g c = (as.filterMap f).foldl g ((f a).toList.foldl g c) := by
  cases found : f a with
  | none => simp [List.filterMap_cons_none found]
  | some b => simp [List.filterMap_cons_some found]

theorem sortEntries_eq {es : Entries} (told : IsTold (.map es)) (s : Sorted) :
    sortEntries s es = .ok
      ⟨(es.filterMap filed?).foldl (fun d f => d.insert f.1 f.2) s.nested,
        (es.filterMap loose?).foldl (fun d f => d.insert f.1 f.2) s.flat⟩ := by
  induction es generalizing s with
  | nil => rfl
  | cons e es ih =>
    obtain ⟨first, rest⟩ := List.forall_mem_cons.1 told
    have step := sortEntry_eq (s := s) first
    rw [sortEntries, step, ok_bind, ih rest, foldl_filterMap, foldl_filterMap]

-- no two entries end up under one key

def LevelsApart (es : Entries) : Prop :=
  ∀ e ∈ es, ∀ f ∈ es, ∀ level, Denotes e level → Denotes f level → e = f

theorem keys_nodup {α : Type} {f : Value × Value → Option (String × α)} {es : Entries} (distinct : es.Nodup)
    (apart : ∀ e ∈ es, ∀ e' ∈ es, ∀ key a a', f e = some (key, a) → f e' = some (key, a') → e = e') :
    ((es.filterMap f).map (·.1)).Nodup := by
  rw [List.Nodup, List.pairwise_map, List.pairwise_filterMap]
  refine distinct.imp_of_mem fun {e e'} member member' ne p found p' found' same => ne ?_
  obtain ⟨key, a⟩ := p
  obtain ⟨key', a'⟩ := p'
  obtain rfl : key = key' := same
  exact apart e member e' member' key a a' found found'

theorem filed_nodup {es : Entries} (distinct : es.Nodup) (apart : LevelsApart es) :
    ((es.filterMap filed?).map (·.1)).Nodup := by
  refine keys_nodup distinct fun e member e' member' key r r' found found' => ?_
  obtain ⟨level, denotes, -, rfl, -⟩ := filed?_eq_some.1 found
  obtain ⟨level', denotes', -, same, -⟩ := filed?_eq_some.1 found'
  obtain rfl : level = level' := levelText_injective same
  exact apart e member e' member' level denotes denotes'

theorem loose_nodup {es : Entries} (members : Value.Members es) :
    ((es.filterMap loose?).map (·.1)).Nodup := by
  refine keys_nodup (List.Nodup.of_map _ members.distinct) fun e member e' member' key picks picks' found found' => ?_
  obtain ⟨-, key, -⟩ := loose?_eq_some.1 found
  obtain ⟨-, key', -⟩ := loose?_eq_some.1 found'
  exact members.eq_of_text member member' (key.trans key'.symm)

-- what a record holds

theorem levelRecord_get? {choices : Entries} (members : Value.Members choices) {choice : String}
    {picks : List String} : (levelRecord choices).get? choice = some picks ↔
      ∃ c ∈ choices, c.1.text = choice ∧ idList c.2 = picks := by
  have names : ((choices.map fun c => (c.1.text, idList c.2)).map (·.1)).Nodup := by
    rw [List.map_map, List.Nodup, List.pairwise_map]
    refine (List.pairwise_map.1 members.distinct).imp_of_mem fun {c d} member member' ne same => ne ?_
    rw [members.eq_of_text member member' same]
  rw [levelRecord, Dict.get?_ofList_iff names, List.mem_map]
  simp only [Prod.mk.injEq]

theorem addAll_get? (r more : LevelRecord) (choice : String) :
    (addAll r more).get? choice = (more.get? choice).or (r.get? choice) := by
  rw [addAll, Stats.get?_foldl_insert, Dict.ofList_entries]

def ChoicesApart (es : Entries) (level : Int) : Prop :=
  ∀ choice picks others, Holds es level choice picks → ¬ IsLoose es choice others

section Filing

variable {es : Entries}

theorem filed_get? (json : (Value.map es).IsJson) (apart : LevelsApart es) {level : Int}
    {record : LevelRecord} (found : (Dict.ofList (es.filterMap filed?)).get? (toString level) = some record)
    (choice : String) (picks : List String) :
    record.get? choice = some picks ↔ Holds es level choice picks := by
  have distinct : es.Nodup := List.Nodup.of_map _ json.members.distinct
  rw [Dict.get?_ofList_iff (filed_nodup distinct apart), List.mem_filterMap] at found
  obtain ⟨e, member, found⟩ := found
  obtain ⟨own, denotes, -, same, rfl⟩ := filed?_eq_some.1 found
  obtain rfl : level = own := levelText_injective same
  have choices := Value.entriesOrEmpty_json (json.of_mem member)
  rw [levelRecord_get? choices.members]
  constructor
  · exact fun held => ⟨e, member, denotes, held⟩
  · rintro ⟨f, member', denotes', held⟩
    rwa [apart e member f member' level denotes denotes']

theorem filed_contains (json : (Value.map es).IsJson) (apart : LevelsApart es)
    (level : Int) : (Dict.ofList (es.filterMap filed?)).contains (toString level) = true ↔
      ∃ e ∈ es, Denotes e level ∧ e.2.entriesOrEmpty ≠ [] := by
  have distinct : es.Nodup := List.Nodup.of_map _ json.members.distinct
  rw [Dict.contains, Option.isSome_iff_exists]
  simp only [Dict.get?_ofList_iff (filed_nodup distinct apart), List.mem_filterMap, filed?_eq_some]
  constructor
  · rintro ⟨record, e, member, own, denotes, some, same, -⟩
    obtain rfl : level = own := levelText_injective same
    exact ⟨e, member, denotes, some⟩
  · rintro ⟨e, member, denotes, some⟩
    exact ⟨_, e, member, level, denotes, some, rfl, rfl⟩

theorem loose_get? (members : Value.Members es) (choice : String) (picks : List String) :
    (Dict.ofList (es.filterMap loose?)).get? choice = some picks ↔ IsLoose es choice picks := by
  rw [Dict.get?_ofList_iff (loose_nodup members), List.mem_filterMap]
  simp only [loose?_eq_some, IsLoose]

theorem loose_isEmpty (members : Value.Members es) :
    (Dict.ofList (es.filterMap loose?)).isEmpty = false ↔ ∃ choice picks, IsLoose es choice picks := by
  simp only [Dict.isEmpty_eq_false_iff, loose_get? members]

/-- The ledger of a character of that level records exactly the choices of these entries. -/
structure Files (es : Entries) (own : Int) (ledger : Ledger) : Prop where
  recorded : ∀ level : Int, ledger.contains (toString level) = true ↔
    (∃ e ∈ es, Denotes e level ∧ e.2.entriesOrEmpty ≠ []) ∨
      level = own ∧ ∃ choice picks, IsLoose es choice picks
  held : ∀ (level : Int) (record : LevelRecord), ledger.get? (toString level) = some record →
    ∀ choice picks, record.get? choice = some picks ↔
      Holds es level choice picks ∨ level = own ∧ IsLoose es choice picks
  keyed : ∀ key record, ledger.get? key = some record → (∃ n : Nat, key = n.repr) ∧ record.isEmpty = false

theorem holds_filed (json : (Value.map es).IsJson) (apart : LevelsApart es) {level : Int}
    {choice : String} {picks : List String} (held : Holds es level choice picks) :
    ∃ record, (Dict.ofList (es.filterMap filed?)).get? (toString level) = some record := by
  obtain ⟨e, member, denotes, c, given, -⟩ := held
  have recorded := (filed_contains json apart level).2 ⟨e, member, denotes, List.ne_nil_of_mem given⟩
  exact Option.isSome_iff_exists.1 recorded

theorem topped_get? (json : (Value.map es).IsJson) (apart : LevelsApart es) {own : Int}
    (choices : ChoicesApart es own) (choice : String) (picks : List String) :
    (addAll (((Dict.ofList (es.filterMap filed?)).get? (toString own)).getD .empty)
      (Dict.ofList (es.filterMap loose?))).get? choice = some picks ↔
      Holds es own choice picks ∨ IsLoose es choice picks := by
  rw [addAll_get?]
  cases loose : (Dict.ofList (es.filterMap loose?)).get? choice with
  | some others =>
    have isLoose := (loose_get? json.members choice others).1 loose
    rw [Option.some_or, ← loose_get? json.members, loose]
    exact ⟨Or.inr, fun held => held.resolve_left fun held => choices _ _ _ held isLoose⟩
  | none =>
    rw [Option.none_or, ← loose_get? json.members, loose]
    cases filed : (Dict.ofList (es.filterMap filed?)).get? (toString own) with
    | some record => simp [filed_get? json apart filed]
    | none =>
      have unfiled : ¬ Holds es own choice picks := fun held => by
        obtain ⟨record, found⟩ := holds_filed json apart held
        cases filed.symm.trans found
      simp [unfiled]

theorem files_filed (json : (Value.map es).IsJson) (apart : LevelsApart es) {own : Int}
    (none : ¬ ∃ choice picks, IsLoose es choice picks) (keyed : Keyed (Dict.ofList (es.filterMap filed?))) :
    Files es own (Dict.ofList (es.filterMap filed?)) where
  recorded level := by rw [filed_contains json apart level, or_iff_left fun own => none own.2]
  held level record found choice picks := by
    have unloose : ¬ IsLoose es choice picks := fun loose => none ⟨choice, picks, loose⟩
    simp [unloose, filed_get? json apart found]
  keyed key record found :=
    (keyed _ (Dict.mem_of_get? found)).imp_left IsLevelKey.eq_repr

theorem files_topped (json : (Value.map es).IsJson) (apart : LevelsApart es) {own : Int}
    (choices : ChoicesApart es own) (some : ∃ choice picks, IsLoose es choice picks) {ledger : Ledger}
    (topped : ledger = (Dict.ofList (es.filterMap filed?)).insert (toString own)
      (addAll (((Dict.ofList (es.filterMap filed?)).get? (toString own)).getD .empty)
        (Dict.ofList (es.filterMap loose?)))) (keyed : Keyed ledger) : Files es own ledger where
  recorded level := by
    rw [topped, Dict.contains, Dict.get?_insert]
    by_cases same : level = own
    · simp [same, some]
    · have other : toString level ≠ toString own := fun text => same (levelText_injective text)
      rw [if_neg other, ← filed_contains json apart level, Dict.contains]
      simp [same]
  held level record found choice picks := by
    rw [topped, Dict.get?_insert] at found
    by_cases same : level = own
    · subst same
      rw [if_pos rfl, Option.some.injEq] at found
      rw [← found, topped_get? json apart choices, and_iff_right rfl]
    · have other : toString level ≠ toString own := fun text => same (levelText_injective text)
      rw [if_neg other] at found
      simp [same, filed_get? json apart found]
  keyed key record found :=
    (keyed _ (Dict.mem_of_get? found)).imp_left IsLevelKey.eq_repr

theorem ofValue_sorted (told : IsTold (.map es)) {own : Int} (low : 1 ≤ own) (high : own ≤ 20) :
    ofValue own (.map es) = .ok
      (if (Dict.ofList (es.filterMap loose?)).isEmpty then (Dict.ofList (es.filterMap filed?), [])
      else ((Dict.ofList (es.filterMap filed?)).insert (toString own)
          (addAll (((Dict.ofList (es.filterMap filed?)).get? (toString own)).getD .empty)
            (Dict.ofList (es.filterMap loose?))),
        [.flatAdvancement (sortedTexts (Dict.ofList (es.filterMap loose?)).keys) (toString own)])) := by
  rw [ofValue, sortEntries_eq told, ok_bind, clamp_of_mem low high]
  exact (apply_ite Except.ok _ _ _).symm

end Filing

/-- A ledger of any shape is read into one that records its choices and nothing else, each at its own level or at
the character's, and that stays as it is from then on. -/
theorem ofValue_files {es : Entries} {own : Int} (json : (Value.map es).IsJson) (told : IsTold (.map es))
    (low : 1 ≤ own) (high : own ≤ 20) (levels : LevelsApart es) (choices : ChoicesApart es own) :
    ∃ ledger notices, ofValue own (.map es) = .ok (ledger, notices) ∧ Files es own ledger ∧
      ∀ again, ofValue again ledger.toValue = .ok (ledger, []) := by
  have reads := ofValue_sorted told low high
  have keyed := ofValue_keyed reads
  refine ⟨_, _, reads, ?_, ofValue_toValue keyed⟩
  cases none : (Dict.ofList (es.filterMap loose?)).isEmpty with
  | true =>
    have unloose : ¬ ∃ choice picks, IsLoose es choice picks := by
      rw [← loose_isEmpty json.members, none, Bool.true_eq_false]
      exact not_false
    rw [none] at keyed
    exact files_filed json levels unloose keyed
  | false =>
    rw [none] at keyed
    exact files_topped json levels choices ((loose_isEmpty json.members).1 none) rfl keyed

def untidy : Entries :=
  [(.str "02", .map [(.str "a", .list [.str "x", .int 7])]), (.str "c", .str "y"), (.str "7", .map [])]

theorem untidy_json : (Value.map untidy).IsJson :=
  .map (.of_names ["02", "c", "7"] rfl (by decide)) (List.forall_mem_cons.2
    ⟨.map (.of_names ["a"] rfl (by decide)) (List.forall_mem_singleton.2
      (.list (List.forall_mem_cons.2 ⟨.str "x", List.forall_mem_singleton.2 (.int 7)⟩))),
      List.forall_mem_cons.2 ⟨.str "y", List.forall_mem_singleton.2 (.map (.of_names [] rfl .nil) nofun)⟩⟩)

theorem untidy_told : IsTold (.map untidy) :=
  (ofValue_completes 2 _).1 ⟨_, rfl⟩

theorem untidy_levels : LevelsApart untidy := by
  have seven : integerOf "7" = .ok 7 := by decide
  have two : integerOf "02" = .ok 2 := by decide
  rintro e member f member' level ⟨⟨digits, map⟩, number⟩ ⟨⟨digits', map'⟩, number'⟩
  simp only [untidy, List.mem_cons, List.not_mem_nil, or_false] at member member'
  rcases member with rfl | rfl | rfl <;> rcases member' with rfl | rfl | rfl <;>
    simp_all [Value.isMap, Value.text] <;> omega

theorem untidy_choices : ChoicesApart untidy 2 := by
  rintro choice picks others ⟨e, member, ⟨⟨digits, map⟩, number⟩, c, given, rfl, -⟩ ⟨f, member', loose, same, -⟩
  simp only [untidy, List.mem_cons, List.not_mem_nil, or_false] at member member'
  rcases member with rfl | rfl | rfl <;> rcases member' with rfl | rfl | rfl <;>
    simp_all [Value.isMap, Value.text, Value.entriesOrEmpty]

theorem ofValue_files_untidy : ∃ ledger notices, ofValue 2 (.map untidy) = .ok (ledger, notices) ∧
    Files untidy 2 ledger ∧ ∀ again, ofValue again ledger.toValue = .ok (ledger, []) :=
  ofValue_files untidy_json untidy_told (by decide) (by decide) untidy_levels untidy_choices

/-- A level in the digits of another script is a level too, not a loose choice. -/
theorem ofValue_otherDigits : ¬ Text.IsPlain "٣" ∧
    ofValue 2 (.map [(.str "٣", .map [(.str "a", .list [.str "x"])])]) =
      .ok (.ofList [("3", .ofList [("a", ["x"])])], []) ∧
    ¬ (Dict.ofList [("3", Dict.ofList [("a", ["x"])])] : Ledger).contains "2" = true := by
  decide

end Ledger

end Tabletop
