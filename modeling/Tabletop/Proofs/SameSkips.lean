import Mathlib.Data.List.Forall2
import Tabletop.Proofs.BuiltLevels

set_option autoImplicit false

namespace Tabletop.Ruleset

open Check (Entries levelKey? lacksId choiceId choiceIssues nodeIssues choicePlace choiceSpot progressionPlace)

-- the choices that are left out

/-- Which choices go by no id, by one that came before, or by the key kept for grants. -/
def skips : List String → List Value → List Bool
  | _, [] => []
  | seen, c :: cs =>
    if lacksId c then true :: skips seen cs
    else (seen.contains (choiceId c) || choiceId c = grantsKey) :: skips (choiceId c :: seen) cs

theorem length_skips (seen : List String) (items : List Value) : (skips seen items).length = items.length := by
  induction items generalizing seen with
  | nil => rfl
  | cons c cs ih =>
    rw [skips]
    split <;> simp [ih]

def Flags (i : Issue) (place : String) : Prop :=
  i.kind = "invalid_choice" ∧ i.field = place ∨ i.kind = "duplicate_choice_id" ∧ i.field = place ++ ".id"

instance (i : Issue) (place : String) : Decidable (Flags i place) :=
  inferInstanceAs (Decidable (_ ∨ _))

theorem Flags.unique {i : Issue} {place other : String} (first : Flags i place) (second : Flags i other) :
    place = other := by
  rcases first with ⟨kind, field⟩ | ⟨kind, field⟩ <;> rcases second with ⟨kind', field'⟩ | ⟨kind', field'⟩
  · exact field.symm.trans field'
  · exact absurd (kind.symm.trans kind') (by decide)
  · exact absurd (kind.symm.trans kind') (by decide)
  · exact (String.append_left_inj _).1 (field.symm.trans field')

theorem Flags.kind {i : Issue} {place : String} (flags : Flags i place) : i.kind ∈ Check.levelKinds := by
  rcases flags with ⟨kind, -⟩ | ⟨kind, -⟩ <;>
    · rw [kind]
      decide

section Choices

variable {place level : String}

theorem flags_cons {head : Issue} {start n : Nat} {issues : List Issue} {skipped : List Bool} (b : Bool)
    (apart : ∀ m n : Nat, choiceSpot place m = choiceSpot place n → m = n)
    (flags : Flags head (choiceSpot place start)) (tail : (∃ i ∈ issues, Flags i (choiceSpot place n)) ↔ ∃ k, n = start + 1 + k ∧ skipped[k]? = some true) :
    (∃ i ∈ (if b then head :: issues else issues), Flags i (choiceSpot place n)) ↔
      ∃ k, n = start + k ∧ (b :: skipped)[k]? = some true := by
  have later : (∃ k, n = start + k ∧ (b :: skipped)[k]? = some true) ↔
      n = start ∧ b = true ∨ ∃ k, n = start + 1 + k ∧ skipped[k]? = some true := by
    constructor
    · rintro ⟨_ | k, place, found⟩
      · exact .inl ⟨place, Option.some.inj found⟩
      · exact .inr ⟨k, by omega, found⟩
    · rintro (⟨place, rfl⟩ | ⟨k, place, found⟩)
      · exact ⟨0, place, rfl⟩
      · exact ⟨k + 1, by omega, found⟩
  rw [later, ← tail]
  cases b with
  | false => simp
  | true =>
    have here : Flags head (choiceSpot place n) ↔ n = start :=
      ⟨fun other => apart _ _ (other.unique flags), fun same => same ▸ flags⟩
    simp [here]

-- the check finds fault with the choices that are skipped, each at its place
theorem choiceIssues_flags (apart : ∀ m n : Nat, choiceSpot place m = choiceSpot place n → m = n) (start : Nat)
    (seen : List String) (items : List Value) (n : Nat) :
    (∃ i ∈ choiceIssues place level start seen items, Flags i (choiceSpot place n)) ↔
      ∃ k, n = start + k ∧ (skips seen items)[k]? = some true := by
  induction items generalizing start seen with
  | nil => simp [choiceIssues, skips]
  | cons c cs ih =>
    rw [choiceIssues, skips]
    split
    · exact flags_cons true apart (.inl ⟨rfl, rfl⟩) (ih (start + 1) seen)
    · have repeated : Flags (Check.warning "duplicate_choice_id"
          ("Choice id '" ++ choiceId c ++ "' is not unique at level " ++ level ++ ".")
          (choiceSpot place start ++ ".id")) (choiceSpot place start) := .inr ⟨rfl, rfl⟩
      exact flags_cons (seen.contains (choiceId c) || decide (choiceId c = grantsKey)) apart repeated
        (ih (start + 1) (choiceId c :: seen))

theorem flags_of_choiceIssues {start : Nat} {seen : List String} {items : List Value} {i : Issue}
    (member : i ∈ choiceIssues place level start seen items) : ∃ n, Flags i (choiceSpot place n) := by
  induction items generalizing start seen with
  | nil => contradiction
  | cons c cs ih =>
    rw [choiceIssues] at member
    split at member
    · rcases List.mem_cons.1 member with rfl | later
      · exact ⟨start, .inl ⟨rfl, rfl⟩⟩
      · exact ih later
    · simp only at member
      split at member
      · rcases List.mem_cons.1 member with rfl | later
        · exact ⟨start, .inr ⟨rfl, rfl⟩⟩
        · exact ih later
      · exact ih member

-- choices that the import keeps

def Reads (item : Value) (choice : Choice) : Prop :=
  ∃ es, item = .map es ∧ Choice.ofEntries (choiceEntries es) = .ok choice

def Sound (items : List Value) : Prop :=
  ∀ es, .map es ∈ items → lacksId (.map es) = false → ∃ choice, Choice.ofEntries (choiceEntries es) = .ok choice

theorem ofEntries_id {es : Entries} {choice : Choice} (read : Choice.ofEntries (choiceEntries es) = .ok choice) :
    choice.id = choiceId (.map es) := by
  simp only [Choice.ofEntries, Checked.seq_eq_ok, Checked.map_eq_ok] at read
  obtain ⟨_, _, ⟨_, _, ⟨_, _, ⟨_, _, ⟨_, _, ⟨id, named, rfl⟩, -, rfl⟩, -, rfl⟩, -, rfl⟩, -, rfl⟩, -, rfl⟩ := read
  rw [choiceEntries, Field.required, Value.field?_setField, if_pos rfl] at named
  cases named
  rfl

theorem choiceOf_lacking {classId : String} {item : Value} (lacks : lacksId item = true) :
    (choiceOf classId level item).result = .ok none := by
  cases item with
  | map es =>
    rw [choiceOf, if_pos lacks]
    rfl
  | _ => rfl

theorem choiceOf_named {classId : String} {es : Entries} (named : lacksId (.map es) = false) {choice : Choice}
    (read : Choice.ofEntries (choiceEntries es) = .ok choice) :
    (choiceOf classId level (.map es)).result = .ok (some choice) := by
  rw [choiceOf, if_neg (by simp [named]), read]
  rfl

def Matches (seen : List String) (kept : List Choice) : Prop :=
  ∀ id, id ≠ grantsKey → (id ∈ seen ↔ ∃ choice ∈ kept, choice.id = id)

theorem Matches.taken {seen : List String} {kept : List Choice} (invariant : Matches seen kept) (id : String) :
    (kept.any (fun c => c.id = id) || decide (id = grantsKey)) = (seen.contains id || decide (id = grantsKey)) := by
  by_cases reserved : id = grantsKey
  · simp [reserved]
  · have same := invariant id reserved
    rw [Bool.eq_iff_iff]
    simp [reserved, same]

theorem Matches.repeated {seen : List String} {kept : List Choice} (invariant : Matches seen kept) {id : String}
    (taken : (kept.any (fun c => c.id = id) || decide (id = grantsKey)) = true) : Matches (id :: seen) kept := by
  intro other apart
  rw [List.mem_cons, invariant other apart]
  refine ⟨?_, .inr⟩
  rintro (rfl | before)
  · simpa [apart] using taken
  · exact before

theorem Matches.kept {seen : List String} {kept : List Choice} (invariant : Matches seen kept) (choice : Choice) :
    Matches (choice.id :: seen) (kept ++ [choice]) := by
  intro other apart
  simp only [List.mem_cons, invariant other apart, List.mem_append, List.not_mem_nil, or_false]
  constructor
  · rintro (rfl | ⟨c, member, same⟩)
    · exact ⟨choice, .inr rfl, rfl⟩
    · exact ⟨c, .inl member, same⟩
  · rintro ⟨c, member | rfl, same⟩
    · exact .inr ⟨c, member, same⟩
    · exact .inl same.symm

theorem choicesOf_kept {classId : String} {seen : List String} {kept choices : List Choice} {items : List Value}
    (invariant : Matches seen kept) (sound : Sound items)
    (read : (choicesOf classId level kept items).result = .ok choices) : ∃ news, choices = kept ++ news ∧
      List.Forall₂ Reads (((items.zip (skips seen items)).filter fun p => !p.2).map (·.1)) news := by
  induction items generalizing seen kept with
  | nil =>
    cases read
    exact ⟨[], (List.append_nil _).symm, .nil⟩
  | cons item items ih =>
    have rest : Sound items := fun es member => sound es (.tail _ member)
    simp only [choicesOf, Noted.bind_result_ok] at read
    obtain ⟨choice?, read?, read⟩ := read
    cases lacks : lacksId item with
    | true =>
      cases (choiceOf_lacking lacks).symm.trans read?
      rw [skips, if_pos lacks]
      exact ih invariant rest read
    | false =>
      obtain ⟨es, rfl⟩ : ∃ es, item = .map es := by
        cases item <;> first | exact ⟨_, rfl⟩ | cases lacks
      obtain ⟨choice, described⟩ := sound es (.head _) lacks
      cases (choiceOf_named lacks described).symm.trans read?
      simp only at read
      rw [skips, if_neg (by simp [lacks]), ← ofEntries_id described]
      have same := invariant.taken choice.id
      split at read
      · rename_i taken
        obtain ⟨_, -, read⟩ := Noted.bind_result_ok.1 read
        rw [← same, taken]
        exact ih (invariant.repeated taken) rest read
      · rename_i new
        rw [Bool.not_eq_true] at new
        rw [← same, new]
        obtain ⟨news, rfl, pairs⟩ := ih (invariant.kept choice) rest read
        exact ⟨choice :: news, by simp, .cons ⟨es, rfl, described⟩ pairs⟩

end Choices

-- what the report says of a level

def levelWarning (classKey key : Value) : Issue :=
  Check.warning "invalid_level_key"
    ("Progression key '" ++ key.text ++ "' is not a level between 1 and 20 and will be ignored.")
    (progressionPlace classKey ++ "." ++ key.text)

theorem nodeIssues_cases {classKey key node : Value} {own : List Issue}
    (found : nodeIssues (progressionPlace classKey) key node = .ok own) :
    levelKey? key = .ok none ∧ own = [levelWarning classKey key] ∨
      ∃ level, levelKey? key = .ok (some level) ∧
        ((∃ fields items, node = .map fields ∧ Value.looped (Value.field "choices" fields) = .ok items ∧
          own = choiceIssues (progressionPlace classKey ++ "." ++ key.text) key.text 0 [] items) ∨
        node.isMap = false ∧ own = []) := by
  simp only [nodeIssues, bind_eq_ok] at found
  obtain ⟨_ | level, keyed, found⟩ := found
  · cases found
    exact .inl ⟨keyed, rfl⟩
  · refine .inr ⟨level, keyed, ?_⟩
    cases node with
    | map fields =>
      simp only [bind_eq_ok] at found
      obtain ⟨items, looped, found⟩ := found
      cases found
      exact .inl ⟨fields, items, rfl, looped, rfl⟩
    | _ =>
      cases found
      exact .inr ⟨rfl, rfl⟩

theorem levelWarning_text {classKey key classKey' key' : Value}
    (same : levelWarning classKey key = levelWarning classKey' key') : key.text = key'.text := by
  have message := congrArg Issue.message same
  simpa [levelWarning, Check.warning, String.append_left_inj, String.append_right_inj] using message

theorem not_flags_levelWarning {classKey key : Value} {place : String} :
    ¬ Flags (levelWarning classKey key) place := by
  rintro (⟨kind, -⟩ | ⟨kind, -⟩) <;> simp [levelWarning, Check.warning] at kind

section Report

variable {d : Value} {report : Report} {classKey key : Value} {classFields fields : Entries}

-- the report has the issues of each level
theorem issues_of_level (checked : check d = .ok report) (declared : (classKey, .map classFields) ∈ declaredClasses d)
    {node : Value} (entry : (key, node) ∈ Value.entriesOrEmpty (Value.field "progression" classFields))
    {own : List Issue} (found : nodeIssues (progressionPlace classKey) key node = .ok own) {i : Issue}
    (kind : i.kind ∈ Check.levelKinds) (member : i ∈ own) : i ∈ report.issues :=
  (mem_check checked kind).2 ⟨_, declared, classFields, rfl, _, entry, own, found, member⟩

theorem flagged_level (checked : check d = .ok report) (flagged : levelWarning classKey key ∈ report.issues) :
    levelKey? key = .ok none := by
  obtain ⟨c, -, fields, -, e, -, own, found, member⟩ :=
    (mem_check checked (show "invalid_level_key" ∈ Check.levelKinds by decide)).1 flagged
  rcases nodeIssues_cases found with ⟨keyed, rfl⟩ | ⟨level, -, ⟨_, items, -, -, rfl⟩ | ⟨-, rfl⟩⟩
  · have text := levelWarning_text (List.mem_singleton.1 member)
    rw [levelKey?, text]
    exact keyed
  · obtain ⟨n, flags⟩ := flags_of_choiceIssues member
    exact absurd flags not_flags_levelWarning
  · contradiction

theorem declaredClasses_json (json : d.IsJson) : (Value.map (declaredClasses d)).IsJson := by
  cases json with
  | map members all => exact Value.entriesOrEmpty_json (Value.field_json (.map members all) "classes")
  | _ => exact .map ⟨nofun, .nil⟩ nofun

theorem flagged_choice (json : d.IsJson) (checked : check d = .ok report)
    (declared : (classKey, .map classFields) ∈ declaredClasses d)
    (entry : (key, .map fields) ∈ Value.entriesOrEmpty (Value.field "progression" classFields)) {level : Int}
    (keyed : levelKey? key = .ok (some level)) {items : List Value}
    (looped : Value.looped (Value.field "choices" fields) = .ok items) (n : Nat) :
    (∃ i ∈ report.issues, Flags i (choicePlace classKey key n)) ↔ (skips [] items)[n]? = some true := by
  have digits := (Check.levelKey?_some_iff.1 keyed).1.1
  have own : nodeIssues (progressionPlace classKey) key (.map fields) =
      .ok (choiceIssues (progressionPlace classKey ++ "." ++ key.text) key.text 0 [] items) := by
    rw [nodeIssues, keyed, ok_bind, looped]
    rfl
  have apart (m n : Nat) (same : choicePlace classKey key m = choicePlace classKey key n) : m = n :=
    (Check.choicePlace_injective digits digits same).2.2
  have classes := declaredClasses_json json
  have entries := Value.entriesOrEmpty_json (Value.field_json (classes.of_mem declared) "progression")
  have here : (∃ i ∈ choiceIssues (progressionPlace classKey ++ "." ++ key.text) key.text 0 [] items,
      Flags i (choicePlace classKey key n)) ↔ ∃ k, n = 0 + k ∧ (skips [] items)[k]? = some true :=
    choiceIssues_flags apart 0 [] items n
  simp only [Nat.zero_add, exists_eq_left'] at here
  rw [← here]
  constructor
  · rintro ⟨i, listed, flags⟩
    obtain ⟨c, declared', classFields', map, e, entry', own', found, member⟩ :=
      (mem_check checked flags.kind).1 listed
    rcases nodeIssues_cases found with ⟨-, rfl⟩ | ⟨level', keyed', ⟨fields', items', node, looped', rfl⟩ | ⟨-, rfl⟩⟩
    · rw [List.mem_singleton.1 member] at flags
      exact absurd flags not_flags_levelWarning
    · obtain ⟨m, flags'⟩ := flags_of_choiceIssues member
      obtain ⟨classText, text, -⟩ := Check.choicePlace_injective (Check.levelKey?_some_iff.1 keyed').1.1 digits
        (flags'.unique flags)
      cases classes.members.eq_of_text declared' declared classText
      cases map
      cases entries.members.eq_of_text entry' entry text
      cases node
      cases looped'.symm.trans looped
      exact ⟨i, member, flags⟩
    · contradiction
  · rintro ⟨i, member, flags⟩
    exact ⟨i, issues_of_level checked declared entry own flags.kind member, flags⟩

-- a node of a class and the entry that it comes from

def Alone (es : Entries) (key : Value) : Prop :=
  ∀ e ∈ es, ∀ n, Numbers key n → Numbers e.1 n → e.1 = key

theorem node_of_entry (json : d.IsJson) (declared : (classKey, .map classFields) ∈ declaredClasses d)
    {progression : Dict Int Node} {ns : List Notice} (read : (progressionOf classKey.text .empty
      (Value.entriesOrEmpty (Value.field "progression" classFields))).outcome = .ok (progression, ns))
    (entry : (key, .map fields) ∈ Value.entriesOrEmpty (Value.field "progression" classFields))
    (alone : Alone (Value.entriesOrEmpty (Value.field "progression" classFields)) key) {level : Int}
    (keyed : levelKey? key = .ok (some level)) :
    ∃ node, (nodeOf classKey.text level fields).result = .ok node ∧ progression.get? level = some node := by
  have entries := Value.entriesOrEmpty_json
    (Value.field_json ((declaredClasses_json json).of_mem declared) "progression")
  obtain ⟨before, after, split⟩ := List.append_of_mem entry
  have distinct := entries.members.distinct
  rw [split] at read distinct
  have last : ∀ e ∈ after, ¬ Gives e level := by
    intro e later given
    have same := alone e (split ▸ List.mem_append_right _ (.tail _ later)) level (Check.levelKey?_some_iff.1 keyed).1
      (Check.levelKey?_some_iff.1 given.1).1
    rw [List.map_append, List.map_cons, List.nodup_append, List.nodup_cons] at distinct
    have repeated : e.1 ∈ after.map (·.1) := List.mem_map_of_mem later
    rw [same] at repeated
    exact distinct.2.1.1 repeated
  obtain ⟨node, own, made, found, -⟩ := progressionOf_last read keyed last
  exact ⟨node, Noted.result_of_outcome made, found⟩

end Report

theorem filter_zip {α : Type} {items : List α} {bs : List Bool} (f : Nat → Bool) (start : Nat)
    (length : bs.length = items.length) (told : ∀ k, f (start + k) = true ↔ bs[k]? = some true) :
    ((items.zip bs).filter fun p => !p.2).map (·.1) =
      ((items.zipIdx start).filter fun p => !f p.2).map (·.1) := by
  induction items generalizing bs start with
  | nil => simp
  | cons a items ih =>
    cases bs with
    | nil => cases length
    | cons b bs =>
      have rest := ih (start + 1) (Nat.succ.inj length) fun k => by
        rw [Nat.add_assoc, Nat.add_comm 1 k]
        exact told (k + 1)
      have here : f start = b := by
        have first := told 0
        rw [Nat.add_zero, List.getElem?_cons_zero, Option.some.injEq] at first
        exact Bool.eq_iff_iff.2 first
      rw [List.zip_cons_cons, List.zipIdx_cons, List.filter_cons, List.filter_cons, here]
      cases b <;> simp [rest]

/-- The report and the class agree on what is left out at this key: a key that is called no level has no node, and a
node holds, in order, the choices that no fault is found with, if those with an id are well-formed. -/
structure SkipsAlike (report : Report) (c : ClassDef) (classKey key : Value) (fields : Entries) : Prop where
  level : levelWarning classKey key ∈ report.issues ↔
    ¬ ∃ level node, Numbers key level ∧ c.progression.get? level = some node
  choices : ∀ level node, Numbers key level → c.progression.get? level = some node →
    (nodeOf classKey.text level fields).result = .ok node ∧
      ∃ items, Value.looped (Value.field "choices" fields) = .ok items ∧ (Sound items →
        List.Forall₂ Reads ((items.zipIdx.filter fun p =>
          !decide (∃ i ∈ report.issues, Flags i (choicePlace classKey key p.2))).map (·.1)) node.choices)

/-- The check and the import agree on every entry of a class that is kept. -/
theorem ofDocument_skipsAlike {now : Moment} {d : Value} {r : Ruleset} (json : d.IsJson)
    (imported : (ofDocument now d).result = .ok r) {classKey : Value} {classFields : Entries}
    (declared : (classKey, .map classFields) ∈ declaredClasses d) {c : ClassDef}
    (kept : r.classes.get? classKey.text = some c) {key : Value} {fields : Entries}
    (entry : (key, .map fields) ∈ Value.entriesOrEmpty (Value.field "progression" classFields))
    (alone : Alone (Value.entriesOrEmpty (Value.field "progression" classFields)) key) :
    ∃ report, check d = .ok report ∧ SkipsAlike report c classKey key fields := by
  obtain ⟨ns, noted⟩ := Noted.outcome_of_result imported
  obtain ⟨es, report, more, rfl, -, checked, built, -⟩ := ofDocument_built noted
  obtain ⟨own, part, -⟩ := build_class json built declared
  rw [kept] at part
  obtain ⟨progression, told, read, -, _, whole, -⟩ := classOf_progression part
  obtain rfl := classDef_progression (partOf_result (Noted.result_of_outcome whole))
  have bounds {level : Int} {node : Node} (found : c.progression.get? level = some node) :
      1 ≤ level ∧ level ≤ 20 := by
    have parsed := ofDocument_parsed imported _ (Dict.mem_of_get? kept) _ (Dict.mem_of_get? found)
    exact ⟨parsed.low, parsed.high⟩
  refine ⟨report, checked, ⟨⟨?_, ?_⟩, ?_⟩⟩
  · rintro flagged ⟨level, node, number, found⟩
    have none := flagged_level checked flagged
    cases none.symm.trans (Check.levelKey?_some_iff.2 ⟨number, bounds found⟩)
  · intro unbuilt
    obtain ⟨_ | level, keyed⟩ := progressionOf_keyed read entry
    · have own : nodeIssues (progressionPlace classKey) key (.map fields) = .ok [levelWarning classKey key] := by
        rw [nodeIssues, keyed]
        rfl
      have kind : (levelWarning classKey key).kind ∈ Check.levelKinds := .head _
      exact issues_of_level checked declared entry own kind (.head _)
    · obtain ⟨node, -, found⟩ := node_of_entry json declared read entry alone keyed
      exact absurd ⟨level, node, (Check.levelKey?_some_iff.1 keyed).1, found⟩ unbuilt
  · intro level node number found
    have keyed := Check.levelKey?_some_iff.2 ⟨number, bounds found⟩
    obtain ⟨other, made, found'⟩ := node_of_entry json declared read entry alone keyed
    cases found.symm.trans found'
    refine ⟨made, ?_⟩
    simp only [nodeOf, Noted.bind_result_ok, Noted.ofExcept_result_ok] at made
    obtain ⟨grants, -, items, looped, choices, chosen, same⟩ := made
    cases same
    refine ⟨items, looped, fun sound => ?_⟩
    have invariant : Matches [] [] := fun id _ => by simp
    obtain ⟨news, rfl, pairs⟩ := choicesOf_kept invariant sound chosen
    let flagged (n : Nat) : Bool := decide (∃ i ∈ report.issues, Flags i (choicePlace classKey key n))
    have told (k : Nat) : flagged (0 + k) = true ↔ (skips [] items)[k]? = some true := by
      rw [decide_eq_true_iff, Nat.zero_add, flagged_choice json checked declared entry keyed looped]
    rw [filter_zip flagged 0 (length_skips [] items) told] at pairs
    exact pairs

namespace Primer

def spellChoice (id : String) : Value :=
  .map [(.str "id", .str id), (.str "from", .str "spells")]

def crowdedLevel : Entries :=
  [(.str "choices", .list [spellChoice "a", .str "none", spellChoice "b", spellChoice "a"])]

def crowded : Value :=
  withProgression (.map [(.str "2", .map crowdedLevel), (.str "21", .map [])])

theorem spellChoice_json (id : String) : (spellChoice id).IsJson := by
  refine .map (.of_names ["id", "from"] rfl (by decide)) ?_
  simp only [List.forall_mem_cons]
  exact ⟨.str id, .str "spells", by simp⟩

theorem crowdedLevel_json : (Value.map crowdedLevel).IsJson := by
  refine single_json _ (.list ?_)
  simp only [List.forall_mem_cons]
  exact ⟨spellChoice_json "a", .str "none", spellChoice_json "b", spellChoice_json "a", by simp⟩

theorem crowded_json : crowded.IsJson := by
  refine withProgression_json (.map (.of_names ["2", "21"] rfl (by decide)) ?_)
  simp only [List.forall_mem_cons]
  exact ⟨crowdedLevel_json, .map (.of_names [] rfl .nil) nofun, by simp⟩

theorem crowded_imported : ∃ r, (ofDocument shelved crowded).result = .ok r ∧
    (r.classes.get? "wizard").isSome = true := by
  have outcome : ((ofDocument shelved crowded).result.toOption.map
    fun r => (r.classes.get? "wizard").isSome) = some true := by decide +kernel
  cases read : (ofDocument shelved crowded).result with
  | error cause =>
    rw [read] at outcome
    cases outcome
  | ok r =>
    rw [read] at outcome
    exact ⟨r, rfl, Option.some.inj outcome⟩

theorem ofDocument_skipsAlike_crowded : ∃ r c report, (ofDocument shelved crowded).result = .ok r ∧
    r.classes.get? "wizard" = some c ∧ check crowded = .ok report ∧
      SkipsAlike report c (.str "wizard") (.str "2") crowdedLevel := by
  obtain ⟨r, imported, some⟩ := crowded_imported
  obtain ⟨c, kept⟩ := Option.isSome_iff_exists.1 some
  let nodes : Entries := [(.str "2", .map crowdedLevel), (.str "21", .map [])]
  have declared : (.str "wizard", .map [(.str "progression", .map nodes)]) ∈ declaredClasses crowded := .head _
  have entry : (.str "2", .map crowdedLevel) ∈ nodes := .head _
  have alone : Alone nodes (.str "2") := by
    intro e member n number other
    simp only [nodes, List.mem_cons, List.not_mem_nil, or_false] at member
    rcases member with rfl | rfl
    · rfl
    · have apart : integerOf "2" ≠ integerOf "21" := by decide
      exact absurd (number.2.trans other.2.symm) apart
  obtain ⟨report, checked, alike⟩ := ofDocument_skipsAlike crowded_json imported declared kept entry alone
  exact ⟨r, c, report, imported, kept, checked, alike⟩

end Primer

end Tabletop.Ruleset
