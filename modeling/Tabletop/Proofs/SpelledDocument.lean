import Tabletop.Proofs.KeptPools
import Tabletop.Proofs.SpelledNumbers

set_option autoImplicit false

namespace Tabletop

open Tabletop.Field (Entries)
open Value (Spelled SameOr InList InObject InKeys MemberAlike EntryAlike Agree AgreeBy)

namespace Value

variable {es fs : Entries} {v w : Value} {each : Value → Value → Prop} {alike : Value → Value → Value → Prop}

theorem entries_inObject (value : SameOr (InObject alike) v w) :
    List.Forall₂ (MemberAlike alike) v.entriesOrEmpty w.entriesOrEmpty := by
  obtain rfl | members := value
  · exact List.forall₂_same.2 fun _ _ => ⟨rfl, .inl rfl⟩
  · cases members with
    | map members => exact members

theorem entries_inKeys (value : SameOr (InKeys each) v w) :
    List.Forall₂ (EntryAlike each) v.entriesOrEmpty w.entriesOrEmpty := by
  obtain rfl | entries := value
  · exact List.forall₂_same.2 fun e _ => ⟨.same e.1, .inl rfl⟩
  · cases entries with
    | map entries => exact entries

theorem setField_alike {name : String} (members : List.Forall₂ (MemberAlike alike) es fs)
    (value : SameOr (alike (.str name)) v w) :
    List.Forall₂ (MemberAlike alike) (setField name v es) (setField name w fs) := by
  unfold setField
  induction members with
  | nil => exact .cons ⟨rfl, value⟩ .nil
  | @cons e f es fs member members ih =>
    obtain ⟨k, x⟩ := e
    obtain ⟨l, y⟩ := f
    obtain rfl : l = k := member.1
    rw [putEntry, putEntry, sameKey_name]
    cases here : isKey name l with
    | false => exact .cons member ih
    | true =>
      obtain rfl := mem_of_isKey here
      exact .cons ⟨rfl, value⟩ members

end Value

namespace Ruleset

-- the check finds the same

namespace Check

variable {place level : String} {es fs : Entries} {k l v w : Value} {xs ys : List Value}

theorem choiceIssues_spelled {i : Nat} {seen : List String} (items : List.Forall₂ (SameOr ChoiceSpelled) xs ys) :
    choiceIssues place level i seen ys = choiceIssues place level i seen xs := by
  induction items generalizing i seen with
  | nil => rfl
  | @cons x y xs ys item _ ih =>
    have same : lacksId y = lacksId x ∧ choiceId y = choiceId x := by
      obtain rfl | ⟨⟨members⟩⟩ := item
      · exact ⟨rfl, rfl⟩
      · exact ⟨lacksId_spelled members, choiceId_spelled members⟩
    simp only [choiceIssues, same, ih]

theorem nodeIssues_spelled (key : Spelled k l) (node : SameOr NodeSpelled v w) :
    nodeIssues place l w = nodeIssues place k v := by
  simp only [nodeIssues, levelKey?_spelled key, key.text_eq]
  obtain rfl | node := node
  · rfl
  · cases node with
    | @map es fs members =>
      have choices : SameOr (InList ChoiceSpelled) (Value.field "choices" es) (Value.field "choices" fs) :=
        (Value.field_alike members "choices").imp_right (by simp)
      have walked (nodeField : String) :
          (Value.field "choices" fs).looped.map (choiceIssues nodeField k.text 0 []) =
            (Value.field "choices" es).looped.map (choiceIssues nodeField k.text 0 []) :=
        Value.looped_alike choices fun _ _ => choiceIssues_spelled
      congr 1
      funext level?
      cases level? with
      | none => rfl
      | some level => exact walked _

theorem nodesIssues_spelled (entries : List.Forall₂ (EntryAlike NodeSpelled) es fs) :
    nodesIssues place fs = nodesIssues place es := by
  induction entries with
  | nil => rfl
  | cons entry _ ih => rw [nodesIssues, nodesIssues, nodeIssues_spelled entry.1 entry.2, ih]

theorem classIssues_spelled (key : Spelled k l) (data : SameOr ClassSpelled v w) :
    classIssues l w = classIssues k v := by
  simp only [classIssues, key.text_eq]
  obtain rfl | data := data
  · rfl
  · cases data with
    | @map es fs members =>
      have nodes : List.Forall₂ (EntryAlike NodeSpelled) (Value.field "progression" es).entriesOrEmpty
          (Value.field "progression" fs).entriesOrEmpty :=
        Value.entries_inKeys ((Value.field_alike members "progression").imp_right (by simp))
      have name : Value.field "name" fs = Value.field "name" es := Value.field_same members (by simp)
      simp only [name]
      generalize (Value.field "progression" es).entriesOrEmpty = given,
        (Value.field "progression" fs).entriesOrEmpty = given' at nodes ⊢
      cases nodes with
      | nil => rfl
      | cons node others => simp only [nodesIssues_spelled (.cons node others)]

theorem classesIssues_spelled (entries : List.Forall₂ (EntryAlike ClassSpelled) es fs) :
    classesIssues fs = classesIssues es := by
  induction entries with
  | nil => rfl
  | cons entry _ ih => rw [classesIssues, classesIssues, classIssues_spelled entry.1 entry.2, ih]

end Check

-- options and pools

inductive OptionSpelled : Value → Value → Prop where
  | map {es fs : Entries} (members : List.Forall₂ (MemberAlike fun k v w =>
      (k = .str "id" ∨ k = .str "name" ∧ Value.hasField "id" es = true) ∧ Spelled v w) es fs) :
    OptionSpelled (.map es) (.map fs)

def PoolSpelled : Value → Value → Prop :=
  InList OptionSpelled

section Pools

variable {pool : String} {es fs : Entries} {v w : Value} {xs ys : List Value}

theorem textual_spelled (spelled : Spelled v w) : textual w = textual v := by
  cases spelled <;> rfl

theorem withId_of_hasField (given : Value.hasField "id" es = true) : withId es = es := by
  simp [withId, given]

theorem optionEntries_spelled (option : OptionSpelled (.map es) (.map fs)) :
    Agree ["id", "name", "level", "tags", "lists", "requires", "desc", "description"]
      (optionEntries es) (optionEntries fs) := by
  obtain ⟨members⟩ := option
  refine optionEntries_of_agree (Value.agree_of_alike members (by simp)) ?_
  have ids := Value.hasField_alike members "id"
  cases given : Value.hasField "id" es with
  | true =>
    rw [withId_of_hasField given, withId_of_hasField (ids.trans given)]
    exact Value.agreeBy_of_alike members fun _ _ _ _ value => textual_spelled value.2
  | false =>
    have none : Value.field? "id" es = none := by simpa [Value.hasField] using given
    have none' : Value.field? "id" fs = .none := by simpa [Value.hasField] using ids.trans given
    have same : Agree ["id", "name"] es fs := by
      refine List.forall_mem_cons.2 ⟨none'.trans none.symm, ?_⟩
      exact Value.agree_of_alike members (by simp [given])
    have name : Value.field "name" fs = Value.field "name" es := same.field (by simp)
    have agree : Agree ["id", "name"] (withId es) (withId fs) := by
      simp only [withId, ids, name]
      split
      · exact same.setField
      · exact same
    exact fun name member => congrArg _ (agree name member)

theorem optionsOf_spelled (items : List.Forall₂ (SameOr OptionSpelled) xs ys) :
    optionsOf pool ys = optionsOf pool xs := by
  induction items with
  | nil => rfl
  | @cons x y xs ys item _ ih =>
    obtain same | option := item
    · obtain rfl : y = x := same
      cases y <;> simp only [optionsOf, ih]
    · cases option with
      | map members =>
        rw [optionsOf, optionsOf, PoolOption.ofEntries_of_agree (optionEntries_spelled (.map members)), ih]

theorem poolLists_spelled (members : List.Forall₂ (MemberAlike fun _ => PoolSpelled) es fs) :
    poolLists fs = poolLists es := by
  induction members with
  | nil => rfl
  | @cons e f es fs member _ ih =>
    obtain ⟨k, v⟩ := e
    obtain ⟨l, w⟩ := f
    obtain ⟨key, value⟩ := member
    obtain rfl : l = k := key
    obtain same | pool := value
    · obtain rfl : w = v := same
      cases w <;> simp only [poolLists, ih]
    · cases pool with
      | list items => simp only [poolLists, optionsOf_spelled items, ih]
      | tuple items => simp only [poolLists, ih]
      | set items => simp only [poolLists, ih]

end Pools

def DocumentSpelled : Value → Value → Prop :=
  InObject fun k v w =>
    k = .str "classes" ∧ InKeys ClassSpelled v w ∨
    k = .str "pools" ∧ InObject (fun _ => PoolSpelled) v w ∨
    k ∈ Pools.standardKeys.map Value.str ∧ PoolSpelled v w ∨
    k ∈ [.str "featuresDictionary", .str "features_dictionary"] ∧ InKeys (fun _ _ => False) v w

section Document

variable {es fs : Entries} {d e : Value} {r : Ruleset} {notices : List Notice} {now : Moment}

theorem classes_spelled (document : DocumentSpelled (.map es) (.map fs)) :
    SameOr (InKeys ClassSpelled) (Value.field "classes" es) (Value.field "classes" fs) := by
  obtain ⟨members⟩ := document
  exact (Value.field_alike members "classes").imp_right (by simp [Pools.standardKeys])

theorem nestedPools_spelled (document : DocumentSpelled (.map es) (.map fs)) :
    List.Forall₂ (MemberAlike fun _ => PoolSpelled) (Value.field "pools" es).entriesOrEmpty
      (Value.field "pools" fs).entriesOrEmpty := by
  obtain ⟨members⟩ := document
  exact Value.entries_inObject ((Value.field_alike members "pools").imp_right (by simp [Pools.standardKeys]))

theorem declaredPools_spelled (document : DocumentSpelled (.map es) (.map fs)) :
    List.Forall₂ (MemberAlike fun _ => PoolSpelled) (declaredPools es) (declaredPools fs) := by
  have nested := nestedPools_spelled document
  obtain ⟨members⟩ := document
  have named : ∀ key ∈ Pools.standardKeys,
      Option.Rel (SameOr PoolSpelled) (Value.field? key es) (Value.field? key fs) := by
    intro key member
    have found := Value.field?_alike members key
    generalize Value.field? key es = v?, Value.field? key fs = w? at found ⊢
    cases found with
    | none => exact .none
    | some value =>
      simp only [Pools.standardKeys, List.mem_cons, List.not_mem_nil, or_false] at member
      obtain rfl | rfl | rfl | rfl := member
      all_goals exact .some (value.imp_right (by simp [Pools.standardKeys]))
  exact declaredPools_related nested named fun _ _ _ _ _ _ => Value.setField_alike

theorem poolsOf_spelled (document : DocumentSpelled (.map es) (.map fs)) : poolsOf fs = poolsOf es := by
  rw [poolsOf, poolLists_spelled (declaredPools_spelled document), poolsOf]

theorem featuresOf_spelled {features : Dict String FeatureInfo}
    (entries : List.Forall₂ (EntryAlike fun _ _ => False) es fs) :
    featuresOf features fs = featuresOf features es := by
  induction entries generalizing features with
  | nil => rfl
  | @cons e f es fs entry _ ih =>
    obtain ⟨k, v⟩ := e
    obtain ⟨l, w⟩ := f
    obtain ⟨key, same | ⟨⟨⟩⟩⟩ := entry
    obtain rfl : w = v := same
    have text : l.text = k.text := key.text_eq
    simp only [featuresOf, text, ih]

theorem featureDictionary_spelled (document : DocumentSpelled (.map es) (.map fs)) :
    List.Forall₂ (EntryAlike fun _ _ => False) (featureDictionary es) (featureDictionary fs) := by
  obtain ⟨members⟩ := document
  have first := Value.field?_alike members "featuresDictionary"
  have second := Value.field_alike members "features_dictionary"
  unfold featureDictionary
  generalize Value.field? "featuresDictionary" es = v?, Value.field? "featuresDictionary" fs = w? at first ⊢
  cases first with
  | none => exact Value.entries_inKeys (second.imp_right (by simp [Pools.standardKeys]))
  | some value => exact Value.entries_inKeys (value.imp_right (by simp [Pools.standardKeys]))

theorem meta_spelled (document : DocumentSpelled (.map es) (.map fs)) :
    Value.field "meta" fs = Value.field "meta" es := by
  obtain ⟨members⟩ := document
  exact Value.field_same members (by simp [Pools.standardKeys])

theorem check_spelled (document : DocumentSpelled (.map es) (.map fs)) : check (.map fs) = check (.map es) := by
  have classes : Check.documentClassIssues (Value.field "classes" fs) =
      Check.documentClassIssues (Value.field "classes" es) := by
    obtain same | classes := classes_spelled document
    · rw [same]
    · generalize Value.field "classes" es = v, Value.field "classes" fs = w at classes ⊢
      cases classes with
      | map entries => exact Check.classesIssues_spelled entries
  have pools : Check.missingPools fs = Check.missingPools es := by
    have nested := nestedPools_spelled document
    obtain ⟨members⟩ := document
    simp only [Check.missingPools, Value.hasField_alike members, Value.hasField_alike nested]
  rw [check, meta_spelled document, classes, check]
  simp only [Check.poolIssues, pools]

theorem keyed_spelled {alike : Value → Value → Value → Prop} (members : List.Forall₂ (MemberAlike alike) es fs)
    {names : List (String × Value)} (read : keyed es = .ok names) : ∃ names, keyed fs = .ok names := by
  induction members generalizing names with
  | nil => exact ⟨[], rfl⟩
  | @cons e f es fs member _ ih =>
    obtain ⟨k, v⟩ := e
    obtain ⟨l, w⟩ := f
    obtain rfl : l = k := member.1
    simp only [keyed, Checked.seq_eq_ok, Checked.map_eq_ok] at read ⊢
    obtain ⟨_, rest, ⟨pair, first, -⟩, others, -⟩ := read
    obtain ⟨name, string, -⟩ := Checked.map_eq_ok.1 first
    obtain ⟨rest', others'⟩ := ih others
    exact ⟨_, _, rest', ⟨_, Checked.map_eq_ok.2 ⟨name, string, rfl⟩, rfl⟩, others', rfl⟩

theorem checkNames_spelled (document : DocumentSpelled (.map es) (.map fs)) {names : List (String × Value)}
    (read : (Noted.ofChecked (checkNames es)).outcome = .ok (names, notices)) :
    ∃ names', (Noted.ofChecked (checkNames fs)).outcome = .ok (names', notices) := by
  obtain ⟨members⟩ := document
  have named : checkNames es = .ok names := result_ofChecked_ok.1 (Noted.result_of_outcome read)
  obtain ⟨names', named'⟩ := keyed_spelled members (Checked.within_eq_ok.1 named)
  rw [named] at read
  obtain rfl : notices = [] := by cases read; rfl
  refine ⟨names', ?_⟩
  rw [checkNames, named']
  rfl

theorem build_spelled (document : DocumentSpelled (.map es) (.map fs))
    (built : (build now es).outcome = .ok (r, notices)) :
    (build now fs).outcome = .ok ({ r with document := .map fs }, notices) := by
  simp only [build, Noted.bind_outcome_ok, Noted.pure_outcome_ok] at built ⊢
  obtain ⟨classes, _, _, first, ⟨pools, _, _, second, ⟨features, _, _, third, ⟨names, _, _, named, ⟨rfl, rfl⟩,
    rfl⟩, rfl⟩, rfl⟩, rfl⟩ := built
  obtain ⟨names', named'⟩ := checkNames_spelled document named
  refine ⟨classes, _, _, ?_, ⟨pools, _, _, ?_, ⟨features, _, _, ?_, ⟨names', _, _, named', ⟨?_, rfl⟩, rfl⟩, rfl⟩,
    rfl⟩, rfl⟩
  · rw [classesOf_spelled (Value.entries_inKeys (classes_spelled document)), first]
  · rw [poolsOf_spelled document, second]
  · rw [featuresOf_spelled (featureDictionary_spelled document), third]
  · rw [meta_spelled document]

/-- A document is imported alike whether its ids, keys and grants are numbers or the texts of them: if it is
imported at all, then as the same ruleset, with the same notices. -/
theorem ofDocument_spelled (document : DocumentSpelled d e)
    (imported : (ofDocument now d).outcome = .ok (r, notices)) :
    (ofDocument now e).outcome = .ok ({ r with document := e }, notices) := by
  cases document with
  | @map es fs members =>
    have document : DocumentSpelled (.map es) (.map fs) := .map members
    simp only [ofDocument, Noted.bind_outcome_ok, check_spelled document] at imported ⊢
    obtain ⟨report, told, rest, checked, built, rfl⟩ := imported
    refine ⟨report, told, rest, checked, ?_, rfl⟩
    split at built
    · rename_i valid
      rw [if_pos valid]
      obtain ⟨_, warnings, more, noted, whole, rfl⟩ := Noted.bind_outcome_ok.1 built
      exact Noted.bind_outcome_ok.2 ⟨(), warnings, more, noted, build_spelled document whole, rfl⟩
    · cases built

end Document

namespace Primer

def numberedClass (n : Int → Value) : Value :=
  .map [(.str "name", .str "Artificer"),
    (.str "spellSlots", .map [(n 1, .map [(n 1, .int 2)]), (n 3, .map [(n 1, .int 3), (n 2, .int 1)])]),
    (.str "progression", .map [(n 1, .map [(.str "grants", .list [n 9]),
      (.str "choices", .list [.map [(.str "id", n 1), (.str "from", .str "spells.cantrip")]])])])]

def numbered (n : Int → Value) : Value :=
  .map [(.str "meta", single "id" (.str "numeric")), (.str "classes", .map [(n 5, numberedClass n)]),
    (.str "spells", .list [.map [(.str "id", n 7), (.str "name", n 8)]]),
    (.str "featuresDictionary", .map [(n 9, .str "Tinkering")])]

def asText (i : Int) : Value :=
  .str (toString i)

theorem numberedClass_spelled : ClassSpelled (numberedClass .int) (numberedClass asText) := by
  have first : SlotsSpelled (.map [(.int 1, .int 2)]) (.map [(asText 1, .int 2)]) :=
    .map (.cons ⟨.number 1, .inl rfl⟩ .nil)
  have third : SlotsSpelled (.map [(.int 1, .int 3), (.int 2, .int 1)])
      (.map [(asText 1, .int 3), (asText 2, .int 1)]) :=
    .map (.cons ⟨.number 1, .inl rfl⟩ (.cons ⟨.number 2, .inl rfl⟩ .nil))
  have choice : ChoiceSpelled (.map [(.str "id", .int 1), (.str "from", .str "spells.cantrip")])
      (.map [(.str "id", asText 1), (.str "from", .str "spells.cantrip")]) :=
    .map (.cons ⟨rfl, .inr ⟨rfl, .number 1⟩⟩ (.cons ⟨rfl, .inl rfl⟩ .nil))
  have grants : GrantsSpelled (.list [.int 9]) (.list [asText 9]) :=
    .inr (.inl (.list (.cons (.inr (.number 9)) .nil)))
  refine .map (.cons ⟨rfl, .inl rfl⟩ (.cons ⟨rfl, .inr (.inr ⟨by simp, ?slots⟩)⟩
    (.cons ⟨rfl, .inr (.inl ⟨rfl, ?levels⟩)⟩ .nil)))
  case slots => exact .map (.cons ⟨.number 1, .inr first⟩ (.cons ⟨.number 3, .inr third⟩ .nil))
  case levels =>
    refine .map (.cons ⟨.number 1, .inr (.map (.cons ⟨rfl, .inr (.inl ⟨rfl, grants⟩)⟩
      (.cons ⟨rfl, .inr (.inr ⟨rfl, ?_⟩)⟩ .nil)))⟩ .nil)
    exact .list (.cons (.inr choice) .nil)

theorem numbered_spelled : DocumentSpelled (numbered .int) (numbered asText) := by
  have option : OptionSpelled (.map [(.str "id", .int 7), (.str "name", .int 8)])
      (.map [(.str "id", asText 7), (.str "name", asText 8)]) :=
    .map (.cons ⟨rfl, .inr ⟨.inl rfl, .number 7⟩⟩ (.cons ⟨rfl, .inr ⟨.inr ⟨rfl, rfl⟩, .number 8⟩⟩ .nil))
  refine .map (.cons ⟨rfl, .inl rfl⟩ (.cons ⟨rfl, .inr (.inl ⟨rfl, ?classes⟩)⟩
    (.cons ⟨rfl, .inr (.inr (.inr (.inl ⟨by simp [Pools.standardKeys], ?pool⟩)))⟩
      (.cons ⟨rfl, .inr (.inr (.inr (.inr ⟨by simp, ?features⟩)))⟩ .nil))))
  case classes => exact .map (.cons ⟨.number 5, .inr numberedClass_spelled⟩ .nil)
  case pool => exact .list (.cons (.inr option) .nil)
  case features => exact .map (.cons ⟨.number 9, .inl rfl⟩ .nil)

/-- The parts of the document are kept under the texts of its numbers. -/
theorem ofDocument_spelled_numbered : DocumentSpelled (numbered .int) (numbered asText) ∧ ∃ r notices,
    (ofDocument shelved (numbered .int)).outcome = .ok (r, notices) ∧
    (ofDocument shelved (numbered asText)).outcome = .ok ({ r with document := numbered asText }, notices) ∧
    r.classes.keys = ["5"] ∧ r.pools.spells.map (fun o => (o.id, o.name)) = [("7", "8")] ∧
    r.features.keys = ["9"] := by
  have parts : (ofDocument shelved (numbered .int)).outcome.toOption.map (fun p =>
      (p.1.classes.keys, p.1.pools.spells.map (fun o => (o.id, o.name)), p.1.features.keys)) =
        some (["5"], [("7", "8")], ["9"]) := by decide +kernel
  refine ⟨numbered_spelled, ?_⟩
  cases imported : (ofDocument shelved (numbered .int)).outcome with
  | error cause =>
    rw [imported] at parts
    cases parts
  | ok p =>
    obtain ⟨r, notices⟩ := p
    rw [imported] at parts
    simp only [Except.toOption, Option.map_some, Option.some.injEq, Prod.mk.injEq] at parts
    exact ⟨r, notices, rfl, ofDocument_spelled numbered_spelled imported, parts⟩

end Primer

end Ruleset

end Tabletop
