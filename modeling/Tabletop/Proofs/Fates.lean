import Tabletop.Proofs.JudgedEntries
import Tabletop.Proofs.KeptPools
import Tabletop.Proofs.OlderNames
import Tabletop.Proofs.SameSkips

set_option autoImplicit false

namespace Tabletop.Ruleset

open Check (Entries lacksId)

inductive Fate (α : Type) where
  | kept (a : α)
  | noted (n : Notice)
  | dropped

namespace Fate

variable {α : Type}

def kept? : Fate α → Option α
  | .kept a => some a
  | _ => none

def notice? : Fate α → Option Notice
  | .noted n => some n
  | _ => none

end Fate

section Fates

variable {α : Type} (f : Fate α) (fates : List (Fate α))

def keptOf : List α :=
  fates.filterMap Fate.kept?

def noticesOf : List Notice :=
  fates.filterMap Fate.notice?

theorem keptOf_cons : keptOf (f :: fates) = f.kept?.toList ++ keptOf fates := by
  cases f <;> rfl

theorem noticesOf_cons : noticesOf (f :: fates) = f.notice?.toList ++ noticesOf fates := by
  cases f <;> rfl

end Fates

theorem partOf_outcome {α : Type} {skipped : Nat → Notice} {x : Checked α} {a? : Option α} {ns : List Notice}
    (read : (partOf skipped x).outcome = .ok (a?, ns)) :
    (∃ a, x = .ok a ∧ a? = some a ∧ ns = []) ∨
      ∃ faults, x = .refused faults ∧ a? = none ∧ ns = [skipped faults.length] := by
  cases x with
  | ok a =>
    cases read
    exact .inl ⟨a, rfl, rfl, rfl⟩
  | refused faults =>
    cases read
    exact .inr ⟨faults, rfl, rfl, rfl⟩
  | broken cause => cases read

-- the choices of a level

/-- What becomes of a choice. One without an id goes unnoted here; the report on the document tells of it. -/
inductive ChoiceFate (classId level : String) : Value → Fate Choice → Prop
  | kept {item : Value} {choice : Choice} (read : Reads item choice) : ChoiceFate classId level item (.kept choice)
  | refused {es : Entries} {faults : List Fault} (read : Choice.ofEntries (choiceEntries es) = .refused faults) :
      ChoiceFate classId level (.map es) (.noted (.invalidChoice classId level faults.length))
  | repeated {item : Value} {choice : Choice} (read : Reads item choice) :
      ChoiceFate classId level item (.noted (.duplicateChoice choice.id classId level))
  | lacking {item : Value} (lacks : lacksId item = true) : ChoiceFate classId level item .dropped

theorem choiceOf_outcome {classId level : String} {item : Value} {choice? : Option Choice} {ns : List Notice}
    (read : (choiceOf classId level item).outcome = .ok (choice?, ns)) :
    (∃ choice, Reads item choice ∧ choice? = some choice ∧ ns = []) ∨
      ∃ fate, ChoiceFate classId level item fate ∧ fate.kept? = none ∧ choice? = none ∧ ns = fate.notice?.toList := by
  cases item with
  | map es =>
    rw [choiceOf] at read
    split at read
    · rename_i lacks
      cases read
      exact .inr ⟨.dropped, .lacking lacks, rfl, rfl, rfl⟩
    · rcases partOf_outcome read with ⟨choice, told, rfl, rfl⟩ | ⟨faults, told, rfl, rfl⟩
      · exact .inl ⟨choice, ⟨es, rfl, told⟩, rfl, rfl⟩
      · exact .inr ⟨_, .refused told, rfl, rfl, rfl⟩
  | _ =>
    cases read
    exact .inr ⟨.dropped, .lacking rfl, rfl, rfl, rfl⟩

theorem choicesOf_fates {classId level : String} {kept choices : List Choice} {items : List Value}
    {ns : List Notice} (read : (choicesOf classId level kept items).outcome = .ok (choices, ns)) :
    ∃ fates, List.Forall₂ (ChoiceFate classId level) items fates ∧ choices = kept ++ keptOf fates ∧
      ns = noticesOf fates := by
  induction items generalizing kept ns with
  | nil =>
    cases read
    exact ⟨[], .nil, (List.append_nil _).symm, rfl⟩
  | cons item items ih =>
    obtain ⟨choice?, own, rest, one, others, rfl⟩ := Noted.bind_outcome_ok.1 read
    rcases choiceOf_outcome one with ⟨choice, reads, rfl, rfl⟩ | ⟨fate, told, unkept, rfl, rfl⟩
    · simp only at others
      split at others
      · obtain ⟨_, noted, more, first, next, rfl⟩ := Noted.bind_outcome_ok.1 others
        cases first
        obtain ⟨fates, tail, rfl, rfl⟩ := ih next
        exact ⟨_ :: fates, .cons (.repeated reads) tail, rfl, rfl⟩
      · obtain ⟨fates, tail, rfl, rfl⟩ := ih others
        exact ⟨_ :: fates, .cons (.kept reads) tail, List.append_assoc .., rfl⟩
    · obtain ⟨fates, tail, rfl, rfl⟩ := ih others
      refine ⟨fate :: fates, .cons told tail, ?_, (noticesOf_cons ..).symm⟩
      rw [keptOf_cons, unkept]
      rfl

-- the entries of a pool

/-- What becomes of an entry of a pool. One that is no object goes unnoted. -/
inductive OptionFate (pool : String) : Value → Fate PoolOption → Prop
  | kept {es : Entries} {option : PoolOption} (read : PoolOption.ofEntries (optionEntries es) = .ok option) :
      OptionFate pool (.map es) (.kept option)
  | refused {es : Entries} {faults : List Fault} (read : PoolOption.ofEntries (optionEntries es) = .refused faults) :
      OptionFate pool (.map es) (.noted (.invalidOption pool faults.length))
  | bare {item : Value} (bare : item.isMap = false) : OptionFate pool item .dropped

theorem optionsOf_fates {pool : String} {items : List Value} {options : List PoolOption} {ns : List Notice}
    (read : (optionsOf pool items).outcome = .ok (options, ns)) : ∃ fates,
      List.Forall₂ (OptionFate pool) items fates ∧ options = keptOf fates ∧ ns = noticesOf fates := by
  induction items generalizing options ns with
  | nil =>
    cases read
    exact ⟨[], .nil, rfl, rfl⟩
  | cons item items ih =>
    cases item with
    | map es =>
      simp only [optionsOf, Noted.bind_outcome_ok, Noted.pure_outcome_ok] at read
      obtain ⟨option?, own, _, one, ⟨rest, more, _, others, ⟨rfl, rfl⟩, rfl⟩, rfl⟩ := read
      obtain ⟨fates, tail, rfl, rfl⟩ := ih others
      rcases partOf_outcome one with ⟨option, told, rfl, rfl⟩ | ⟨faults, told, rfl, rfl⟩
      · exact ⟨_ :: fates, .cons (.kept told) tail, rfl, List.append_nil _⟩
      · refine ⟨_ :: fates, .cons (.refused told) tail, rfl, ?_⟩
        rw [List.append_nil, noticesOf_cons]
        rfl
    | _ =>
      obtain ⟨fates, tail, rfl, rfl⟩ := ih read
      exact ⟨_ :: fates, .cons (.bare rfl) tail, rfl, rfl⟩

-- pools

inductive PoolFate (pools : Pools) (ns : List Notice) (name : String) (v : Value) : Prop
  | ignored (noted : .poolNotAList name ∈ ns)
  | kept {items : List Value} {fates : List (Fate PoolOption)} (listed : v = .list items)
      (told : List.Forall₂ (OptionFate name) items fates) (found : pools.get? name = some (keptOf fates))
      (noted : (noticesOf fates).Sublist ns)

theorem PoolFate.mono {pools : Pools} {own ns : List Notice} {name : String} {v : Value} (within : own.Sublist ns) :
    PoolFate pools own name v → PoolFate pools ns name v
  | .ignored noted => .ignored (within.subset noted)
  | .kept listed told found noted => .kept listed told found (noted.trans within)

section Pools

variable {es : Entries} {name : String} {v : Value} {ns : List Notice} {lists : List (Value × List PoolOption)}

theorem field?_declaredPools : Value.field? name (declaredPools es) =
    if name ∈ Pools.standardKeys then
      (Value.field? name es).or (Value.field? name (Value.entriesOrEmpty (Value.field "pools" es)))
    else Value.field? name (Value.entriesOrEmpty (Value.field "pools" es)) := by
  unfold declaredPools
  generalize Value.entriesOrEmpty (Value.field "pools" es) = declared, Pools.standardKeys = keys
  induction keys generalizing declared with
  | nil => simp
  | cons key keys ih =>
    rw [List.foldl_cons, ih]
    cases given : Value.field? key es with
    | none =>
      by_cases same : key = name
      · simp [← same, given]
      · simp [Ne.symm same]
    | some w =>
      by_cases same : key = name
      · simp [← same, given, Value.field?_setField]
      · simp [Ne.symm same, Value.field?_setField, same]

theorem field?_nestedPool (json : (Value.map es).IsJson) {e : Value × Value}
    (nested : e ∈ Value.entriesOrEmpty (Value.field "pools" es))
    (alone : ¬ (e.1.text ∈ Pools.standardKeys ∧ Value.hasField e.1.text es = true)) :
    Value.field? e.1.text (declaredPools es) = some e.2 := by
  have members := (Value.entriesOrEmpty_json (Value.field_json json "pools")).members
  obtain ⟨name, key⟩ := members.text e nested
  have given : Value.field? e.1.text (Value.entriesOrEmpty (Value.field "pools" es)) = some e.2 := by
    rw [members.field?_iff, key]
    exact key ▸ nested
  rw [field?_declaredPools, given]
  split
  · rename_i standard
    have absent : Value.field? e.1.text es = none := by
      simpa [Value.hasField, standard] using alone
    rw [absent, Option.none_or]
  · rfl

theorem poolLists_keys (read : (poolLists es).outcome = .ok (lists, ns)) :
    (lists.map (·.1)).Sublist (es.map (·.1)) := by
  induction es generalizing lists ns with
  | nil =>
    cases read
    exact .slnil
  | cons e es ih =>
    obtain ⟨k, v⟩ := e
    cases v with
    | list items =>
      simp only [poolLists, Noted.bind_outcome_ok, Noted.pure_outcome_ok] at read
      obtain ⟨options, _, _, -, ⟨rest, _, _, others, ⟨rfl, -⟩, -⟩, -⟩ := read
      exact (ih others).cons_cons k
    | _ =>
      obtain ⟨_, _, _, -, others, -⟩ := Noted.bind_outcome_ok.1 read
      exact (ih others).cons k

theorem poolLists_mem (read : (poolLists es).outcome = .ok (lists, ns)) {e : Value × Value} (member : e ∈ es) :
    .poolNotAList e.1.text ∈ ns ∨ ∃ items options own, e.2 = .list items ∧
      (optionsOf e.1.text items).outcome = .ok (options, own) ∧ (e.1, options) ∈ lists ∧ own.Sublist ns := by
  induction es generalizing lists ns with
  | nil => contradiction
  | cons f es ih =>
    obtain ⟨k, v⟩ := f
    cases v with
    | list items =>
      simp only [poolLists, Noted.bind_outcome_ok, Noted.pure_outcome_ok] at read
      obtain ⟨options, own, _, one, ⟨rest, more, _, others, ⟨rfl, rfl⟩, rfl⟩, rfl⟩ := read
      rw [List.append_nil]
      rcases List.mem_cons.1 member with rfl | later
      · exact .inr ⟨items, options, own, rfl, one, .head _, List.sublist_append_left _ _⟩
      · rcases ih others later with noted | ⟨items', options', own', list, told, found, within⟩
        · exact .inl (List.mem_append_right _ noted)
        · exact .inr ⟨items', options', own', list, told, .tail _ found,
            within.trans (List.sublist_append_right _ _)⟩
    | _ =>
      obtain ⟨_, _, more, first, others, rfl⟩ := Noted.bind_outcome_ok.1 read
      cases first
      rcases List.mem_cons.1 member with rfl | later
      · exact .inl (.head _)
      · rcases ih others later with noted | ⟨items', options', own', list, told, found, within⟩
        · exact .inl (.tail _ noted)
        · exact .inr ⟨items', options', own', list, told, found, within.cons _⟩

theorem keyed_eq {α : Type} {es : List (Value × α)} (texts : Texts es) :
    keyed es = .ok (es.map fun e => (e.1.text, e.2)) := by
  induction es with
  | nil => rfl
  | cons e es ih =>
    obtain ⟨k, a⟩ := e
    rw [Texts, List.forall_mem_cons] at texts
    obtain ⟨⟨name, rfl⟩, rest⟩ := texts
    rw [keyed, ih rest]
    rfl

theorem poolNamed_eq (distinct : (lists.map (·.1)).Nodup) {options : List PoolOption}
    (member : (.str name, options) ∈ lists) : poolNamed name lists = options := by
  have found : lists.find? (fun p => Value.isKey name p.1) = some (.str name, options) := by
    induction lists with
    | nil => contradiction
    | cons p lists ih =>
      obtain ⟨k, other⟩ := p
      rw [List.map_cons, List.nodup_cons] at distinct
      rcases List.mem_cons.1 member with here | later
      · cases here
        simp [Value.isKey]
      · have apart : Value.isKey name k = false := by
          cases named : Value.isKey name k with
          | false => rfl
          | true =>
            obtain rfl : k = .str name := by
              cases k <;> simp_all [Value.isKey]
            exact absurd (List.mem_map_of_mem (f := (·.1)) later) distinct.1
        rw [List.find?_cons_of_neg (by simp [apart]), ih distinct.2 later]
  rw [poolNamed, found]
  rfl

theorem texts_distinct (texts : Texts lists) (distinct : (lists.map (·.1)).Nodup) :
    (lists.map (·.1.text)).Nodup := by
  have keys : lists.map (·.1) = (lists.map (·.1.text)).map Value.str := by
    rw [List.map_map]
    refine List.map_congr_left fun p member => ?_
    obtain ⟨name, key⟩ := texts p member
    rw [Function.comp_apply, key]
    rfl
  rw [keys] at distinct
  exact distinct.of_map

theorem namedPools_get? {extra : List (String × List PoolOption)} (texts : Texts lists)
    (distinct : (lists.map (·.1)).Nodup) (named : keyed (lists.filter fun p => !isStandardKey p.1) = .ok extra)
    {options : List PoolOption} (member : (.str name, options) ∈ lists) :
    Pools.get? ⟨poolNamed "spells" lists, poolNamed "infusions" lists, poolNamed "features" lists,
      poolNamed "feats" lists, .ofList extra⟩ name = some options := by
  have own := poolNamed_eq distinct member
  simp only [Pools.get?]
  split_ifs with spells infusions features feats
  · rw [← spells, own]
  · rw [← infusions, own]
  · rw [← features, own]
  · rw [← feats, own]
  · have other : isStandardKey (.str name) = false := by
      simp_all [isStandardKey, Pools.standardKeys, Value.isKey]
    rw [keyed_eq fun p found => texts p (List.mem_filter.1 found).1] at named
    cases named
    rw [Dict.get?_ofList_iff, List.mem_map]
    · exact ⟨_, List.mem_filter.2 ⟨member, by simp [other]⟩, rfl⟩
    · rw [List.map_map]
      exact (texts_distinct texts distinct).sublist (List.filter_sublist.map _)

theorem declaredPools_json (json : (Value.map es).IsJson) : (Value.map (declaredPools es)).IsJson := by
  have pools := Value.entriesOrEmpty_json (Value.field_json json "pools")
  refine List.foldlRecOn (motive := fun declared => (Value.map declared).IsJson) _ _ pools
    fun declared json' key _ => ?_
  have pool := Value.field_json json key
  rw [Value.field] at pool
  split
  · rename_i given
    rw [given] at pool
    exact Value.setField_json json' pool
  · exact json'

theorem poolsOf_fate {pools : Pools} (json : (Value.map es).IsJson) (read : (poolsOf es).outcome = .ok (pools, ns))
    (declared : Value.field? name (declaredPools es) = some v) : PoolFate pools ns name v := by
  simp only [poolsOf, Noted.bind_outcome_ok, Noted.pure_outcome_ok] at read
  obtain ⟨lists, own, _, listed, ⟨extra, _, _, named, ⟨rfl, -⟩, -⟩, rfl⟩ := read
  have members := (declaredPools_json json).members
  have named := Checked.within_eq_ok.1 (result_ofChecked_ok.1 (Noted.result_of_outcome named))
  rcases poolLists_mem listed (mem_of_field? declared) with noted | ⟨items, options, told, list, one, found, within⟩
  · exact .ignored (List.mem_append_left _ noted)
  · obtain ⟨fates, each, rfl, rfl⟩ := optionsOf_fates one
    have texts := poolLists_texts (declaredPools_texts json) (Noted.result_of_outcome listed)
    exact .kept list each (namedPools_get? texts (members.distinct.sublist (poolLists_keys listed)) named found)
      (within.trans (List.sublist_append_left _ _))

end Pools

-- display data

/-- What becomes of the display data of a feature. Data that is neither a text nor an object goes unnoted. -/
inductive FeatureFate (features : Dict String FeatureInfo) (ns : List Notice) (e : Value × Value) : Prop
  | bare (bare : featureEntries e.1.text e.2 = none)
  | refused {fields : Entries} {faults : List Fault} (given : featureEntries e.1.text e.2 = some fields)
      (read : FeatureInfo.ofEntries fields = .refused faults) (noted : .invalidFeature e.1.text faults.length ∈ ns)
  | kept {fields : Entries} {info : FeatureInfo} (given : featureEntries e.1.text e.2 = some fields)
      (read : FeatureInfo.ofEntries fields = .ok info) (found : features.get? e.1.text = some info)

theorem FeatureFate.mono {features : Dict String FeatureInfo} {own ns : List Notice} {e : Value × Value}
    (within : own.Sublist ns) : FeatureFate features own e → FeatureFate features ns e
  | .bare unread => .bare unread
  | .refused given read noted => .refused given read (within.subset noted)
  | .kept given read found => .kept given read found

section Features

variable {es : Entries} {features : Dict String FeatureInfo} {ns : List Notice}

theorem featuresOf_eq (found : Dict String FeatureInfo) (es : Entries) :
    featuresOf found es = gather (fun e => featureOf e.1.text e.2) found es := by
  induction es generalizing found with
  | nil => rfl
  | cons e es ih =>
    refine congrArg (featureOf e.1.text e.2 >>= ·) (funext fun info? => ?_)
    cases info? <;> exact ih _

theorem mem_featureDictionary {e : Value × Value}
    (member : e ∈ Value.entriesOrEmpty (Value.field "featuresDictionary" es)) : e ∈ featureDictionary es := by
  rw [Value.field] at member
  cases found : Value.field? "featuresDictionary" es with
  | none =>
    rw [found] at member
    contradiction
  | some v =>
    rw [found] at member
    rwa [featureDictionary, found]

theorem featureDictionary_json (json : (Value.map es).IsJson) : (Value.map (featureDictionary es)).IsJson := by
  have first := Value.field_json json "featuresDictionary"
  rw [Value.field] at first
  unfold featureDictionary
  cases given : Value.field? "featuresDictionary" es with
  | none => exact Value.entriesOrEmpty_json (Value.field_json json "features_dictionary")
  | some v =>
    rw [given] at first
    exact Value.entriesOrEmpty_json first

theorem featuresOf_fate (json : (Value.map es).IsJson)
    (read : (featuresOf .empty (featureDictionary es)).outcome = .ok (features, ns)) {e : Value × Value}
    (member : e ∈ featureDictionary es) : FeatureFate features ns e := by
  have members := (featureDictionary_json json).members
  rw [featuresOf_eq] at read
  obtain ⟨info?, own, one, found, within⟩ := gather_part read (texts_nodup members) member rfl
  rw [featureOf] at one
  cases given : featureEntries e.1.text e.2 with
  | none => exact .bare given
  | some fields =>
    rw [given] at one
    rcases partOf_outcome one with ⟨info, told, rfl, rfl⟩ | ⟨faults, told, rfl, rfl⟩
    · exact .kept given told found
    · exact .refused given told (within.subset (.head _))

end Features

end Tabletop.Ruleset
