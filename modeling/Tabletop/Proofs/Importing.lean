import Tabletop.Proofs.Applying
import Tabletop.Proofs.DocumentCheck
import Tabletop.Proofs.FieldReaders
import Tabletop.Ruleset.Import

set_option autoImplicit false

namespace Tabletop

theorem Noted.completes_bind {α β : Type} {x : Noted α} {f : α → Noted β}
    (first : Completes x.result) (next : ∀ a, Completes (f a).result) :
    Completes (x >>= f).result := by
  obtain ⟨a, found⟩ := first
  rw [result_bind, found]
  exact next a

namespace Ruleset

open Check (Entries)

def ClassesLoad (classes : Entries) : Prop :=
  ∀ e ∈ classes, ∀ fields ∈ e.2.entries?, (Value.field "progression" fields).IsOptionalMap

def IsLoaded (d : Value) : Prop :=
  ClassesLoad (declaredClasses d)

-- nodes

theorem partOf_completes {α : Type} {x : Checked α} (settles : x.Settles) (skipped : Nat → Notice) :
    Completes (partOf skipped x).result := by
  cases x with
  | ok a => exact completes_ok (some a)
  | refused faults => exact completes_ok none
  | broken cause => exact absurd rfl (settles cause)

theorem asList_completes {v : Value} (json : v.IsJson) : Completes (asList v) := by
  cases json <;> exact completes_ok _

theorem choiceOf_completes (classId level : String) (item : Value) :
    Completes (choiceOf classId level item).result := by
  cases item with
  | map es =>
    simp only [choiceOf]
    split
    · exact completes_ok none
    · exact partOf_completes (Choice.ofEntries_settles _) _
  | _ => exact completes_ok none

theorem choicesOf_completes (classId level : String) (kept : List Choice) (items : List Value) :
    Completes (choicesOf classId level kept items).result := by
  induction items generalizing kept with
  | nil => exact completes_ok kept
  | cons item items ih =>
    refine Noted.completes_bind (choiceOf_completes classId level item) fun choice? => ?_
    cases choice? with
    | none => exact ih kept
    | some choice =>
      simp only
      split
      · exact Noted.completes_bind (completes_ok ()) fun _ => ih kept
      · exact ih _

theorem nodeOf_completes {fields : Entries} (json : (Value.map fields).IsJson)
    (walks : (Value.field "choices" fields).IsWalkable) (classId : String) (level : Int) :
    Completes (nodeOf classId level fields).result := by
  obtain ⟨grants, granted⟩ := asList_completes (Value.field_json json "grants")
  obtain ⟨items, walked⟩ := (Value.looped_completes (Value.field_json json "choices")).2 walks
  unfold nodeOf
  rw [granted, walked]
  refine Noted.completes_bind (completes_ok grants) fun grants => ?_
  refine Noted.completes_bind (completes_ok items) fun items => ?_
  exact Noted.completes_bind (choicesOf_completes _ _ _ _) fun choices => completes_ok _

theorem progressionOf_completes {es : Entries} (json : ∀ e ∈ es, e.2.IsJson)
    (reads : ∀ e ∈ es, LevelReads e.1 e.2) (classId : String) (nodes : Dict Int Node) :
    Completes (progressionOf classId nodes es).result := by
  induction es generalizing nodes with
  | nil => exact completes_ok nodes
  | cons e es ih =>
    obtain ⟨key, node⟩ := e
    rw [List.forall_mem_cons] at json reads
    obtain ⟨⟨numeral, walks⟩, others⟩ := reads
    obtain ⟨level?, found⟩ := (Check.levelKey?_completes key).2 numeral
    rw [progressionOf, found, Noted.result_bind]
    simp only [Noted.result_ofExcept, Failure.ofExcept, Except.bind]
    split
    · rename_i level fields
      have node := nodeOf_completes json.1 (walks level fields found rfl) classId level
      exact Noted.completes_bind node fun node => ih json.2 others _
    · exact ih json.2 others nodes

-- classes

theorem mapEntries_ok {v : Value} (laid : v.IsOptionalMap) :
    mapEntries v = .ok v.entriesOrEmpty := by
  cases v with
  | map es => rfl
  | _ =>
    have empty := laid.resolve_left (by simp [Value.isMap])
    simp [mapEntries, empty, Value.entriesOrEmpty]

theorem mapEntries_error {v : Value} (bare : ¬ v.IsOptionalMap) : mapEntries v = .error .notAMap := by
  simp only [Value.IsOptionalMap, not_or, Bool.not_eq_false] at bare
  cases v with
  | map es => exact absurd rfl bare.1
  | _ => simp [mapEntries, bare.2]

theorem classOf_completes {fields : Entries} (json : (Value.map fields).IsJson)
    (reads : ClassReads fields) (laid : (Value.field "progression" fields).IsOptionalMap)
    (classId : String) : Completes (classOf classId fields).result := by
  have nodes := Value.entriesOrEmpty_json (Value.field_json json "progression")
  unfold classOf
  rw [mapEntries_ok laid, Noted.result_bind]
  refine Noted.completes_bind ?_ fun progression => ?_
  · exact progressionOf_completes (fun e => nodes.of_mem) reads classId .empty
  · exact partOf_completes (ClassDef.ofEntries_settles _ _) _

theorem classOf_stops {fields : Entries}
    (bare : ¬ (Value.field "progression" fields).IsOptionalMap) (classId : String) :
    (classOf classId fields).result = .error (.breakdown .notAMap) := by
  unfold classOf
  rw [mapEntries_error bare, Noted.result_bind]
  rfl

theorem classesOf_result {es : Entries} (json : ∀ e ∈ es, e.2.IsJson) (reads : ClassesRead es)
    (classes : Dict String ClassDef) :
    ClassesLoad es ∧ Completes (classesOf classes es).result ∨
      ¬ ClassesLoad es ∧ (classesOf classes es).result = .error (.breakdown .notAMap) := by
  induction es generalizing classes with
  | nil => exact .inl ⟨by simp [ClassesLoad], completes_ok classes⟩
  | cons e es ih =>
    obtain ⟨key, data⟩ := e
    rw [List.forall_mem_cons] at json
    rw [ClassesRead, List.forall_mem_cons] at reads
    rw [ClassesLoad, List.forall_mem_cons, ← ClassesLoad]
    cases data with
    | map fields =>
      by_cases laid : (Value.field "progression" fields).IsOptionalMap
      · obtain ⟨class?, found⟩ :=
          classOf_completes json.1 (reads.1 fields rfl) laid key.text
        have load : ∀ fs ∈ (Value.map fields).entries?,
            (Value.field "progression" fs).IsOptionalMap := by
          rintro fs ⟨⟩
          exact laid
        simp only [and_iff_right load, classesOf, Noted.result_bind, found, Except.bind]
        cases class? with
        | none => exact ih json.2 reads.2 classes
        | some c => exact ih json.2 reads.2 _
      · refine .inr ⟨fun load => laid (load.1 fields rfl), ?_⟩
        simp only [classesOf, Noted.result_bind, classOf_stops laid key.text, Except.bind]
    | _ => simpa [classesOf, Value.entries?] using ih json.2 reads.2 classes

-- pools

theorem optionsOf_completes (pool : String) (items : List Value) :
    Completes (optionsOf pool items).result := by
  induction items with
  | nil => exact completes_ok []
  | cons item items ih =>
    cases item with
    | map es =>
      refine Noted.completes_bind (partOf_completes (PoolOption.ofEntries_settles _) _) fun _ => ?_
      exact Noted.completes_bind ih fun _ => completes_ok _
    | _ => exact ih

theorem poolLists_completes (es : Entries) : Completes (poolLists es).result := by
  induction es with
  | nil => exact completes_ok []
  | cons e es ih =>
    obtain ⟨key, pool⟩ := e
    cases pool with
    | list items =>
      refine Noted.completes_bind (optionsOf_completes _ items) fun _ => ?_
      exact Noted.completes_bind ih fun _ => completes_ok _
    | _ => exact Noted.completes_bind (completes_ok ()) fun _ => ih

def Texts {α : Type} (es : List (Value × α)) : Prop :=
  ∀ e ∈ es, ∃ name, e.1 = .str name

theorem texts_of_json {es : Entries} (json : (Value.map es).IsJson) : Texts es :=
  json.members.text

theorem Texts.putEntry {es : Entries} (texts : Texts es) (name : String) (v : Value) :
    Texts (Value.putEntry (.str name) v es) := by
  induction es with
  | nil => simp [Value.putEntry, Texts]
  | cons e es ih =>
    obtain ⟨key, w⟩ := e
    rw [Texts, List.forall_mem_cons] at texts
    unfold Value.putEntry
    split
    · exact List.forall_mem_cons.2 texts
    · exact List.forall_mem_cons.2 ⟨texts.1, ih texts.2⟩

theorem declaredPools_texts {es : Entries} (json : (Value.map es).IsJson) :
    Texts (declaredPools es) := by
  have pools := texts_of_json (Value.entriesOrEmpty_json (Value.field_json json "pools"))
  refine List.foldlRecOn _ _ pools fun declared texts key _ => ?_
  split
  · exact texts.putEntry key _
  · exact texts

theorem poolLists_texts {es : Entries} (texts : Texts es) {pools : List (Value × List PoolOption)}
    (read : (poolLists es).result = .ok pools) : Texts pools := by
  induction es generalizing pools with
  | nil =>
    cases read
    simp [Texts]
  | cons e es ih =>
    obtain ⟨key, pool⟩ := e
    rw [Texts, List.forall_mem_cons] at texts
    obtain ⟨rest, others⟩ := poolLists_completes es
    have tail := ih texts.2 others
    cases pool with
    | list items =>
      obtain ⟨options, first⟩ := optionsOf_completes key.text items
      simp only [poolLists, Noted.result_bind, first, others, Except.bind] at read
      cases read
      exact List.forall_mem_cons.2 ⟨texts.1, tail⟩
    | _ =>
      simp only [poolLists, Noted.result_bind, others] at read
      cases read
      exact tail

theorem keyed_ok {α : Type} {es : List (Value × α)} (texts : Texts es) :
    ∃ named, keyed es = .ok named := by
  induction es with
  | nil => exact ⟨[], rfl⟩
  | cons e es ih =>
    obtain ⟨key, a⟩ := e
    rw [Texts, List.forall_mem_cons] at texts
    obtain ⟨⟨name, rfl⟩, rest⟩ := texts
    obtain ⟨named, others⟩ := ih rest
    rw [keyed, others]
    exact ⟨(name, a) :: named, rfl⟩

theorem keyed_completes {α : Type} {es : List (Value × α)} (texts : Texts es) (step : Step) :
    Completes (Noted.ofChecked ((keyed es).within step)).result := by
  obtain ⟨named, read⟩ := keyed_ok texts
  rw [read]
  exact completes_ok named

theorem poolsOf_completes {es : Entries} (json : (Value.map es).IsJson) :
    Completes (poolsOf es).result := by
  obtain ⟨pools, read⟩ := poolLists_completes (declaredPools es)
  have texts := poolLists_texts (declaredPools_texts json) read
  unfold poolsOf
  rw [Noted.result_bind, read]
  refine Noted.completes_bind ?_ fun _ => completes_ok _
  exact keyed_completes (fun p member => texts p (List.mem_filter.1 member).1) _

-- features and the whole

theorem featureOf_completes (featureId : String) (info : Value) :
    Completes (featureOf featureId info).result := by
  unfold featureOf
  split
  · exact partOf_completes (FeatureInfo.ofEntries_settles _) _
  · exact completes_ok none

theorem featuresOf_completes (features : Dict String FeatureInfo) (es : Entries) :
    Completes (featuresOf features es).result := by
  induction es generalizing features with
  | nil => exact completes_ok features
  | cons e es ih =>
    obtain ⟨key, info⟩ := e
    refine Noted.completes_bind (featureOf_completes key.text info) fun info? => ?_
    cases info? with
    | none => exact ih features
    | some info => exact ih _

theorem build_result {es : Entries} (json : (Value.map es).IsJson) (checked : IsChecked (.map es))
    (now : Moment) :
    IsLoaded (.map es) ∧ Completes (build now es).result ∨
      ¬ IsLoaded (.map es) ∧ (build now es).result = .error (.breakdown .notAMap) := by
  have classes := Value.entriesOrEmpty_json (Value.field_json json "classes")
  rcases classesOf_result (fun e => classes.of_mem) checked .empty with
    ⟨loaded, read⟩ | ⟨bare, stopped⟩
  · refine .inl ⟨loaded, ?_⟩
    refine Noted.completes_bind read fun _ => ?_
    refine Noted.completes_bind (poolsOf_completes json) fun _ => ?_
    refine Noted.completes_bind (featuresOf_completes _ _) fun _ => ?_
    exact Noted.completes_bind (keyed_completes (texts_of_json json) _) fun _ => completes_ok _
  · refine .inr ⟨bare, ?_⟩
    simp only [build, Noted.result_bind, stopped, Except.bind]

theorem ofDocument_result (now : Moment) (d : Value) :
    (ofDocument now d).result =
      (Failure.ofExcept (check d)).bind fun report =>
        if report.valid then (build now d.entriesOrEmpty).result
        else .error (.rulesetInvalid (.rejected report)) := by
  rw [ofDocument, Noted.result_bind, Noted.result_ofExcept]
  congr 1
  funext report
  split
  · rw [Noted.result_bind]
    rfl
  · rfl

/-- A JSON document is reported on exactly if all of its levels can be looked at. It becomes a ruleset
if it is accepted and no class has anything but an object for its progression; it is refused, with the
report that says why, if it is not accepted; and it stops the import otherwise. -/
theorem ofDocument_classified {d : Value} (json : d.IsJson) (now : Moment) :
    ((∃ report, check d = .ok report) ↔ IsChecked d) ∧
      match (ofDocument now d).result with
      | .ok _ => IsAccepted d ∧ IsChecked d ∧ IsLoaded d
      | .error (.rulesetInvalid (.rejected report)) =>
        ¬ IsAccepted d ∧ check d = .ok report ∧ report.valid = false
      | .error (.breakdown _) => ¬ IsChecked d ∨ IsAccepted d ∧ ¬ IsLoaded d
      | .error _ => False := by
  have completes := check_completes json
  refine ⟨completes, ?_⟩
  rw [ofDocument_result]
  cases checked : check d with
  | error cause =>
    refine .inl fun reads => ?_
    obtain ⟨report, found⟩ := completes.2 reads
    rw [checked] at found
    contradiction
  | ok report =>
    have reads := completes.1 ⟨report, checked⟩
    have accepted := check_valid checked
    simp only [Failure.ofExcept, Except.bind]
    by_cases valid : report.valid = true
    · rw [if_pos valid]
      have given := accepted.1 valid
      cases d with
      | map es =>
        rcases build_result json reads now with ⟨loaded, r, built⟩ | ⟨bare, stopped⟩
        · rw [Value.entriesOrEmpty, built]
          exact ⟨given, reads, loaded⟩
        · rw [Value.entriesOrEmpty, stopped]
          exact .inr ⟨given, bare⟩
      | _ => exact given.elim
    · rw [if_neg valid]
      exact ⟨fun given => valid (accepted.2 given), rfl, by simpa using valid⟩

-- documents of one class

namespace Primer

def shelved : Moment := ⟨⟨2020, 1, 1⟩, ⟨0, 0, 0, 0⟩, none⟩

def single (name : String) (v : Value) : Value := .map [(.str name, v)]

def withProgression (v : Value) : Value :=
  .map [(.str "meta", single "id" (.str "r")),
    (.str "classes", single "wizard" (single "progression" v))]

def graded : Value :=
  withProgression (single "2" (single "choices" (.list [single "id" (.str "a")])))

def listed : Value :=
  withProgression (.list [.int 1])

def raised : Value :=
  withProgression (single "²" (.map []))

def counted : Value :=
  withProgression (single "2" (single "choices" (.int 5)))

theorem single_json (name : String) {v : Value} (json : v.IsJson) : (single name v).IsJson := by
  refine .map (.of_names [name] rfl (by simp)) fun e member => ?_
  rw [List.mem_singleton.1 member]
  exact json

theorem withProgression_json {v : Value} (json : v.IsJson) : (withProgression v).IsJson := by
  refine .map (.of_names ["meta", "classes"] rfl (by decide)) ?_
  simp only [List.forall_mem_cons]
  refine ⟨single_json _ (.str "r"), ?_, by simp⟩
  exact single_json _ (single_json _ json)

theorem withProgression_accepted (v : Value) : IsAccepted (withProgression v) :=
  ⟨rfl, rfl⟩

theorem graded_json : graded.IsJson := by
  refine withProgression_json (single_json _ (single_json _ (.list fun v member => ?_)))
  rw [List.mem_singleton.1 member]
  exact single_json _ (.str "a")

end Primer

open Primer in
theorem ofDocument_classified_graded :
    (∃ r, (ofDocument shelved graded).result = .ok r) ∧ IsAccepted graded ∧ IsChecked graded ∧
      IsLoaded graded := by
  have classified := (ofDocument_classified graded_json shelved).2
  have imported : ((ofDocument shelved graded).result.toOption).isSome = true := by
    decide +kernel
  cases read : (ofDocument shelved graded).result with
  | error f => simp [read, Except.toOption] at imported
  | ok r =>
    rw [read] at classified
    exact ⟨⟨r, rfl⟩, classified⟩

open Primer in
/-- A class that lists its levels, a level keyed by a superscript, and choices that are a number each
end in a breakdown, though the document has all that an import requires. -/
theorem listed_breaks :
    (listed.IsJson ∧ IsAccepted listed ∧
        (ofDocument shelved listed).result = .error (.breakdown .notAMap)) ∧
      (raised.IsJson ∧ IsAccepted raised ∧ ¬ ∃ report, check raised = .ok report) ∧
      (counted.IsJson ∧ IsAccepted counted ∧ check counted = .error .notIterable) := by
  refine ⟨⟨?_, withProgression_accepted _, rfl⟩, ⟨?_, withProgression_accepted _, ?_⟩,
    ⟨?_, withProgression_accepted _, rfl⟩⟩
  · refine withProgression_json (.list fun v member => ?_)
    rw [List.mem_singleton.1 member]
    exact .int 1
  · exact withProgression_json (single_json _ (.map ⟨by simp, by simp⟩ (by simp)))
  · rintro ⟨report, checked⟩
    have stopped : (check raised).toOption.isSome = false := by decide +kernel
    simp [checked, Except.toOption] at stopped
  · exact withProgression_json (single_json _ (single_json _ (.int 5)))

end Ruleset

end Tabletop
