import Tabletop.Proofs.Fates

set_option autoImplicit false

namespace Tabletop.Ruleset

open Check (Entries levelKey? lacksId choiceIssues nodeIssues classIssues choiceSpot progressionPlace)

def classWarning (key : Value) : Issue :=
  Check.warning "invalid_class" ("Class '" ++ key.text ++ "' is not an object and will be skipped.")
    ("classes." ++ key.text)

def lackWarning (place level : String) (n : Nat) : Issue :=
  Check.warning "invalid_choice"
    ("Choice #" ++ toString n ++ " at level " ++ level ++ " has no id and will be skipped.") (choiceSpot place n)

/-- An entry of a progression that is passed over: what it has for its level is no object, or an entry after it takes
its place. -/
def Overlooked (e : Value × Value) (after : Entries) : Prop :=
  ∃ level, levelKey? e.1 = .ok (some level) ∧ (e.2.isMap = false ∨ ∃ later ∈ after, Gives later level)

section Fates

variable (r : Ruleset) (ns : List Notice)

def Warned (i : Issue) : Prop :=
  issueNotice r.id i ∈ ns

inductive LevelFate (classKey : Value) (c : ClassDef) (e : Value × Value) (after : Entries) : Prop
  | warned (warned : Warned r ns (levelWarning classKey e.1))
  | overlooked (overlooked : Overlooked e after)
  | kept {level : Int} {fields : Entries} {node : Node} {items : List Value} {fates : List (Fate Choice)}
      (keyed : levelKey? e.1 = .ok (some level)) (filled : e.2 = .map fields)
      (made : (nodeOf classKey.text level fields).result = .ok node) (found : c.progression.get? level = some node)
      (looped : Value.looped (Value.field "choices" fields) = .ok items)
      (told : List.Forall₂ (ChoiceFate classKey.text (toString level)) items fates)
      (choices : node.choices = keptOf fates) (noted : (noticesOf fates).Sublist ns)
      (lacking : ∀ n item, items[n]? = some item → lacksId item = true →
        Warned r ns (lackWarning (progressionPlace classKey ++ "." ++ e.1.text) e.1.text n))

inductive ClassFate (e : Value × Value) : Prop
  | warned (warned : Warned r ns (classWarning e.1))
  | refused {fields : Entries} {progression : Dict Int Node} {faults : List Fault} (filled : e.2 = .map fields)
      (read : ClassDef.ofEntries progression (classEntries e.1.text fields) = .refused faults)
      (noted : .invalidClass e.1.text faults.length ∈ ns)
  | kept {fields : Entries} {c : ClassDef} (filled : e.2 = .map fields)
      (read : ClassDef.ofEntries c.progression (classEntries e.1.text fields) = .ok c)
      (found : r.classes.get? e.1.text = some c)
      (levels : ∀ before level after, Value.entriesOrEmpty (Value.field "progression" fields) =
        before ++ level :: after → LevelFate r ns e.1 c level after)

/-- Each part of the document has its counterpart in the ruleset, or is noted, or is of a kind that is left out
without a word: an entry of a progression that is overlooked, an entry of a pool that is no object, a pool or display
data given in two places, and display data that is neither text nor object. -/
structure Traced (es : Entries) : Prop where
  classes : ∀ e ∈ declaredClasses (.map es), ClassFate r ns e
  pools : ∀ name ∈ Pools.standardKeys, ∀ v, Value.field? name es = some v → PoolFate r.pools ns name v
  nestedPools : ∀ e ∈ Value.entriesOrEmpty (Value.field "pools" es),
    e.1.text ∈ Pools.standardKeys ∧ Value.hasField e.1.text es = true ∨ PoolFate r.pools ns e.1.text e.2
  features : ∀ e ∈ Value.entriesOrEmpty (Value.field "featuresDictionary" es), FeatureFate r.features ns e
  olderFeatures : ∀ e ∈ Value.entriesOrEmpty (Value.field "features_dictionary" es),
    Value.hasField "featuresDictionary" es = true ∨ FeatureFate r.features ns e

end Fates

-- what the report warns of

theorem lackWarning_mem {place level : String} {start n : Nat} {seen : List String} {items : List Value}
    {item : Value} (found : items[n]? = some item) (lacks : lacksId item = true) :
    lackWarning place level (start + n) ∈ choiceIssues place level start seen items := by
  induction items generalizing start seen n with
  | nil => simp at found
  | cons c cs ih =>
    rw [choiceIssues]
    cases n with
    | zero =>
      obtain rfl : c = item := by simpa using found
      rw [if_pos lacks]
      exact .head _
    | succ n =>
      rw [List.getElem?_cons_succ] at found
      rw [show start + (n + 1) = start + 1 + n by omega]
      split
      · exact .tail _ (ih found)
      · simp only
        split
        · exact .tail _ (ih found)
        · exact ih found

theorem issues_of_class {d : Value} {report : Report} (checked : check d = .ok report) {e : Value × Value}
    (declared : e ∈ declaredClasses d) {own : List Issue} (found : classIssues e.1 e.2 = .ok own) {i : Issue}
    (member : i ∈ own) : i ∈ report.issues := by
  cases d with
  | map es =>
    simp only [check, bind_eq_ok] at checked
    obtain ⟨issues, classes, same⟩ := checked
    cases same
    rw [declaredClasses] at declared
    cases given : Value.field "classes" es with
    | map entries =>
      rw [given, Check.documentClassIssues] at classes
      rw [given] at declared
      have listed := (Check.mem_classesIssues classes).2 ⟨e, declared, own, found, member⟩
      exact List.mem_append_left _ (List.mem_append_right _ listed)
    | _ =>
      rw [given] at declared
      contradiction
  | _ => contradiction

section Import

variable {now : Moment} {r : Ruleset} {es fields : Entries} {report : Report} {ns : List Notice}

theorem check_subject (accepted : IsAccepted (.map es)) (checked : check (.map es) = .ok report) :
    report.subject = idIn (.map es) := by
  simp only [check, bind_eq_ok] at checked
  obtain ⟨issues, -, same⟩ := checked
  cases same
  exact if_pos accepted.1

-- a warning of the report is noted
theorem warned_of_mem {more : List Notice} (subject : report.subject = r.id)
    (notices : ns = report.warnings.map (issueNotice report.subject) ++ more) {i : Issue}
    (member : i ∈ report.issues) (severity : i.severity = .warning) : Warned r ns i := by
  have warning : i ∈ report.warnings := List.mem_filter.2 ⟨member, by simp [severity]⟩
  rw [Warned, notices, ← subject]
  exact List.mem_append_left _ (List.mem_map_of_mem warning)

theorem nodeOf_fates {classId : String} {level : Int} {node : Node}
    (made : (nodeOf classId level fields).outcome = .ok (node, ns)) : ∃ items fates,
      Value.looped (Value.field "choices" fields) = .ok items ∧
      List.Forall₂ (ChoiceFate classId (toString level)) items fates ∧ node.choices = keptOf fates ∧
      ns = noticesOf fates := by
  simp only [nodeOf, Noted.bind_outcome_ok, Noted.pure_outcome_ok, Noted.ofExcept_outcome_ok] at made
  obtain ⟨grants, _, _, ⟨-, rfl⟩, made⟩ := made
  obtain ⟨⟨items, _, _, ⟨looped, rfl⟩, ⟨choices, own, _, chosen, ⟨rfl, rfl⟩, rfl⟩, rfl⟩, rfl⟩ := made
  obtain ⟨fates, told, rfl, rfl⟩ := choicesOf_fates chosen
  exact ⟨items, fates, looped, told, rfl, by simp⟩

theorem levelFate {classKey : Value} {c : ClassDef} {own : List Notice}
    (warns : ∀ e ∈ Value.entriesOrEmpty (Value.field "progression" fields), ∀ issues,
      nodeIssues (progressionPlace classKey) e.1 e.2 = .ok issues →
        ∀ i ∈ issues, i.kind ∈ Check.levelKinds → i.severity = .warning → Warned r ns i)
    (read : (progressionOf classKey.text .empty (Value.entriesOrEmpty (Value.field "progression" fields))).outcome =
      .ok (c.progression, own)) (within : own.Sublist ns) {before after : Entries} {e : Value × Value}
    (split : Value.entriesOrEmpty (Value.field "progression" fields) = before ++ e :: after) :
    LevelFate r ns classKey c e after := by
  have member : e ∈ Value.entriesOrEmpty (Value.field "progression" fields) :=
    split ▸ List.mem_append_right _ (.head _)
  obtain ⟨key, v⟩ := e
  obtain ⟨level?, keyed⟩ := progressionOf_keyed read member
  cases level? with
  | none =>
    have issues : nodeIssues (progressionPlace classKey) key v = .ok [levelWarning classKey key] := by
      unfold nodeIssues
      rw [keyed]
      rfl
    exact .warned (warns _ member _ issues _ (.head _) (.head _) rfl)
  | some level =>
    cases v with
    | map entries =>
      by_cases last : ∃ later ∈ after, Gives later level
      · exact .overlooked ⟨level, keyed, .inr last⟩
      · simp only [not_exists, not_and] at last
        rw [split] at read
        obtain ⟨node, told, made, found, inside⟩ := progressionOf_last read keyed last
        obtain ⟨items, fates, looped, each, choices, rfl⟩ := nodeOf_fates made
        refine .kept keyed rfl (Noted.result_of_outcome made) found looped each choices (inside.trans within) ?_
        intro n item place lacks
        have issues : nodeIssues (progressionPlace classKey) key (.map entries) = .ok (choiceIssues
            (progressionPlace classKey ++ "." ++ key.text) key.text 0 [] items) := by
          rw [nodeIssues, keyed, ok_bind, looped]
          rfl
        have flagged : lackWarning (progressionPlace classKey ++ "." ++ key.text) key.text (0 + n) ∈
            choiceIssues (progressionPlace classKey ++ "." ++ key.text) key.text 0 [] items :=
          lackWarning_mem place lacks
        rw [Nat.zero_add] at flagged
        exact warns _ member _ issues _ flagged (.tail _ (.head _)) rfl
    | _ => exact .overlooked ⟨level, keyed, .inl rfl⟩

theorem classFate {e : Value × Value} {own : List Notice}
    (warns : ∀ i ∈ report.issues, i.severity = .warning → Warned r ns i) (checked : check (.map es) = .ok report)
    (declared : e ∈ declaredClasses (.map es)) (read : (classPart e).outcome = .ok (r.classes.get? e.1.text, own))
    (within : own.Sublist ns) : ClassFate r ns e := by
  obtain ⟨key, v⟩ := e
  cases v with
  | map fields =>
    obtain ⟨progression, told, nodes, inside, notes, part, rest⟩ := classOf_progression read
    rcases partOf_outcome part with ⟨c, whole, found, -⟩ | ⟨faults, refused, -, rfl⟩
    · obtain rfl := classDef_progression whole
      refine .kept rfl whole found fun before level after split => ?_
      refine levelFate (fun e entry issues found i member kind severity => warns i ?_ severity) nodes
        (inside.trans within) split
      exact issues_of_level checked declared entry found kind member
    · exact .refused rfl refused ((rest.trans within).subset (.head _))
  | _ => exact .warned (warns _ (issues_of_class checked declared rfl (.head _)) rfl)

theorem build_parts {now : Moment} (built : (build now es).outcome = .ok (r, ns)) :
    (∃ own, (poolsOf es).outcome = .ok (r.pools, own) ∧ own.Sublist ns) ∧
      ∃ own, (featuresOf .empty (featureDictionary es)).outcome = .ok (r.features, own) ∧ own.Sublist ns := by
  simp only [build, Noted.bind_outcome_ok, Noted.pure_outcome_ok] at built
  obtain ⟨_, _, _, -, ⟨pools, own, _, first, ⟨features, told, _, second, rest, rfl⟩, rfl⟩, rfl⟩ := built
  obtain ⟨_, _, _, -, ⟨rfl, rfl⟩, rfl⟩ := rest
  refine ⟨⟨own, first, by simp⟩, told, second, ?_⟩
  apply List.Sublist.trans _ (List.sublist_append_right _ _)
  exact (List.sublist_append_left told _).trans (List.sublist_append_right own _)

/-- What a ruleset lacks of its document is noted when it is imported, or of a kind that is left out without a
word. -/
theorem ofDocument_traced {now : Moment} {d : Value} {r : Ruleset} {ns : List Notice} (json : d.IsJson)
    (imported : (ofDocument now d).outcome = .ok (r, ns)) : ∃ es, d = .map es ∧ Traced r ns es := by
  obtain ⟨es, report, more, rfl, accepted, checked, built, notices⟩ := ofDocument_built imported
  have subject := (check_subject accepted checked).trans (ofDocument_keeps (Noted.result_of_outcome imported)).1.symm
  have within : more.Sublist ns := notices ▸ List.sublist_append_right _ _
  obtain ⟨⟨told, pools, inside⟩, said, features, inner⟩ := build_parts built
  refine ⟨es, rfl, ?_, ?_, ?_, ?_, ?_⟩
  · intro e declared
    obtain ⟨own, part, inside⟩ := build_class json built declared
    exact classFate (fun i => warned_of_mem subject notices) checked declared part (inside.trans within)
  · intro name standard v given
    refine (poolsOf_fate json pools ?_).mono (inside.trans within)
    rw [field?_declaredPools, if_pos standard, given]
    rfl
  · intro e nested
    by_cases shadowed : e.1.text ∈ Pools.standardKeys ∧ Value.hasField e.1.text es = true
    · exact .inl shadowed
    · exact .inr ((poolsOf_fate json pools (field?_nestedPool json nested shadowed)).mono (inside.trans within))
  · intro e member
    exact (featuresOf_fate json features (mem_featureDictionary member)).mono (inner.trans within)
  · intro e member
    cases found : Value.field? "featuresDictionary" es with
    | some v => exact .inl (by simp [Value.hasField, found])
    | none =>
      refine .inr ((featuresOf_fate json features ?_).mono (inner.trans within))
      rw [featureDictionary, found]
      exact member

end Import

namespace Primer

theorem ofDocument_traced_crowded : ∃ r ns es, (ofDocument shelved crowded).outcome = .ok (r, ns) ∧
    crowded = .map es ∧ Traced r ns es := by
  obtain ⟨r, imported, -⟩ := crowded_imported
  obtain ⟨ns, outcome⟩ := Noted.outcome_of_result imported
  obtain ⟨es, same, traced⟩ := ofDocument_traced crowded_json outcome
  exact ⟨r, ns, es, outcome, same, traced⟩

def muteClass : Value :=
  .map [(.str "name", .str "Wizard"),
    (.str "progression", .map [(.str "2", .int 5),
      (.str "3", single "choices" (.list [spellChoice "a"])), (.str "03", .map [])])]

def mute : Value :=
  .map [(.str "meta", .map [(.str "id", .str "r"), (.str "name", .str "R")]),
    (.str "classes", single "wizard" muteClass),
    (.str "pools", single "spells" (.list [single "id" (.str "light")])),
    (.str "spells", .list [.int 7]), (.str "infusions", .list []), (.str "features", .list []),
    (.str "feats", .list []), (.str "featuresDictionary", single "x" (.int 5)),
    (.str "features_dictionary", single "y" (.str "Y"))]

theorem muteClass_json : muteClass.IsJson := by
  have choices : (Value.list [spellChoice "a"]).IsJson := .list fun v member => by
    rw [List.mem_singleton.1 member]
    exact spellChoice_json "a"
  refine .map (.of_names ["name", "progression"] rfl (by decide)) ?_
  simp only [List.forall_mem_cons]
  refine ⟨.str "Wizard", .map (.of_names ["2", "3", "03"] rfl (by decide)) ?_, by simp⟩
  simp only [List.forall_mem_cons]
  exact ⟨.int 5, single_json _ choices, .map (.of_names [] rfl .nil) nofun, by simp⟩

theorem mute_json : mute.IsJson := by
  have none : (Value.list []).IsJson := .list nofun
  have titles : (Value.map [(.str "id", .str "r"), (.str "name", .str "R")]).IsJson := by
    refine .map (.of_names ["id", "name"] rfl (by decide)) ?_
    simp only [List.forall_mem_cons]
    exact ⟨.str "r", .str "R", by simp⟩
  have one {v : Value} (json : v.IsJson) : (Value.list [v]).IsJson := .list fun w member => by
    rw [List.mem_singleton.1 member]
    exact json
  refine .map (.of_names ["meta", "classes", "pools", "spells", "infusions", "features", "feats",
    "featuresDictionary", "features_dictionary"] rfl (by decide)) ?_
  simp only [List.forall_mem_cons]
  exact ⟨titles, single_json _ muteClass_json, single_json _ (one (single_json _ (.str "light"))), one (.int 7),
    none, none, none, single_json _ (.int 5), single_json _ (.str "Y"), by simp⟩

/-- The document is imported without a word, though neither its second level, nor the choice of its third, nor its
spells, nor its display data come to be part of the ruleset. -/
theorem mute_unnoted : mute.IsJson ∧ ∃ r c, (ofDocument shelved mute).outcome = .ok (r, []) ∧
    r.classes.get? "wizard" = some c ∧ c.progression.get? 2 = none ∧ c.progression.get? 3 = some ⟨[], []⟩ ∧
    r.pools.get? "spells" = some [] ∧ r.features.get? "x" = none ∧ r.features.get? "y" = none := by
  have parts : (ofDocument shelved mute).outcome.toOption.map (fun p =>
      (p.2, p.1.pools.get? "spells", p.1.features.keys)) = some ([], some [], []) := by decide +kernel
  have nodes : (ofDocument shelved mute).outcome.toOption.map (fun p =>
      (p.1.classes.get? "wizard").map fun c => (c.progression.get? 2, c.progression.get? 3)) =
        some (some (none, some ⟨[], []⟩)) := by decide +kernel
  refine ⟨mute_json, ?_⟩
  cases read : (ofDocument shelved mute).outcome with
  | error cause =>
    rw [read] at parts
    cases parts
  | ok p =>
    obtain ⟨r, ns⟩ := p
    rw [read] at parts nodes
    simp only [Except.toOption, Option.map_some, Option.some.injEq, Prod.mk.injEq] at parts nodes
    obtain ⟨rfl, spells, keys⟩ := parts
    obtain ⟨c, kept, levels⟩ := Option.map_eq_some_iff.1 nodes
    have unread (name : String) : r.features.get? name = none := by
      rw [Dict.get?_eq_none_iff, keys]
      exact List.not_mem_nil
    exact ⟨r, c, rfl, kept, congrArg (·.1) levels, congrArg (·.2) levels, spells, unread "x", unread "y"⟩

end Primer

end Tabletop.Ruleset
