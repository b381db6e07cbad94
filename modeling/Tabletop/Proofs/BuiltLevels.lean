import Tabletop.Proofs.FlaggedParts
import Tabletop.Proofs.ParsedRuleset

set_option autoImplicit false

namespace Tabletop

namespace Noted

variable {α β : Type}

theorem bind_outcome_ok {x : Noted α} {f : α → Noted β} {b : β} {ns : List Notice} :
    (x >>= f).outcome = .ok (b, ns) ↔ ∃ a first second, x.outcome = .ok (a, first) ∧
      (f a).outcome = .ok (b, second) ∧ ns = first ++ second := by
  change (x.andThen f).outcome = _ ↔ _
  rcases x with ⟨_ | ⟨a, first⟩⟩
  · simp [andThen]
  · simp only [andThen, Except.ok.injEq, Prod.mk.injEq]
    cases next : (f a).outcome with
    | error cause =>
      refine iff_of_false (by simp) ?_
      rintro ⟨_, _, second, ⟨rfl, rfl⟩, found, -⟩
      cases next.symm.trans found
    | ok pair =>
      obtain ⟨b', second⟩ := pair
      constructor
      · intro same
        cases same
        exact ⟨a, first, second, ⟨rfl, rfl⟩, next, rfl⟩
      · rintro ⟨_, _, second', ⟨rfl, rfl⟩, found, rfl⟩
        cases next.symm.trans found
        rfl

theorem pure_bind (a : α) (f : α → Noted β) : (pure a >>= f) = f a := by
  change (done a).andThen f = f a
  rcases read : f a with ⟨_ | ⟨b, ns⟩⟩ <;> simp [andThen, done, read]

theorem pure_outcome_ok {a b : α} {ns : List Notice} :
    (pure a : Noted α).outcome = .ok (b, ns) ↔ a = b ∧ ns = [] := by
  change Except.ok (a, []) = _ ↔ _
  simp [eq_comm]

theorem ofExcept_outcome_ok {x : Except Breakdown α} {a : α} {ns : List Notice} :
    (ofExcept x).outcome = .ok (a, ns) ↔ x = .ok a ∧ ns = [] := by
  cases x with
  | error cause => simp [ofExcept, fail]
  | ok b => simp [ofExcept, done, eq_comm]

theorem result_of_outcome {x : Noted α} {a : α} {ns : List Notice} (read : x.outcome = .ok (a, ns)) :
    x.result = .ok a := by
  rw [result, read]
  rfl

theorem outcome_of_result {x : Noted α} {a : α} (read : x.result = .ok a) : ∃ ns, x.outcome = .ok (a, ns) := by
  rw [result] at read
  cases found : x.outcome with
  | error cause =>
    rw [found] at read
    cases read
  | ok pair =>
    rw [found] at read
    cases read
    exact ⟨pair.2, rfl⟩

end Noted

namespace Ruleset

open Check (Entries levelKey?)

-- parts that are gathered under their names

section Gather

variable {α : Type} {part : Value × Value → Noted (Option α)}

def gather (part : Value × Value → Noted (Option α)) : Dict String α → Entries → Noted (Dict String α)
  | found, [] => return found
  | found, e :: es => do
    match ← part e with
    | some a => gather part (found.insert e.1.text a) es
    | none => gather part found es

theorem gather_cons {d found : Dict String α} {e : Value × Value} {es : Entries} {ns : List Notice} :
    (gather part d (e :: es)).outcome = .ok (found, ns) ↔ ∃ a? own rest, (part e).outcome = .ok (a?, own) ∧
      (gather part (a?.elim d (d.insert e.1.text)) es).outcome = .ok (found, rest) ∧ ns = own ++ rest := by
  rw [gather, Noted.bind_outcome_ok]
  refine exists_congr fun a? => ?_
  cases a? <;> rfl

theorem gather_apart {d found : Dict String α} {es : Entries} {ns : List Notice}
    (read : (gather part d es).outcome = .ok (found, ns)) {name : String} (apart : name ∉ es.map (·.1.text)) :
    found.get? name = d.get? name := by
  induction es generalizing d ns with
  | nil =>
    cases read
    rfl
  | cons e es ih =>
    rw [List.map_cons, List.mem_cons, not_or] at apart
    obtain ⟨a?, own, rest, -, read, -⟩ := gather_cons.1 read
    rw [ih read apart.2]
    cases a? with
    | none => rfl
    | some a => rw [Option.elim_some, Dict.get?_insert, if_neg apart.1]

theorem gather_part {d found : Dict String α} {es : Entries} {ns : List Notice}
    (read : (gather part d es).outcome = .ok (found, ns)) (distinct : (es.map (·.1.text)).Nodup)
    {e : Value × Value} (member : e ∈ es) (new : d.get? e.1.text = none) :
    ∃ a? own, (part e).outcome = .ok (a?, own) ∧
      found.get? e.1.text = a? ∧ own.Sublist ns := by
  induction es generalizing d ns with
  | nil => contradiction
  | cons f es ih =>
    rw [List.map_cons, List.nodup_cons] at distinct
    obtain ⟨a?, own, rest, one, others, rfl⟩ := gather_cons.1 read
    rcases List.mem_cons.1 member with rfl | later
    · refine ⟨a?, own, one, ?_, List.sublist_append_left _ _⟩
      rw [gather_apart others distinct.1]
      cases a? with
      | none => exact new
      | some a => rw [Option.elim_some, Dict.get?_insert, if_pos rfl]
    · have apart : e.1.text ≠ f.1.text := fun same => distinct.1 (same ▸ List.mem_map_of_mem (f := (·.1.text)) later)
      have still : (a?.elim d (d.insert f.1.text)).get? e.1.text = none := by
        cases a? with
        | none => exact new
        | some a => rw [Option.elim_some, Dict.get?_insert, if_neg apart, new]
      obtain ⟨b?, own', one', found', within⟩ := ih others distinct.2 later still
      exact ⟨b?, own', one', found', within.trans (List.sublist_append_right _ _)⟩

end Gather

theorem texts_nodup {es : Entries} (members : Value.Members es) : (es.map (·.1.text)).Nodup := by
  rw [List.Nodup, List.pairwise_map]
  refine (List.pairwise_map.1 members.distinct).imp_of_mem fun {e f} first second ne same => ne ?_
  rw [members.eq_of_text first second same]

-- classes

def classPart : Value × Value → Noted (Option ClassDef)
  | (k, .map fields) => classOf k.text fields
  | _ => return none

theorem classesOf_eq (classes : Dict String ClassDef) (es : Entries) :
    classesOf classes es = gather classPart classes es := by
  induction es generalizing classes with
  | nil => rfl
  | cons e es ih =>
    obtain ⟨k, v⟩ := e
    cases v with
    | map fields =>
      refine congrArg (classOf k.text fields >>= ·) (funext fun c? => ?_)
      cases c? <;> exact ih _
    | _ => simp only [classesOf, gather, classPart, Noted.pure_bind, ih]

theorem ofDocument_built {now : Moment} {d : Value} {r : Ruleset} {ns : List Notice}
    (imported : (ofDocument now d).outcome = .ok (r, ns)) : ∃ es report more, d = .map es ∧ IsAccepted d ∧
      check d = .ok report ∧ (build now es).outcome = .ok (r, more) ∧
      ns = report.warnings.map (issueNotice report.subject) ++ more := by
  obtain ⟨report, first, rest, read, built, rfl⟩ := Noted.bind_outcome_ok.1 imported
  obtain ⟨checked, rfl⟩ := Noted.ofExcept_outcome_ok.1 read
  split at built
  · rename_i valid
    have accepted := (check_valid checked).1 valid
    cases d with
    | map es =>
      obtain ⟨_, warnings, more, told, whole, rfl⟩ := Noted.bind_outcome_ok.1 built
      cases told
      exact ⟨es, report, more, rfl, accepted, checked, whole, rfl⟩
    | _ => exact accepted.elim
  · cases built

theorem classOf_progression {id : String} {fields : Entries} {c? : Option ClassDef} {ns : List Notice}
    (read : (classOf id fields).outcome = .ok (c?, ns)) : ∃ progression own,
      (progressionOf id .empty (Value.entriesOrEmpty (Value.field "progression" fields))).outcome =
        .ok (progression, own) ∧ own.Sublist ns ∧ ∃ told,
      (partOf (.invalidClass id) (ClassDef.ofEntries progression (classEntries id fields))).outcome =
        .ok (c?, told) ∧ told.Sublist ns := by
  obtain ⟨entries, first, rest, map, others, rfl⟩ := Noted.bind_outcome_ok.1 read
  obtain ⟨laid, rfl⟩ := Noted.ofExcept_outcome_ok.1 map
  obtain ⟨progression, own, told, nodes, part, rfl⟩ := Noted.bind_outcome_ok.1 others
  have optional : (Value.field "progression" fields).IsOptionalMap := by
    refine Classical.byContradiction fun bare => ?_
    rw [mapEntries_error bare] at laid
    cases laid
  rw [mapEntries_ok optional] at laid
  cases laid
  exact ⟨progression, own, nodes, List.sublist_append_left _ _, told, part, List.sublist_append_right _ _⟩

theorem build_class {now : Moment} {es : Entries} {r : Ruleset} {ns : List Notice} (json : (Value.map es).IsJson)
    (built : (build now es).outcome = .ok (r, ns)) {e : Value × Value} (declared : e ∈ declaredClasses (.map es)) :
    ∃ own, (classPart e).outcome = .ok (r.classes.get? e.1.text, own) ∧ own.Sublist ns := by
  simp only [build, Noted.bind_outcome_ok, Noted.pure_outcome_ok] at built
  obtain ⟨classes, own, rest, read, ⟨_, _, _, -, ⟨_, _, _, -, ⟨_, _, _, -, ⟨rfl, -⟩, -⟩, -⟩, -⟩, rfl⟩ := built
  rw [classesOf_eq] at read
  have members := (Value.entriesOrEmpty_json (Value.field_json json "classes")).members
  obtain ⟨c?, told, part, found, within⟩ := gather_part read (texts_nodup members) declared rfl
  subst found
  exact ⟨told, part, within.trans (List.sublist_append_left _ _)⟩

-- nodes

section Progression

variable {classId : String} {nodes found : Dict Int Node} {ns : List Notice}

def Gives (e : Value × Value) (level : Int) : Prop :=
  levelKey? e.1 = .ok (some level) ∧ e.2.isMap = true

theorem progressionOf_cons {e : Value × Value} {es : Entries}
    (read : (progressionOf classId nodes (e :: es)).outcome = .ok (found, ns)) :
    ∃ level?, levelKey? e.1 = .ok level? ∧
      ((∃ level fields node own rest, level? = some level ∧ e.2 = .map fields ∧
          (nodeOf classId level fields).outcome = .ok (node, own) ∧
          (progressionOf classId (nodes.insert level node) es).outcome = .ok (found, rest) ∧ ns = own ++ rest) ∨
        (progressionOf classId nodes es).outcome = .ok (found, ns) ∧ ∀ level, ¬ Gives e level) := by
  obtain ⟨key, v⟩ := e
  obtain ⟨level?, first, rest, found?, next, rfl⟩ := Noted.bind_outcome_ok.1 read
  obtain ⟨keyed, rfl⟩ := Noted.ofExcept_outcome_ok.1 found?
  refine ⟨level?, keyed, ?_⟩
  cases level? with
  | none => exact .inr ⟨next, fun level given => by cases keyed.symm.trans given.1⟩
  | some level =>
    cases v with
    | map fields =>
      obtain ⟨node, own, rest, made, others, rfl⟩ := Noted.bind_outcome_ok.1 next
      exact .inl ⟨level, fields, node, own, rest, rfl, rfl, made, others, rfl⟩
    | _ => exact .inr ⟨next, fun level given => by cases given.2⟩

theorem progressionOf_untouched {es : Entries} (read : (progressionOf classId nodes es).outcome = .ok (found, ns))
    {level : Int} (none : ∀ e ∈ es, ¬ Gives e level) : found.get? level = nodes.get? level := by
  induction es generalizing nodes ns with
  | nil =>
    cases read
    rfl
  | cons e es ih =>
    rw [List.forall_mem_cons] at none
    obtain ⟨level?, keyed, ⟨other, fields, node, own, rest, rfl, map, -, read, -⟩ | ⟨read, -⟩⟩ :=
      progressionOf_cons read
    · have apart : level ≠ other := by
        rintro rfl
        exact none.1 ⟨keyed, by rw [map]; rfl⟩
      rw [ih read none.2, Dict.get?_insert, if_neg apart]
    · exact ih read none.2

theorem progressionOf_keyed {es : Entries} (read : (progressionOf classId nodes es).outcome = .ok (found, ns))
    {e : Value × Value} (member : e ∈ es) : ∃ level?, levelKey? e.1 = .ok level? := by
  induction es generalizing nodes ns with
  | nil => contradiction
  | cons f es ih =>
    obtain ⟨level?, keyed, next⟩ := progressionOf_cons read
    rcases List.mem_cons.1 member with rfl | later
    · exact ⟨level?, keyed⟩
    · rcases next with ⟨_, _, _, _, _, -, -, -, read, -⟩ | ⟨read, -⟩
      · exact ih read later
      · exact ih read later

theorem progressionOf_last {before after : Entries} {key : Value} {fields : Entries} {level : Int}
    (read : (progressionOf classId nodes (before ++ (key, .map fields) :: after)).outcome = .ok (found, ns))
    (keyed : levelKey? key = .ok (some level)) (last : ∀ e ∈ after, ¬ Gives e level) :
    ∃ node own, (nodeOf classId level fields).outcome = .ok (node, own) ∧ found.get? level = some node ∧
      own.Sublist ns := by
  induction before generalizing nodes ns with
  | nil =>
    obtain ⟨level?, keyed', ⟨other, fields', node, own, rest, rfl, map, made, others, rfl⟩ | ⟨-, none⟩⟩ :=
      progressionOf_cons read
    · cases map
      cases keyed.symm.trans keyed'
      refine ⟨node, own, made, ?_, List.sublist_append_left _ _⟩
      rw [progressionOf_untouched others last, Dict.get?_insert, if_pos rfl]
    · exact absurd ⟨keyed, rfl⟩ (none level)
  | cons f before ih =>
    obtain ⟨level?, -, ⟨_, _, _, own, rest, -, -, -, others, rfl⟩ | ⟨others, -⟩⟩ := progressionOf_cons read
    · obtain ⟨node, told, made, held, within⟩ := ih others
      exact ⟨node, told, made, held, within.trans (List.sublist_append_right _ _)⟩
    · exact ih others

end Progression

end Ruleset

end Tabletop
