import Tabletop.Proofs.Importing

set_option autoImplicit false

namespace Tabletop

namespace Noted

variable {α β : Type}

theorem bind_result_ok {x : Noted α} {f : α → Noted β} {b : β} :
    (x >>= f).result = .ok b ↔ ∃ a, x.result = .ok a ∧ (f a).result = .ok b := by
  rw [result_bind]
  exact bind_eq_ok

theorem ofExcept_result_ok {x : Except Breakdown α} {a : α} :
    (ofExcept x).result = .ok a ↔ x = .ok a := by
  cases x <;> simp [Failure.ofExcept]

end Noted

structure Node.IsParsed (level : Int) (node : Node) : Prop where
  low : 1 ≤ level
  high : level ≤ 20
  distinct : (node.choices.map Choice.id).Nodup
  reserved : ∀ choice ∈ node.choices, choice.id ≠ grantsKey

namespace Ruleset

open Check (Entries)

def Parsed (nodes : Dict Int Node) : Prop :=
  ∀ e ∈ nodes.entries, Node.IsParsed e.1 e.2

theorem levelKey?_bounds {key : Value} {level : Int}
    (found : Check.levelKey? key = .ok (some level)) : 1 ≤ level ∧ level ≤ 20 := by
  unfold Check.levelKey? at found
  split at found
  · rw [bind_eq_ok] at found
    obtain ⟨n, -, same⟩ := found
    rw [Tabletop.pure_eq_ok] at same
    split at same
    · rename_i bounds
      cases same
      exact bounds
    · contradiction
  · cases found

-- a choice is kept only under an id that is new and not reserved
theorem choicesOf_distinct {classId level : String} {items : List Value} {kept choices : List Choice}
    (distinct : (kept.map Choice.id).Nodup) (reserved : ∀ choice ∈ kept, choice.id ≠ grantsKey)
    (read : (choicesOf classId level kept items).result = .ok choices) :
    (choices.map Choice.id).Nodup ∧ ∀ choice ∈ choices, choice.id ≠ grantsKey := by
  induction items generalizing kept with
  | nil =>
    cases read
    exact ⟨distinct, reserved⟩
  | cons item items ih =>
    simp only [choicesOf, Noted.bind_result_ok] at read
    obtain ⟨_ | choice, -, read⟩ := read
    · exact ih distinct reserved read
    · simp only at read
      split at read
      · rw [Noted.bind_result_ok] at read
        obtain ⟨_, -, read⟩ := read
        exact ih distinct reserved read
      · rename_i new
        simp only [Bool.or_eq_true, List.any_eq_true, decide_eq_true_eq, not_or, not_exists,
          not_and] at new
        refine ih ?_ ?_ read
        · rw [List.map_append, List.map_singleton, List.nodup_append]
          refine ⟨distinct, by simp, ?_⟩
          simpa using new.1
        · rw [List.forall_mem_append, List.forall_mem_singleton]
          exact ⟨reserved, new.2⟩

theorem nodeOf_parsed {classId : String} {key : Value} {level : Int} {es : Entries} {node : Node}
    (keyed : Check.levelKey? key = .ok (some level))
    (read : (nodeOf classId level es).result = .ok node) : node.IsParsed level := by
  simp only [nodeOf, Noted.bind_result_ok] at read
  obtain ⟨grants, -, items, -, choices, chosen, same⟩ := read
  cases same
  obtain ⟨low, high⟩ := levelKey?_bounds keyed
  obtain ⟨distinct, reserved⟩ := choicesOf_distinct (by simp) (by simp) chosen
  exact ⟨low, high, distinct, reserved⟩

theorem progressionOf_parsed {classId : String} {es : Entries} {nodes found : Dict Int Node}
    (parsed : Parsed nodes) (read : (progressionOf classId nodes es).result = .ok found) :
    Parsed found := by
  induction es generalizing nodes with
  | nil =>
    cases read
    exact parsed
  | cons e es ih =>
    obtain ⟨key, v⟩ := e
    simp only [progressionOf, Noted.bind_result_ok, Noted.ofExcept_result_ok] at read
    obtain ⟨level?, keyed, read⟩ := read
    split at read
    · rename_i level fields
      rw [Noted.bind_result_ok] at read
      obtain ⟨node, made, read⟩ := read
      exact ih (Dict.forall_insert parsed (nodeOf_parsed keyed made)) read
    · exact ih parsed read

theorem partOf_result {α : Type} {skipped : Nat → Notice} {x : Checked α} {a : α}
    (read : (partOf skipped x).result = .ok (some a)) : x = .ok a := by
  cases x with
  | ok b =>
    cases read
    rfl
  | refused faults => cases read
  | broken cause => cases read

theorem classDef_progression {progression : Dict Int Node} {es : Entries} {c : ClassDef}
    (read : ClassDef.ofEntries progression es = .ok c) : c.progression = progression := by
  simp only [ClassDef.ofEntries, Checked.seq_eq_ok, Checked.map_eq_ok, Checked.pure_eq_ok] at read
  obtain ⟨_, slots, ⟨_, casting, ⟨_, _, ⟨_, hitDie, ⟨_, name, ⟨id, -, rfl⟩, -, rfl⟩, -, rfl⟩, rfl,
    rfl⟩, -, rfl⟩, -, rfl⟩ := read
  rfl

theorem classOf_parsed {classId : String} {es : Entries} {c : ClassDef}
    (read : (classOf classId es).result = .ok (some c)) : Parsed c.progression := by
  simp only [classOf, Noted.bind_result_ok] at read
  obtain ⟨entries, -, progression, nodes, read⟩ := read
  rw [classDef_progression (partOf_result read)]
  exact progressionOf_parsed (by simp [Parsed, Dict.empty]) nodes

theorem classesOf_parsed {es : Entries} {classes found : Dict String ClassDef}
    (parsed : ∀ e ∈ classes.entries, Parsed e.2.progression)
    (read : (classesOf classes es).result = .ok found) :
    ∀ e ∈ found.entries, Parsed e.2.progression := by
  induction es generalizing classes with
  | nil =>
    cases read
    exact parsed
  | cons e es ih =>
    obtain ⟨key, data⟩ := e
    cases data with
    | map fields =>
      simp only [classesOf, Noted.bind_result_ok] at read
      obtain ⟨_ | c, one, read⟩ := read
      · exact ih parsed read
      · exact ih (Dict.forall_insert parsed (classOf_parsed one)) read
    | _ => exact ih parsed read

theorem build_parsed {now : Moment} {es : Entries} {r : Ruleset}
    (built : (build now es).result = .ok r) : ∀ e ∈ r.classes.entries, Parsed e.2.progression := by
  simp only [build, Noted.bind_result_ok] at built
  obtain ⟨classes, read, pools, -, features, -, names, -, same⟩ := built
  cases same
  exact classesOf_parsed (by simp [Dict.empty]) read

theorem ofDocument_parsed {now : Moment} {d : Value} {r : Ruleset}
    (imported : (ofDocument now d).result = .ok r) :
    ∀ e ∈ r.classes.entries, Parsed e.2.progression := by
  simp only [ofDocument, Noted.bind_result_ok] at imported
  obtain ⟨report, -, built⟩ := imported
  split at built
  · rw [Noted.bind_result_ok] at built
    obtain ⟨_, -, built⟩ := built
    exact build_parsed built
  · contradiction

def idIn (d : Value) : String :=
  (Value.field "id" (Value.entriesOrEmpty (Value.field "meta" d.entriesOrEmpty))).text

-- the ruleset goes by the id in its document, and keeps the document
theorem ofDocument_keeps {now : Moment} {d : Value} {r : Ruleset}
    (imported : (ofDocument now d).result = .ok r) :
    r.id = idIn d ∧ r.document = d ∧ r.importedAt = now := by
  simp only [ofDocument, Noted.bind_result_ok, Noted.ofExcept_result_ok] at imported
  obtain ⟨report, checked, built⟩ := imported
  split at built
  · rename_i valid
    have accepted := (check_valid checked).1 valid
    simp only [Noted.bind_result_ok, build] at built
    obtain ⟨_, -, classes, -, pools, -, features, -, names, -, same⟩ := built
    cases same
    cases d with
    | map es => exact ⟨rfl, rfl, rfl⟩
    | _ => exact accepted.elim
  · contradiction

theorem node?_parsed {now : Moment} {d : Value} {r : Ruleset}
    (imported : (ofDocument now d).result = .ok r) {classId : Option String} {level : Int}
    {node : Node} (found : r.node? classId level = some node) : node.IsParsed level := by
  simp only [node?, Option.bind_eq_some_iff] at found
  obtain ⟨c, classed, found⟩ := found
  have member : ∃ id, (id, c) ∈ r.classes.entries := by
    cases classId with
    | none => contradiction
    | some id =>
      simp only [class?] at classed
      split at classed
      · contradiction
      · exact ⟨id, Dict.mem_of_get? classed⟩
  obtain ⟨id, member⟩ := member
  exact ofDocument_parsed imported _ member _ (Dict.mem_of_get? found)

end Ruleset

end Tabletop
