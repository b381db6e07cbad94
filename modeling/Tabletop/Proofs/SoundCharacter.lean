import Tabletop.Proofs.Applying
import Tabletop.Proofs.Fingerprint

set_option autoImplicit false

namespace Tabletop

open Ability (normalizeKey)

theorem isAscii_normalizeKey {key : String} (ascii : isAscii key = true) :
    isAscii (normalizeKey key) = true := by
  have usual : ∀ k ∈ Ability.keys, isAscii k = true := by decide +kernel
  unfold normalizeKey
  cases found : Ability.fullNames.lookup (Text.lower key) with
  | some short => exact usual short (Ability.lookup_key found)
  | none => exact (Text.upper_case ascii).1

namespace Character

structure Sound (c : Character) : Prop where
  legible : c.Legible
  ascii : c.AsciiKeys
  six : Ability.keys <+: c.abilities.keys

theorem rescored_ascii {scores : Dict String Int} (ascii : ∀ key ∈ scores.keys, isAscii key = true) :
    ∀ key ∈ (rescored scores).keys, isAscii key = true := by
  have all (es : List (String × Int)) (ascii : ∀ e ∈ es, isAscii e.1 = true) (d : Dict String Int)
      (start : ∀ e ∈ d.entries, isAscii e.1 = true) :
      ∀ e ∈ (es.foldl (fun d e => d.insert (normalizeKey e.1) (clamp e.2 1 30)) d).entries,
        isAscii e.1 = true := by
    induction es generalizing d with
    | nil => exact start
    | cons e es ih =>
      rw [List.forall_mem_cons] at ascii
      exact ih ascii.2 _ (Dict.forall_insert start (isAscii_normalizeKey ascii.1))
  have start : ∀ e ∈ defaultScores.entries, isAscii e.1 = true := by decide +kernel
  intro key member
  obtain ⟨e, there, rfl⟩ := List.mem_map.1 member
  exact all _ (fun e member => ascii e.1 (List.mem_map_of_mem member)) _ start e there

theorem resaved_ascii {saves : IdSet} (ascii : ∀ key ∈ saves, isAscii key = true) :
    ∀ key ∈ resaved saves, isAscii key = true := by
  intro key member
  obtain ⟨old, held, rfl⟩ := mem_resaved.1 member
  exact isAscii_normalizeKey (ascii old held)

theorem settled_of_same {c d : Character} (settled : c.settled = c)
    (abilities : d.abilities = c.abilities) (saves : d.saves = c.saves) : d.settled = d := by
  have scores : rescored c.abilities = c.abilities := congrArg Character.abilities settled
  have proficiency : resaved c.saves = c.saves := congrArg Character.saves settled
  rw [Character.settled, abilities, saves, scores, proficiency, ← abilities, ← saves]

theorem settled_touch {c : Character} (settled : c.settled = c) (now : Moment) :
    (c.touch now).settled = c.touch now :=
  settled_of_same settled rfl rfl

theorem settled_atLevel {c : Character} (settled : c.settled = c) (level : Int) :
    Character.settled { c with level := level } = { c with level := level } :=
  settled_of_same settled rfl rfl

theorem revert_keyed {c : Character} {level : Int} (keyed : Ledger.Keyed c.advancement) :
    Ledger.Keyed (c.revert level).1.advancement := by
  cases recorded : c.record? level with
  | none => rwa [revert_of_unrecorded recorded]
  | some record =>
    rw [revert_of_recorded recorded]
    exact fun e member => keyed e (List.mem_filter.1 member).1

theorem committed_keyed {c : Character} (keyed : Ledger.Keyed c.advancement) (r : Ruleset) (node : Node)
    {level : Int} (made : List Made) (now : Moment) (bounds : 1 ≤ level ∧ level ≤ 20) :
    Ledger.Keyed (committed r node level made now c).advancement := by
  rw [advancement_committed]
  exact (revert_keyed keyed).insert level ⟨by omega, by omega⟩ (recordOf_filled node made)

theorem Legible.committed {c : Character} (legible : c.Legible) (r : Ruleset) (node : Node)
    {level : Int} (made : List Made) {now : Moment} (bounds : 1 ≤ level ∧ level ≤ 20)
    (clock : now.Legible) : (committed r node level made now c).Legible := by
  obtain ⟨features, spells, infusions, whole⟩ := committed_frame r node level made now c
  have ledger := committed_keyed legible.ledger r node made now bounds
  rw [whole] at ledger ⊢
  exact { legible with ledger := ledger, updated := clock }

namespace Sound

variable {c : Character}

theorem of_settled (legible : c.Legible) (ascii : c.AsciiKeys) : c.settled.Sound where
  legible := { legible with }
  ascii := ⟨rescored_ascii ascii.abilities, resaved_ascii ascii.saves⟩
  six := (usual_rescored ascii.settling.abilities).six

theorem settled (sound : c.Sound) : c.settled.Sound :=
  of_settled sound.legible sound.ascii

theorem touch (sound : c.Sound) {now : Moment} (legible : now.Legible) : (c.touch now).Sound where
  legible := { sound.legible with updated := legible }
  ascii := { sound.ascii with }
  six := sound.six

theorem atLevel (sound : c.Sound) {level : Int} (bounds : 1 ≤ level ∧ level ≤ 20) :
    Sound { c with level := level } where
  legible := { sound.legible with level := bounds }
  ascii := { sound.ascii with }
  six := sound.six

theorem revert (sound : c.Sound) (level : Int) : (c.revert level).1.Sound := by
  have ledger : Ledger.Keyed (c.revert level).1.advancement := revert_keyed sound.legible.ledger
  obtain ⟨features, spells, infusions, advancement, whole⟩ := revert_frame c level
  rw [whole] at ledger ⊢
  exact {
    legible := { sound.legible with ledger := ledger }
    ascii := { sound.ascii with }
    six := sound.six }

theorem committed (sound : c.Sound) (r : Ruleset) (node : Node) {level : Int} (made : List Made)
    {now : Moment} (bounds : 1 ≤ level ∧ level ≤ 20) (legible : now.Legible) :
    (committed r node level made now c).Sound := by
  have kept := sound.legible.committed r node made bounds legible
  obtain ⟨features, spells, infusions, whole⟩ := committed_frame r node level made now c
  rw [whole] at kept ⊢
  exact {
    legible := kept
    ascii := { sound.ascii with }
    six := sound.six }

end Sound

-- a record that is unchanged by settling its keys

theorem sorted_scores (scores : Dict String Int) :
    ∃ fs, Json.sorted (scores.toValue .int) = .ok (.map fs) ∧
      ∀ key score, (.str key, .int score) ∈ fs ↔ (key, score) ∈ scores.entries := by
  have text : ∀ e ∈ scores.entries.map fun e => ((.str e.1, .int e.2) : Value × Value),
      ∃ name, e.1 = .str name := List.forall_mem_map.2 fun e _ => ⟨e.1, rfl⟩
  have proper : ∀ e ∈ scores.entries.map fun e => ((.str e.1, .int e.2) : Value × Value),
      Json.Proper e.2 := List.forall_mem_map.2 fun e _ => .int e.2
  obtain ⟨fs, sorts, -, mem⟩ := Json.sorted_map text proper
  refine ⟨fs, sorts, fun key score => ?_⟩
  rw [mem]
  simp only [List.mem_map, Prod.mk.injEq, Value.str.injEq]
  constructor
  · rintro ⟨v, ⟨e, member, rfl, rfl⟩, sorts⟩
    simp only [Json.sorted, Except.ok.injEq, Value.int.injEq] at sorts
    exact sorts ▸ member
  · exact fun member => ⟨.int score, ⟨_, member, rfl, rfl⟩, rfl⟩

theorem scores_of_sorted {scores others : Dict String Int}
    (same : Json.sorted (scores.toValue .int) = Json.sorted (others.toValue .int)) (e : String × Int) :
    e ∈ scores.entries ↔ e ∈ others.entries := by
  obtain ⟨fs, sorts, mem⟩ := sorted_scores scores
  obtain ⟨gs, sorts', mem'⟩ := sorted_scores others
  rw [sorts, sorts', Except.ok.injEq, Value.map.injEq] at same
  rw [← mem, same, mem']

theorem sorted_ofStrings (ss : List String) :
    Json.sorted (.ofStrings ss) = .ok (.ofStrings ss) := by
  have all : Json.sortedAll (ss.map .str) = .ok (ss.map .str) := by
    induction ss with
    | nil => rfl
    | cons s ss ih =>
      simp only [List.map_cons, Json.sortedAll, Json.sorted, ih]
      rfl
  rw [Value.ofStrings, Json.sorted, all]
  rfl

-- settling that leaves the fingerprint alone, but for the time, changes nothing
theorem settled_of_fingerprint {c : Character} (sound : c.Sound) {now : Moment}
    (same : c.fingerprint = (c.settled.touch now).fingerprint) : c.settled = c := by
  have scores := fingerprint_field same "abilities" (v := c.abilities.toValue .int)
    (w := (rescored c.abilities).toValue .int) (mem_of_field? rfl) (mem_of_field? rfl)
  have saves := fingerprint_field same "save_proficiency" (v := c.saves.toValue)
    (w := (resaved c.saves).toValue) (mem_of_field? rfl) (mem_of_field? rfl)
  have abilities : rescored c.abilities = c.abilities := by
    refine rescored_usual ⟨sound.six, fun e member => ?_⟩
    exact (usual_rescored sound.ascii.settling.abilities).stable e ((scores_of_sorted scores e).1 member)
  have proficiency : resaved c.saves = c.saves := by
    rw [IdSet.toValue, IdSet.toValue, sorted_ofStrings, sorted_ofStrings, Except.ok.injEq] at saves
    have ids := (List.map_inj_right fun _ _ => Value.str.inj).1 (Value.list.inj saves)
    exact IdSet.ext ids.symm
  rw [settled, abilities, proficiency]

end Character

end Tabletop
