import Tabletop.Proofs.DisguisedKeys

set_option autoImplicit false

namespace Tabletop

open Ability (normalizeKey IsDisguised)
open Tabletop.Field (Entries)

namespace Character

/-- The saves that a record names. A map of truth values names the keys that are true. -/
def saveKeys : Value → List Value
  | .map es => (es.filter fun e => e.2.isTruthy).map (·.1)
  | v => v.looped.toOption.getD []

def keysGiven (v : Value) : List String :=
  ((Value.entriesOrEmpty (Value.field "abilities" (givenEntries v))).map (·.1) ++
    saveKeys (Value.field "save_proficiency" (givenEntries v))).map Value.text

/-- Whatever levels and readings come, the scores and the saves stay under their keys. -/
def KeysLast (c : Character) : Prop :=
  ∀ d, Relation.ReflTransGen Turn c d → d.abilities = c.abilities ∧ d.saves = c.saves

-- the keys of a character that is read

theorem readScores_keys {es : Entries} {scores read : Dict String Int}
    (reads : readScores scores es = .ok read) {key : String} :
    key ∈ read.keys ↔ key ∈ scores.keys ∨ ∃ e ∈ es, key = normalizeKey e.1.text := by
  induction es generalizing scores with
  | nil =>
    cases reads
    simp
  | cons e es ih =>
    obtain ⟨k, v⟩ := e
    simp only [readScores, bind_eq_ok] at reads
    obtain ⟨score, -, rest⟩ := reads
    have inserted : key ∈ (scores.insert (normalizeKey k.text) (clamp score 1 30)).keys ↔
        key = normalizeKey k.text ∨ key ∈ scores.keys := Dict.mem_keys_put
    rw [ih rest, inserted, List.exists_mem_cons_iff, or_assoc, or_left_comm]

theorem abilities_keys {es : Entries} {scores : Dict String Int}
    (reads : prepared "abilities" defaultScores readAbilities es = .ok scores) {key : String} :
    key ∈ scores.keys ↔ key ∈ Ability.keys ∨
      ∃ e ∈ Value.entriesOrEmpty (Value.field "abilities" es), key = normalizeKey e.1.text := by
  have six : defaultScores.keys = Ability.keys := rfl
  rw [← six]
  rcases Field.withDefault_eq_ok reads with ⟨absent, rfl⟩ | ⟨v, found, reads⟩
  · simp [Value.field, absent, Value.entriesOrEmpty]
  · rw [Value.field, found, Option.getD_some]
    rw [Checked.ofExcept_eq_ok] at reads
    unfold readAbilities at reads
    split at reads
    · exact readScores_keys reads
    · rename_i other
      cases reads
      cases v with
      | map es => exact absurd rfl (other es)
      | _ => simp [Value.entriesOrEmpty]

theorem mem_readSaves {v : Value} {saves : IdSet} (reads : readSaves v = .ok saves) {key : String} :
    key ∈ saves ↔ ∃ k ∈ saveKeys v, key = normalizeKey k.text := by
  unfold readSaves at reads
  split at reads
  · cases reads
    simp only [IdSet.mem_ofList, saveKeys, List.mem_map]
    constructor
    · rintro ⟨e, member, rfl⟩
      exact ⟨e.1, ⟨e, member, rfl⟩, rfl⟩
    · rintro ⟨k, ⟨e, member, rfl⟩, rfl⟩
      exact ⟨e, member, rfl⟩
  · rename_i other
    have own : saveKeys v = v.looped.toOption.getD [] := by
      cases v with
      | map es => exact absurd rfl (other es)
      | _ => rfl
    rw [own, Value.looped]
    cases truthy : v.isTruthy with
    | false =>
      rw [truthy] at reads
      cases reads
      simp [Except.toOption]
    | true =>
      simp only [truthy, Bool.not_true, Bool.false_eq_true, if_false, bind_eq_ok] at reads
      obtain ⟨keys, listed, same⟩ := reads
      cases same
      simp [listed, IdSet.mem_ofList, Except.toOption, eq_comm]

theorem saves_keys {es : Entries} {saves : IdSet}
    (reads : prepared "save_proficiency" .empty readSaves es = .ok saves) {key : String} :
    key ∈ saves ↔ ∃ k ∈ saveKeys (Value.field "save_proficiency" es), key = normalizeKey k.text := by
  rcases Field.withDefault_eq_ok reads with ⟨absent, rfl⟩ | ⟨v, found, reads⟩
  · simp [Value.field, absent, saveKeys, Value.looped, Value.isTruthy, Except.toOption]
  · rw [Value.field, found, Option.getD_some]
    exact mem_readSaves (Checked.ofExcept_eq_ok.1 reads)

theorem ofValue_keys {supply : Supply} {v : Value} {c : Character} {notices : List Notice}
    (reads : ofValue supply v = .ok (c, notices)) {key : String} :
    key ∈ c.abilities.keys ∨ key ∈ c.saves ↔
      key ∈ Ability.keys ∨ ∃ given ∈ keysGiven v, key = normalizeKey given := by
  obtain ⟨s, -, fields⟩ := ofValue_fields reads
  have fields := readFields_eq_ok fields
  rw [abilities_keys fields.abilities, saves_keys fields.saves, or_assoc]
  simp [keysGiven, or_and_right, exists_or]

-- what a later reading makes of a character, and when it makes nothing of it

theorem reread_settles {supply : Supply} {c d : Character} {notices : List Notice}
    (reads : ofValue supply c.toValue = .ok (d, notices)) :
    d.abilities = rescored c.abilities ∧ d.saves = resaved c.saves := by
  obtain ⟨s, -, fields⟩ := ofValue_fields reads
  have fields := readFields_eq_ok fields
  have own : givenEntries c.toValue = nonNull c.entries := currentNames_entries c
  have abilities := fields.abilities
  have saves := fields.saves
  rw [own, abilities_entries, Checked.ok.injEq] at abilities
  rw [own, saves_entries, Checked.ok.injEq] at saves
  exact ⟨abilities.symm, saves.symm⟩

theorem settled_eq_self_iff {supply : Supply} {v : Value} {c : Character} {notices : List Notice}
    (reads : ofValue supply v = .ok (c, notices)) :
    c.settled = c ↔ ∀ key, key ∈ c.abilities.keys ∨ key ∈ c.saves → normalizeKey key = key := by
  have inRange := ofValue_inRange reads
  have settling := ofValue_settling reads
  constructor
  · intro settled key held
    have abilities : rescored c.abilities = c.abilities := congrArg Character.abilities settled
    have saves : resaved c.saves = c.saves := congrArg Character.saves settled
    rcases held with held | held
    · have usual := usual_rescored settling.abilities
      rw [abilities] at usual
      obtain ⟨e, member, rfl⟩ := List.mem_map.1 held
      exact (usual.stable e member).1
    · rw [← saves] at held
      obtain ⟨old, member, rfl⟩ := mem_resaved.1 held
      exact settling.saves old member
  · intro stable
    have usual : Usual c.abilities := {
      six := inRange.six
      stable := fun e member =>
        ⟨stable e.1 (.inl (List.mem_map_of_mem member)), inRange.scores e member⟩ }
    rw [settled, rescored_usual usual, resaved_stable fun key held => stable key (.inr held)]

-- what one turn keeps, and from it what all turns keep

theorem Turn.keys_kept {c d : Character} (turn : Turn c d) (settled : c.settled = c) :
    d.abilities = c.abilities ∧ d.saves = c.saves := by
  cases turn with
  | @applied _ _ a level force now _ _ parsed went =>
    cases idle : c.isApplied level && !force with
    | true =>
      rw [Application.on_skip idle went]
      exact ⟨rfl, rfl⟩
    | false =>
      obtain ⟨node, made, -, rfl⟩ := Application.makes_of_on idle went
      obtain ⟨features, spells, infusions, whole⟩ := committed_frame a.ruleset node level made now c
      rw [whole]
      exact ⟨rfl, rfl⟩
  | @reverted level _ =>
    obtain ⟨features, spells, infusions, advancement, whole⟩ := revert_frame c level
    rw [whole]
    exact ⟨rfl, rfl⟩
  | reread reads =>
    obtain ⟨abilities, saves⟩ := reread_settles reads
    exact ⟨abilities.trans (congrArg Character.abilities settled),
      saves.trans (congrArg Character.saves settled)⟩

theorem keysLast_of_settled {c : Character} (settled : c.settled = c) : c.KeysLast := by
  intro d turns
  induction turns with
  | refl => exact ⟨rfl, rfl⟩
  | tail _ turn kept =>
    have next := turn.keys_kept (settled_of_same settled kept.1 kept.2)
    exact ⟨next.1.trans kept.1, next.2.trans kept.2⟩

theorem settled_of_keysLast {supply : Supply} {c d : Character} {notices : List Notice} (last : c.KeysLast)
    (reads : ofValue supply c.toValue = .ok (d, notices)) : c.settled = c := by
  obtain ⟨abilities, saves⟩ := reread_settles reads
  obtain ⟨scores, proficiency⟩ := last d (.single (.reread reads))
  rw [settled, ← abilities, ← saves, scores, proficiency]

theorem keysLast_reread {supply again : Supply} {v : Value} {c d : Character}
    {notices noticed : List Notice} (read : ofValue supply v = .ok (c, notices))
    (reread : ofValue again c.toValue = .ok (d, noticed)) : d.KeysLast := by
  obtain ⟨abilities, saves⟩ := reread_settles reread
  refine keysLast_of_settled ?_
  have settled : c.settled.settled = c.settled := settled_settled (ofValue_settling read)
  exact settled_of_same settled abilities saves

theorem keysLast_iff {supply again : Supply} {v : Value} {c d : Character}
    {notices noticed : List Notice} (read : ofValue supply v = .ok (c, notices))
    (reread : ofValue again c.toValue = .ok (d, noticed)) :
    c.KeysLast ↔ ∀ key ∈ keysGiven v, ¬IsDisguised key := by
  have settles : c.KeysLast ↔ c.settled = c := ⟨(settled_of_keysLast · reread), keysLast_of_settled⟩
  rw [settles, settled_eq_self_iff read]
  constructor
  · intro stable key given
    rw [← Ability.normalizeKey_normalizeKey_iff]
    exact stable _ ((ofValue_keys read).2 (.inr ⟨key, given, rfl⟩))
  · intro plain key held
    rcases (ofValue_keys read).1 held with usual | ⟨given, member, rfl⟩
    · exact Ability.normalizeKey_keys key usual
    · exact (Ability.normalizeKey_normalizeKey_iff given).2 (plain given member)

/-- A key that is brought into its usual form twice stays as it was the first time exactly if it is no full
name in disguise. The scores and saves of a character that is read stay under their keys through all that comes
exactly if its record gives no such key, and they do so from the second reading on. -/
theorem keys_settle (key : String) :
    (normalizeKey (normalizeKey key) = normalizeKey key ↔ ¬IsDisguised key) ∧
      ∀ {supply again : Supply} {v : Value} {c d : Character} {notices noticed : List Notice},
        ofValue supply v = .ok (c, notices) → ofValue again c.toValue = .ok (d, noticed) →
          (c.KeysLast ↔ ∀ given ∈ keysGiven v, ¬IsDisguised given) ∧ d.KeysLast :=
  ⟨Ability.normalizeKey_normalizeKey_iff key, fun read reread =>
    ⟨keysLast_iff read reread, keysLast_reread read reread⟩⟩

end Character

-- a score under a full name with a long `s`, beside the score under the usual key

namespace Recruit

def scrawl : Value :=
  .map [(.str "abilities", .map [(.str "STR", .int 15), (.str "ſtrength", .int 18)])]

def scrivener : Character :=
  ((Failure.ofChecked (Character.ofValue supply scrawl)).toOption.get (by decide +kernel)).1

def copyist : Character :=
  ((Failure.ofChecked (Character.ofValue supply scrivener.toValue)).toOption.get (by decide +kernel)).1

theorem scrivener_read : ∃ notices, Character.ofValue supply scrawl = .ok (scrivener, notices) :=
  ⟨_, ok_of_ofChecked (ok_of_get (by decide +kernel))⟩

theorem copyist_read : ∃ notices, Character.ofValue supply scrivener.toValue = .ok (copyist, notices) :=
  ⟨_, ok_of_ofChecked (ok_of_get (by decide +kernel))⟩

end Recruit

open Recruit in
theorem keys_settle_copyist :
    Ability.normalizeKey (Ability.normalizeKey "ſtrength") ≠ Ability.normalizeKey "ſtrength" ∧
      ∃ notices noticed, Character.ofValue supply scrawl = .ok (scrivener, notices) ∧
        Character.ofValue supply scrivener.toValue = .ok (copyist, noticed) ∧
        "ſtrength" ∈ Character.keysGiven scrawl ∧ ¬scrivener.KeysLast ∧ copyist.KeysLast := by
  obtain ⟨notices, read⟩ := scrivener_read
  obtain ⟨noticed, reread⟩ := copyist_read
  have disguised : Ability.IsDisguised "ſtrength" := by decide +kernel
  have given : "ſtrength" ∈ Character.keysGiven scrawl := by decide +kernel
  obtain ⟨stays, lasts⟩ := Character.keys_settle "ſtrength"
  obtain ⟨plain, last⟩ := lasts read reread
  refine ⟨fun same => stays.1 same disguised, notices, noticed, read, reread, given, ?_, last⟩
  exact fun kept => plain.1 kept _ given disguised

open Recruit in
/-- The score under the disguised name takes the place of the other one with the second reading. -/
theorem scrivener_overwritten :
    ¬(∀ key, Ability.normalizeKey (Ability.normalizeKey key) = Ability.normalizeKey key) ∧
    (∃ notices, Character.ofValue supply scrawl = .ok (scrivener, notices)) ∧
    scrivener.abilities.get? "STR" = some 15 ∧ scrivener.abilities.get? "STRENGTH" = some 18 ∧
    (∃ notices, Character.ofValue supply scrivener.toValue = .ok (copyist, notices)) ∧
    copyist.abilities.get? "STR" = some 18 ∧ copyist.abilities.get? "STRENGTH" = none := by
  refine ⟨fun same => ?_, scrivener_read, by decide +kernel, by decide +kernel, copyist_read,
    by decide +kernel, by decide +kernel⟩
  exact absurd (same "ſtrength") (by decide +kernel)

end Tabletop
