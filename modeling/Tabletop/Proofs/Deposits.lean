import Tabletop.Proofs.IsoText
import Tabletop.Proofs.Rereading
import Tabletop.Proofs.Restoring
import Tabletop.Proofs.StoredRuleset

set_option autoImplicit false

namespace Tabletop

open Tabletop.Field (Entries)

inductive Deposit where
  | ruleset (r : Ruleset)
  | character (c : Character)

namespace Deposit

def collection : Deposit → Collection
  | ruleset _ => .rulesets
  | character _ => .characters

def id : Deposit → String
  | ruleset r => r.id
  | character c => c.id

def entries : Deposit → Entries
  | ruleset r => r.toEntries
  | character c => c.toEntries

def put : Deposit → Store.Work Unit
  | ruleset r => Store.putRuleset r
  | character c => Store.putCharacter c

/-- A ruleset that was imported from a JSON document, or a character that was read from a JSON record with
plain keys. -/
inductive IsFair : Deposit → Prop where
  | ruleset {now : Moment} {v : Value} {r : Ruleset} (json : v.IsJson) (legible : now.Legible)
      (read : (Ruleset.ofDocument now v).result = .ok r) : IsFair (ruleset r)
  | character {supply : Supply} {v : Value} {c : Character} {notices : List Notice} (json : v.IsJson)
      (plain : Character.PlainKeys v) (now : supply.now.Legible) (next : supply.now.next.Legible)
      (read : Character.ofValue supply v = .ok (c, notices)) : IsFair (character c)

variable {d : Deposit}

theorem field_id (d : Deposit) : Value.field "id" d.entries = .str d.id := by
  cases d <;> rfl

theorem put_run (d : Deposit) (s : Store) :
    d.put.run s =
      (do Store.put d.collection (← .ofExcept (Record.ofEntries d.entries)) false : Store.Work Unit).run s := by
  cases d <;> rfl

-- the records of what is fair

theorem proper_ruleset {r : Ruleset} (json : r.document.IsJson) : Json.Proper (.map r.toEntries) := by
  refine .map (.of_names ["id", "name", "version", "imported_at", "data"] rfl (by decide)) ?_
  simp only [Ruleset.toEntries, List.forall_mem_cons]
  exact ⟨.str _, .str _, .str _, .str _, json.proper, by simp⟩

theorem IsFair.proper (fair : d.IsFair) : Json.Proper (.map d.entries) := by
  cases fair with
  | @ruleset now v r json legible read =>
    have keeps := Ruleset.ofDocument_keeps read
    exact proper_ruleset (keeps.2.1 ▸ json)
  | @character _ _ c => exact c.proper_toValue

def record (d : Deposit) : Record :=
  ⟨d.id, .map d.entries, (Record.fingerprintOf (.map d.entries)).toOption.getD .null⟩

theorem IsFair.ofEntries (fair : d.IsFair) (filled : d.id.isEmpty = false) :
    Record.ofEntries d.entries = .ok d.record := by
  obtain ⟨print, found⟩ := fair.proper.fingerprinted
  rw [Record.ofEntries_named d.field_id filled found fair.proper.plain, record, found]
  rfl

-- what is not remembered is written
theorem IsFair.put_new {s : Store} (fair : d.IsFair) (usable : s.Usable) (nameable : Store.Nameable d.id)
    (new : s.known.get? (d.collection, d.id) = none) :
    ∃ t, d.put.run s = (.ok (), t) ∧ Store.Filed [(d.collection, d.record)] s t ∧
      ∀ key, key ≠ (d.collection, d.id) → t.known.get? key = s.known.get? key := by
  obtain ⟨name, named, placed⟩ := nameable.place s d.collection
  have placed : s.place d.collection d.record.id = .ok (s.folder d.collection ++ [name]) := placed
  have due : false = true ∨ s.known.get? (d.collection, d.record.id) ≠ some d.record.fingerprint := by
    rw [show d.record.id = d.id from rfl, new]
    exact .inr nofun
  have written := Store.put_due (r := d.record) usable nameable placed due
  have stored := fair.ofEntries (Store.id_filled named)
  refine ⟨_, ?_, Store.filed_put placed (s.known.insert (d.collection, d.id) d.record.fingerprint),
    fun key apart => ?_⟩
  · rw [d.put_run, Action.run_bind, stored]
    exact written
  · exact (Dict.get?_insert ..).trans (if_neg apart)

-- rulesets

theorem importTime_isoText {m : Moment} (legible : m.Legible) (now : Moment) :
    Store.importTime now (.str m.isoText) = .ok m := by
  have filled : (Value.str m.isoText).isTruthy = true := by
    rw [Value.isTruthy, Bool.not_eq_true', Bool.eq_false_iff]
    intro empty
    have text := Moment.Iso.isoText_toList legible
    rw [String.isEmpty_iff.1 empty] at text
    simp [digits] at text
  rw [Store.importTime, filled]
  simp [Moment.Iso.parse_isoText legible]

theorem rulesetOf_toEntries {now : Moment} {v : Value} {r : Ruleset} (legible : now.Legible)
    (read : (Ruleset.ofDocument now v).result = .ok r) (later : Moment) :
    Store.rulesetOf later r.toEntries = .ok (some r) := by
  obtain ⟨-, document, imported⟩ := Ruleset.ofDocument_keeps read
  have data : Value.field "data" r.toEntries = v := document
  have time : Value.field "imported_at" r.toEntries = .str r.importedAt.isoText := rfl
  rw [Store.rulesetOf, data, Ruleset.ofDocument_now now later, read, time]
  simp only [Except.map, imported, importTime_isoText legible]
  rw [← imported]
  rfl

theorem acceptRuleset_toEntries {now : Moment} {v : Value} {r : Ruleset}
    (read : (Ruleset.ofDocument now v).result = .ok r) (later : Moment) :
    Store.acceptRuleset later (.map r.toEntries) = .ok (some r.toEntries) := by
  obtain ⟨-, document, -⟩ := Ruleset.ofDocument_keeps read
  have data : Value.field "data" r.toEntries = v := document
  have same : Value.setField "id" (.str r.id) r.toEntries = r.toEntries := by
    simp [Value.setField, Ruleset.toEntries, Value.putEntry, Value.sameKey_str]
  rw [Store.acceptRuleset, data, Ruleset.ofDocument_now now later, read]
  simp only [Except.map, Ruleset.importedOn, same]

-- characters

theorem characterOf_toEntries {c : Character} (keeps : c.Keeps) (supply : Supply) :
    Store.characterOf supply (.map c.toEntries) = .ok (some c) := by
  change Store.characterOf supply c.toValue = _
  rw [Store.characterOf, keeps.reread supply]
  rfl

theorem IsFair.judged (fair : d.IsFair) (filled : d.id.isEmpty = false) (supply : Supply) :
    d.collection.judge supply (.map d.entries) = .ok (some d.record) := by
  have record := fair.ofEntries filled
  cases fair with
  | @ruleset now v r json legible read =>
    have accepted := acceptRuleset_toEntries read supply.now
    change Collection.judgeRuleset supply (.map r.toEntries) = _
    rw [Collection.judgeRuleset, accepted]
    simp only [Collection.stored]
    rw [show Record.ofEntries r.toEntries = _ from record]
    rfl
  | @character _ v c notices json plain now next read =>
    have keeps := Character.Keeps.of_record json plain now next read
    change Collection.judgeCharacter supply (.map c.toEntries) = _
    rw [Collection.judgeCharacter, characterOf_toEntries keeps]
    simp only [Collection.stored]
    rw [show Record.ofEntries c.toEntries = _ from record]
    rfl

-- what a store with the record gives

def Serves (s : Store) : Deposit → Prop
  | ruleset r => ((Store.getRuleset r.id).run s).1 = .ok (some r)
  | character c => ((Store.getCharacter c.id).run s).1 = .ok (some c)

theorem IsFair.serves {s : Store} {p : Place} (fair : d.IsFair) (placed : s.place d.collection d.id = .ok p)
    (place : s.disk.Open p) (file : s.disk.files.get? p = some (.document (.map d.entries))) :
    Serves s d := by
  have proper := fair.proper
  cases fair with
  | @ruleset now v r json legible read =>
    have given : (Value.field "id" r.toEntries).isTruthy = true := by
      obtain ⟨name, named, -⟩ := Store.place_eq_ok placed
      have named : Store.recordName r.id = .ok name := named
      have field : Value.field "id" r.toEntries = .str r.id := rfl
      simp [field, Value.isTruthy, Store.id_filled named]
    obtain ⟨u, run⟩ := Store.getRuleset_of_file placed place.short file proper given
      (rulesetOf_toEntries legible read s.supply.now)
    exact congrArg Prod.fst run
  | @character _ v c notices json plain now next read =>
    have keeps := Character.Keeps.of_record json plain now next read
    have run := Store.run_getCharacter keeps.sound.legible ⟨p, placed, place, file⟩
    rw [keeps.settled] at run
    exact congrArg Prod.fst run

end Deposit

end Tabletop
