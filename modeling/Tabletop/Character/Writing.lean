import Tabletop.Character
import Tabletop.Value

set_option autoImplicit false

namespace Tabletop

def HitPoints.toValue (h : HitPoints) : Value :=
  .map [(.str "current", .int h.current), (.str "max", .int h.max), (.str "temp", .int h.temp)]

def Item.toValue (i : Item) : Value :=
  .map [(.str "id", .str i.id), (.str "name", .str i.name), (.str "quantity", .int i.quantity),
    (.str "note", .str i.note), (.str "weight", i.weight.elim .null .float)]

def Feature.toValue (f : Feature) : Value :=
  .map [(.str "id", .str f.id), (.str "name", .str f.name), (.str "level", .int f.level),
    (.str "text", .str f.text), (.str "tags", .ofStrings f.tags.names)]

def IdSet.toValue (s : IdSet) : Value :=
  .ofStrings s.ids

def SpellBook.toValue (b : SpellBook) : Value :=
  .map [(.str "cantrips", b.cantrips.toValue), (.str "known", b.known.toValue)]

def infusionsToValue (learned : IdSet) : Value :=
  .map [(.str "learned", learned.toValue)]

def Dict.toValue {α : Type} (f : α → Value) (d : Dict String α) : Value :=
  .map (d.entries.map fun e => (.str e.1, f e.2))

def LevelRecord.toValue (r : LevelRecord) : Value :=
  Dict.toValue Value.ofStrings r

def Ledger.toValue (l : Ledger) : Value :=
  Dict.toValue LevelRecord.toValue l

def Character.toValue (c : Character) : Value :=
  .map [(.str "id", .str c.id), (.str "name", .str c.name),
    (.str "ruleset_id", .ofText? c.rulesetId), (.str "class_id", .ofText? c.classId),
    (.str "subclass_id", .ofText? c.subclassId), (.str "level", .int c.level),
    (.str "abilities", c.abilities.toValue .int), (.str "hp", c.hp.toValue),
    (.str "ac", .int c.ac), (.str "speed", .int c.speed),
    (.str "skill_proficiency_rank", c.skillRanks.toValue .int),
    (.str "save_proficiency", c.saves.toValue),
    (.str "inventory", .list (c.inventory.map Item.toValue)),
    (.str "spells", c.spells.toValue), (.str "infusions", infusionsToValue c.infusions),
    (.str "features", .list (c.features.map Feature.toValue)),
    (.str "advancement", Ledger.toValue c.advancement), (.str "notes", .str c.notes),
    (.str "portrait_ref", .ofText? c.portrait),
    (.str "created_at", .str c.createdAt.recordText),
    (.str "updated_at", .str c.updatedAt.recordText)]

end Tabletop
