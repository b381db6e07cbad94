import Tabletop.Record.Field
import Tabletop.Ruleset

set_option autoImplicit false

namespace Tabletop

open Tabletop.Field (Entries)

def textOrBlank : Field.Reader String
  | .null => .ok ""
  | v => Field.string v

def textList : Field.Reader (List String) :=
  Field.listOf .tupleType Field.string

def optionalText (name : String) (es : Entries) : Checked (Option String) :=
  Field.withDefault name none (Field.optional Field.string) es

def Requirements.read : Field.Reader Requirements :=
  Field.record fun es =>
    Requirements.mk <$> Field.aliased "class" "class_" none (Field.optional Field.string) es
      <*> Field.aliased "minLevel" "min_level" none (Field.optional Field.integer) es
      <*> optionalText "subclass" es

def PoolOption.readTags : Field.Reader IdSet := fun v =>
  (Field.listOf .frozenSetType Field.string v).map IdSet.ofList

def PoolOption.ofEntries (es : Entries) : Checked PoolOption :=
  PoolOption.mk <$> Field.required "id" Field.string es
    <*> Field.required "name" Field.string es
    <*> Field.withDefault "level" none (Field.optional Field.integer) es
    <*> Field.withDefault "tags" .empty readTags es
    <*> Field.withDefault "lists" [] textList es
    <*> Field.withDefault "requires" none (Field.optional Requirements.read) es
    <*> Field.aliased "desc" "description" "" textOrBlank es

def PoolOption.read : Field.Reader PoolOption :=
  Field.record PoolOption.ofEntries

def ChoiceFilter.read : Field.Reader ChoiceFilter :=
  Field.record fun es =>
    ChoiceFilter.mk <$> Field.aliased "class" "class_" none (Field.optional Field.string) es
      <*> Field.aliased "minLevel" "min_level" none (Field.optional Field.integer) es
      <*> optionalText "tag" es
      <*> Field.aliased "tagsAny" "tags_any" [] textList es
      <*> Field.aliased "tagsAll" "tags_all" [] textList es

def Choice.ofEntries (es : Entries) : Checked Choice :=
  Choice.mk <$> Field.required "id" Field.string es
    <*> Field.withDefault "title" "" textOrBlank es
    <*> Field.withDefault "help" "" textOrBlank es
    <*> Field.requiredAs "from" "from_" Field.string es
    <*> Field.withDefault "filter" ChoiceFilter.open ChoiceFilter.read es
    <*> Field.withDefault "count" 1 (Field.integerFrom 1) es

def Choice.read : Field.Reader Choice :=
  Field.record Choice.ofEntries

def FeatureInfo.ofEntries (es : Entries) : Checked FeatureInfo :=
  FeatureInfo.mk <$> Field.required "name" Field.string es
    <*> Field.aliased "desc" "description" "" Field.string es

def readSlotTable : Field.Reader (Dict String (Dict String Int)) := fun v =>
  (Field.mapOf (fun slots => (Field.mapOf Field.integer slots).map Dict.ofList) v).map Dict.ofList

def ClassDef.ofEntries (progression : Dict Int Node) (es : Entries) : Checked ClassDef :=
  ClassDef.mk <$> Field.required "id" Field.string es
    <*> Field.required "name" Field.string es
    <*> Field.aliased "hitDie" "hit_die" 8 Field.integer es
    <*> pure progression
    <*> Field.aliased "spellcastingAbility" "spellcasting_ability" none
      (Field.optional Field.string) es
    <*> Field.aliased "spellSlots" "spell_slots" .empty readSlotTable es

end Tabletop
