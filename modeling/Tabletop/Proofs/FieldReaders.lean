import Tabletop.Ruleset.Reading

set_option autoImplicit false

namespace Tabletop

open Tabletop.Field (Entries Reader)

namespace Checked

variable {α β : Type}

def Settles (x : Checked α) : Prop :=
  ∀ cause, x ≠ .broken cause

theorem settles_ok (a : α) : (Checked.ok a).Settles := fun _ same => nomatch same

theorem settles_pure (a : α) : (pure a : Checked α).Settles :=
  settles_ok a

theorem settles_refused (faults : List Fault) : (refused faults : Checked α).Settles :=
  fun _ same => nomatch same

theorem settles_fault (kind : FaultKind) : (fault kind : Checked α).Settles :=
  settles_refused _

theorem settles_ofOption (kind : FaultKind) (o : Option α) : (ofOption kind o).Settles := by
  cases o with
  | none => exact settles_fault kind
  | some a => exact settles_ok a

variable {x : Checked α}

@[simp] theorem settles_map_iff {f : α → β} : (f <$> x).Settles ↔ x.Settles := by
  change (Checked.map f x).Settles ↔ _
  cases x <;> simp [Checked.map, Settles]

@[simp] theorem settles_seq_iff {f : Checked (α → β)} : (f <*> x).Settles ↔ f.Settles ∧ x.Settles := by
  change (Checked.seq f x).Settles ↔ _
  cases f <;> cases x <;> simp [Checked.seq, Settles]

@[simp] theorem settles_within_iff {step : Step} : (x.within step).Settles ↔ x.Settles := by
  cases x <;> simp [Checked.within, Settles]

theorem Settles.map (settles : x.Settles) (f : α → β) : (x.map f).Settles :=
  settles_map_iff.2 settles

theorem Settles.seq {f : Checked (α → β)} (first : f.Settles) (second : x.Settles) :
    (f <*> x).Settles :=
  settles_seq_iff.2 ⟨first, second⟩

theorem Settles.within (settles : x.Settles) (step : Step) : (x.within step).Settles :=
  settles_within_iff.2 settles

theorem settles_andThen_iff {f : α → Checked β} :
    (x.andThen f).Settles ↔ x.Settles ∧ ∀ a, x = .ok a → (f a).Settles := by
  cases x <;> simp [andThen, Settles]

theorem Settles.andThen {f : α → Checked β} (settles : x.Settles) (next : ∀ a, (f a).Settles) :
    (x.andThen f).Settles :=
  settles_andThen_iff.2 ⟨settles, fun a _ => next a⟩

theorem settles_all {read : α → Checked β} (settles : ∀ a, (read a).Settles) (i : Nat)
    (xs : List α) : (all read i xs).Settles := by
  induction xs generalizing i with
  | nil => exact settles_ok []
  | cons x xs ih => exact (((settles x).within _).map _).seq (ih (i + 1))

end Checked

open Checked (Settles settles_ok settles_fault settles_ofOption)

namespace Field

variable {α : Type} {read : Reader α}

theorem string_settles (v : Value) : (string v).Settles := by
  unfold string
  split
  · exact settles_ok _
  · exact settles_ofOption _ _
  · exact settles_fault _

theorem integerText_settles (s : String) : (integerText s).Settles := by
  unfold integerText
  simp only
  split
  · exact settles_fault _
  · split
    · exact settles_fault _
    · exact settles_ofOption _ _

theorem integer_settles (v : Value) : (integer v).Settles := by
  unfold integer
  split
  · exact settles_ok _
  · exact settles_ok _
  · split
    · exact settles_fault _
    · split
      · exact settles_ofOption _ _
      · exact settles_fault _
  · exact integerText_settles _
  · split
    · exact integerText_settles _
    · exact settles_fault _
  · exact settles_fault _

theorem integerFrom_settles (least : Int) (v : Value) : (integerFrom least v).Settles := by
  refine (integer_settles v).andThen fun i => ?_
  split
  · exact settles_fault _
  · exact settles_ok i

theorem float_settles (v : Value) : (float v).Settles := by
  have text (s : String) : (floatText s).Settles := settles_ofOption _ _
  unfold float
  split
  · exact settles_ok _
  · simp only
    split
    · exact settles_ok _
    · exact settles_fault _
  · exact settles_ok _
  · exact text _
  · split
    · exact text _
    · exact settles_fault _
  · exact settles_fault _

theorem moment_settles (v : Value) : (moment v).Settles := by
  unfold moment
  split
  · exact settles_ofOption _ _
  · exact settles_ofOption _ _
  · exact settles_ofOption _ _
  · exact settles_ok _
  · exact settles_ok _
  · exact settles_fault _

theorem optional_settles (settles : ∀ v, (read v).Settles) (v : Value) :
    (optional read v).Settles := by
  unfold optional
  split
  · exact settles_ok _
  · exact (settles _).map _

theorem listOf_settles (settles : ∀ v, (read v).Settles) (kind : FaultKind) (v : Value) :
    (listOf kind read v).Settles := by
  unfold listOf
  split
  · exact Checked.settles_all settles 0 _
  · exact settles_fault kind

theorem mapOf_settles (settles : ∀ v, (read v).Settles) (v : Value) : (mapOf read v).Settles := by
  have entries (es : Entries) : (entriesOf read es).Settles := by
    induction es with
    | nil => exact settles_ok []
    | cons e es ih =>
      obtain ⟨k, v⟩ := e
      have key := ((string_settles k).within (.name "[key]")).within (keyStep k)
      exact (((key.map _).seq ((settles v).within _)).map _).seq ih
  unfold mapOf
  split
  · exact entries _
  · exact settles_fault _

theorem record_settles {read : Entries → Checked α} (settles : ∀ es, (read es).Settles) (v : Value) :
    (record read v).Settles := by
  unfold record
  split
  · exact settles _
  · exact settles_fault _

theorem required_settles (settles : ∀ v, (read v).Settles) (name : String) (es : Entries) :
    (required name read es).Settles := by
  unfold required
  split
  · exact (settles _).within _
  · exact (settles_fault _).within _

theorem withDefault_settles_iff {name : String} {default : α} {es : Entries} :
    (withDefault name default read es).Settles ↔
      ∀ v, Value.field? name es = some v → (read v).Settles := by
  unfold withDefault
  cases Value.field? name es with
  | none => simp [settles_ok]
  | some v => simp

theorem withDefault_settles (settles : ∀ v, (read v).Settles) (name : String) (default : α)
    (es : Entries) : (withDefault name default read es).Settles :=
  withDefault_settles_iff.2 fun v _ => settles v

theorem requiredAs_settles (settles : ∀ v, (read v).Settles) (first second : String) (es : Entries) :
    (requiredAs first second read es).Settles := by
  unfold requiredAs
  split
  · exact required_settles settles first es
  · exact required_settles settles second es

theorem aliased_settles (settles : ∀ v, (read v).Settles) (first second : String) (default : α)
    (es : Entries) : (aliased first second default read es).Settles := by
  unfold aliased
  split
  · exact withDefault_settles settles first default es
  · exact withDefault_settles settles second default es

end Field

-- the parts of a ruleset

open Tabletop.Field

theorem textOrBlank_settles (v : Value) : (textOrBlank v).Settles := by
  unfold textOrBlank
  split
  · exact settles_ok ""
  · exact string_settles _

theorem textList_settles (v : Value) : (textList v).Settles :=
  listOf_settles string_settles _ v

theorem optionalText_settles (name : String) (es : Entries) : (optionalText name es).Settles :=
  withDefault_settles (optional_settles string_settles) name none es

theorem Requirements.read_settles (v : Value) : (Requirements.read v).Settles := by
  refine record_settles (fun es => ?_) v
  have classId := aliased_settles (optional_settles string_settles) "class" "class_" none es
  have level := aliased_settles (optional_settles integer_settles) "minLevel" "min_level" none es
  exact ((classId.map _).seq level).seq (optionalText_settles "subclass" es)

theorem PoolOption.ofEntries_settles (es : Entries) : (PoolOption.ofEntries es).Settles := by
  have tags (v : Value) : (PoolOption.readTags v).Settles :=
    (listOf_settles string_settles _ v).map _
  have id := required_settles string_settles "id" es
  have name := required_settles string_settles "name" es
  have level := withDefault_settles (optional_settles integer_settles) "level" none es
  have tagged := withDefault_settles tags "tags" .empty es
  have lists := withDefault_settles textList_settles "lists" [] es
  have requirements :=
    withDefault_settles (optional_settles Requirements.read_settles) "requires" none es
  have description := aliased_settles textOrBlank_settles "desc" "description" "" es
  exact ((((((id.map _).seq name).seq level).seq tagged).seq lists).seq requirements).seq description

theorem ChoiceFilter.read_settles (v : Value) : (ChoiceFilter.read v).Settles := by
  refine record_settles (fun es => ?_) v
  have classId := aliased_settles (optional_settles string_settles) "class" "class_" none es
  have level := aliased_settles (optional_settles integer_settles) "minLevel" "min_level" none es
  have any := aliased_settles textList_settles "tagsAny" "tags_any" [] es
  have all := aliased_settles textList_settles "tagsAll" "tags_all" [] es
  exact ((((classId.map _).seq level).seq (optionalText_settles "tag" es)).seq any).seq all

theorem Choice.ofEntries_settles (es : Entries) : (Choice.ofEntries es).Settles := by
  have id := required_settles string_settles "id" es
  have title := withDefault_settles textOrBlank_settles "title" "" es
  have help := withDefault_settles textOrBlank_settles "help" "" es
  have source := requiredAs_settles string_settles "from" "from_" es
  have filter := withDefault_settles ChoiceFilter.read_settles "filter" .open es
  have count := withDefault_settles (integerFrom_settles 1) "count" 1 es
  exact (((((id.map _).seq title).seq help).seq source).seq filter).seq count

theorem FeatureInfo.ofEntries_settles (es : Entries) : (FeatureInfo.ofEntries es).Settles :=
  ((required_settles string_settles "name" es).map _).seq
    (aliased_settles string_settles "desc" "description" "" es)

theorem ClassDef.ofEntries_settles (progression : Dict Int Node) (es : Entries) :
    (ClassDef.ofEntries progression es).Settles := by
  have slots (v : Value) : (readSlotTable v).Settles :=
    (mapOf_settles (fun v => (mapOf_settles integer_settles v).map _) v).map _
  have id := required_settles string_settles "id" es
  have name := required_settles string_settles "name" es
  have hitDie := aliased_settles integer_settles "hitDie" "hit_die" 8 es
  have casting := aliased_settles (optional_settles string_settles) "spellcastingAbility"
    "spellcasting_ability" none es
  have table := aliased_settles slots "spellSlots" "spell_slots" .empty es
  exact (((((id.map _).seq name).seq hitDie).seq (settles_ok progression)).seq casting).seq table

end Tabletop
