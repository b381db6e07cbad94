import Tabletop.Proofs.JudgedEntries
import Tabletop.Proofs.KeptPools

set_option autoImplicit false

namespace Tabletop

open Tabletop.Field (Entries)
open Tabletop.Json (Written MemberWritten Keeps KeepsText KeepsKey)

namespace Ruleset

structure DocumentKept (es : Entries) : Prop where
  titles : ∀ name ∈ ["id", "name", "version"],
    KeepsText (Value.field name (Value.entriesOrEmpty (Value.field "meta" es)))
  classes : ClassesKept (Value.entriesOrEmpty (Value.field "classes" es))
  pools : ∀ e ∈ declaredPools es, PoolKept e.2
  features : ∀ e ∈ featureDictionary es, InfoKept e.1 e.2

def IsKept (d : Value) : Prop :=
  DocumentKept d.entriesOrEmpty

variable {es fs : Entries} {v w d : Value} {r : Ruleset} {now : Moment}

-- the check goes through again

namespace Check

theorem nodeIssues_written {place : String} (place' : String) {k : Value} {name : String}
    (named : Json.memberName? k = some name) (value : Written v w)
    (checked : Completes (nodeIssues place k v)) : Completes (nodeIssues place' (.str name) w) := by
  obtain ⟨issues, checked⟩ := checked
  simp only [nodeIssues, bind_eq_ok] at checked
  obtain ⟨level?, keyed, checked⟩ := checked
  unfold nodeIssues
  rw [levelKey?_written named, keyed, ok_bind]
  cases level? with
  | none => simp
  | some level =>
    cases v with
    | map fields =>
      obtain ⟨fields', members, rfl⟩ := Json.written_map.1 value
      simp only [bind_eq_ok] at checked
      obtain ⟨items, walked, -⟩ := checked
      obtain ⟨items', walked', -⟩ :=
        looped_written "" "" [] (Json.field_written "choices" (by decide) members) walked
      simp [walked']
    | _ =>
      have bare := Json.isMap_written value
      cases w with
      | map fields => cases bare
      | _ => simp

theorem nodesIssues_written {place : String} (place' : String) (members : List.Forall₂ MemberWritten es fs)
    (checked : Completes (nodesIssues place es)) : Completes (nodesIssues place' fs) := by
  induction members with
  | nil => exact completes_ok []
  | @cons e f es fs member _ ih =>
    obtain ⟨k, v⟩ := e
    obtain ⟨l, w⟩ := f
    obtain ⟨⟨name, named, key⟩, value⟩ := member
    obtain rfl : l = .str name := key
    obtain ⟨issues, checked⟩ := checked
    simp only [nodesIssues, bind_eq_ok] at checked
    obtain ⟨first, node, rest, others, -⟩ := checked
    obtain ⟨first', node'⟩ := nodeIssues_written place' named value ⟨first, node⟩
    obtain ⟨rest', others'⟩ := ih ⟨rest, others⟩
    rw [nodesIssues, node', others']
    exact completes_ok _

theorem classIssues_written {k l : Value} (value : Written v w) (checked : Completes (classIssues k v)) :
    Completes (classIssues l w) := by
  cases v with
  | map fields =>
    obtain ⟨fields', members, rfl⟩ := Json.written_map.1 value
    have nodes := Json.entries_written (Json.field_written "progression" (by decide) members)
    simp only [classIssues] at checked ⊢
    generalize Value.entriesOrEmpty (Value.field "progression" fields) = es,
      Value.entriesOrEmpty (Value.field "progression" fields') = fs at nodes checked ⊢
    cases nodes with
    | nil => simp
    | cons node others =>
      obtain ⟨issues, checked⟩ := checked
      simp only [bind_eq_ok] at checked
      obtain ⟨found, nodes, -⟩ := checked
      obtain ⟨found', nodes'⟩ := nodesIssues_written ("classes." ++ l.text ++ ".progression")
        (.cons node others) ⟨found, nodes⟩
      simp [nodes']
  | _ =>
    have bare := Json.isMap_written value
    cases w with
    | map fields => cases bare
    | _ => exact completes_ok _

theorem classesIssues_written (members : List.Forall₂ MemberWritten es fs)
    (checked : Completes (classesIssues es)) : Completes (classesIssues fs) := by
  induction members with
  | nil => exact completes_ok []
  | @cons e f es fs member _ ih =>
    obtain ⟨k, v⟩ := e
    obtain ⟨l, w⟩ := f
    obtain ⟨issues, checked⟩ := checked
    simp only [classesIssues, bind_eq_ok] at checked
    obtain ⟨first, one, rest, others, -⟩ := checked
    obtain ⟨first', one'⟩ := classIssues_written (l := l) member.value ⟨first, one⟩
    obtain ⟨rest', others'⟩ := ih ⟨rest, others⟩
    rw [classesIssues, one', others']
    exact completes_ok _

end Check

theorem check_written {report : Report} (members : List.Forall₂ MemberWritten es fs)
    (kept : DocumentKept es) (checked : check (.map es) = .ok report) (valid : report.valid = true) :
    ∃ report', check (.map fs) = .ok report' ∧ report'.valid = true := by
  obtain ⟨identified, mapped⟩ := (check_valid checked).1 valid
  have titles := Json.entries_written (Json.field_written "meta" (by decide) members)
  have classes := Json.field_written "classes" (by decide) members
  have looked : Completes (check (.map fs)) := by
    simp only [check, bind_eq_ok] at checked ⊢
    obtain ⟨issues, found, -⟩ := checked
    cases given : Value.field "classes" es with
    | map entries =>
      rw [given] at classes found
      obtain ⟨entries', inner, same⟩ := Json.written_map.1 classes
      obtain ⟨issues', found'⟩ := Check.classesIssues_written inner ⟨issues, found⟩
      rw [← same, Check.documentClassIssues, found']
      exact completes_ok _
    | _ =>
      rw [given] at mapped
      cases mapped
  obtain ⟨report', checked'⟩ := looked
  refine ⟨report', checked', (check_valid checked').2 ⟨?_, (Json.isMap_written classes).trans mapped⟩⟩
  rw [(kept.titles "id" (by simp) _ (Json.field_written "id" (by decide) titles)).2]
  exact identified

theorem featureDictionary_written (members : List.Forall₂ MemberWritten es fs) :
    List.Forall₂ MemberWritten (featureDictionary es) (featureDictionary fs) := by
  have first : Option.Rel Written (Value.field? "featuresDictionary" es) (Value.field? "featuresDictionary" fs) :=
    Json.field?_written (by decide) members
  have second := Json.field_written "features_dictionary" (by decide) members
  unfold featureDictionary
  generalize Value.field? "featuresDictionary" es = v?, Value.field? "featuresDictionary" fs = w? at first ⊢
  cases first with
  | none => exact Json.entries_written second
  | some value => exact Json.entries_written value

theorem textOr_written {default : String} (kept : KeepsText v) (written : Written v w) :
    textOr default w = textOr default v := by
  rw [textOr, (kept w written).2, (kept w written).1, textOr]

theorem names_written (members : List.Forall₂ MemberWritten es fs) : Texts fs := by
  induction members with
  | nil => simp [Texts]
  | cons member _ ih =>
    obtain ⟨name, -, key⟩ := member.name
    exact List.forall_mem_cons.2 ⟨⟨name, key⟩, ih⟩

theorem build_written (members : List.Forall₂ MemberWritten es fs) (kept : DocumentKept es)
    (built : (build now es).result = .ok r) :
    (build now fs).result = .ok { r with document := .map fs } := by
  have titles := Json.entries_written (Json.field_written "meta" (by decide) members)
  have classes := Json.entries_written (Json.field_written "classes" (by decide) members)
  have id := kept.titles "id" (by simp) _ (Json.field_written "id" (by decide) titles)
  have name := kept.titles "name" (by simp)
  have version := kept.titles "version" (by simp)
  obtain ⟨names, named⟩ := keyed_ok (names_written members)
  simp only [build, Noted.bind_result_ok] at built ⊢
  obtain ⟨found, first, pools, second, features, third, _, -, same⟩ := built
  cases same
  refine ⟨found, classesOf_written kept.classes classes first, pools, poolsOf_written members kept.pools second,
    features, (featuresOf_written (featureDictionary_written members) kept.features).trans third, names, ?_, ?_⟩
  · rw [checkNames, named]
    rfl
  · rw [id.1, textOr_written name (Json.field_written "name" (by decide) titles),
      textOr_written version (Json.field_written "version" (by decide) titles)]
    rfl

theorem ofDocument_written (written : Written d w) (kept : IsKept d)
    (imported : (ofDocument now d).result = .ok r) :
    (ofDocument now w).result = .ok { r with document := w } := by
  rw [ofDocument_result] at imported ⊢
  cases checked : check d with
  | error cause =>
    rw [checked] at imported
    cases imported
  | ok report =>
    simp only [checked, Failure.ofExcept, Except.bind] at imported
    split at imported
    · rename_i valid
      cases d with
      | map es =>
        obtain ⟨fs, members, rfl⟩ := Json.written_map.1 written
        obtain ⟨report', checked', valid'⟩ := check_written members kept checked valid
        simp only [checked', Failure.ofExcept, Except.bind, valid', if_true]
        exact build_written members kept imported
      | _ => exact ((check_valid checked).1 valid).elim
    · cases imported

end Ruleset

end Tabletop
