import Tabletop.Proofs.StoredCharacter
import Tabletop.Store.Rulesets

set_option autoImplicit false

namespace Tabletop

namespace Ruleset

def importedOn (r : Ruleset) (now : Moment) : Ruleset :=
  { r with importedAt := now }

theorem build_now (now later : Moment) (es : Field.Entries) :
    (build later es).result = (build now es).result.map fun r => r.importedOn later := by
  simp only [build, Noted.result_bind]
  cases (classesOf .empty (Value.entriesOrEmpty (Value.field "classes" es))).result with
  | error f => rfl
  | ok classes =>
    cases (poolsOf es).result with
    | error f => rfl
    | ok pools =>
      cases (featuresOf .empty (featureDictionary es)).result with
      | error f => rfl
      | ok features =>
        cases (Noted.ofChecked (checkNames es)).result with
        | error f => rfl
        | ok names => rfl

theorem ofDocument_now (now later : Moment) (v : Value) :
    (ofDocument later v).result = (ofDocument now v).result.map fun r => r.importedOn later := by
  simp only [ofDocument, Noted.result_bind]
  cases (Noted.ofExcept (check v)).result with
  | error f => rfl
  | ok report =>
    simp only [Except.bind]
    split
    · simp only [Noted.result_bind, build_now now later]
      rfl
    · rfl

end Ruleset

namespace Store

variable {s t : Store}

theorem importTime_again {now m : Moment} {v : Value} (later : Moment) (read : importTime now v = .ok m) :
    ∃ n, importTime later v = .ok n := by
  unfold importTime at read ⊢
  split
  · exact ⟨_, rfl⟩
  · rename_i given
    rw [if_neg given] at read
    exact ⟨m, read⟩

theorem rulesetOf_again {now : Moment} {record : Field.Entries} {r : Ruleset} (later : Moment)
    (read : rulesetOf now record = .ok (some r)) :
    ∃ imported, rulesetOf later record = .ok (some (r.importedOn imported)) := by
  unfold rulesetOf at read ⊢
  rw [Ruleset.ofDocument_now now later]
  cases found : (Ruleset.ofDocument now (Value.field "data" record)).result with
  | error f =>
    rw [found] at read
    cases f <;> cases read
  | ok q =>
    simp only [found, Except.map] at read ⊢
    cases time : importTime q.importedAt (Value.field "imported_at" record) with
    | error cause => simp [time, Failure.ofExcept, bind, Except.bind] at read
    | ok m =>
      rw [time] at read
      cases read
      obtain ⟨n, again⟩ := importTime_again later time
      exact ⟨n, by simp [again, Ruleset.importedOn, Failure.ofExcept, bind, Except.bind, pure,
        Except.pure]⟩

theorem SameElse.ruleset_file (same : SameElse s t) {id : String} {p : Place}
    (placed : s.place .rulesets id = .ok p) :
    t.disk.holds p = s.disk.holds p ∧ t.disk.load? p = s.disk.load? p := by
  have file : t.disk.files.get? p = s.disk.files.get? p := by
    refine same.files p ?_
    rw [place_dropLast placed]
    exact folder_apart s
  have folder : t.disk.isFolder p = s.disk.isFolder p := by
    rw [Disk.isFolder, Disk.isFolder, same.folders]
  constructor
  · rw [Disk.holds, Disk.holds, Dict.contains, Dict.contains, file, folder]
  · rw [Disk.load?, Disk.load?, file]

theorem readRecord_eq_ok {c : Collection} {p : Place} {es : Field.Entries}
    (read : (readRecord c p).run s = (.ok (some es), t)) :
    ∃ print, s.disk.load? p = .ok (some (.map es)) ∧ (Value.field "id" es).isTruthy = true ∧
      Record.fingerprintOf (.map es) = .ok print := by
  simp only [readRecord, Action.run_bind, Action.run_state] at read
  cases loaded : s.disk.load? p with
  | error cause =>
    rw [loaded] at read
    cases read
  | ok v =>
    simp only [loaded, Action.run_ofExcept_ok] at read
    split at read
    · rename_i fs
      split at read
      · rename_i given
        cases printed : Record.fingerprintOf (.map fs) with
        | error cause =>
          rw [printed] at read
          cases read
        | ok print =>
          rw [printed] at read
          cases read
          exact ⟨print, rfl, given, printed⟩
      · cases read
    · cases read

theorem readRecord_run {c : Collection} {p : Place} {es : Field.Entries} {print : Value}
    (loaded : s.disk.load? p = .ok (some (.map es)))
    (given : (Value.field "id" es).isTruthy = true)
    (printed : Record.fingerprintOf (.map es) = .ok print) :
    (readRecord c p).run s = (.ok (some es),
      { s with known := s.known.insert (c, (Value.field "id" es).text) print }) := by
  simp only [readRecord, Action.run_bind, Action.run_state, loaded, Action.run_ofExcept_ok, given,
    if_true, printed, Action.run_pure]
  rfl

theorem get_ruleset_again (same : SameElse s t) {id : String} {es : Field.Entries} {u : Store}
    (got : (get .rulesets id).run s = (.ok (some es), u)) :
    ∃ key print, (get .rulesets id).run t =
      (.ok (some es), { t with known := t.known.insert (.rulesets, key) print }) := by
  simp only [get, Action.run_bind, Action.run_state] at got ⊢
  cases placed : s.place .rulesets id with
  | error cause =>
    rw [placed] at got
    cases got
  | ok p =>
    obtain ⟨holds, load⟩ := same.ruleset_file placed
    simp only [same.place, placed, Action.run_ofExcept_ok, holds] at got ⊢
    cases there : s.disk.holds p with
    | error cause =>
      rw [there] at got
      cases got
    | ok b =>
      simp only [there, Action.run_ofExcept_ok] at got ⊢
      cases b with
      | false => cases got
      | true =>
        obtain ⟨print, loaded, given, printed⟩ := readRecord_eq_ok got
        exact ⟨_, print, readRecord_run (by rw [load, loaded]) given printed⟩

theorem getRuleset_run {id : String} {p : Place} {es : Field.Entries}
    (placed : s.place .rulesets id = .ok p) (short : Disk.isLong p = false)
    (file : s.disk.files.get? p = some (.document (.map es))) (proper : Json.Proper (.map es))
    (given : (Value.field "id" es).isTruthy = true) :
    ∃ u, (getRuleset id).run s = (rulesetOf s.supply.now es, u) := by
  have there : s.disk.holds p = .ok true := by
    simp [Disk.holds, short, Dict.contains, file]
  have loaded : s.disk.load? p = .ok (some (.map es)) := by
    simp only [Disk.load?, file, Content.load?, proper.back]
  obtain ⟨print, printed⟩ := proper.fingerprinted
  let after := { s with
    known := s.known.insert (.rulesets, (Value.field "id" es).text) print }.ticked
  refine ⟨after, ?_⟩
  simp only [getRuleset, get, Action.run_bind, Action.run_state, placed, Action.run_ofExcept_ok,
    there, if_true, readRecord_run loaded given printed, run_now]
  rcases rulesetOf s.supply.now es with f | r <;> rfl

theorem getRuleset_of_file {id : String} {p : Place} {es : Field.Entries} {r : Ruleset}
    (placed : s.place .rulesets id = .ok p) (short : Disk.isLong p = false)
    (file : s.disk.files.get? p = some (.document (.map es))) (proper : Json.Proper (.map es))
    (given : (Value.field "id" es).isTruthy = true)
    (read : rulesetOf s.supply.now es = .ok (some r)) :
    ∃ u, (getRuleset id).run s = (.ok (some r), u) :=
  read ▸ getRuleset_run placed short file proper given

theorem getRuleset_again (same : SameElse s t) {id : String} {r : Ruleset} {u : Store}
    (served : (getRuleset id).run s = (.ok (some r), u)) :
    ∃ imported key print, (getRuleset id).run t = (.ok (some (r.importedOn imported)),
      { t with known := t.known.insert (.rulesets, key) print }.ticked) := by
  simp only [getRuleset, Action.run_bind] at served ⊢
  rcases got : (get .rulesets id).run s with ⟨_ | _ | es, v⟩
  · rw [got] at served
    cases served
  · rw [got] at served
    cases served
  · obtain ⟨key, print, again⟩ := get_ruleset_again same got
    simp only [got, again, Action.run_bind, run_now] at served ⊢
    cases read : rulesetOf v.supply.now es with
    | error f =>
      rw [read] at served
      cases served
    | ok found =>
      rw [read] at served
      cases served
      obtain ⟨imported, later⟩ := rulesetOf_again t.supply.now read
      exact ⟨imported, key, print, by rw [later]; rfl⟩

end Store

end Tabletop
