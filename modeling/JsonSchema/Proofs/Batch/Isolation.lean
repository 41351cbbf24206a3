import JsonSchema.Batch.Validation
import JsonSchema.Proofs.Document.Session
import JsonSchema.Proofs.Evaluation.Shown

/-!
# Files of a batch by themselves

A loader that is shared by the files of a batch gives for each file what reading it gives. So the
report of a file says nothing about the other files, and only a file that stops the run is seen by
those behind it.
-/

namespace JsonSchema

/-! ## Loaders that are up to date -/

namespace DocumentLoader

variable {loader : DocumentLoader} {tree : FileTree} {path : FilePath}

/-- What is kept with its map is what the file holds. -/
def Current (loader : DocumentLoader) (tree : FileTree) : Prop :=
  ∀ path document map, loader.documents.lookup path = some document →
    loader.maps.lookup path = some map → readLocated tree path = .ok ⟨document, map⟩

theorem current_empty (cacheEnabled : Bool) (tree : FileTree) : (empty cacheEnabled).Current tree :=
  nofun

theorem Current.result (h : loader.Current tree) :
    (loader.loadLocated tree path).result = readLocated tree path := by
  unfold loadLocated
  split
  case h_1 document map hdocument hmap => exact (h path document map hdocument hmap).symm
  case h_2 => cases readLocated tree path <;> rfl

theorem Current.loadLocated (h : loader.Current tree) (path : FilePath) :
    (loader.loadLocated tree path).loader.Current tree := by
  have houtcome := loadLocated_outcome loader tree path
  intro other document map hdocument hmap
  by_cases hother : other = path
  · subst hother
    rcases houtcome.source with hsame | ⟨located, text, htext, hlocated, hkept, hkeptMap⟩
    · rw [hsame] at hdocument hmap
      exact h other document map hdocument hmap
    · obtain rfl := Option.some.inj (hkept.symm.trans hdocument)
      obtain rfl := Option.some.inj (hkeptMap.symm.trans hmap)
      exact readLocated_eq_ok.mpr ⟨text, htext, hlocated⟩
  · obtain ⟨hdocuments, hmaps⟩ := houtcome.elsewhere hother
    exact h other document map (hdocuments.symm.trans hdocument) (hmaps.symm.trans hmap)

end DocumentLoader

/-! ## One file -/

namespace Batch

open DocumentLoader (readLocated)

variable {batch : Batch} {path : FilePath} {fault : RunFault} {report : Report}

def alone (batch : Batch) (path : FilePath) : Except RunFault Report :=
  (FileOutcome.ofDocument batch.schema batch.options (readLocated batch.tree path)).map
    (batch.report path)

def Usable (batch : Batch) (path : FilePath) : Prop :=
  ∃ located violations, readLocated batch.tree path = .ok located ∧
    batch.schema.validateShown batch.options located.document = .ok violations

/-- Why a file leaves no report and stops the run. -/
inductive Stops (batch : Batch) (path : FilePath) : RunFault → Prop where
  /-- A YAML scalar, or a number in a directive, does not fit what it is to be. -/
  | scalar {fault : ScalarFault}
      (h : readLocated batch.tree path = .error (.parse (.yaml (.scalar fault)))) :
      Stops batch path (.load (.parse (.yaml (.scalar fault))))
  /-- The evaluation meets an expression at fault beyond its syntax, or an integer without a text. -/
  | evaluation {located : LocatedDocument} {there : Visit} {fault : EvaluationFault}
      (hread : readLocated batch.tree path = .ok located)
      (hreach : batch.schema.Reaches (.root located.document) there)
      (hescapes : batch.schema.Escapes batch.options there fault)
      (h : batch.schema.validateShown batch.options located.document = .error fault) :
      Stops batch path (.evaluate fault)

theorem Stops.alone (h : batch.Stops path fault) : batch.alone path = .error fault := by
  cases h with
  | scalar h =>
    rw [Batch.alone, h]
    rfl
  | evaluation hread _ hescapes h =>
    rw [Batch.alone, hread]
    simp only [FileOutcome.ofDocument, h, hescapes.isOfDepth, Bool.false_eq_true, if_false]
    rfl

theorem stops_of_unread {fault : LoadFault} (h : readLocated batch.tree path = .error fault)
    (hinput : fault.isOfInput = false) : batch.Stops path (.load fault) := by
  match fault with
  | .parse (.yaml (.scalar _)) => exact .scalar h
  | .parse (.yaml (.malformed ..)) | .parse (.yaml (.notJson ..)) | .parse (.json ..)
  | .parse (.encoding _) | .notFound _ | .notAFile _ | .notText _ => cases hinput

theorem stops_or_reports (batch : Batch) (path : FilePath) : (∃ fault, batch.Stops path fault) ∨
    ∃ outcome, batch.alone path = .ok (batch.report path outcome) ∧
      (¬ batch.Usable path → ∃ message, outcome = .unreadable message) := by
  unfold alone
  cases hread : readLocated batch.tree path with
  | error fault =>
    cases hinput : fault.isOfInput with
    | false => exact .inl ⟨_, stops_of_unread hread hinput⟩
    | true =>
      simp only [FileOutcome.ofDocument, hinput, if_true]
      exact .inr ⟨_, rfl, fun _ => ⟨_, rfl⟩⟩
  | ok located =>
    cases hvalidate : batch.schema.validateShown batch.options located.document with
    | ok violations =>
      simp only [FileOutcome.ofDocument, hvalidate]
      exact .inr ⟨_, rfl, fun hunusable => (hunusable ⟨located, violations, hread, hvalidate⟩).elim⟩
    | error fault =>
      rcases CompiledSchema.tooDeep_or_escapes hvalidate with ⟨pointer, rfl⟩ | ⟨there, hreach, hescapes⟩
      · simp only [FileOutcome.ofDocument, hvalidate, EvaluationFault.isOfDepth, if_true]
        exact .inr ⟨_, rfl, fun _ => ⟨_, rfl⟩⟩
      · exact .inl ⟨_, .evaluation hread hreach hescapes hvalidate⟩

/-! ## Many files -/

variable {loader : DocumentLoader}

/-- A run with a loader that is up to date takes the files one by one, up to one that stops it. -/
theorem run_eq (h : loader.Current batch.tree) (paths : List FilePath) :
    (batch.run loader paths).map (·.1) = paths.mapM batch.alone := by
  induction paths generalizing loader with
  | nil => rfl
  | cons path rest ih =>
    have hrest := ih (h.loadLocated path)
    rw [List.mapM_cons, ← hrest, alone]
    simp only [run, h.result]
    cases FileOutcome.ofDocument batch.schema batch.options (readLocated batch.tree path) with
    | error fault => rfl
    | ok outcome => cases batch.run (loader.loadLocated batch.tree path).loader rest <;> rfl

theorem mapM_cases {ε α β : Type} (f : α → Except ε β) (as : List α) :
    (∃ bs, as.mapM f = .ok bs ∧ List.Forall₂ (fun a b => f a = .ok b) as bs) ∨
      ∃ before a after e, as = before ++ a :: after ∧ (∀ b ∈ before, ∃ c, f b = .ok c) ∧
        f a = .error e ∧ as.mapM f = .error e := by
  induction as with
  | nil => exact .inl ⟨[], rfl, .nil⟩
  | cons a rest ih =>
    rw [List.mapM_cons]
    cases ha : f a with
    | error e => exact .inr ⟨[], a, rest, e, rfl, nofun, ha, rfl⟩
    | ok b =>
      rcases ih with ⟨bs, hbs, hall⟩ | ⟨before, stop, after, e, rfl, hbefore, hstop, he⟩
      · exact .inl ⟨b :: bs, by rw [hbs]; rfl, .cons ha hall⟩
      · refine .inr ⟨a :: before, stop, after, e, rfl, ?_, hstop, by rw [he]; rfl⟩
        exact List.forall_mem_cons.mpr ⟨⟨b, ha⟩, hbefore⟩

theorem run_single (batch : Batch) (cacheEnabled : Bool) (h : batch.alone path = .ok report) :
    ∃ own, batch.run (.empty cacheEnabled) [path] = .ok ([report], own) := by
  have hrun := run_eq (DocumentLoader.current_empty cacheEnabled batch.tree) [path]
  simp only [List.mapM_cons, List.mapM_nil, h] at hrun
  obtain ⟨⟨reports, own⟩, hok, hreports⟩ := Except.map_eq_ok.mp hrun
  exact ⟨own, by rw [hok, show reports = [report] from hreports]⟩

/--
A loader that is shared by the files of a batch, and holds of a file what the file holds itself,
leaves one report for each of them, in their order. It is the report that a fresh loader leaves for
the file alone; and a file that cannot be read, parsed or evaluated has one violation in it, of the
keyword `load` at the root. There is one exception: a file with a scalar that does not fit its tag,
or with a string or an integer that the evaluation fails on, stops the run, and nothing is reported.
-/
theorem files_reported_apart (batch : Batch) (cacheEnabled : Bool) (loader : DocumentLoader)
    (paths : List FilePath) (hloader : loader.Current batch.tree) :
    ((∀ path ∈ paths, ∀ fault, ¬ batch.Stops path fault) ∧
      ∃ reports loader', batch.run loader paths = .ok (reports, loader') ∧
        List.Forall₂ (fun path report =>
          (∃ own, batch.run (.empty cacheEnabled) [path] = .ok ([report], own)) ∧
            report.dataPath = path ∧
            (¬ batch.Usable path →
              ∃ message, report.violations = [⟨[], "load", message, ""⟩])) paths reports) ∨
      ∃ before path after fault, paths = before ++ path :: after ∧
        (∀ earlier ∈ before, ∀ fault, ¬ batch.Stops earlier fault) ∧ batch.Stops path fault ∧
          batch.run loader paths = .error fault := by
  have hgoes : ∀ {path report}, batch.alone path = .ok report → ∀ fault, ¬ batch.Stops path fault :=
    fun hok fault hstops => nomatch hok.symm.trans hstops.alone
  have hrun := run_eq hloader paths
  rcases mapM_cases batch.alone paths with ⟨reports, hreports, hall⟩ |
    ⟨before, path, after, fault, rfl, hbefore, hpath, hfault⟩
  · rw [hreports] at hrun
    obtain ⟨⟨_, loader'⟩, hok, rfl⟩ := Except.map_eq_ok.mp hrun
    refine .inl ⟨fun path hpath => ?_, _, loader', hok, hall.imp fun path report hreport => ?_⟩
    · obtain ⟨i, hi, rfl⟩ := List.getElem_of_mem hpath
      exact hgoes (hall.get hi (hall.length_eq ▸ hi))
    · refine ⟨run_single batch cacheEnabled hreport, ?_⟩
      rcases stops_or_reports batch path with ⟨fault, hstops⟩ | ⟨outcome, houtcome, hunusable⟩
      · exact (hgoes hreport fault hstops).elim
      · obtain rfl := Except.ok.inj (houtcome.symm.trans hreport)
        refine ⟨rfl, fun hpath => ?_⟩
        obtain ⟨message, rfl⟩ := hunusable hpath
        exact ⟨message, rfl⟩
  · rw [hfault] at hrun
    refine .inr ⟨before, path, after, fault, rfl, fun earlier hearlier => ?_, ?_, ?_⟩
    · obtain ⟨report, hreport⟩ := hbefore earlier hearlier
      exact hgoes hreport
    · rcases stops_or_reports batch path with ⟨fault', hstops⟩ | ⟨outcome, houtcome, -⟩
      · cases hstops.alone.symm.trans hpath
        exact hstops
      · cases houtcome.symm.trans hpath
    · exact Except.map_eq_error.mp hrun

def digitBatch : Batch where
  tree := LoaderSession.digitTree 49
  schema := {
    nodes := #[{ id := 0, location := "#", value := { types := some [.string] } }]
    draft := .draft2020
    locations := #["#"]
    warnings := [] }
  schemaPath := ⟨.root, ["s"]⟩
  options := ⟨10, false⟩

def missingPath : FilePath := ⟨.root, ["m"]⟩

/-- The missing file changes nothing for the other one. -/
theorem digit_beside_missing : ∃ first second loader,
    digitBatch.run (.empty true) [LoaderSession.digitPath, missingPath] =
      .ok ([first, second], loader) ∧
    first.violations = [⟨[], "type", "1 is not of type string (got integer)", "#/type"⟩] ∧
    ∃ message, second.violations = [⟨[], "load", message, ""⟩] := by
  have hdigit : digitBatch.alone LoaderSession.digitPath =
      .ok (digitBatch.report LoaderSession.digitPath
        ⟨[⟨[], "type", "1 is not of type string (got integer)", "#/type"⟩],
          LoaderSession.digitMap⟩) := by
    rw [alone, show readLocated digitBatch.tree _ = _ from LoaderSession.readLocated_one]
    cbv
  have hread : readLocated digitBatch.tree missingPath = .error (.notFound missingPath) := by
    cbv
  have hmissing : digitBatch.alone missingPath =
      .ok (digitBatch.report missingPath (.unreadable (LoadFault.notFound missingPath).message)) := by
    rw [alone, hread]
    rfl
  rcases files_reported_apart digitBatch true (.empty true) [LoaderSession.digitPath, missingPath]
    (DocumentLoader.current_empty true _) with
    ⟨-, reports, loader, hrun, hall⟩ | ⟨before, path, after, fault, hpaths, -, hstops, -⟩
  · obtain _ | ⟨⟨⟨own, hfirst⟩, -, -⟩, _ | ⟨⟨-, -, hsecond⟩, _ | _⟩⟩ := hall
    refine ⟨_, _, loader, hrun, ?_, hsecond ?_⟩
    · obtain ⟨own', hsame⟩ := run_single digitBatch true hdigit
      cases hfirst.symm.trans hsame
      rfl
    · rintro ⟨located, violations, hok, -⟩
      cases hread.symm.trans hok
  · have hpath : path ∈ [LoaderSession.digitPath, missingPath] := by simp [hpaths]
    rcases List.mem_pair.mp hpath with rfl | rfl
    · cases hstops.alone.symm.trans hdigit
    · cases hstops.alone.symm.trans hmissing

end Batch

end JsonSchema
