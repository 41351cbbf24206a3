import JsonSchema.Proofs.Evaluation.Annotations
import JsonSchema.Proofs.Schema.Inert
import JsonSchema.Proofs.Schema.Redraft

/-!
# Drafts differ only where they should

A document whose schema objects are all timeless is compiled alike whatever supported draft it
declares, and if it declares none.
-/

namespace JsonSchema

/-- The two compiled schemas differ in the draft, and in how the root declares it, at most. -/
structure CompiledSchema.Redrafted (schema other : CompiledSchema) : Prop where
  nodes : ∀ id ≠ rootId, other.node? id = schema.node? id
  root : (other.node? rootId).map SchemaNode.undeclared =
    (schema.node? rootId).map SchemaNode.undeclared
  locations : other.locations = schema.locations
  warnings : other.warnings = schema.warnings

theorem CompiledSchema.Redrafted.sameNodes {schema other : CompiledSchema}
    (h : schema.Redrafted other) : schema.SameNodes other := by
  intro id
  by_cases hid : id = rootId
  · have hbare : SchemaNode.bare = SchemaNode.bare ∘ SchemaNode.undeclared := rfl
    rw [hid, hbare, ← Option.map_map, ← Option.map_map, h.root]
  · rw [h.nodes id hid]

/-! ## The end of a compilation -/

namespace Compilation

variable {options : CompileOptions} {members members' : Members Json} {c c' : Compilation}
  {root root' : Json}

theorem Redrafted.freeze (h : c.Redrafted members members' c') (hc : Finished options root c)
    (hc' : Finished options root' c') : c.freeze.Redrafted c'.freeze where
  nodes id hid := by rw [hc.node?_freeze, hc'.node?_freeze, h.nodes id hid, h.targets]
  root := by
    have hinside (found : Option (Option SchemaNode)) :
        (found.join.map fun node => { node with refTarget := c.targets.lookup node.id }).map
            SchemaNode.undeclared =
          (found.map (Option.map SchemaNode.undeclared)).join.map fun node =>
            { node with refTarget := c.targets.lookup node.id } := by
      rcases found with _ | _ | node <;> rfl
    rw [hc.node?_freeze, hc'.node?_freeze, h.targets, hinside, hinside, h.root]
  locations := h.locations
  warnings := h.warnings

end Compilation

namespace CompileM

open Compilation

variable {options : CompileOptions} {members members' : Members Json} {root : Json}
  {c c' d : Compilation} {o : Except CompileFault Unit}

/-! ## The limit on references -/

theorem resolvePending_more {fuel : Nat} (more : Nat)
    (hrun : Runs (resolvePending options fuel) c o d) (hdone : o = .ok ⟨⟩ → d.pending = []) :
    Runs (resolvePending options (fuel + more)) c o d := by
  induction fuel generalizing c with
  | zero =>
    obtain ⟨rfl, rfl⟩ := runs_pure.mp hrun
    exact resolvePending_idle _ _ (hdone rfl)
  | succ fuel ih =>
    rw [Nat.succ_add]
    replace hrun := runs_get_bind.mp hrun
    refine runs_get_bind.mpr ?_
    split at hrun
    case h_1 => exact hrun
    case h_2 =>
      rcases runs_bind.mp hrun with ⟨e, rfl, hfirst⟩ | ⟨a, c₁, hfirst, hrun⟩
      · exact runs_bind.mpr (.inl ⟨e, rfl, hfirst⟩)
      · exact runs_bind.mpr (.inr ⟨a, c₁, hfirst, ih hrun⟩)

/-- After the walk over the document the limit is never what ends the loop. -/
theorem resolvePending_enough (hfirst : Runs (compileFirst options root) {} (.ok ⟨⟩) c)
    (hrun : Runs (resolvePending options (refLimit options root)) c o d) :
    (∀ more, Runs (resolvePending options (refLimit options root + more)) c o d) ∧
      (o = .ok ⟨⟩ → Finished options root d) := by
  obtain ⟨added, left, hends⟩ := resolvePending_ends (.first hfirst) (by simp) hrun
  have hfinished : o = .ok ⟨⟩ → Finished options root d := by
    rintro rfl
    cases hends with
    | drained h hpending => exact h.progress.finished hpending
  exact ⟨fun more => resolvePending_more more hrun fun ho => (hfinished ho).pending, hfinished⟩

/-! ## The walk over the document -/

def entering (members : Members Json) (declared : String) : Compilation :=
  let declaration := DraftDeclaration.ofJson? (members.get? "$schema")
  { documents :=
      [("", ⟨"", .obj members, documentBase "" declared, declaration⟩)]
    aliases := ownAliases "" declared
    log := [compilerRecord LogLevel.debug declaration.message] }

theorem result_addDocument (options : CompileOptions)
    (h : (DraftDeclaration.ofJson? (members.get? "$schema")).isSupported = true) :
    result (addDocument options "" (.obj members)) {} =
      match declaredBase "" (.obj members) with
      | .error fault => (.error (.uri fault), {})
      | .ok declared => (.ok ⟨⟩, entering members declared) := by
  unfold addDocument checkDraft
  cases declaredBase "" (.obj members) with
  | error fault => rfl
  | ok declared =>
    have hraw : (Json.obj members).member? "$schema" = members.get? "$schema" := rfl
    dsimp only
    rw [hraw, if_pos h, entering, ← List.append_nil (ownAliases "" declared)]
    rfl

theorem declaredBase_redeclared (h : members.Redeclared members') :
    declaredBase "" (.obj members') = declaredBase "" (.obj members) := by
  have hid : (Json.obj members').member? "$id" = (Json.obj members).member? "$id" :=
    Members.get?_of_undeclared h.undeclared (by decide)
  rw [declaredBase, declaredBase, hid]

theorem entering_redrafted (members members' : Members Json) (declared : String) :
    ((entering members declared).reserved (locationOf "" "")).Redrafted members members'
      ((entering members' declared).reserved (locationOf "" "")) where
  started := by simp [reserved]
  content := rfl
  content' := rfl
  base := rfl
  documents key hkey := by simp [entering, reserved, Members.get?_cons, hkey]
  size := rfl
  nodes _ _ := rfl
  root := rfl
  aliases := rfl
  locations := rfl
  anchors := rfl
  pending := rfl
  targets := rfl
  warnings := rfl

theorem result_get_bind {α : Type} (f : Compilation → CompileM α) (c : Compilation) :
    result (get >>= f) c = result (f c) c := rfl

/-- The walk over the document once its root has an index; children have `budget` levels left. -/
def walkDocument (options : CompileOptions) (budget : Nat) (members : Members Json) :
    CompileM NodeId := do
  let site : Site := ⟨"", "", DraftDeclaration.ofJson? (members.get? "$schema")⟩
  place (← compileObjectSchema options (visitChild options budget) site rootId members)
  return rootId

theorem result_compileRoot (options : CompileOptions) (members : Members Json) (declared : String) :
    result (compileRoot options "") (entering members declared) =
      match budgetOf options.maxDepth with
      | 0 => (.error (.tooDeep options.maxDepth (locationOf "" "")), entering members declared)
      | budget + 1 => result (walkDocument options budget members)
          ((entering members declared).reserved (locationOf "" "")) := by
  have hnone : (entering members declared).nodeAt? (locationOf "" "") = none :=
    Array.idxOf?_eq_none_iff.mpr (by simp [entering])
  have hvisit (children : Option CompileChild) (owner : Owner) :
      result (visit options children owner "" "" (.obj members)) (entering members declared) =
        result (compileNew options children owner
          ⟨"", "", DraftDeclaration.ofJson? (members.get? "$schema")⟩ (.obj members))
          (entering members declared) := by
    unfold visit
    rw [result_get_bind, hnone]
    rfl
  unfold compileRoot
  rw [result_get_bind, hnone]
  show result (compileEntry options "" "" (.obj members)) (entering members declared) = _
  unfold compileEntry
  cases budgetOf options.maxDepth with
  | zero => exact hvisit ..
  | succ budget => exact hvisit ..

theorem placed_root (members : Members Json) : Follows.Placed members "" "" (.obj members) :=
  fun _ => ⟨[], rfl, .root⟩

theorem walkDocument_keeps (options : CompileOptions) (budget : Nat) (members : Members Json) :
    Keeps (walkDocument options budget members) := by
  have hvisits : Follows.Visits members members (visitChild options budget) :=
    Follows.visitChild options budget
  exact (Follows.placeObject (hvisits _ _ _ (placed_root members)) rfl (.inl rfl) (.inl rfl)).keeps

theorem walkDocument_follows (h : members.Redeclared members')
    (htimeless : Members.Timeless members) (options : CompileOptions) (budget : Nat) :
    Follows members members' (walkDocument options budget members)
      (walkDocument options budget members') := by
  have hvisits : Follows.Visits members members' (visitChild options budget) :=
    Follows.visitChild options budget
  exact Follows.placeObject (hvisits _ _ _ (placed_root members)) h.undeclared (.inr htimeless)
    (.inr rfl)

theorem compileFirst_redrafted (h : members.Redeclared members')
    (hrun : Runs (compileFirst options (.obj members)) {} o d)
    (htimeless : d.Timeless (.obj members)) :
    ∃ d', Runs (compileFirst options (.obj members')) {} o d' ∧
      (o = .ok ⟨⟩ → d.Redrafted members members' d') := by
  unfold compileFirst Runs at *
  rw [result_bind, result_addDocument options h.supported] at hrun
  rw [result_bind, result_addDocument options h.supported', declaredBase_redeclared h]
  cases hdeclared : declaredBase "" (.obj members) with
  | error fault =>
    rw [hdeclared] at hrun
    cases hrun
    exact ⟨{}, rfl, nofun⟩
  | ok declared =>
    rw [hdeclared] at hrun
    dsimp only at hrun ⊢
    rw [result_bind, result_compileRoot] at hrun ⊢
    cases hbudget : budgetOf options.maxDepth with
    | zero =>
      rw [hbudget] at hrun
      cases hrun
      exact ⟨entering members' declared, rfl, nofun⟩
    | succ budget =>
      rw [hbudget] at hrun
      dsimp only at hrun ⊢
      rw [← result_bind] at hrun ⊢
      have hkeeps :=
        (walkDocument_keeps options budget members).bind fun _ => (Growing.pure ()).keeps
      have hroot : locationOf "" "" ∈ d.locations.toList :=
        (hkeeps _ _ _ hrun).subset (by simp [reserved])
      have hfollows := walkDocument_follows h (htimeless members ⟨[], .root, hroot⟩) options budget
      obtain ⟨d', hrun', hd⟩ := (hfollows.bind fun _ => .pure ()).follows
        (entering_redrafted members members' declared) hrun htimeless
      exact ⟨d', hrun', fun _ => hd⟩

/-! ## The whole compilation -/

theorem resolvePending_redrafted (h : members.Redeclared members')
    (hfirst : Runs (compileFirst options (.obj members)) {} (.ok ⟨⟩) c)
    (hfirst' : Runs (compileFirst options (.obj members')) {} (.ok ⟨⟩) c')
    (hc : c.Redrafted members members' c')
    (hrun : Runs (resolvePending options (refLimit options (.obj members))) c o d)
    (htimeless : d.Timeless (.obj members)) :
    ∃ d', Runs (resolvePending options (refLimit options (.obj members'))) c' o d' ∧
      (o = .ok ⟨⟩ → d.freeze.Redrafted d'.freeze) := by
  obtain ⟨hmore, hfinished⟩ := resolvePending_enough hfirst hrun
  obtain ⟨d', hrun', hd⟩ := (Follows.resolvePending h options _).follows hc
    (hmore (refLimit options (.obj members'))) htimeless
  cases hown : result (resolvePending options (refLimit options (.obj members'))) c' with
  | mk o₂ d₂ =>
    obtain ⟨hmore', hfinished'⟩ := resolvePending_enough hfirst' hown
    have hsame := hmore' (refLimit options (.obj members))
    rw [Nat.add_comm] at hsame
    obtain ⟨rfl, rfl⟩ := Prod.mk.inj (hrun'.symm.trans hsame)
    exact ⟨d', hown, fun ho => hd.freeze (hfinished ho) (hfinished' ho)⟩

def conclude : CompileM CompiledSchema := do
  let c ← get
  let compiled := c.freeze
  record LogLevel.debug
    ("Compiled schema: " ++ natText compiled.nodes.size ++ " nodes, draft " ++
      compiled.draft.name ++ ", " ++ natText c.targets.length ++ " references")
  return compiled

theorem compileDocument_stages (options : CompileOptions) (root : Json) :
    compileDocument options root = (do
      compileFirst options root
      resolvePending options (refLimit options root)
      conclude) :=
  compileDocument_eq options root

theorem conclude_keeps : Keeps conclude :=
  (Growing.get fun _ => (Growing.record ..).bind fun _ => .pure _).keeps

theorem conclude_ok (c : Compilation) : ∃ d, Runs conclude c (.ok c.freeze) d := ⟨_, rfl⟩

theorem compileDocument_redrafted (h : members.Redeclared members')
    {outcome : Except CompileFault CompiledSchema}
    (hrun : Runs (compileDocument options (.obj members)) {} outcome d)
    (htimeless : d.Timeless (.obj members)) :
    ∃ outcome' d', Runs (compileDocument options (.obj members')) {} outcome' d' ∧
      ((∃ e, outcome = .error e ∧ outcome' = .error e) ∨
        ∃ schema other, outcome = .ok schema ∧ outcome' = .ok other ∧ schema.Redrafted other) := by
  rw [compileDocument_stages] at hrun ⊢
  rcases runs_bind.mp hrun with ⟨e, rfl, hfirst⟩ | ⟨_, c₁, hfirst, hrun⟩
  · obtain ⟨d', hfirst', -⟩ := compileFirst_redrafted h hfirst htimeless
    exact ⟨_, d', runs_bind.mpr (.inl ⟨e, rfl, hfirst'⟩), .inl ⟨e, rfl, rfl⟩⟩
  have hresolves := (Follows.resolvePending h options (refLimit options (.obj members))).keeps
  have hkeeps := hresolves.bind fun _ => conclude_keeps
  obtain ⟨c₁', hfirst', hc₁⟩ :=
    compileFirst_redrafted h hfirst (htimeless.earlier (hkeeps _ _ _ hrun))
  rcases runs_bind.mp hrun with ⟨e, rfl, hresolve⟩ | ⟨_, c₂, hresolve, hrun⟩
  · obtain ⟨d', hresolve', -⟩ :=
      resolvePending_redrafted h hfirst hfirst' (hc₁ rfl) hresolve htimeless
    refine ⟨_, d', runs_bind.mpr (.inr ⟨_, c₁', hfirst', ?_⟩), .inl ⟨e, rfl, rfl⟩⟩
    exact runs_bind.mpr (.inl ⟨e, rfl, hresolve'⟩)
  · obtain ⟨c₂', hresolve', hc₂⟩ := resolvePending_redrafted h hfirst hfirst' (hc₁ rfl) hresolve
      (htimeless.earlier (conclude_keeps _ _ _ hrun))
    obtain ⟨d₁, hfrozen⟩ := conclude_ok c₂
    obtain ⟨d', hfrozen'⟩ := conclude_ok c₂'
    obtain ⟨rfl, rfl⟩ := Prod.mk.inj (hfrozen.symm.trans hrun)
    refine ⟨_, d', runs_bind.mpr (.inr ⟨_, c₁', hfirst', ?_⟩), .inr ⟨_, _, rfl, rfl, hc₂ rfl⟩⟩
    exact runs_bind.mpr (.inr ⟨_, c₂', hresolve', hfrozen'⟩)

end CompileM

/--
Drafts differ only where they should. Where every schema object of a document that gets a node is
timeless, the document is compiled with the same outcome whatever supported draft it declares, and
if it declares none: with the same fault, or to schemas that differ in the recorded draft and the
root's declaration of it at most. Every instance has the same violations.
-/
theorem timeless_drafts_agree (options : CompileOptions) (members members' : Members Json)
    (h : members.Redeclared members')
    (htimeless : (CompileM.result (compileDocument options (.obj members)) {}).2.Timeless
      (.obj members)) :
    (∃ e, (runCompile options (.obj members)).result = .error e ∧
      (runCompile options (.obj members')).result = .error e) ∨
    ∃ schema other, (runCompile options (.obj members)).result = .ok schema ∧
      (runCompile options (.obj members')).result = .ok other ∧ schema.Redrafted other ∧
        ∀ evaluation value, other.validateShown evaluation value =
          schema.validateShown evaluation value := by
  obtain ⟨outcome', d', hrun, houtcomes⟩ := CompileM.compileDocument_redrafted h rfl htimeless
  have hresult : (runCompile options (.obj members')).result = outcome' := congrArg Prod.fst hrun
  rcases houtcomes with ⟨e, he, he'⟩ | ⟨schema, other, hschema, hother, hredrafted⟩
  · exact .inl ⟨e, he, hresult.trans he'⟩
  · exact .inr ⟨schema, other, hschema, hresult.trans hother, hredrafted,
      hredrafted.sameNodes.validateShown⟩

def pairs : CompileOptions where
  maxDepth := 10
  strict := true
  registry := [("http://x/pair", .obj [("$schema", .str "http://json-schema.org/draft-07/schema#"),
    ("items", .arr [.bool true, .bool true]), ("additionalItems", .bool false)])]

def pairList : Members Json :=
  [("items", .obj [("$ref", .str "http://x/pair")]), ("exclusiveMinimum", .num (.int 3))]

def oldPairList : Members Json :=
  ("$schema", .str "http://json-schema.org/draft-04/schema#") :: pairList

def tripleList : Json := .arr [.arr [.null, .null, .null]]

/-- The older draft is recorded, and a list with a triple has the one violation without it too. -/
theorem pairList_drafts_agree : ∃ schema other,
    (runCompile pairs (.obj oldPairList)).result = .ok schema ∧
      (runCompile pairs (.obj pairList)).result = .ok other ∧ schema.Redrafted other ∧
        schema.draft = .draft4 ∧ other.draft = .draft2020 ∧
          (other.validateShown ⟨10, false⟩ tripleList).toOption.map (·.length) = some 1 := by
  -- The objects of the document are its root and the reference in it.
  have hobjects : ∀ {tokens value}, (Json.obj oldPairList).At tokens value →
      value = .obj oldPairList ∨ value = .obj [("$ref", .str "http://x/pair")] ∨
        (∀ members, value ≠ .obj members) ∧ ∀ items, value ≠ .arr items := by
    intro tokens value hat
    induction hat with
    | root => exact .inl rfl
    | member _ hvalue ih =>
      rcases ih with heq | heq | ⟨hnone, -⟩
      · cases heq
        simp only [oldPairList, pairList, List.mem_cons, Prod.mk.injEq, List.not_mem_nil] at hvalue
        rcases hvalue with ⟨-, rfl⟩ | ⟨-, rfl⟩ | ⟨-, rfl⟩ | hnone <;> simp_all
      · cases heq
        simp only [List.mem_singleton, Prod.mk.injEq] at hvalue
        simp [hvalue.2]
      · exact absurd rfl (hnone _)
    | item _ _ _ ih =>
      rcases ih with heq | heq | ⟨-, hnone⟩
      · cases heq
      · cases heq
      · exact absurd rfl (hnone _)
  have htimeless : ∀ c : Compilation, c.Timeless (.obj oldPairList) := by
    rintro c schema ⟨tokens, hat, -⟩
    rcases hobjects hat with heq | heq | ⟨hnone, -⟩
    · cases heq
      constructor <;> simp [oldPairList, pairList, Members.get?, List.lookup_cons]
    · cases heq
      constructor <;> simp [Members.get?, List.lookup_cons]
    · exact absurd rfl (hnone _)
  have hredeclared : oldPairList.Redeclared pairList :=
    ⟨rfl, by decide +kernel, by decide +kernel⟩
  have hold : (runCompile pairs (.obj oldPairList)).result.toOption.map (fun schema =>
      (schema.draft, (schema.validateShown ⟨10, false⟩ tripleList).toOption.map (·.length))) =
        some (.draft4, some 1) := by
    decide +kernel
  have hnew : (runCompile pairs (.obj pairList)).result.toOption.map (·.draft) =
      some .draft2020 := by
    decide +kernel
  rcases timeless_drafts_agree pairs oldPairList pairList hredeclared (htimeless _) with
    ⟨e, herror, -⟩ | ⟨schema, other, hschema, hother, hredrafted, hviolations⟩
  · rw [herror] at hold
    cases hold
  · rw [hschema] at hold
    rw [hother] at hnew
    obtain ⟨hdraft, hlength⟩ := Prod.mk.inj (Option.some.inj hold)
    rw [← hviolations] at hlength
    exact ⟨schema, other, hschema, hother, hredrafted, hdraft, Option.some.inj hnew, hlength⟩

end JsonSchema
