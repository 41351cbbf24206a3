import JsonSchema.Proofs.Schema.Work

/-!
# Documents that nothing refers to

A compilation looks at the registry only where a reference calls for a document, and finds the same
one in every larger registry. So the two compilations go through the same states.
-/

namespace JsonSchema

open CompileM

/-- Every document of a registry is registered in another one under the same key. -/
def Registry.Within (registry larger : Registry) : Prop :=
  ∀ key document, Members.get? registry key = some document →
    Members.get? larger key = some document

def CompileOptions.withRegistry (options : CompileOptions) (registry : Registry) : CompileOptions :=
  { options with registry }

namespace CompileM

variable {α β : Type} {options : CompileOptions} {larger : Registry} {root : Json}
  {c c' : Compilation} {first : PendingRef} {rest : List PendingRef}

/-! ## Walks -/

theorem compileNode_withRegistry (options : CompileOptions) (larger : Registry) (budget : Nat) :
    compileNode (options.withRegistry larger) budget = compileNode options budget := by
  induction budget with
  | zero => rfl
  | succ budget ih =>
    unfold compileNode
    rw [ih]
    rfl

theorem compileRoot_withRegistry (options : CompileOptions) (larger : Registry) :
    compileRoot (options.withRegistry larger) = compileRoot options := by
  unfold compileRoot compileEntry
  rw [compileNode_withRegistry]
  rfl

theorem pointerTarget_withRegistry (options : CompileOptions) (larger : Registry) :
    pointerTarget (options.withRegistry larger) = pointerTarget options := by
  unfold pointerTarget compileTarget compileEntry
  rw [compileNode_withRegistry]
  rfl

theorem compileFirst_withRegistry (options : CompileOptions) (larger : Registry) (root : Json) :
    compileFirst (options.withRegistry larger) root = compileFirst options root := by
  unfold compileFirst
  rw [compileRoot_withRegistry]
  rfl

/-! ## References -/

/-- Where the first step succeeds, the other one does so too, with the same result and state. -/
def Carries (x y : CompileM α) : Prop :=
  ∀ c a c', Runs x c (.ok a) c' → Runs y c (.ok a) c'

theorem Carries.refl (x : CompileM α) : Carries x x := fun _ _ _ h => h

theorem Carries.bind {x y : CompileM α} {f g : α → CompileM β} (h : Carries x y)
    (hnext : ∀ a, Carries (f a) (g a)) : Carries (x >>= f) (y >>= g) := by
  intro c b c' hrun
  obtain ⟨a, c₁, hx, hf⟩ := runs_bind_ok.mp hrun
  exact runs_bind_ok.mpr ⟨a, c₁, h _ _ _ hx, hnext a _ _ _ hf⟩

theorem takeDocument_carries (hwithin : Registry.Within options.registry larger)
    (ref key uri : String) :
    Carries (takeDocument options ref key uri)
      (takeDocument (options.withRegistry larger) ref key uri) := by
  refine (Carries.refl get).bind fun c => ?_
  cases halias : Members.get? c.aliases uri with
  | some target => exact .refl _
  | none =>
    cases hsmall : Members.get? options.registry uri with
    | none => exact fun _ _ _ h => nomatch (runs_throw.mp h).1
    | some document =>
      have hlarge : Members.get? (options.withRegistry larger).registry uri = some document :=
        hwithin uri document hsmall
      rw [hlarge]
      exact .refl _

theorem resolveRef_carries (hwithin : Registry.Within options.registry larger)
    (ref key : String) :
    Carries (resolveRef options ref key) (resolveRef (options.withRegistry larger) ref key) := by
  refine (Carries.refl get).bind fun c => (Carries.refl _).bind fun ⟨uri, fragment⟩ => ?_
  refine Carries.bind ?_ fun target => ?_
  · unfold targetDocument
    split
    · exact .refl _
    · rw [compileRoot_withRegistry]
      exact (takeDocument_carries hwithin ref key uri).bind fun target => .refl _
  · rw [pointerTarget_withRegistry]
    exact .refl _

theorem resolveFirst_carries (hwithin : Registry.Within options.registry larger)
    (first : PendingRef) (rest : List PendingRef) :
    Carries (resolveFirst options first rest)
      (resolveFirst (options.withRegistry larger) first rest) :=
  (Carries.refl _).bind fun _ =>
    (resolveRef_carries hwithin first.ref first.key).bind fun _ => .refl _

/-! ## Whole compilations -/

theorem resolvePending_idle (options : CompileOptions) (fuel : Nat) (hnone : c.pending = []) :
    Runs (resolvePending options fuel) c (.ok ⟨⟩) c := by
  cases fuel with
  | zero => exact runs_pure.mpr ⟨rfl, rfl⟩
  | succ fuel =>
    refine runs_get_bind.mpr ?_
    rw [hnone]
    exact runs_pure.mpr ⟨rfl, rfl⟩

/-- The limit on references grows with the registry, but it is never what ends the loop. -/
theorem resolvePending_carries {added : List String} {left : List PendingRef} {fuel more : Nat}
    (hwithin : Registry.Within options.registry larger)
    (hreaches : Reaches (options.withRegistry larger) root added left c)
    (hmore : refLimit (options.withRegistry larger) root ≤ left.length + more)
    (hrun : Runs (resolvePending options fuel) c (.ok ⟨⟩) c') (hdone : c'.pending = []) :
    Runs (resolvePending (options.withRegistry larger) more) c (.ok ⟨⟩) c' := by
  induction fuel generalizing added left more c with
  | zero =>
    obtain ⟨-, rfl⟩ := runs_pure.mp hrun
    exact resolvePending_idle _ more hdone
  | succ fuel ih =>
    replace hrun := runs_get_bind.mp hrun
    split at hrun
    case h_1 hnone =>
      obtain ⟨-, rfl⟩ := runs_pure.mp hrun
      exact resolvePending_idle _ more hnone
    case h_2 first rest hpending =>
      obtain ⟨⟨⟩, c₁, hfirst, hrun⟩ := runs_bind_ok.mp hrun
      replace hfirst := resolveFirst_carries hwithin first rest _ _ _ hfirst
      cases more with
      | zero =>
        have hlength := hreaches.progress.length_le
        rw [hpending, List.length_cons] at hlength
        omega
      | succ more =>
        refine runs_get_bind.mpr ?_
        rw [hpending]
        refine runs_bind_ok.mpr ⟨⟨⟩, c₁, hfirst, ih (.next hreaches hpending hfirst) ?_ hrun⟩
        rw [List.length_append, List.length_singleton]
        omega

theorem compileDocument_carries (hwithin : Registry.Within options.registry larger)
    {schema : CompiledSchema} (hrun : Runs (compileDocument options root) {} (.ok schema) c) :
    Runs (compileDocument (options.withRegistry larger) root) {} (.ok schema) c := by
  rw [compileDocument_eq] at hrun ⊢
  obtain ⟨⟨⟩, c₁, hfirst, hrun⟩ := runs_bind_ok.mp hrun
  obtain ⟨⟨⟩, c₂, hresolve, hrun⟩ := runs_bind_ok.mp hrun
  have hreaches : Reaches options root [""] [] c₁ := .first hfirst
  obtain ⟨added, left, hends⟩ := resolvePending_ends hreaches (Nat.le_add_left _ _) hresolve
  have hdone : c₂.pending = [] := by
    cases hends
    assumption
  rw [← compileFirst_withRegistry options larger] at hfirst
  replace hresolve :=
    resolvePending_carries hwithin (.first hfirst) (Nat.le_add_left _ _) hresolve hdone
  exact runs_bind_ok.mpr ⟨⟨⟩, c₁, hfirst, runs_bind_ok.mpr ⟨⟨⟩, c₂, hresolve, hrun⟩⟩

end CompileM

theorem Registry.within_of_subset {registry larger : Registry} (hnames : Members.names larger |>.Nodup)
    (h : registry ⊆ larger) : registry.Within larger :=
  fun _ _ hfound => Members.get?_of_mem hnames (h (Members.mem_of_get? hfound))

/--
Documents that are registered beside those that a compilation finds change nothing: it leaves the
same compiled schema and the same log.
-/
theorem unused_documents_inert (options : CompileOptions) (larger : Registry) (root : Json)
    (schema : CompiledSchema) (hwithin : Registry.Within options.registry larger)
    (h : (runCompile options root).result = .ok schema) :
    (runCompile (options.withRegistry larger) root).result = .ok schema ∧
      (runCompile (options.withRegistry larger) root).log = (runCompile options root).log := by
  obtain ⟨c, hrun⟩ := runs_of_result h
  have hlarger := compileDocument_carries hwithin hrun
  refine ⟨congrArg Prod.fst hlarger, congrArg (·.2.log) (hlarger.trans hrun.symm)⟩

def chain : CompileOptions where
  maxDepth := 10
  strict := true
  registry := [("http://x/a", .obj [("items", .obj [("$ref", .str "http://x/b")])]),
    ("http://x/b", .obj [("type", .str "string")])]

/-- The same two documents, a third that is no schema, and one that claims to be the first. -/
def crowd : Registry := [("http://x/c", .num (.int 5)), ("http://x/b", .obj [("type", .str "string")]),
  ("http://x/d", .obj [("$id", .str "http://x/a"), ("maxItems", .num (.int 1))]),
  ("http://x/a", .obj [("items", .obj [("$ref", .str "http://x/b")])])]

def chainRoot : Json := .obj [("not", .obj [("$ref", .str "http://x/a#/items")])]

theorem crowd_inert : ∃ schema, (runCompile (chain.withRegistry crowd) chainRoot).result = .ok schema ∧
    schema.nodes.size = 5 ∧ schema.referenceCount = 2 := by
  have hwithin : Registry.Within chain.registry crowd :=
    Registry.within_of_subset (by decide) (by simp [chain, crowd])
  have hsizes : (runCompile chain chainRoot).result.toOption.map
      (fun schema => (schema.nodes.size, schema.referenceCount)) = some (5, 2) := by
    decide +kernel
  obtain ⟨schema, hschema, hsize⟩ := Option.map_eq_some_iff.mp hsizes
  obtain ⟨hnodes, hrefs⟩ := Prod.mk.inj hsize
  have hresult := Except.toOption_eq_some.mp hschema
  exact ⟨schema, (unused_documents_inert chain crowd chainRoot schema hwithin hresult).1, hnodes,
    hrefs⟩

end JsonSchema
