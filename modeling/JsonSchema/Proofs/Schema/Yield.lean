import JsonSchema.Proofs.Schema.Runs
import JsonSchema.Proofs.Schema.Walk

/-!
# What the steps of a walk yield

A step that reads a part of a schema object walks over the places of this part and yields what
nodes say of it. What it yields is said of all later states, so steps may follow each other. A step
that fails tells why: keywords are wrong, places are nested too deep, or a text in the schema cannot
be dealt with.
-/

namespace JsonSchema

/-! ## Faults of a walk -/

def Members.HasExpression (schema : Members Json) (source : String) : Prop :=
  schema.get? "pattern" = some (.str source) ∨
    source ∈ Members.names (schema.membersAt "patternProperties")

namespace Json

/-- What stops a walk over a value without being a fault of the schema. -/
inductive Escapes (value : Json) : CompileFault → Prop where
  /-- An expression that is refused, and not for its syntax. -/
  | expression {tokens : List String} {schema : Members Json} {source : String}
      {fault : Regex.Fault} (hat : value.At tokens (.obj schema))
      (hsource : schema.HasExpression source) (hread : Pattern.read source = .error fault)
      (hbeyond : fault.IsBeyondSyntax) : Escapes value (.pattern source fault)
  /-- One of the types is an integer that is too long for a message, or has such an integer. -/
  | types {tokens : List String} {schema : Members Json} {names : List Json} {name : Json}
      (hat : value.At tokens (.obj schema)) (htype : schema.get? "type" = some (.arr names))
      (hname : name ∈ names) (hlong : name.hasText = false) : Escapes value .noText

inductive StopsWalk (value : Json) : CompileFault → Prop where
  | keyword {location keyword : String} {problem : KeywordProblem} :
      StopsWalk value (.badKeyword location keyword problem)
  | depth {maxDepth : Int} {location : String} : StopsWalk value (.tooDeep maxDepth location)
  | escape {fault : CompileFault} (h : Escapes value fault) : StopsWalk value fault

variable {document value : Json} {tokens : List String} {fault : CompileFault}

theorem Escapes.inside (hat : document.At tokens value) (h : value.Escapes fault) :
    document.Escapes fault := by
  cases h with
  | expression hplace hsource hread hbeyond =>
    exact .expression (hat.append hplace) hsource hread hbeyond
  | types hplace htype hname hlong => exact .types (hat.append hplace) htype hname hlong

theorem StopsWalk.inside (hat : document.At tokens value) (h : value.StopsWalk fault) :
    document.StopsWalk fault := by
  cases h with
  | keyword => exact .keyword
  | depth => exact .depth
  | escape h => exact .escape (h.inside hat)

end Json

namespace CompileM

/-! ## Steps -/

variable {α β ε : Type} {site : Site} {schema : Members Json} {post : Compilation → α → Prop}

/-- A step on the schema object at a site, and what is true of its outcome. -/
structure Yields (site : Site) (schema : Members Json) (step : CompileM α)
    (post : Compilation → α → Prop) : Prop where
  ok : ∀ {c a c'}, Runs step c (.ok a) c' → c.Aligned →
    c.Stands site.key site.pointer (.obj schema) →
    Compilation.Walk (Compilation.Under site.key site.pointer (.obj schema)) c c' ∧
      ∀ d, c'.Extends d → post d a
  error : ∀ {c e c'}, Runs step c (.error e) c' → c.Aligned →
    c.Stands site.key site.pointer (.obj schema) → (Json.obj schema).StopsWalk e

structure VisitsPlace (visit : CompileM NodeId) (key pointer : String) (value : Json) : Prop where
  ok : ∀ {c id c'}, Runs visit c (.ok id) c' → c.Aligned → c.Stands key pointer value →
    Compilation.Walk (Compilation.Under key pointer value) c c' ∧ c'.Located key pointer id ∧
      id ≤ c.nodes.size
  error : ∀ {c e c'}, Runs visit c (.error e) c' → c.Aligned → c.Stands key pointer value →
    value.StopsWalk e

def Visits (compile : CompileChild) : Prop :=
  ∀ site child, VisitsPlace (compile site child) site.key
    (Pointer.join site.pointer (child.keyword :: child.tokens)) child.value

namespace Yields

theorem mono {step : CompileM α} {post' : Compilation → α → Prop} (h : Yields site schema step post)
    (himp : ∀ d a, post d a → post' d a) : Yields site schema step post' where
  ok hrun hc hstands := by
    obtain ⟨hwalk, hpost⟩ := h.ok hrun hc hstands
    exact ⟨hwalk, fun d hd => himp d _ (hpost d hd)⟩
  error := h.error

theorem pure (a : α) : Yields site schema (pure a) fun _ b => b = a where
  ok hrun hc _ := by
    obtain ⟨hok, rfl⟩ := runs_pure.mp hrun
    cases hok
    exact ⟨Compilation.Walk.refl hc, fun _ _ => rfl⟩
  error hrun _ _ := nomatch (runs_pure.mp hrun).1

theorem bind {x : CompileM α} {f : α → CompileM β} {next : α → Compilation → β → Prop}
    (hx : Yields site schema x post)
    (hf : ∀ d a, post d a → Yields site schema (f a) (next a)) :
    Yields site schema (x >>= f) fun d b => ∃ a, post d a ∧ next a d b where
  ok hrun hc hstands := by
    obtain ⟨a, c₁, hrun₁, hrun₂⟩ := runs_bind_ok.mp hrun
    obtain ⟨hwalk₁, hpost₁⟩ := hx.ok hrun₁ hc hstands
    have hpost := hpost₁ c₁ (Compilation.Extends.refl c₁)
    obtain ⟨hwalk₂, hpost₂⟩ := (hf c₁ a hpost).ok hrun₂ hwalk₁.aligned (hwalk₁.stands hstands)
    exact ⟨hwalk₁.trans hc hwalk₂, fun d hd =>
      ⟨a, hpost₁ d (hwalk₂.extends.trans hd), hpost₂ d hd⟩⟩
  error hrun hc hstands := by
    rcases runs_bind_error.mp hrun with hrun₁ | ⟨a, c₁, hrun₁, hrun₂⟩
    · exact hx.error hrun₁ hc hstands
    · obtain ⟨hwalk₁, hpost₁⟩ := hx.ok hrun₁ hc hstands
      have hpost := hpost₁ c₁ (Compilation.Extends.refl c₁)
      exact (hf c₁ a hpost).error hrun₂ hwalk₁.aligned (hwalk₁.stands hstands)

theorem lift {fault : ε → CompileFault} (outcome : Except ε α)
    (hfault : ∀ e, outcome = .error e → (Json.obj schema).StopsWalk (fault e)) :
    Yields site schema (lift fault outcome) fun _ a => outcome = .ok a where
  ok hrun hc _ := by
    obtain ⟨hok, rfl⟩ := runs_lift.mp hrun
    cases outcome with
    | ok a =>
      cases hok
      exact ⟨Compilation.Walk.refl hc, fun _ _ => rfl⟩
    | error e => cases hok
  error hrun _ _ := by
    obtain ⟨herror, -⟩ := runs_lift.mp hrun
    cases outcome with
    | ok a => cases herror
    | error e =>
      cases herror
      exact hfault e rfl

theorem reading (outcome : Except KeywordFault α) :
    Yields site schema (reading site outcome) fun _ a => outcome = .ok a :=
  lift outcome fun _ _ => .keyword

theorem refuse {keyword : String} {problem : KeywordProblem} :
    Yields site schema (refuse site keyword problem) post where
  ok hrun _ _ := nomatch (runs_throw.mp hrun).1
  error hrun _ _ := by
    cases (runs_throw.mp hrun).1
    exact .keyword

theorem refuse_bind {keyword : String} {problem : KeywordProblem} {f : β → CompileM α} :
    Yields site schema (CompileM.refuse site keyword problem >>= f) post := by
  have hrefuse : Yields site schema (CompileM.refuse site keyword problem)
      fun _ (_ : β) => False := refuse
  have hnext : ∀ a, False → Yields site schema (f a) fun _ _ => False := nofun
  refine (hrefuse.bind fun _ a => hnext a).mono ?_
  rintro d a ⟨b, h, -⟩
  exact h.elim

theorem warn (message : String) : Yields site schema (warn message) fun _ _ => True where
  ok hrun hc _ := by
    obtain ⟨_, c₁, hrecord, hwarn⟩ := runs_bind_ok.mp hrun
    obtain ⟨-, rfl⟩ := runs_modify.mp hrecord
    obtain ⟨-, rfl⟩ := runs_modify.mp hwarn
    exact ⟨Compilation.Walk.silent hc _ _, fun _ _ => trivial⟩
  error hrun _ _ := by
    rcases runs_bind_error.mp hrun with hrecord | ⟨_, _, -, hwarn⟩
    · exact nomatch (runs_modify.mp hrecord).1
    · exact nomatch (runs_modify.mp hwarn).1

theorem child {compile : CompileChild} (site : Site) (hcompile : Visits compile) (child : Child)
    (hleads : (Json.obj schema).Leads (child.keyword :: child.tokens) child.value) :
    Yields site schema (compile site child) fun d id =>
      ChildNode d site child.keyword child.tokens child.value id where
  ok hrun hc hstands := by
    have hchild := hstands.inside hleads.at
    obtain ⟨hwalk, hlocated, -⟩ := (hcompile _ _).ok hrun hc hchild
    exact ⟨hwalk.mono fun _ => Compilation.Under.inside hleads,
      fun _ hd => hd.nodeOf ⟨hlocated, hwalk.stands hchild⟩⟩
  error hrun hc hstands :=
    ((hcompile _ _).error hrun hc (hstands.inside hleads.at)).inside hleads.at

end Yields

end CompileM

end JsonSchema
