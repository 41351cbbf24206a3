import JsonSchema.Proofs.Yaml.Events
import JsonSchema.Proofs.Yaml.Scanning
import JsonSchema.Yaml.Node

/-!
# Faults of the graph of a text

The grammar and the builder find the document at fault, so what else may go wrong before values
are read is a fault of the tokens.
-/

namespace JsonSchema.Yaml

/-! ## Readers of tokens -/

/-- A reader fails where the document is at fault, or with the fault behind its tokens. -/
def Faithful {α : Type} (source : Option YamlFault) (x : EventM α) : Prop :=
  ∀ r : EventReader, r.stream.fault = source →
    Except.Ends (·.2.stream.fault = source)
      (fun fault => fault.isOfDocument = true ∨ source = some fault) (x.run r)

section

variable {source : Option YamlFault} {α β : Type}

theorem Faithful.pure (a : α) : Faithful source (pure a : EventM α) := fun _ hr => .ok hr

theorem Faithful.bind {x : EventM α} {f : α → EventM β} (h : Faithful source x)
    (hf : ∀ a, Faithful source (f a)) : Faithful source (x >>= f) := by
  intro r hr
  rw [StateT.run_bind]
  exact (h r hr).bind fun out hout => hf out.1 out.2 hout

theorem Faithful.throw {fault : YamlFault} (h : fault.isOfDocument = true) :
    Faithful source (throw fault : EventM α) := fun _ _ => .error (.inl h)

theorem Faithful.get : Faithful source (get : EventM EventReader) := fun _ hr => .ok hr

theorem Faithful.modify {f : EventReader → EventReader}
    (h : ∀ r, (f r).stream.fault = r.stream.fault) : Faithful source (modify f : EventM PUnit) :=
  fun r hr => .ok ((h r).trans hr)

theorem Faithful.ite {p : Prop} [Decidable p] {x y : EventM α} (h : Faithful source x)
    (h' : Faithful source y) : Faithful source (if p then x else y) := by
  split
  · exact h
  · exact h'

theorem Faithful.discard {x : EventM α} (h : Faithful source x) :
    Faithful source (discard x : EventM PUnit) := h.bind fun _ => .pure _

theorem Faithful.mapM {o : Option α} {f : α → EventM β} (h : ∀ a, Faithful source (f a)) :
    Faithful source (o.mapM f) := by
  cases o with
  | none => exact .pure none
  | some a => exact (h a).bind fun b => .pure (some b)

theorem faithful_peek : Faithful source EventM.peek := by
  intro r hr
  cases htokens : r.stream.tokens with
  | cons token rest =>
    rw [run_peek htokens]
    exact .ok hr
  | nil =>
    cases hfault : r.stream.fault with
    | some fault =>
      have : EventM.peek.run r = .error fault := by
        simp only [EventM.peek, StateT.run_bind, StateT.run_get, pure_bind, htokens, hfault]
        rfl
      rw [this]
      exact .error (.inr (hr.symm.trans hfault))
    | none =>
      have : EventM.peek.run r = .ok (⟨.streamEnd, r.last, r.last⟩, r) := by
        simp only [EventM.peek, StateT.run_bind, StateT.run_get, pure_bind, htokens, hfault]
        rfl
      rw [this]
      exact .ok hr

theorem faithful_take : Faithful source EventM.take := by
  refine Faithful.bind faithful_peek fun token =>
    Faithful.bind (Faithful.modify ?_) fun _ => .pure _
  exact fun _ => rfl

theorem faithful_takeIf (token : Token) : Faithful source (EventM.takeIf token) :=
  Faithful.bind faithful_peek fun _ => .ite (Faithful.bind faithful_take fun _ => .pure _) (.pure _)

theorem faithful_sees (tokens : List Token) : Faithful source (EventM.sees tokens) :=
  Faithful.bind faithful_peek fun _ => .pure _

theorem faithful_unexpected (what : ExpectedPart) :
    Faithful source (EventM.unexpected (α := α) what) :=
  Faithful.bind faithful_peek fun _ => .throw rfl

/-! ## The grammar -/

theorem faithful_readAnchor : Faithful source readAnchor := by
  refine Faithful.bind faithful_peek fun token => ?_
  cases token.token with
  | anchor name => exact Faithful.bind faithful_take fun _ => .pure _
  | _ => exact .pure _

theorem faithful_readTag : Faithful source readTag := by
  refine Faithful.bind faithful_peek fun token => ?_
  cases token.token with
  | tag tag => exact Faithful.bind faithful_take fun _ => .pure _
  | _ => exact .pure _

theorem faithful_fullTag (tag : WrittenTag) (place : Place) :
    Faithful source (fullTag tag place) := by
  obtain ⟨handle?, rest⟩ := tag
  cases handle? with
  | none => exact .pure _
  | some handle =>
    refine Faithful.bind Faithful.get fun r => ?_
    cases r.handles.lookup handle with
    | some start => exact .pure _
    | none => exact .throw rfl

theorem faithful_readProperties : Faithful source readProperties := by
  refine Faithful.bind faithful_readAnchor fun anchor =>
    Faithful.bind faithful_readTag fun tag => ?_
  have hrest (late : Option (String × Place)) : Faithful source (do
      let full ← tag.mapM fun tag => fullTag tag.1 tag.2
      return ((⟨(anchor <|> late).map (·.1), full⟩ : Properties),
        anchor.map (·.2) <|> tag.map (·.2))) :=
    (Faithful.mapM fun tag : WrittenTag × Place => faithful_fullTag tag.1 tag.2).bind
      fun _ => .pure _
  exact .ite (Faithful.bind faithful_readAnchor hrest) (hrest none)

theorem faithful_readContent (block indentless : Bool) :
    Faithful source (readContent block indentless) := by
  refine Faithful.bind faithful_readProperties fun properties =>
    Faithful.bind faithful_peek fun token => ?_
  have hopened (step : Step) : Faithful source (do discard EventM.take; return step) :=
    Faithful.bind (Faithful.discard faithful_take) fun _ => .pure _
  refine .ite (.pure _) ?_
  split
  · exact hopened _
  · exact hopened _
  · exact hopened _
  · exact .ite (hopened _) (.ite (hopened _) (.ite (.pure _) (faithful_unexpected _)))

theorem faithful_readNode (block indentless : Bool) (behind : List Expected) :
    Faithful source (readNode block indentless behind) := by
  refine Faithful.bind faithful_peek fun token => ?_
  cases token.token with
  | «alias» anchor => exact Faithful.bind faithful_take fun _ => .pure _
  | _ => exact (faithful_readContent block indentless).bind fun _ => .pure _

theorem faithful_readNodeUnless (stops : List Token) (place : Place) (block indentless : Bool)
    (behind : Expected) : Faithful source (readNodeUnless stops place block indentless behind) :=
  (faithful_sees stops).bind fun _ => .ite (.pure _) (faithful_readNode _ _ _)

theorem faithful_readDirectives (versionSeen : Bool) (handles : List (String × String))
    (fuel : Nat) : Faithful source (readDirectives versionSeen handles fuel) := by
  induction fuel generalizing versionSeen handles with
  | zero => exact .pure _
  | succ fuel ih =>
    refine Faithful.bind faithful_peek fun token => ?_
    cases token.token with
    | directive directive =>
      refine Faithful.bind faithful_take fun token => ?_
      cases directive with
      | version major => exact .ite (.throw rfl) (.ite (.throw rfl) (ih _ _))
      | tagHandle handle start => exact .ite (.throw rfl) (ih _ _)
      | other => exact ih _ _
    | _ => exact .pure _

theorem faithful_dropDocumentEnds (fuel : Nat) : Faithful source (dropDocumentEnds fuel) := by
  induction fuel with
  | zero => exact .pure _
  | succ fuel ih => exact (faithful_takeIf _).bind fun _ => .ite ih (.pure _)

theorem faithful_readDocument : Faithful source readDocument := by
  refine Faithful.bind Faithful.get fun r => (faithful_dropDocumentEnds _).bind fun _ => ?_
  refine Faithful.bind faithful_peek fun first => .ite (.pure _) ?_
  refine (faithful_readDirectives _ _ _).bind fun handles => ?_
  refine Faithful.bind (Faithful.modify ?_) fun _ => (faithful_takeIf _).bind fun token => ?_
  · exact fun _ => rfl
  · exact .ite ((faithful_unexpected _).bind fun _ => .pure _) (.pure _)

theorem faithful_endBlock : Faithful source endBlock := by
  refine (faithful_takeIf _).bind fun token => ?_
  cases token with
  | some placed => exact .pure _
  | none => exact faithful_unexpected _

theorem faithful_dropFlowEntry (closing : Token) (rest : ExpectedPart) :
    Faithful source (dropFlowEntry closing rest) :=
  (faithful_sees _).bind fun _ => .ite (faithful_takeIf _).discard
    ((faithful_unexpected _).bind fun _ => (faithful_takeIf _).discard)

theorem Faithful.after_comma {first : Bool} {closing : Token} {rest : ExpectedPart}
    {x : EventM α} (h : Faithful source x) : Faithful source (do
      unless first do dropFlowEntry closing rest
      x) :=
  .ite h ((faithful_dropFlowEntry _ _).bind fun _ => h)

theorem Faithful.behind {token : Token} {f : Option PlacedToken → EventM α}
    (h : ∀ placed, Faithful source (f (some placed))) (h' : Faithful source (f none)) :
    Faithful source (EventM.takeIf token >>= f) := by
  refine (faithful_takeIf _).bind fun placed? => ?_
  cases placed? with
  | some placed => exact h placed
  | none => exact h'

theorem faithful_read (next : Expected) : Faithful source next.read := by
  cases next with
  | firstDocument =>
    refine Faithful.bind faithful_peek fun token => .ite ?_ faithful_readDocument
    refine Faithful.bind (Faithful.modify ?_) fun _ => .pure _
    exact fun _ => rfl
  | document => exact faithful_readDocument
  | documentContent =>
    exact Faithful.bind faithful_peek fun _ => .ite (.pure _) (faithful_readNode _ _ _)
  | documentEnd =>
    exact Faithful.bind faithful_peek fun _ => (faithful_takeIf _).discard.bind fun _ => .pure _
  | blockNode => exact faithful_readNode _ _ _
  | blockEntry => exact .behind (fun _ => faithful_readNodeUnless _ _ _ _ _) faithful_endBlock
  | indentlessEntry =>
    exact .behind (fun _ => faithful_readNodeUnless _ _ _ _ _)
      (Faithful.bind faithful_peek fun _ => .pure _)
  | blockKey => exact .behind (fun _ => faithful_readNodeUnless _ _ _ _ _) faithful_endBlock
  | blockValue =>
    exact .behind (fun _ => faithful_readNodeUnless _ _ _ _ _)
      (Faithful.bind faithful_peek fun _ => .pure _)
  | flowEntry first =>
    refine .after_comma (.behind (fun _ => .pure _) (.behind (fun _ => .pure _) ?_))
    exact faithful_readNode _ _ _
  | pairKey place => exact faithful_readNodeUnless _ _ _ _ _
  | pairValue =>
    exact .behind (fun _ => faithful_readNodeUnless _ _ _ _ _)
      (Faithful.bind faithful_peek fun _ => .pure _)
  | pairEnd => exact Faithful.bind faithful_peek fun _ => .pure _
  | flowKey first =>
    refine .after_comma (.behind (fun _ => .pure _) (.behind (fun _ => ?_) ?_))
    · exact faithful_readNodeUnless _ _ _ _ _
    · exact faithful_readNode _ _ _
  | flowValue =>
    exact .behind (fun _ => faithful_readNodeUnless _ _ _ _ _)
      (Faithful.bind faithful_peek fun _ => .pure _)
  | flowMissingValue => exact Faithful.bind faithful_peek fun _ => .pure _

end

/-! ## Events -/

theorem EventStream.fault_from {source : Option YamlFault} {fault : YamlFault} (fuel : Nat) :
    ∀ (done : List PlacedEvent) (expected : List Expected) (r : EventReader),
      r.stream.fault = source → (eventsFrom fuel done expected r).fault = some fault →
      fault.isOfDocument = true ∨ source = some fault := by
  induction fuel with
  | zero =>
    intro done expected r hr hfault
    cases hfault
  | succ fuel ih =>
    intro done expected r hr hfault
    cases expected with
    | nil => cases hfault
    | cons next later =>
      rw [eventsFrom_succ] at hfault
      have hread := faithful_read next r hr
      cases hrun : next.read.run r with
      | error e =>
        rw [hrun] at hread hfault
        obtain rfl : e = fault := Option.some.inj hfault
        exact hread.of_error
      | ok out =>
        rw [hrun] at hread hfault
        exact ih _ _ _ hread.of_ok hfault

theorem EventStream.fault_ofTokens {stream : TokenStream} {fault : YamlFault}
    (h : (ofTokens stream).fault = some fault) :
    fault.isOfDocument = true ∨ stream.fault = some fault :=
  fault_from _ _ _ _ rfl h

/-! ## Nodes -/

namespace Builder

variable {b : Builder}

theorem ends_add (p : Properties) (node : YamlNode) :
    Except.Ends (fun _ => True) (·.isOfDocument = true) (b.add p node) := by
  obtain ⟨anchor?, tag⟩ := p
  cases anchor? with
  | none => exact .ok trivial
  | some name => exact .ite (.error rfl) (.ok trivial)

theorem ends_openNode (p : Properties) (usual : String) (content : Content) (place : Place) :
    Except.Ends (fun _ => True) (·.isOfDocument = true) (b.openNode p usual content place) :=
  (ends_add p _).bind fun _ _ => .ite (.error rfl) (.ok trivial)

theorem ends_step (e : PlacedEvent) :
    Except.Ends (fun _ => True) (·.isOfDocument = true) (b.step e) := by
  obtain ⟨event, place⟩ := e
  cases event with
  | documentStart => exact .ite (.error rfl) (.ok trivial)
  | documentEnd => exact .ok trivial
  | streamEnd => exact .ok trivial
  | «alias» anchor =>
    dsimp only [step]
    cases b.anchors.lookup anchor with
    | some id => exact .ok trivial
    | none => exact .error rfl
  | scalar p untagged value => exact (ends_add _ _).bind fun _ _ => .ok trivial
  | sequenceStart p => exact ends_openNode _ _ _ _
  | mappingStart p => exact ends_openNode _ _ _ _
  | collectionEnd => exact .ok trivial

end Builder

namespace ComposedDocument

theorem ends_ofEvents (stream : EventStream) : Except.Ends (fun _ => True)
    (fun fault => fault.isOfDocument = true ∨ stream.fault = some fault) (ofEvents stream) := by
  have hfold : Except.Ends (fun _ => True) (·.isOfDocument = true)
      (stream.events.foldlM Builder.step Builder.start) :=
    .foldlM trivial fun b _ e _ => Builder.ends_step e
  refine (hfold.mono fun fault => .inl).bind fun b _ => ?_
  cases stream.fault with
  | some fault => exact .error (.inr rfl)
  | none => exact .ok trivial

/-- The graph of a text is there, or the document is at fault, or a number in the text. -/
theorem ends_ofChars (cs : List Char) :
    Except.Ends (fun _ => True) (IsLexical cs) (ofChars cs) := by
  refine (ends_ofEvents _).mono fun fault hfault => ?_
  rcases hfault with hfault | hfault
  · exact .inl hfault
  · rcases EventStream.fault_ofTokens hfault with hfault | hfault
    · exact .inl hfault
    · exact TokenStream.fault_isLexical cs fault (by rw [hfault]; rfl)

end ComposedDocument

end JsonSchema.Yaml
