import JsonSchema.Proofs.Outcome
import JsonSchema.Proofs.Yaml.Spelling

/-!
# The events of a JSON value

The grammar of YAML turns the tokens of a JSON value into its events: a value comes wherever a node
is expected, and the inside of a container where entries are.
-/

namespace JsonSchema.Yaml

open JsonReader (Part)

/-! ## Reading tokens -/

namespace EventReader

def advance (r : EventReader) (token : PlacedToken) (rest : List PlacedToken) : EventReader :=
  { r with stream := { r.stream with tokens := rest }, last := token.stop }

structure Sees (r : EventReader) (tokens : List Token) : Prop where
  fault : r.stream.fault = none
  tokens : r.stream.tokens.map (·.token) = tokens

variable {r : EventReader} {token : Token} {tokens : List Token}

theorem Sees.exists_cons (h : r.Sees (token :: tokens)) : ∃ placed rest,
    r.stream.tokens = placed :: rest ∧ placed.token = token ∧
      (r.advance placed rest).Sees tokens := by
  have htokens := h.tokens
  cases hstream : r.stream.tokens with
  | nil => simp [hstream] at htokens
  | cons placed rest =>
    rw [hstream, List.map_cons] at htokens
    obtain ⟨htoken, hrest⟩ := List.cons.inj htokens
    exact ⟨placed, rest, rfl, htoken, h.fault, hrest⟩

end EventReader

section

variable {r : EventReader} {placed : PlacedToken} {rest : List PlacedToken} {token : Token}

theorem run_bind_ok {α β : Type} {x : EventM α} {f : α → EventM β} {r' : EventReader} {a : α}
    (h : x.run r = .ok (a, r')) : (x >>= f).run r = (f a).run r' := by
  rw [StateT.run_bind, h, Except.ok_bind]

theorem run_discard {α : Type} {x : EventM α} {r' : EventReader} {a : α}
    (h : x.run r = .ok (a, r')) : (discard x).run r = .ok ((), r') :=
  (run_bind_ok (f := fun _ => pure ()) h).trans rfl

theorem run_peek (h : r.stream.tokens = placed :: rest) : EventM.peek.run r = .ok (placed, r) := by
  simp only [EventM.peek, StateT.run_bind, StateT.run_get, pure_bind, h, StateT.run_pure]
  rfl

theorem run_take (h : r.stream.tokens = placed :: rest) :
    EventM.take.run r = .ok (placed, r.advance placed rest) := by
  rw [EventM.take, run_bind_ok (run_peek h), StateT.run_bind, StateT.run_modify, pure_bind,
    StateT.run_pure, EventReader.advance, h]
  rfl

theorem run_takeIf_pos (h : r.stream.tokens = placed :: rest) (htoken : placed.token = token) :
    (EventM.takeIf token).run r = .ok (some placed, r.advance placed rest) := by
  rw [EventM.takeIf, run_bind_ok (run_peek h), if_pos (by rw [htoken, beq_self_eq_true]),
    run_bind_ok (run_take h)]
  rfl

theorem run_takeIf_neg (h : r.stream.tokens = placed :: rest) (htoken : placed.token ≠ token) :
    (EventM.takeIf token).run r = .ok (none, r) := by
  rw [EventM.takeIf, run_bind_ok (run_peek h), if_neg (by simpa using htoken)]
  rfl

theorem run_sees (h : r.stream.tokens = placed :: rest) (tokens : List Token) :
    (EventM.sees tokens).run r = .ok (tokens.contains placed.token, r) := by
  rw [EventM.sees, run_bind_ok (run_peek h)]
  rfl

end

/-! ## Reading nodes -/

/-- The event of a token that starts a node of JSON, and what is expected inside of the node. -/
def nodeEvent? : Token → Option (Event × List Expected)
  | .scalar value plain => some (.scalar noProperties plain value, [])
  | .flowSequenceStart => some (.sequenceStart noProperties, [.flowEntry true])
  | .flowMappingStart => some (.mappingStart noProperties, [.flowKey true])
  | _ => none

section

variable {r : EventReader} {placed : PlacedToken} {rest : List PlacedToken} {event : Event}
  {inner behind : List Expected}

theorem ne_of_nodeEvent? {token other : Token} (hnode : nodeEvent? token = some (event, inner))
    (hother : nodeEvent? other = none) : token ≠ other := by
  rintro rfl
  rw [hother] at hnode
  cases hnode

theorem run_readProperties (h : r.stream.tokens = placed :: rest)
    (hnode : nodeEvent? placed.token = some (event, inner)) :
    readProperties.run r = .ok ((noProperties, none), r) := by
  have hanchor : readAnchor.run r = .ok (none, r) := by
    rw [readAnchor, run_bind_ok (run_peek h)]
    split
    case h_1 htoken => exact absurd htoken (ne_of_nodeEvent? hnode rfl)
    case h_2 => rfl
  have htag : readTag.run r = .ok (none, r) := by
    rw [readTag, run_bind_ok (run_peek h)]
    split
    case h_1 htoken => exact absurd htoken (ne_of_nodeEvent? hnode rfl)
    case h_2 => rfl
  rw [readProperties, run_bind_ok hanchor, run_bind_ok htag]
  rfl

theorem run_readNode (h : r.stream.tokens = placed :: rest)
    (hnode : nodeEvent? placed.token = some (event, inner)) (block indentless : Bool)
    (behind : List Expected) : (readNode block indentless behind).run r =
      .ok ((⟨event, placed.start⟩, inner ++ behind), r.advance placed rest) := by
  have hproperties := run_readProperties h hnode
  have htake := run_discard (run_take h)
  have hcontent : (readContent block indentless).run r =
      .ok ((⟨event, placed.start⟩, inner), r.advance placed rest) := by
    rw [readContent, run_bind_ok hproperties, run_bind_ok (run_peek h)]
    unfold nodeEvent? at hnode
    split at hnode
    case h_4 => cases hnode
    all_goals
      rename_i htoken
      obtain ⟨rfl, rfl⟩ := Prod.mk.inj (Option.some.inj hnode)
      rw [htoken, if_neg (by simp)]
      exact (run_bind_ok htake).trans rfl
  rw [readNode, run_bind_ok (run_peek h)]
  split
  case h_1 htoken => exact absurd htoken (ne_of_nodeEvent? hnode rfl)
  case h_2 => exact (run_bind_ok hcontent).trans rfl

/-! ## Reading entries -/

theorem run_dropFlowEntry_comma (h : r.stream.tokens = placed :: rest)
    (htoken : placed.token = .flowEntry) (closing : Token) (what : ExpectedPart) :
    (dropFlowEntry closing what).run r = .ok ((), r.advance placed rest) := by
  have hsees : [closing, .flowEntry].contains placed.token = true := by simp [htoken]
  rw [dropFlowEntry, run_bind_ok (run_sees h _), hsees]
  exact run_discard (run_takeIf_pos h htoken)

theorem run_dropFlowEntry_closing (h : r.stream.tokens = placed :: rest)
    (htoken : placed.token ≠ .flowEntry) (what : ExpectedPart) :
    (dropFlowEntry placed.token what).run r = .ok ((), r) := by
  have hsees : [placed.token, .flowEntry].contains placed.token = true := by simp
  rw [dropFlowEntry, run_bind_ok (run_sees h _), hsees]
  exact run_discard (run_takeIf_neg h htoken)

/-- The entries of a collection: what is expected in front of the first and of a later one, and the
token behind the last. A later entry is read like the first one behind its comma. -/
structure Row (first later : Expected) (closing : Token) (what : ExpectedPart) : Prop where
  entry : closing ≠ .flowEntry
  resumes : ∀ {r r' : EventReader}, (dropFlowEntry closing what).run r = .ok ((), r') →
    later.read.run r = first.read.run r'
  ends : ∀ {r : EventReader} {placed : PlacedToken} {rest : List PlacedToken},
    r.stream.tokens = placed :: rest → placed.token = closing →
      first.read.run r = .ok ((⟨.collectionEnd, placed.start⟩, []), r.advance placed rest)

theorem row_items : Row (.flowEntry true) (.flowEntry false) .flowSequenceEnd .sequenceRest where
  entry := by decide
  resumes hdrop := by
    rw [Expected.read, if_neg Bool.false_ne_true, run_bind_ok hdrop]
    rfl
  ends hstream htoken := by
    rw [Expected.read, if_pos rfl, run_bind_ok (run_takeIf_pos hstream htoken)]
    rfl

theorem row_members : Row (.flowKey true) (.flowKey false) .flowMappingEnd .mappingRest where
  entry := by decide
  resumes hdrop := by
    rw [Expected.read, if_neg Bool.false_ne_true, run_bind_ok hdrop]
    rfl
  ends hstream htoken := by
    rw [Expected.read, if_pos rfl, run_bind_ok (run_takeIf_pos hstream htoken)]
    rfl

theorem run_flowEntry_node (h : r.stream.tokens = placed :: rest)
    (hnode : nodeEvent? placed.token = some (event, inner)) :
    (Expected.flowEntry true).read.run r =
      (readNode false false [.flowEntry false]).run r := by
  rw [Expected.read, if_pos rfl, run_bind_ok (run_takeIf_neg h (ne_of_nodeEvent? hnode rfl))]
  exact run_bind_ok (run_takeIf_neg h (ne_of_nodeEvent? hnode rfl))

theorem run_readNodeUnless (h : r.stream.tokens = placed :: rest)
    (hnode : nodeEvent? placed.token = some (event, inner)) {stops : List Token}
    (hstops : ∀ stop ∈ stops, nodeEvent? stop = none) (place : Place) (behind : Expected) :
    (readNodeUnless stops place false false behind).run r =
      (readNode false false [behind]).run r := by
  have hsees : stops.contains placed.token = false := by
    rw [List.contains_eq_mem, decide_eq_false_iff_not]
    exact fun hmem => ne_of_nodeEvent? hnode (hstops _ hmem) rfl
  rw [readNodeUnless, run_bind_ok (run_sees h _), hsees]
  rfl

theorem run_flowKey_key {key : PlacedToken} (hkey : r.stream.tokens = key :: placed :: rest)
    (htoken : key.token = .key) (hnode : nodeEvent? placed.token = some (event, inner)) :
    (Expected.flowKey true).read.run r =
      (readNode false false [.flowValue]).run (r.advance key (placed :: rest)) := by
  have hend : key.token ≠ .flowMappingEnd := by
    rw [htoken]
    nofun
  rw [Expected.read, if_pos rfl, run_bind_ok (run_takeIf_neg hkey hend)]
  refine (run_bind_ok (run_takeIf_pos hkey htoken)).trans (run_readNodeUnless rfl hnode ?_ _ _)
  decide

theorem run_flowValue_value {colon : PlacedToken}
    (hcolon : r.stream.tokens = colon :: placed :: rest) (htoken : colon.token = .value)
    (hnode : nodeEvent? placed.token = some (event, inner)) : Expected.flowValue.read.run r =
      (readNode false false [.flowKey false]).run (r.advance colon (placed :: rest)) := by
  rw [Expected.read]
  refine (run_bind_ok (run_takeIf_pos hcolon htoken)).trans (run_readNodeUnless rfl hnode ?_ _ _)
  decide

end

/-! ## Rows of events -/

theorem eventsFrom_succ (fuel : Nat) (done : List PlacedEvent) (next : Expected)
    (later : List Expected) (r : EventReader) : eventsFrom (fuel + 1) done (next :: later) r =
      match next.read.run r with
      | .error fault => ⟨done.reverse, some fault⟩
      | .ok ((event, expected), r) => eventsFrom fuel (event :: done) (expected ++ later) r := by
  delta eventsFrom
  rfl

def Emits (expected : List Expected) (r : EventReader) (events : List Event)
    (expected' : List Expected) (r' : EventReader) : Prop :=
  ∃ placed : List PlacedEvent, placed.map (·.event) = events ∧ ∀ fuel done,
    eventsFrom (fuel + events.length) done expected r =
      eventsFrom fuel (placed.reverse ++ done) expected' r'

namespace Emits

variable {expected expected' expected'' later inner : List Expected} {next : Expected}
  {r r' r'' : EventReader} {events more : List Event} {event : PlacedEvent}

theorem trans (h : Emits expected r events expected' r')
    (h' : Emits expected' r' more expected'' r'') :
    Emits expected r (events ++ more) expected'' r'' := by
  obtain ⟨placed, rfl, hrun⟩ := h
  obtain ⟨placed', rfl, hrun'⟩ := h'
  refine ⟨placed ++ placed', List.map_append, fun fuel done => ?_⟩
  rw [List.length_append, Nat.add_comm (placed.map _).length, ← Nat.add_assoc, hrun, hrun',
    List.reverse_append, List.append_assoc]

theorem of_read (h : next.read.run r = .ok ((event, inner), r')) (later : List Expected) :
    Emits (next :: later) r [event.event] (inner ++ later) r' := by
  refine ⟨[event], rfl, fun fuel done => ?_⟩
  rw [List.length_singleton, eventsFrom_succ, h]
  rfl

end Emits

/-- The tokens are read as the events where the first of them is read in this way; `behind` is
expected then. -/
def ReadsAs (first : EventM Step) (behind : List Expected) (tokens : List Token)
    (events : List Event) : Prop :=
  ∀ (r : EventReader) (more : List Token), r.Sees (tokens ++ more) → ∃ r', r'.Sees more ∧
    ∀ (next : Expected) (later : List Expected) (r₀ : EventReader),
      next.read.run r₀ = first.run r → Emits (next :: later) r₀ events (behind ++ later) r'

def Continues (next : Expected) (tokens : List Token) (events : List Event) : Prop :=
  ∀ (r : EventReader) (more : List Token), r.Sees (tokens ++ more) → ∃ r', r'.Sees more ∧
    ∀ later, Emits (next :: later) r events later r'

def PartReads (part : Part) (tokens : List Token) (events : List Event) : Prop :=
  match part with
  | .value _ => ∀ behind, ReadsAs (readNode false false behind) behind tokens events
  | .items _ => ReadsAs (Expected.flowEntry true).read [] tokens events
  | .members _ => ReadsAs (Expected.flowKey true).read [] tokens events

section

variable {limit : Nat} {json : Json} {token : Token} {tokens closing : List Token} {event : Event}
  {events more : List Event} {next : Expected} {behind : List Expected}

theorem ReadsAs.continues (h : ReadsAs next.read [] tokens events) :
    Continues next tokens events := by
  intro r more hsees
  obtain ⟨r', hmore, hemits⟩ := h r more hsees
  exact ⟨r', hmore, fun later => hemits next later r rfl⟩

theorem Spelled.exists_node (h : Spelled limit (.value json) tokens events) :
    ∃ token rest event inner, tokens = token :: rest ∧ nodeEvent? token = some (event, inner) := by
  cases h with
  | scalar => exact ⟨_, _, _, _, rfl, rfl⟩
  | emptySequence => exact ⟨_, _, _, _, rfl, rfl⟩
  | sequence => exact ⟨_, _, _, _, rfl, rfl⟩
  | emptyMapping => exact ⟨_, _, _, _, rfl, rfl⟩
  | mapping => exact ⟨_, _, _, _, rfl, rfl⟩

theorem readsAs_scalar (hnode : nodeEvent? token = some (event, [])) :
    ReadsAs (readNode false false behind) behind [token] [event] := by
  intro r more hsees
  obtain ⟨placed, rest, hstream, rfl, hsees'⟩ := hsees.exists_cons
  exact ⟨_, hsees', fun next later r₀ hread =>
    Emits.of_read (hread.trans (run_readNode hstream hnode false false behind)) later⟩

theorem readsAs_collection (hnode : nodeEvent? token = some (event, [next]))
    (hinner : Continues next tokens events) :
    ReadsAs (readNode false false behind) behind (token :: tokens) (event :: events) := by
  intro r more hsees
  obtain ⟨placed, rest, hstream, rfl, hsees'⟩ := hsees.exists_cons
  obtain ⟨r', hmore, hemits⟩ := hinner _ more hsees'
  exact ⟨r', hmore, fun next later r₀ hread =>
    (Emits.of_read (hread.trans (run_readNode hstream hnode false false behind)) later).trans
      (hemits (behind ++ later))⟩

/-! ## Ends and commas -/

section

variable {first later : Expected} {closing : Token} {what : ExpectedPart}

theorem Row.ends_first (h : Row first later closing what) :
    Continues first [closing] [.collectionEnd] := by
  intro r more hsees
  obtain ⟨placed, rest, hstream, htoken, hsees'⟩ := hsees.exists_cons
  exact ⟨_, hsees', Emits.of_read (h.ends hstream htoken)⟩

theorem Row.ends_later (h : Row first later closing what) :
    Continues later [closing] [.collectionEnd] := by
  intro r more hsees
  obtain ⟨placed, rest, hstream, rfl, hsees'⟩ := hsees.exists_cons
  have hdrop := run_dropFlowEntry_closing hstream h.entry what
  exact ⟨_, hsees', Emits.of_read ((h.resumes hdrop).trans (h.ends hstream rfl))⟩

theorem Row.comma (h : Row first later closing what) (hentry : ReadsAs first.read [] tokens events) :
    Continues later (.flowEntry :: tokens) events := by
  intro r more hsees
  obtain ⟨placed, rest, hstream, htoken, hsees'⟩ := hsees.exists_cons
  obtain ⟨r', hmore, hemits⟩ := hentry _ more hsees'
  exact ⟨r', hmore, fun outer => hemits _ outer r
    (h.resumes (run_dropFlowEntry_comma hstream htoken _ _))⟩

end

/-! ## Entries -/

theorem readsAs_item (hspelled : Spelled limit (.value json) tokens events)
    (hvalue : ReadsAs (readNode false false [.flowEntry false]) [.flowEntry false] tokens events)
    (hrest : Continues (.flowEntry false) closing more) :
    ReadsAs (Expected.flowEntry true).read [] (tokens ++ closing) (events ++ more) := by
  intro r others hsees
  obtain ⟨token, rest, event, inner, rfl, hnode⟩ := hspelled.exists_node
  rw [List.append_assoc] at hsees
  obtain ⟨placed, placedRest, hstream, rfl, -⟩ := hsees.exists_cons
  obtain ⟨r₁, hsees₁, hemits₁⟩ := hvalue r _ hsees
  obtain ⟨r₂, hsees₂, hemits₂⟩ := hrest r₁ others hsees₁
  exact ⟨r₂, hsees₂, fun next later r₀ hread =>
    (hemits₁ next later r₀ (hread.trans (run_flowEntry_node hstream hnode))).trans (hemits₂ later)⟩

theorem readsAs_member (hspelled : Spelled limit (.value json) tokens events)
    (hvalue : ReadsAs (readNode false false [.flowKey false]) [.flowKey false] tokens events)
    (hrest : Continues (.flowKey false) closing more) (name : String) :
    ReadsAs (Expected.flowKey true).read []
      (.key :: .scalar name false :: .value :: (tokens ++ closing))
      (.scalar noProperties false name :: (events ++ more)) := by
  intro r others hsees
  obtain ⟨key, afterKey, hkey, hkeyToken, hsees₁⟩ := hsees.exists_cons
  obtain ⟨scalar, afterScalar, hscalar, hscalarToken, hsees₂⟩ := hsees₁.exists_cons
  obtain ⟨colon, afterColon, hcolon, hcolonToken, hsees₃⟩ := hsees₂.exists_cons
  obtain ⟨token, rest, event, inner, rfl, hnode⟩ := hspelled.exists_node
  rw [List.append_eq, List.append_assoc] at hsees₃
  obtain ⟨placed, placedRest, hplaced, rfl, -⟩ := hsees₃.exists_cons
  obtain ⟨r₄, hsees₄, hemits₄⟩ := hvalue _ _ hsees₃
  obtain ⟨r₅, hsees₅, hemits₅⟩ := hrest r₄ others hsees₄
  refine ⟨r₅, hsees₅, fun next later r₀ hread => ?_⟩
  have hname : nodeEvent? scalar.token = some (.scalar noProperties false name, []) := by
    rw [hscalarToken]
    rfl
  rw [EventReader.advance] at hscalar hcolon hplaced
  simp only at hscalar hcolon hplaced
  subst hscalar hcolon hplaced
  have hkeyRead := (run_flowKey_key hkey hkeyToken hname).trans
    (run_readNode rfl hname false false [.flowValue])
  have hvalueRead := hemits₄ .flowValue later _ (run_flowValue_value rfl hcolonToken hnode)
  exact (Emits.of_read (hread.trans hkeyRead) later).trans (hvalueRead.trans (hemits₅ later))

/-! ## Whole values -/

theorem partReads_of_spelled {part : Part} (h : Spelled limit part tokens events) :
    PartReads part tokens events := by
  induction h with
  | scalar => exact fun behind => readsAs_scalar rfl
  | emptySequence => exact fun behind => readsAs_collection rfl row_items.ends_first
  | sequence _ ih => exact fun behind => readsAs_collection rfl ih.continues
  | emptyMapping => exact fun behind => readsAs_collection rfl row_members.ends_first
  | mapping _ ih => exact fun behind => readsAs_collection rfl ih.continues
  | lastItem hitem ih => exact readsAs_item hitem (ih _) row_items.ends_later
  | nextItem hitem _ ih ih' => exact readsAs_item hitem (ih _) (row_items.comma ih')
  | lastMember hvalue ih => exact readsAs_member hvalue (ih _) row_members.ends_later _
  | nextMember hvalue _ ih ih' =>
    exact readsAs_member hvalue (ih _) (row_members.comma ih') _

theorem Spelled.length_le {part : Part} (h : Spelled limit part tokens events) :
    events.length ≤ tokens.length := by
  induction h <;> simp only [List.length_append, List.length_cons, List.length_nil] at * <;> omega

end

/-! ## Whole documents -/

section

variable {r : EventReader} {placed : PlacedToken} {rest : List PlacedToken}

theorem run_firstDocument {event : Event} {inner : List Expected}
    (h : r.stream.tokens = placed :: rest) (hnode : nodeEvent? placed.token = some (event, inner)) :
    Expected.firstDocument.read.run r = .ok ((⟨.documentStart, placed.start⟩,
      [.blockNode, .documentEnd]), { r with handles := standardHandles }) := by
  have hbare : startsBareDocument placed.token = true := by
    unfold startsBareDocument
    split
    case h_4 => rfl
    all_goals
      rename_i htoken
      exact absurd htoken (ne_of_nodeEvent? hnode rfl)
  rw [Expected.read, run_bind_ok (run_peek h), hbare]
  rfl

theorem run_documentEnd (h : r.stream.tokens = placed :: rest)
    (htoken : placed.token = .streamEnd) : Expected.documentEnd.read.run r =
      .ok ((⟨.documentEnd, placed.start⟩, [.document]), r) := by
  have hother : placed.token ≠ .documentEnd := by
    rw [htoken]
    nofun
  have htake := run_discard (run_takeIf_neg h hother)
  rw [Expected.read, run_bind_ok (run_peek h)]
  exact (run_bind_ok htake).trans rfl

theorem run_document (h : r.stream.tokens = placed :: rest) (htoken : placed.token = .streamEnd) :
    Expected.document.read.run r = .ok ((⟨.streamEnd, placed.start⟩, []), r) := by
  have hdrop : ∀ fuel, (dropDocumentEnds fuel).run r = .ok ((), r) := by
    intro fuel
    cases fuel with
    | zero => rfl
    | succ fuel =>
      rw [dropDocumentEnds, run_bind_ok (run_takeIf_neg h (by rw [htoken]; nofun))]
      rfl
  have hget : (get : EventM EventReader).run r = .ok (r, r) := rfl
  rw [Expected.read, readDocument, run_bind_ok hget, run_bind_ok (hdrop _),
    run_bind_ok (run_peek h), htoken]
  rfl

end

/-- The tokens of a value are one document, without a mark at its start or its end. -/
theorem events_of_spelled {limit : Nat} {json : Json} {tokens : List Token} {events : List Event}
    (h : Spelled limit (.value json) tokens events) {placed : List PlacedToken}
    (hplaced : placed.map (·.token) = tokens ++ [.streamEnd]) :
    ∃ all, EventStream.ofTokens ⟨placed, none⟩ = ⟨all, none⟩ ∧
      all.map (·.event) = .documentStart :: (events ++ [.documentEnd, .streamEnd]) := by
  obtain ⟨token, tail, event, inner, htokens, hnode⟩ := h.exists_node
  let r : EventReader := { stream := ⟨placed, none⟩, last := ⟨1, 1⟩, handles := [] }
  let r₁ : EventReader := { r with handles := standardHandles }
  have hsees : r₁.Sees (tokens ++ [.streamEnd]) := ⟨rfl, hplaced⟩
  obtain ⟨r₂, hsees₂, hemits⟩ := partReads_of_spelled h [] r₁ _ hsees
  rw [htokens] at hsees
  obtain ⟨first, others, hfirst, rfl, -⟩ := hsees.exists_cons
  obtain ⟨last, behind, hlast, hend, -⟩ := hsees₂.exists_cons
  have hstart := Emits.of_read (run_firstDocument (r := r) hfirst hnode) []
  have hvalue := hemits .blockNode [.documentEnd] r₁
    ((run_readNode hfirst hnode true false []).trans (run_readNode hfirst hnode false false []).symm)
  have hdocument := (Emits.of_read (run_documentEnd hlast hend) []).trans
    (Emits.of_read (run_document hlast hend) [])
  have hwhole : Emits [.firstDocument] r (.documentStart :: (events ++ [.documentEnd, .streamEnd]))
      [] r₂ := hstart.trans (hvalue.trans hdocument)
  obtain ⟨all, hall, hrun⟩ := hwhole
  -- There are no more events than tokens in the value, so the fuel is enough.
  obtain ⟨fuel, hfuel⟩ : ∃ fuel, eventsPerToken * (placed.length + 2) =
      fuel + (Event.documentStart :: (events ++ [.documentEnd, .streamEnd])).length := by
    have hlength := h.length_le
    have hcount : placed.length = tokens.length + 1 := by
      rw [← List.length_map (·.token), hplaced, List.length_append, List.length_singleton]
    refine ⟨eventsPerToken * (placed.length + 2) - (events.length + 3), ?_⟩
    rw [eventsPerToken]
    simp only [List.length_append, List.length_cons, List.length_nil]
    omega
  refine ⟨all, ?_, hall⟩
  have hdone : ∀ fuel, eventsFrom fuel all.reverse [] r₂ = ⟨all, none⟩ := by
    intro fuel
    rw [← List.reverse_reverse all, List.reverse_reverse all.reverse]
    cases fuel <;> rfl
  have hrun' := hrun fuel []
  rw [← hfuel, List.append_nil, hdone] at hrun'
  exact hrun'

end JsonSchema.Yaml
