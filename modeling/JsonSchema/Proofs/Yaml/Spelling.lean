import JsonSchema.Proofs.Yaml.Splitting
import JsonSchema.Yaml.Event

/-!
# How JSON values are spelled in YAML

A JSON value is a row of tokens, and a row of events behind them. Its text gives these tokens,
wherever it stands.
-/

namespace JsonSchema.Yaml

open JsonReader

def noProperties : Properties := ⟨none, none⟩

/-- The tokens and the events of a part of a document; its containers nest `limit` levels at most.
The inside of a container has the mark of its end. -/
inductive Spelled : (limit : Nat) → Part → List Token → List Event → Prop
  | scalar {limit : Nat} {json : Json} {text : String} {plain : Bool} (hflat : json.IsFlat) :
      Spelled limit (.value json) [.scalar text plain] [.scalar noProperties plain text]
  | emptySequence {limit : Nat} : Spelled (limit + 1) (.value (.arr []))
      [.flowSequenceStart, .flowSequenceEnd] [.sequenceStart noProperties, .collectionEnd]
  | sequence {limit : Nat} {items : List Json} {tokens : List Token} {events : List Event}
      (h : Spelled limit (.items items) tokens events) :
      Spelled (limit + 1) (.value (.arr items)) (.flowSequenceStart :: tokens)
        (.sequenceStart noProperties :: events)
  | emptyMapping {limit : Nat} : Spelled (limit + 1) (.value (.obj []))
      [.flowMappingStart, .flowMappingEnd] [.mappingStart noProperties, .collectionEnd]
  | mapping {limit : Nat} {members : Members Json} {tokens : List Token} {events : List Event}
      (h : Spelled limit (.members members) tokens events) :
      Spelled (limit + 1) (.value (.obj members)) (.flowMappingStart :: tokens)
        (.mappingStart noProperties :: events)
  | lastItem {limit : Nat} {item : Json} {tokens : List Token} {events : List Event}
      (hitem : Spelled limit (.value item) tokens events) :
      Spelled limit (.items [item]) (tokens ++ [.flowSequenceEnd]) (events ++ [.collectionEnd])
  | nextItem {limit : Nat} {item : Json} {items : List Json} {tokens more : List Token}
      {events moreEvents : List Event} (hitem : Spelled limit (.value item) tokens events)
      (h : Spelled limit (.items items) more moreEvents) :
      Spelled limit (.items (item :: items)) (tokens ++ .flowEntry :: more) (events ++ moreEvents)
  | lastMember {limit : Nat} {name : String} {value : Json} {tokens : List Token}
      {events : List Event} (hvalue : Spelled limit (.value value) tokens events) :
      Spelled limit (.members [(name, value)])
        (.key :: .scalar name false :: .value :: (tokens ++ [.flowMappingEnd]))
        (.scalar noProperties false name :: (events ++ [.collectionEnd]))
  | nextMember {limit : Nat} {name : String} {value : Json} {members : Members Json}
      {tokens more : List Token} {events moreEvents : List Event}
      (hvalue : Spelled limit (.value value) tokens events)
      (h : Spelled limit (.members members) more moreEvents) :
      Spelled limit (.members ((name, value) :: members))
        (.key :: .scalar name false :: .value :: (tokens ++ .flowEntry :: more))
        (.scalar noProperties false name :: (events ++ moreEvents))

/-! ## Splitting a text -/

open Splitting in
def SplitsAs (limit : Nat) (part : Part) (text rest : Chars) : Prop :=
  match part with
  | .value _ => ∀ (s : Splitting) (depth : Nat), s.At depth text → Follows depth rest →
      ∃ tokens events s', s.Splits tokens s' ∧ s'.At depth (skipSpace rest) ∧
        Spelled limit part tokens events
  | .items _ | .members _ => ∀ (s : Splitting) (depth : Nat), s.At (depth + 1) text →
      s.lexer.keyAllowed = true → ∃ tokens events s', s.Splits tokens s' ∧
        s'.At depth (skipSpace rest) ∧ Spelled limit part tokens events

theorem splitsAs_of_written {limit : Nat} {part : Part} {text rest : Chars}
    (h : Written limit part text rest) : SplitsAs limit part text rest := by
  induction h with
  | word hflat hword =>
    intro s depth hat hfollows
    obtain ⟨text, s', hsplits, hat'⟩ := hat.word hword hfollows
    exact ⟨_, _, s', hsplits, hat', .scalar hflat⟩
  | string hbody =>
    intro s depth hat hfollows
    obtain ⟨read, s', hsplits, hat'⟩ := hat.string hbody
    exact ⟨_, _, s', hsplits, hat', .scalar trivial⟩
  | emptyArray hend =>
    intro s depth hat hfollows
    obtain ⟨s₁, hstart, hat₁, -⟩ := hat.flowStart rfl fun _ => Lexer.readToken_flowSequenceStart
    rw [hend] at hat₁
    obtain ⟨s₂, hstop, hat₂⟩ := hat₁.flowEnd rfl fun _ => Lexer.readToken_flowSequenceEnd
    exact ⟨_, _, s₂, hstart.trans hstop, hat₂, .emptySequence⟩
  | array _ ih =>
    intro s depth hat hfollows
    obtain ⟨s₁, hstart, hat₁, hallowed⟩ :=
      hat.flowStart rfl fun _ => Lexer.readToken_flowSequenceStart
    obtain ⟨tokens, events, s₂, hitems, hat₂, hspelled⟩ := ih s₁ depth hat₁ hallowed
    exact ⟨_, _, s₂, hstart.trans hitems, hat₂, .sequence hspelled⟩
  | emptyObject hend =>
    intro s depth hat hfollows
    obtain ⟨s₁, hstart, hat₁, -⟩ := hat.flowStart rfl fun _ => Lexer.readToken_flowMappingStart
    rw [hend] at hat₁
    obtain ⟨s₂, hstop, hat₂⟩ := hat₁.flowEnd rfl fun _ => Lexer.readToken_flowMappingEnd
    exact ⟨_, _, s₂, hstart.trans hstop, hat₂, .emptyMapping⟩
  | object _ ih =>
    intro s depth hat hfollows
    obtain ⟨s₁, hstart, hat₁, hallowed⟩ :=
      hat.flowStart rfl fun _ => Lexer.readToken_flowMappingStart
    obtain ⟨tokens, events, s₂, hmembers, hat₂, hspelled⟩ := ih s₁ depth hat₁ hallowed
    exact ⟨_, _, s₂, hstart.trans hmembers, hat₂, .mapping hspelled⟩
  | lastItem _ hend ih =>
    intro s depth hat hallowed
    obtain ⟨tokens, events, s₁, hitem, hat₁, hspelled⟩ := ih s (depth + 1) hat (.of_mark hend rfl)
    rw [hend] at hat₁
    obtain ⟨s₂, hstop, hat₂⟩ := hat₁.flowEnd rfl fun _ => Lexer.readToken_flowSequenceEnd
    exact ⟨_, _, s₂, hitem.trans hstop, hat₂, .lastItem hspelled⟩
  | nextItem _ hcomma _ ih ih' =>
    intro s depth hat hallowed
    obtain ⟨tokens, events, s₁, hitem, hat₁, hspelled⟩ := ih s (depth + 1) hat (.of_mark hcomma rfl)
    rw [hcomma] at hat₁
    obtain ⟨s₂, hentry, hat₂, hallowed₂⟩ := hat₁.flowEntry
    obtain ⟨more, moreEvents, s₃, hitems, hat₃, hspelled'⟩ := ih' s₂ depth hat₂ hallowed₂
    exact ⟨_, _, s₃, hitem.trans (hentry.trans hitems), hat₃, .nextItem hspelled hspelled'⟩
  | lastMember hname hcolon _ hend ih =>
    intro s depth hat hallowed
    obtain ⟨s₁, hkey, hat₁⟩ := hat.name hallowed hname hcolon
    obtain ⟨tokens, events, s₂, hvalue, hat₂, hspelled⟩ := ih s₁ (depth + 1) hat₁ (.of_mark hend rfl)
    rw [hend] at hat₂
    obtain ⟨s₃, hstop, hat₃⟩ := hat₂.flowEnd rfl fun _ => Lexer.readToken_flowMappingEnd
    exact ⟨_, _, s₃, hkey.trans (hvalue.trans hstop), hat₃, .lastMember hspelled⟩
  | nextMember hname hcolon _ hcomma _ ih ih' =>
    intro s depth hat hallowed
    obtain ⟨s₁, hkey, hat₁⟩ := hat.name hallowed hname hcolon
    obtain ⟨tokens, events, s₂, hvalue, hat₂, hspelled⟩ :=
      ih s₁ (depth + 1) hat₁ (.of_mark hcomma rfl)
    rw [hcomma] at hat₂
    obtain ⟨s₃, hentry, hat₃, hallowed₃⟩ := hat₂.flowEntry
    obtain ⟨more, moreEvents, s₄, hmembers, hat₄, hspelled'⟩ := ih' s₃ depth hat₃ hallowed₃
    exact ⟨_, _, s₄, hkey.trans (hvalue.trans (hentry.trans hmembers)), hat₄,
      .nextMember hspelled hspelled'⟩

/-- The tokens of a whole text that fits are those of its value. -/
theorem tokens_of_written {limit : Nat} {json : Json} {cs rest : Chars}
    (h : Written limit (.value json) (skipSpace cs) rest) (hend : skipSpace rest = [])
    (hmark : cs.head? ≠ some '\uFEFF') (hfits : fitsFrom false cs = true) :
    ∃ placed tokens events, TokenStream.ofChars cs = ⟨placed, none⟩ ∧
      placed.map (·.token) = tokens ++ [.streamEnd] ∧ Spelled limit (.value json) tokens events := by
  have hready : (Lexer.start cs).Ready := by
    refine ⟨rfl, rfl, Nat.le_refl 1, nofun, nofun, fun _ hhead => hmark ?_⟩
    cases cs with
    | nil => exact absurd hhead (by decide)
    | cons ch cs => exact congrArg some hhead
  obtain ⟨tokens, events, s, hsplits, hat, hspelled⟩ :=
    splitsAs_of_written h ⟨[], Lexer.start cs⟩ 0 ⟨hready, rfl, rfl, hfits⟩ (.inl ⟨rfl, hend⟩)
  rw [hend] at hat
  obtain ⟨⟨steps, hsteps, hrun⟩, htokens⟩ := hsplits
  -- Each step takes a character, so there is fuel left for the end of the text.
  have hlength : (Lexer.start cs).cursor.rest.length = cs.length := rfl
  have hfuel : cs.length + 1 = (cs.length - steps + 1) + steps := by
    simp only [hlength] at hsteps
    omega
  obtain ⟨placed, hplaced, hall⟩ := hat.tokensFrom_end (cs.length - steps)
  refine ⟨placed, tokens, events, ?_, ?_, hspelled⟩
  · rw [TokenStream.ofChars, hfuel]
    exact (hrun _).trans hplaced
  · rw [hall, htokens]
    rfl

end JsonSchema.Yaml
