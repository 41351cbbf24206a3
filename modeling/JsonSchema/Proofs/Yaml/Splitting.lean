import JsonSchema.Proofs.Yaml.Scalars

/-!
# The tokens of a JSON text

A JSON text has no block collections, so its tokens are the marks, the strings and the words that
stand in it, and one mark in front of each name. The mark goes in front of its name when the colon
comes, which is why a name waits until then.
-/

namespace JsonSchema.Yaml

open JsonReader

namespace Lexer

variable {l l₁ l₂ : Lexer} {token : Token} {behind : Cursor} {passed : Chars} {key : PossibleKey}

/-! ## Between two tokens -/

/-- A lexer outside block collections. No key has to come, and none was released before its mark
could be put in front of it. -/
structure Ready (l : Lexer) : Prop where
  unfinished : l.finished = false
  unindented : l.indents = []
  column : 1 ≤ l.cursor.place.column
  optional : ∀ key ∈ l.keys, key.required = false
  unreleased : ∀ key ∈ l.keys, l.released ≤ key.number
  unmarked : l.cursor.index = 0 → l.cursor.head ≠ '\uFEFF'

def fresh (l : Lexer) : Lexer := { l with keys := l.keys.filter (!l.isStale ·) }

namespace Ready

theorem with_keys (h : l.Ready) {keys : List PossibleKey}
    (hkeys : ∀ key ∈ keys, key.required = false ∧ l.released ≤ key.number) :
    Ready { l with keys := keys } :=
  ⟨h.unfinished, h.unindented, h.column, fun key hkey => (hkeys key hkey).1,
    fun key hkey => (hkeys key hkey).2, h.unmarked⟩

theorem keys_of_subset (h : l.Ready) {keys : List PossibleKey} (hsub : keys ⊆ l.keys) :
    ∀ key ∈ keys, key.required = false ∧ l.released ≤ key.number :=
  fun key hkey => ⟨h.optional key (hsub hkey), h.unreleased key (hsub hkey)⟩

theorem fresh (h : l.Ready) : l.fresh.Ready :=
  h.with_keys (h.keys_of_subset (List.filter_sublist.subset))

theorem forgetKey (h : l.Ready) : l.forgetKey.Ready :=
  h.with_keys (h.keys_of_subset (List.filter_sublist.subset))

theorem with_flow (h : l.Ready) (depth : Nat) (allowed : Bool) :
    Ready { l with flowDepth := depth, keyAllowed := allowed } :=
  ⟨h.unfinished, h.unindented, h.column, h.optional, h.unreleased, h.unmarked⟩

theorem with_waiting (h : l.Ready) (waiting : List PlacedToken) :
    Ready { l with waiting := waiting } :=
  ⟨h.unfinished, h.unindented, h.column, h.optional, h.unreleased, h.unmarked⟩

theorem with_cursor (h : l.Ready) (hpasses : l.cursor.Passes passed behind) (hpassed : passed ≠ []) :
    Ready { l with cursor := behind } :=
  ⟨h.unfinished, h.unindented, hpasses.column h.column, h.optional, h.unreleased, fun hindex => by
    have := List.length_pos_iff.mpr hpassed
    have := hpasses.index
    simp only at hindex
    omega⟩

theorem closeBlocks (h : l.Ready) (column : Nat) : l.closeBlocks column = l := by
  unfold Lexer.closeBlocks
  rw [h.unindented]
  split
  · rfl
  · rw [List.takeWhile_nil, List.dropWhile_nil, List.foldl_nil, ← h.unindented]

theorem dropKey (h : l.Ready) : l.dropKey = .ok l.forgetKey := by
  have hoptional : l.key?.any (·.required) = false := by
    rw [Option.any_eq_false_iff_get]
    intro hsome
    exact h.optional _ (List.mem_of_find?_eq_some (Option.some_get hsome).symm)
  rw [Lexer.dropKey, hoptional]
  rfl

theorem dropStaleKeys (h : l.Ready) : l.dropStaleKeys = .ok l.fresh := by
  have hoptional : (l.keys.any fun key => key.required && l.isStale key) = false := by
    rw [List.any_eq_false]
    intro key hkey
    rw [h.optional key hkey, Bool.false_and]
    exact Bool.false_ne_true
  rw [Lexer.dropStaleKeys, hoptional]
  rfl

def newKey (l : Lexer) : PossibleKey :=
  ⟨l.flowDepth, l.released + l.waiting.length, false, l.cursor.index, l.cursor.place⟩

theorem saveKey (h : l.Ready) : ∃ keys, l.saveKey = .ok { l with keys := keys } ∧
    Ready { l with keys := keys } ∧
    (l.keyAllowed = true → keys = newKey l :: l.forgetKey.keys) := by
  by_cases hallowed : l.keyAllowed = true
  · have hcolumn : (l.indent == l.column) = false := by
      rw [indent, h.unindented, beq_eq_false_iff_ne]
      exact (Nat.lt_of_lt_of_le Nat.zero_lt_one h.column).ne
    refine ⟨newKey l :: l.forgetKey.keys, ?_, h.with_keys ?_, fun _ => rfl⟩
    · rw [Lexer.saveKey, if_neg (by simp [hallowed]), h.dropKey, Except.ok_bind, hcolumn,
        Bool.and_false]
      rfl
    · rw [List.forall_mem_cons]
      exact ⟨⟨rfl, Nat.le_add_right _ _⟩, h.keys_of_subset List.filter_sublist.subset⟩
  · refine ⟨l.keys, ?_, h, fun h => absurd h hallowed⟩
    rw [Lexer.saveKey, if_pos (by simp [hallowed])]
    rfl

end Ready

/-! ## In front of a token -/

theorem toNextTokenIn_ok {fuel : Nat} (hclear : l.cursor.Clear)
    (hfuel : l.cursor.rest.length < fuel) :
    ∃ allowed, l.toNextTokenIn fuel =
        { l with cursor := l.cursor.dropBlanks, keyAllowed := allowed } ∧
      (l.inFlow = true → allowed = l.keyAllowed) := by
  induction fuel generalizing l with
  | zero => omega
  | succ fuel ih =>
    rw [toNextTokenIn]
    have hcomment : ∀ c : Cursor, c.head ≠ '#' → c.dropComment = c :=
      fun c hc => if_neg (by simpa using hc)
    obtain ⟨hclear', ⟨hbreak, hspace⟩ | ⟨hbreak, hsame⟩⟩ := hclear.dropSpaces
    · have hhead : l.cursor.dropSpaces.head ≠ '#' := by
        intro heq
        rw [heq] at hspace
        cases hspace
      obtain ⟨hblanks, hlength, passed, hpasses⟩ := Cursor.dropBlanks_lineBreak hspace hbreak
      simp only [hcomment _ hhead, hbreak, if_true]
      have hspaces : l.cursor.dropSpaces.rest.length ≤ l.cursor.rest.length := by
        rw [(Cursor.passes_dropWhile l.cursor _).text, List.length_append]
        exact Nat.le_add_left _ _
      obtain ⟨allowed, heq, hallowed⟩ := ih
        (l := { l with
          cursor := l.cursor.dropSpaces.lineBreak.2, keyAllowed := l.keyAllowed || !l.inFlow })
        (hclear'.of_passes hpasses hblanks) (by simp only; omega)
      refine ⟨allowed, ?_, fun hflow => ?_⟩
      · rw [heq]
        simp only [hblanks, Cursor.dropBlanks_dropSpaces]
      · rw [hallowed hflow]
        simp [hflow]
    · have hhead : l.cursor.dropBlanks.head ≠ '#' := by
        cases hrest : l.cursor.dropBlanks.rest with
        | nil => rw [Cursor.head_nil hrest]; decide
        | cons ch rest =>
          rw [Cursor.head_eq hrest]
          exact (hclear.token ch rest (by rw [← Cursor.rest_dropBlanks, hrest])).2
      rw [hsame] at hbreak ⊢
      simp only [hcomment _ hhead, hbreak, Bool.false_eq_true, if_false]
      exact ⟨l.keyAllowed, rfl, fun _ => rfl⟩

theorem toNextToken_ok (h : l.Ready) (hclear : l.cursor.Clear) :
    ∃ allowed, l.toNextToken = { l with cursor := l.cursor.dropBlanks, keyAllowed := allowed } ∧
      (l.inFlow = true → allowed = l.keyAllowed) := by
  have hmark : ¬ (l.cursor.index = 0 ∧ l.cursor.head = '\uFEFF') := fun hmark =>
    h.unmarked hmark.1 hmark.2
  rw [toNextToken]
  simp only [hmark, if_false]
  exact toNextTokenIn_ok hclear (Nat.lt_succ_self _)

/-- The second lexer stands in front of the next token of the first one. -/
structure Arrives (l l₁ : Lexer) : Prop where
  ready : l₁.Ready
  cursor : l₁.cursor = l.cursor.dropBlanks
  waiting : l₁.waiting = l.waiting
  released : l₁.released = l.released
  flowDepth : l₁.flowDepth = l.flowDepth
  keyAllowed : l.inFlow = true → l₁.keyAllowed = l.keyAllowed
  keys : l₁.keys = l.keys.filter (!l₁.isStale ·)
  step : l.step = do
    let l₂ ← l₁.readToken
    if l₂.finished then return l₂ else l₂.dropStaleKeys

theorem Ready.with_blanks (h : l.Ready) (allowed : Bool) :
    Ready { l with cursor := l.cursor.dropBlanks, keyAllowed := allowed } := by
  cases hblanks : l.cursor.rest.takeWhile isSpace with
  | nil =>
    have hpasses := Cursor.passes_dropBlanks l.cursor
    rw [hblanks] at hpasses
    obtain hsame : l.cursor.dropBlanks = l.cursor := hpasses.eq
    rw [hsame]
    exact h.with_flow l.flowDepth allowed
  | cons ch rest =>
    refine (h.with_flow l.flowDepth allowed).with_cursor (Cursor.passes_dropBlanks l.cursor) ?_
    simp [hblanks]

theorem exists_arrives (h : l.Ready) (hclear : l.cursor.Clear) : ∃ l₁, l.Arrives l₁ := by
  obtain ⟨allowed, heq, hallowed⟩ := toNextToken_ok h hclear
  have hready := h.with_blanks allowed
  refine ⟨_, hready.fresh, rfl, rfl, rfl, rfl, hallowed, rfl, ?_⟩
  rw [step, heq, hready.dropStaleKeys, Except.ok_bind]
  simp only [hready.fresh.closeBlocks]

/-! ## Reading a token -/

structure Gives (l : Lexer) (passed : Chars) (token : Token) (l₂ : Lexer) : Prop where
  ready : l₂.Ready
  passes : l.cursor.Passes passed l₂.cursor
  moves : passed ≠ []
  waiting : ∃ start stop, l₂.waiting = l.waiting ++ [⟨token, start, stop⟩]
  released : l₂.released = l.released

/-- The second lexer differs from the first one in its keys and its brackets only. -/
structure Keeps (l l₁ : Lexer) : Prop where
  ready : l₁.Ready
  cursor : l₁.cursor = l.cursor
  waiting : l₁.waiting = l.waiting
  released : l₁.released = l.released

theorem Keeps.addUpTo (h : l.Keeps l₁) (hpasses : l.cursor.Passes passed behind)
    (hpassed : passed ≠ []) (token : Token) : l.Gives passed token (l₁.addUpTo token behind) where
  ready := (h.ready.with_waiting _).with_cursor (h.cursor ▸ hpasses) hpassed
  passes := hpasses
  moves := hpassed
  waiting := ⟨l₁.cursor.place, behind.place, by rw [← h.waiting]; rfl⟩
  released := h.released

section

variable {ch : Char} {word rest : Chars}

theorem Keeps.addMark (h : l.Keeps l₁) (hrest : l.cursor.rest = ch :: rest) (token : Token) :
    l.Gives [ch] token (l₁.addMark token 1) := by
  rw [Lexer.addMark, h.cursor]
  exact h.addUpTo (.of_next hrest) (List.cons_ne_nil _ _) token

theorem readFlowStart_ok (h : l.Ready) (hrest : l.cursor.rest = ch :: rest) (token : Token) :
    ∃ l₂, l.readFlowStart token = .ok l₂ ∧ l.Gives [ch] token l₂ ∧
      l₂.flowDepth = l.flowDepth + 1 ∧ l₂.keyAllowed = true := by
  obtain ⟨keys, hsave, hready, -⟩ := h.saveKey
  have hkeeps : l.Keeps { l with keys := keys, flowDepth := l.flowDepth + 1, keyAllowed := true } :=
    ⟨hready.with_flow _ _, rfl, rfl, rfl⟩
  refine ⟨Lexer.addMark _ token 1, ?_, hkeeps.addMark hrest token, rfl, rfl⟩
  rw [readFlowStart, hsave]
  rfl

theorem readFlowEnd_ok (h : l.Ready) (hrest : l.cursor.rest = ch :: rest) (token : Token) :
    ∃ l₂, l.readFlowEnd token = .ok l₂ ∧ l.Gives [ch] token l₂ ∧
      l₂.flowDepth = l.flowDepth - 1 := by
  have hkeeps : l.Keeps { l.forgetKey with flowDepth := l.flowDepth - 1, keyAllowed := false } :=
    ⟨h.forgetKey.with_flow _ _, rfl, rfl, rfl⟩
  refine ⟨Lexer.addMark _ token 1, ?_, hkeeps.addMark hrest token, rfl⟩
  rw [readFlowEnd, h.dropKey]
  rfl

theorem readFlowEntry_ok (h : l.Ready) (hrest : l.cursor.rest = ch :: rest) :
    ∃ l₂, l.readFlowEntry = .ok l₂ ∧ l.Gives [ch] .flowEntry l₂ ∧
      l₂.flowDepth = l.flowDepth ∧ l₂.keyAllowed = true := by
  have hready : (l.allowKey true).Ready := h.with_flow l.flowDepth true
  have hkeeps : l.Keeps (l.allowKey true).forgetKey := ⟨hready.forgetKey, rfl, rfl, rfl⟩
  refine ⟨Lexer.addMark _ .flowEntry 1, ?_, hkeeps.addMark hrest .flowEntry, rfl, rfl⟩
  rw [readFlowEntry, hready.dropKey]
  rfl

theorem readNode_ok (h : l.Ready) (read : Cursor → Except YamlFault (Token × Cursor))
    (hread : read l.cursor = .ok (token, behind)) (hpasses : l.cursor.Passes passed behind)
    (hpassed : passed ≠ []) : ∃ l₂, l.readNode read = .ok l₂ ∧ l.Gives passed token l₂ ∧
      l₂.flowDepth = l.flowDepth ∧
      (l.keyAllowed = true → l₂.keys = Ready.newKey l :: l.forgetKey.keys) := by
  obtain ⟨keys, hsave, hready, hkeys⟩ := h.saveKey
  have hkeeps : l.Keeps { l with keys := keys, keyAllowed := false } :=
    ⟨hready.with_flow l.flowDepth false, rfl, rfl, rfl⟩
  refine ⟨Lexer.addUpTo _ token behind, ?_, hkeeps.addUpTo hpasses hpassed token, rfl, hkeys⟩
  rw [readNode, hsave, Except.ok_bind]
  simp only [allowKey, hread, Except.ok_bind]
  rfl

theorem readPlain_ok (h : l.Ready) (hrest : l.cursor.rest = word ++ rest) (hword : IsWord word)
    (hend : plainRun l.inFlow (skipSpace rest) = []) (hclear : (l.cursor.skip word.length).Clear) :
    ∃ l₂ text passed, l.readPlain = .ok l₂ ∧ l.Gives passed (.scalar text true) l₂ ∧
      l₂.flowDepth = l.flowDepth ∧ l₂.cursor.rest = skipSpace rest := by
  obtain ⟨keys, hsave, hready, -⟩ := h.saveKey
  have hpasses : l.cursor.Passes word (l.cursor.skip word.length) := .of_skip word hrest
  have hcursor := plain_ok hrest hword hend hclear l.indent
  have hall := hpasses.trans (Cursor.passes_dropBlanks _)
  have hpassed : word ++ (l.cursor.skip word.length).rest.takeWhile isSpace ≠ [] := by
    obtain ⟨ch, more, -, hcons | hcons⟩ := hword.start <;> simp [hcons]
  rw [← hcursor] at hall
  let plain := l.cursor.plain l.inFlow l.indent
  let token : PlacedToken :=
    ⟨.scalar (String.ofList plain.text) true, l.cursor.place, plain.stop⟩
  have hready' := ((hready.with_waiting (l.waiting ++ [token])).with_flow l.flowDepth
    plain.crossesLine).with_cursor hall hpassed
  refine ⟨_, String.ofList plain.text, _, ?_, ⟨hready', hall, hpassed, ⟨_, _, rfl⟩, rfl⟩, rfl, ?_⟩
  · rw [readPlain, hsave]
    rfl
  · show (l.cursor.plain l.inFlow l.indent).cursor.rest = _
    rw [hcursor, Cursor.rest_dropBlanks, hpasses.rest_eq hrest]

/-! ## Which token stands there -/

theorem atSeparator_of_head (hrest : l.cursor.rest = ch :: rest) (hdash : ch ≠ '-')
    (hdot : ch ≠ '.') : l.cursor.atSeparator = false := by
  rw [Bool.eq_false_iff]
  intro hseparator
  obtain ⟨more, hmore | hmore⟩ := Cursor.rest_of_atSeparator hseparator
  · rw [hrest] at hmore
    exact hdash (List.cons.inj hmore).1
  · rw [hrest] at hmore
    exact hdot (List.cons.inj hmore).1

theorem readToken_flowSequenceStart (hrest : l.cursor.rest = '[' :: rest) :
    l.readToken = l.readFlowStart .flowSequenceStart := by
  have hseparator := atSeparator_of_head hrest (by decide) (by decide)
  simp [readToken, Cursor.head_eq hrest, hseparator, endMark]

theorem readToken_flowMappingStart (hrest : l.cursor.rest = '\x7b' :: rest) :
    l.readToken = l.readFlowStart .flowMappingStart := by
  have hseparator := atSeparator_of_head hrest (by decide) (by decide)
  simp [readToken, Cursor.head_eq hrest, hseparator, endMark]

theorem readToken_flowSequenceEnd (hrest : l.cursor.rest = ']' :: rest) :
    l.readToken = l.readFlowEnd .flowSequenceEnd := by
  have hseparator := atSeparator_of_head hrest (by decide) (by decide)
  simp [readToken, Cursor.head_eq hrest, hseparator, endMark]

theorem readToken_flowMappingEnd (hrest : l.cursor.rest = '\x7d' :: rest) :
    l.readToken = l.readFlowEnd .flowMappingEnd := by
  have hseparator := atSeparator_of_head hrest (by decide) (by decide)
  simp [readToken, Cursor.head_eq hrest, hseparator, endMark]

theorem readToken_flowEntry (hrest : l.cursor.rest = ',' :: rest) :
    l.readToken = l.readFlowEntry := by
  have hseparator := atSeparator_of_head hrest (by decide) (by decide)
  simp [readToken, Cursor.head_eq hrest, hseparator, endMark]

theorem readToken_value (hrest : l.cursor.rest = ':' :: rest) (hflow : l.inFlow = true) :
    l.readToken = l.readValue := by
  have hseparator := atSeparator_of_head hrest (by decide) (by decide)
  simp [readToken, Cursor.head_eq hrest, hseparator, endMark, hflow]

theorem readToken_quoted (hrest : l.cursor.rest = '"' :: rest) : l.readToken =
    l.readNode fun c => return ((← c.quoted true).map (.scalar · false) id) := by
  have hseparator := atSeparator_of_head hrest (by decide) (by decide)
  simp [readToken, Cursor.head_eq hrest, hseparator, endMark]

theorem readToken_end (hrest : l.cursor.rest = []) : l.readToken = l.readEnd := by
  simp [readToken, Cursor.head_nil hrest]

theorem ne_of_isAlphanum {other : Char} (hch : ch.isAlphanum = true)
    (hother : other.isAlphanum = false) : ch ≠ other := by
  rintro rfl
  rw [hother] at hch
  cases hch

theorem isBlankOrEnd_of_isAlphanum (hch : ch.isAlphanum = true) : isBlankOrEnd ch = false := by
  have hne : ∀ other : Char, other.isAlphanum = false → ch ≠ other := fun _ => ne_of_isAlphanum hch
  simp [isBlankOrEnd, isSpaceOrEnd, isLineEnd, isLineBreak, hne '\t' rfl, hne ' ' rfl, hne '\n' rfl,
    hne '\r' rfl, hne '\x85' rfl, hne '\u2028' rfl, hne '\u2029' rfl, hne endMark rfl]

theorem readToken_word (hrest : l.cursor.rest = word ++ rest) (hword : IsWord word) :
    l.readToken = l.readPlain := by
  obtain ⟨ch, more, hch, rfl | rfl⟩ := hword.start
  · have hne : ∀ other : Char, other.isAlphanum = false → ch ≠ other :=
      fun _ => ne_of_isAlphanum hch
    have hseparator := atSeparator_of_head hrest (hne '-' rfl) (hne '.' rfl)
    have hstarts : l.startsPlain = true := by
      rw [startsPlain, Cursor.head_eq hrest]
      simp [isIndicator, isBlankOrEnd_of_isAlphanum hch, isFlowMark, hne]
    simp [readToken, Cursor.head_eq hrest, hseparator, hstarts, hne, endMark]
  · have hseparator : l.cursor.atSeparator = false := by
      rw [Bool.eq_false_iff]
      intro hseparator
      obtain ⟨rest', hrest' | hrest'⟩ := Cursor.rest_of_atSeparator hseparator
      · rw [hrest'] at hrest
        simp only [List.cons_append, List.cons.injEq, true_and] at hrest
        exact ne_of_isAlphanum hch rfl hrest.1.symm
      · rw [hrest'] at hrest
        simp at hrest
    have hblank : isBlankOrEnd (l.cursor.peek 1) = false := by
      rw [Cursor.peek_one hrest]
      exact isBlankOrEnd_of_isAlphanum hch
    have hstarts : l.startsPlain = true := by
      rw [startsPlain, Cursor.head_eq hrest, hblank]
      rfl
    simp [readToken, Cursor.head_eq hrest, hseparator, hblank, hstarts, endMark]

end

/-! ## Releasing tokens -/

theorem foldl_min_le (start : Nat) (ns : List Nat) :
    ns.foldl min start ≤ start ∧ ∀ n ∈ ns, ns.foldl min start ≤ n := by
  induction ns generalizing start with
  | nil => exact ⟨Nat.le_refl start, nofun⟩
  | cons first rest ih =>
    obtain ⟨hstart, hrest⟩ := ih (min start first)
    rw [List.foldl_cons, List.forall_mem_cons]
    exact ⟨hstart.trans (Nat.min_le_left _ _), hstart.trans (Nat.min_le_right _ _), hrest⟩

theorem readyCount_eq (l : Lexer) :
    l.readyCount = (l.keys.map (·.number - l.released)).foldl min l.waiting.length := by
  rw [readyCount, List.foldl_map]

theorem readyCount_le (hkey : key ∈ l.keys) : l.readyCount ≤ key.number - l.released := by
  rw [readyCount_eq]
  exact (foldl_min_le _ _).2 _ (List.mem_map_of_mem hkey)

/-- The lexer behind the release of the tokens in front of all possible keys. -/
def release (l : Lexer) : Lexer :=
  { l with waiting := l.waiting.drop l.readyCount, released := l.released + l.readyCount }

theorem Ready.release (h : l.Ready) : l.release.Ready := by
  refine ⟨h.unfinished, h.unindented, h.column, h.optional, fun key hkey => ?_, h.unmarked⟩
  have hready := readyCount_le (l := l) hkey
  have hunreleased := h.unreleased key hkey
  show l.released + l.readyCount ≤ key.number
  omega

theorem tokensFrom_succ (fuel : Nat) (done : List PlacedToken) (l : Lexer) :
    tokensFrom (fuel + 1) done l =
      if l.finished then ⟨done.reverse, none⟩
      else
        match l.step with
        | .error fault => ⟨done.reverse, some fault⟩
        | .ok l => tokensFrom fuel ((l.waiting.take l.readyCount).reverse ++ done) l.release := by
  delta tokensFrom
  rfl

theorem tokensFrom_step (hfinished : l.finished = false) (hstep : l.step = .ok l₁) (fuel : Nat)
    (done : List PlacedToken) : tokensFrom (fuel + 1) done l =
      tokensFrom fuel ((l₁.waiting.take l₁.readyCount).reverse ++ done) l₁.release := by
  rw [tokensFrom_succ, hfinished, hstep]
  rfl

end Lexer

/-- A text that is being split, with the tokens that were released, last first. -/
structure Splitting where
  done : List PlacedToken
  lexer : Lexer

namespace Splitting

variable {s s' s'' : Splitting} {more more' : List Token} {l₁ l₂ : Lexer} {passed : Chars}

def tokens (s : Splitting) : List Token := (s.done.reverse ++ s.lexer.waiting).map (·.token)

def Runs (s s' : Splitting) : Prop :=
  ∃ steps, steps + s'.lexer.cursor.rest.length ≤ s.lexer.cursor.rest.length ∧
    ∀ fuel, Lexer.tokensFrom (fuel + steps) s.done s.lexer = Lexer.tokensFrom fuel s'.done s'.lexer

structure Splits (s : Splitting) (more : List Token) (s' : Splitting) : Prop where
  runs : s.Runs s'
  tokens : s'.tokens = s.tokens ++ more

theorem Runs.trans (h : s.Runs s') (h' : s'.Runs s'') : s.Runs s'' := by
  obtain ⟨steps, hlength, hrun⟩ := h
  obtain ⟨steps', hlength', hrun'⟩ := h'
  refine ⟨steps' + steps, by omega, fun fuel => ?_⟩
  rw [← Nat.add_assoc, hrun, hrun']

theorem Splits.trans (h : s.Splits more s') (h' : s'.Splits more' s'') :
    s.Splits (more ++ more') s'' where
  runs := h.runs.trans h'.runs
  tokens := by rw [h'.tokens, h.tokens, List.append_assoc]

def behind (s : Splitting) (l₂ : Lexer) : Splitting :=
  ⟨(l₂.fresh.waiting.take l₂.fresh.readyCount).reverse ++ s.done, l₂.fresh.release⟩

theorem tokens_behind (s : Splitting) (l₂ : Lexer) :
    (s.behind l₂).tokens = (s.done.reverse ++ l₂.waiting).map (·.token) := by
  rw [tokens, behind, List.reverse_append, List.reverse_reverse, List.append_assoc, Lexer.release,
    List.take_append_drop]
  rfl

theorem runs_behind (hready : s.lexer.Ready) (harrives : s.lexer.Arrives l₁)
    (hread : l₁.readToken = .ok l₂) (hready₂ : l₂.Ready)
    (hpasses : l₁.cursor.Passes passed l₂.cursor) (hpassed : passed ≠ []) : s.Runs (s.behind l₂) := by
  have hstep : s.lexer.step = .ok l₂.fresh := by
    rw [harrives.step, hread, Except.ok_bind, hready₂.unfinished, if_neg Bool.false_ne_true,
      hready₂.dropStaleKeys]
  refine ⟨1, ?_, fun fuel => Lexer.tokensFrom_step hready.unfinished hstep fuel s.done⟩
  have hpassed := List.length_pos_iff.mpr hpassed
  have hlength : s.lexer.cursor.rest.length =
      (s.lexer.cursor.rest.takeWhile isSpace).length + (passed.length + l₂.cursor.rest.length) := by
    rw [← List.length_append, ← hpasses.text, harrives.cursor, Cursor.rest_dropBlanks,
      ← List.length_append, takeWhile_append_skipSpace]
  have hrest : (s.behind l₂).lexer.cursor.rest = l₂.cursor.rest := rfl
  rw [hrest]
  omega

/-- The text goes on like this behind its blanks, inside so many collections. -/
structure At (s : Splitting) (depth : Nat) (text : Chars) : Prop where
  ready : s.lexer.Ready
  depth : s.lexer.flowDepth = depth
  text : skipSpace s.lexer.cursor.rest = text
  fits : fitsFrom false s.lexer.cursor.rest = true

variable {depth depth' : Nat} {text rest : Chars} {ch : Char}

theorem at_behind (s : Splitting) (hready : l₂.Ready) (hdepth : l₂.flowDepth = depth)
    (hrest : l₂.cursor.rest = rest) (hfits : fitsFrom false rest = true) :
    (s.behind l₂).At depth (skipSpace rest) :=
  ⟨hready.fresh.release, hdepth, congrArg skipSpace hrest, hrest ▸ hfits⟩

theorem At.fits_text (h : s.At depth text) : fitsFrom false text = true :=
  h.text ▸ (fitsFrom_skipSpace h.fits).1

theorem At.exists_arrives (h : s.At depth text)
    (htoken : ∀ ch rest, text = ch :: rest → isLineBreak ch = false ∧ ch ≠ '#') :
    ∃ l₁, s.lexer.Arrives l₁ ∧ l₁.cursor.rest = text ∧ l₁.flowDepth = depth := by
  have hclear : s.lexer.cursor.Clear :=
    ⟨(fitsFrom_skipSpace h.fits).2, fun ch rest htext => htoken ch rest (h.text ▸ htext)⟩
  obtain ⟨l₁, harrives⟩ := Lexer.exists_arrives h.ready hclear
  refine ⟨l₁, harrives, ?_, harrives.flowDepth.trans h.depth⟩
  rw [harrives.cursor, Cursor.rest_dropBlanks, h.text]

theorem At.exists_arrives_char (h : s.At depth (ch :: rest)) (hbreak : isLineBreak ch = false)
    (hcomment : ch ≠ '#') :
    ∃ l₁, s.lexer.Arrives l₁ ∧ l₁.cursor.rest = ch :: rest ∧ l₁.flowDepth = depth := by
  refine h.exists_arrives fun ch' rest' heq => ?_
  obtain ⟨rfl, -⟩ := List.cons.inj heq
  exact ⟨hbreak, hcomment⟩

/-! ## The tokens of JSON -/

theorem At.behind (h : s.At depth text) {token : Token} (harrives : s.lexer.Arrives l₁)
    (hread : l₁.readToken = .ok l₂) (hgives : l₁.Gives passed token l₂)
    (hdepth : l₂.flowDepth = depth') (hrest : l₂.cursor.rest = rest)
    (hfits : fitsFrom false rest = true) :
    s.Splits [token] (s.behind l₂) ∧ (s.behind l₂).At depth' (skipSpace rest) := by
  refine ⟨⟨runs_behind h.ready harrives hread hgives.ready hgives.passes hgives.moves, ?_⟩,
    at_behind s hgives.ready hdepth hrest hfits⟩
  obtain ⟨start, stop, hwaiting⟩ := hgives.waiting
  rw [tokens_behind, hwaiting, harrives.waiting, ← List.append_assoc, List.map_append]
  rfl

theorem not_isComment_of_isFlowMark (hch : isFlowMark ch = true) :
    isLineBreak ch = false ∧ ch ≠ '#' ∧ ch ≠ '"' := by
  simp only [isFlowMark, List.contains_cons, List.contains_nil, Bool.or_eq_true, beq_iff_eq,
    Bool.or_false] at hch
  rcases hch with rfl | rfl | rfl | rfl | rfl <;> decide

theorem At.exists_arrives_mark (h : s.At depth (ch :: rest)) (hch : isFlowMark ch = true) :
    ∃ l₁, s.lexer.Arrives l₁ ∧ l₁.cursor.rest = ch :: rest ∧ l₁.flowDepth = depth ∧
      fitsFrom false rest = true := by
  obtain ⟨hbreak, hcomment, hquote⟩ := not_isComment_of_isFlowMark hch
  obtain ⟨l₁, harrives, hrest, hdepth⟩ := h.exists_arrives_char hbreak hcomment
  have hfits := h.fits_text
  rw [fitsFrom_outside hquote, Bool.and_eq_true] at hfits
  exact ⟨l₁, harrives, hrest, hdepth, hfits.2⟩

theorem At.flowStart (h : s.At depth (ch :: rest)) (hch : isFlowMark ch = true) {token : Token}
    (hread : ∀ l₁ : Lexer, l₁.cursor.rest = ch :: rest → l₁.readToken = l₁.readFlowStart token) :
    ∃ s', s.Splits [token] s' ∧ s'.At (depth + 1) (skipSpace rest) ∧
      s'.lexer.keyAllowed = true := by
  obtain ⟨l₁, harrives, hrest, rfl, hfits⟩ := h.exists_arrives_mark hch
  obtain ⟨l₂, hl₂, hgives, hdepth, hallowed⟩ := Lexer.readFlowStart_ok harrives.ready hrest token
  obtain ⟨hsplits, hat⟩ := h.behind harrives ((hread l₁ hrest).trans hl₂) hgives hdepth
    (hgives.passes.rest_eq hrest) hfits
  exact ⟨_, hsplits, hat, hallowed⟩

theorem At.flowEnd (h : s.At (depth + 1) (ch :: rest)) (hch : isFlowMark ch = true) {token : Token}
    (hread : ∀ l₁ : Lexer, l₁.cursor.rest = ch :: rest → l₁.readToken = l₁.readFlowEnd token) :
    ∃ s', s.Splits [token] s' ∧ s'.At depth (skipSpace rest) := by
  obtain ⟨l₁, harrives, hrest, hdepth₁, hfits⟩ := h.exists_arrives_mark hch
  obtain ⟨l₂, hl₂, hgives, hdepth⟩ := Lexer.readFlowEnd_ok harrives.ready hrest token
  rw [hdepth₁, Nat.add_sub_cancel] at hdepth
  exact ⟨_, h.behind harrives ((hread l₁ hrest).trans hl₂) hgives hdepth
    (hgives.passes.rest_eq hrest) hfits⟩

theorem At.flowEntry (h : s.At depth (',' :: rest)) : ∃ s', s.Splits [.flowEntry] s' ∧
    s'.At depth (skipSpace rest) ∧ s'.lexer.keyAllowed = true := by
  obtain ⟨l₁, harrives, hrest, rfl, hfits⟩ := h.exists_arrives_mark rfl
  obtain ⟨l₂, hl₂, hgives, hdepth, hallowed⟩ := Lexer.readFlowEntry_ok harrives.ready hrest
  obtain ⟨hsplits, hat⟩ := h.behind harrives ((Lexer.readToken_flowEntry hrest).trans hl₂) hgives
    hdepth (hgives.passes.rest_eq hrest) hfits
  exact ⟨_, hsplits, hat, hallowed⟩

variable {body chars letters : Chars}

theorem At.exists_arrives_string (h : s.At depth ('"' :: (body ++ '"' :: rest)))
    (hbody : Body body chars) : ∃ l₁ l₂ read, s.lexer.Arrives l₁ ∧ l₁.flowDepth = depth ∧
      l₁.readToken = .ok l₂ ∧
      l₁.Gives ('"' :: (body ++ ['"'])) (.scalar (String.ofList read) false) l₂ ∧
      l₂.flowDepth = depth ∧
      (l₁.keyAllowed = true → l₂.keys = Lexer.Ready.newKey l₁ :: l₁.forgetKey.keys) ∧
      l₂.cursor.rest = rest ∧ fitsFrom false rest = true ∧
      nameFits (body ++ '"' :: rest) = true ∧ (isLiteral body = true → read = chars) := by
  obtain ⟨l₁, harrives, hrest, rfl⟩ := h.exists_arrives_char rfl (by decide)
  have hfits := h.fits_text
  rw [fitsFrom, Bool.and_eq_true] at hfits
  obtain ⟨read, c', hquoted, hpasses, hliteral⟩ := quoted_ok hbody hrest hfits.2
  have hscalar : (return ((← l₁.cursor.quoted true).map (.scalar · false) id)) =
      (.ok (Token.scalar (String.ofList read) false, c') : Except YamlFault (Token × Cursor)) := by
    rw [hquoted]
    rfl
  obtain ⟨l₂, hl₂, hgives, hdepth, hkeys⟩ := Lexer.readNode_ok harrives.ready
    (fun c => return ((← c.quoted true).map (.scalar · false) id)) hscalar hpasses
    (List.cons_ne_nil _ _)
  have hrest₂ : l₂.cursor.rest = rest := hgives.passes.rest_eq (by simp [hrest])
  exact ⟨l₁, l₂, read, harrives, rfl, (Lexer.readToken_quoted hrest).trans hl₂, hgives, hdepth,
    hkeys, hrest₂, fitsFrom_body hbody hfits.2, hfits.1, hliteral⟩

theorem At.string (h : s.At depth ('"' :: (body ++ '"' :: rest))) (hbody : Body body chars) :
    ∃ read s', s.Splits [.scalar read false] s' ∧ s'.At depth (skipSpace rest) := by
  obtain ⟨l₁, l₂, read, harrives, -, hread, hgives, hdepth, -, hrest, hfits, -⟩ :=
    h.exists_arrives_string hbody
  exact ⟨_, _, h.behind harrives hread hgives hdepth hrest hfits⟩

/-- What stands behind a value: nothing at the root, and a mark inside a collection. -/
def Follows (depth : Nat) (cs : Chars) : Prop :=
  (depth = 0 ∧ skipSpace cs = []) ∨
    (depth ≠ 0 ∧ ∃ mark more, skipSpace cs = mark :: more ∧ isFlowMark mark = true)

theorem Follows.of_mark {cs more : Chars} (h : skipSpace cs = ch :: more)
    (hmark : isFlowMark ch = true) : Follows (depth + 1) cs :=
  .inr ⟨Nat.succ_ne_zero depth, ch, more, h, hmark⟩

theorem Follows.plainRun {cs : Chars} (h : Follows depth cs) :
    plainRun (depth != 0) (skipSpace cs) = [] := by
  rcases h with ⟨-, hend⟩ | ⟨hdepth, mark, more, hmark, hflow⟩
  · rw [hend]
    rfl
  · rw [hmark, Yaml.plainRun, endsPlain, hflow, bne_iff_ne.mpr hdepth]
    simp

theorem Follows.token {cs : Chars} (h : Follows depth cs) (ch : Char) (rest : Chars)
    (hrest : skipSpace cs = ch :: rest) : isLineBreak ch = false ∧ ch ≠ '#' := by
  rcases h with ⟨-, hend⟩ | ⟨-, mark, more, hmark, hflow⟩
  · rw [hend] at hrest
    cases hrest
  · rw [hmark] at hrest
    obtain ⟨rfl, -⟩ := List.cons.inj hrest
    obtain ⟨hbreak, hcomment, -⟩ := not_isComment_of_isFlowMark hflow
    exact ⟨hbreak, hcomment⟩

theorem fitsFrom_word (hword : ∀ ch ∈ letters, isBareCharacter ch = true)
    (hfits : fitsFrom false (letters ++ rest) = true) : fitsFrom false rest = true := by
  induction letters with
  | nil => exact hfits
  | cons ch letters ih =>
    rw [List.forall_mem_cons] at hword
    have hquote : ch ≠ '"' := by
      rintro rfl
      cases hword.1
    rw [List.cons_append, fitsFrom_outside hquote, Bool.and_eq_true] at hfits
    exact ih hword.2 hfits.2

theorem skipSpace_word (hword : IsWord letters) (rest : Chars) :
    ∃ ch more, letters ++ rest = ch :: more ∧ isLineBreak ch = false ∧ ch ≠ '#' := by
  obtain ⟨ch, more, hch, rfl | rfl⟩ := hword.start
  · refine ⟨ch, more ++ rest, rfl, ?_, Lexer.ne_of_isAlphanum hch rfl⟩
    have hblank := Lexer.isBlankOrEnd_of_isAlphanum hch
    simp only [isBlankOrEnd, isSpaceOrEnd, isLineEnd, Bool.or_eq_false_iff] at hblank
    exact hblank.2.2.1
  · exact ⟨'-', ch :: more ++ rest, rfl, rfl, by decide⟩

theorem At.word (h : s.At depth (letters ++ rest)) (hword : IsWord letters)
    (hfollows : Follows depth rest) :
    ∃ text s', s.Splits [.scalar text true] s' ∧ s'.At depth (skipSpace rest) := by
  obtain ⟨first, more, hfirst, hbreak, hcomment⟩ := skipSpace_word hword rest
  obtain ⟨l₁, harrives, hrest, rfl⟩ := h.exists_arrives fun ch' rest' heq => by
    obtain ⟨rfl, -⟩ := List.cons.inj (hfirst.symm.trans heq)
    exact ⟨hbreak, hcomment⟩
  have hfits := fitsFrom_word hword.chars h.fits_text
  have hbehind : (l₁.cursor.skip letters.length).rest = rest :=
    (Cursor.Passes.of_skip _ hrest).rest_eq hrest
  obtain ⟨l₂, text, passed, hl₂, hgives, hdepth, hrest₂⟩ := Lexer.readPlain_ok harrives.ready hrest
    hword hfollows.plainRun
    ⟨by rw [hbehind]; exact (fitsFrom_skipSpace hfits).2, by rw [hbehind]; exact hfollows.token⟩
  obtain ⟨hsplits, hat⟩ := h.behind harrives ((Lexer.readToken_word hrest hword).trans hl₂) hgives
    hdepth hrest₂ (fitsFrom_skipSpace hfits).1
  rw [skipSpace_skipSpace] at hat
  exact ⟨text, _, hsplits, hat⟩

/-! ## Names -/

theorem not_isStale {l : Lexer} {c : Cursor} {key : PossibleKey} (hpasses : c.Passes passed l.cursor)
    (hline : ∀ ch ∈ passed, isLineBreak ch = false) (hlength : passed.length ≤ maxKeyLength)
    (hindex : key.index = c.index) (hplace : key.place = c.place) : l.isStale key = false := by
  have hsame := hpasses.line hline
  have hmoved := hpasses.index
  rw [Lexer.isStale, hplace, hindex, hsame, bne_self_eq_false, Bool.false_or, decide_eq_false_iff_not]
  omega

/-- A scalar waits for the colon that makes it a key; the key starts at the cursor. -/
structure Awaits (s : Splitting) (before : List Token) (scalar : Token) (key : PossibleKey)
    (c : Cursor) : Prop where
  first : ∃ others, s.lexer.keys = key :: others
  flowDepth : key.flowDepth = s.lexer.flowDepth
  index : key.index = c.index
  place : key.place = c.place
  insert : ∀ mark : PlacedToken, (s.done.reverse ++
    s.lexer.waiting.insertIdx (key.number - s.lexer.released) mark).map (·.token) =
      before ++ [mark.token, scalar]

/-- The tokens in front of a scalar may have been released in part; a mark goes behind the others. -/
theorem insertIdx_released {α : Type} {done waiting : List α} {scalar mark : α} {count : Nat}
    (hcount : count ≤ waiting.length) :
    (((waiting ++ [scalar]).take count).reverse ++ done).reverse ++
        ((waiting ++ [scalar]).drop count).insertIdx (waiting.length - count) mark =
      (done.reverse ++ waiting) ++ [mark, scalar] := by
  have hinsert : (waiting.drop count ++ [scalar]).insertIdx (waiting.drop count).length mark =
      waiting.drop count ++ [mark, scalar] :=
    List.modifyTailIdx_add (List.cons mark) 0 (waiting.drop count) [scalar]
  rw [List.take_append_of_le_length hcount, List.drop_append_of_le_length hcount,
    ← List.length_drop, hinsert, List.reverse_append, List.reverse_reverse, List.append_assoc,
    ← List.append_assoc (waiting.take count), List.take_append_drop, List.append_assoc]

theorem At.exists_awaits {colon : Chars} (h : s.At (depth + 1) ('"' :: (body ++ '"' :: colon)))
    (hallowed : s.lexer.keyAllowed = true) (hbody : Body body chars)
    (hliteral : isLiteral body = true) (hlength : body.length + 2 ≤ maxKeyLength) :
    ∃ s' key c, s.Runs s' ∧ s'.At (depth + 1) (skipSpace colon) ∧ s'.lexer.cursor.rest = colon ∧
      s'.Awaits s.tokens (.scalar (String.ofList chars) false) key c ∧
      c.Passes ('"' :: (body ++ ['"'])) s'.lexer.cursor := by
  obtain ⟨l₁, l₂, read, harrives, hdepth₁, hread, hgives, hdepth₂, hkeys, hrest, hfits, -, hread'⟩ :=
    h.exists_arrives_string hbody
  obtain rfl := hread' hliteral
  have hflow : s.lexer.inFlow = true := by rw [Lexer.inFlow, h.depth]; rfl
  have hquoted : ('"' :: (body ++ ['"'])).length ≤ maxKeyLength := by
    rwa [List.length_cons, List.length_append, List.length_singleton]
  have hfresh : l₂.isStale (Lexer.Ready.newKey l₁) = false :=
    not_isStale hgives.passes (isLineBreak_of_quoted hbody hliteral) hquoted rfl rfl
  have hfirst : l₂.fresh.keys =
      Lexer.Ready.newKey l₁ :: l₁.forgetKey.keys.filter (!l₂.isStale ·) := by
    rw [Lexer.fresh, hkeys (by rw [harrives.keyAllowed hflow, hallowed]),
      List.filter_cons_of_pos (by rw [hfresh]; rfl)]
  have hat := at_behind s hgives.ready hdepth₂ hrest hfits
  obtain ⟨start, stop, hwaiting⟩ := hgives.waiting
  have hready : l₂.fresh.readyCount ≤ l₁.waiting.length := by
    have hle := Lexer.readyCount_le (l := l₂.fresh) (hfirst ▸ List.mem_cons_self)
    have hreleased : l₂.fresh.released = l₁.released := hgives.released
    simp only [Lexer.Ready.newKey, hreleased] at hle
    omega
  refine ⟨s.behind l₂, Lexer.Ready.newKey l₁, l₁.cursor,
    runs_behind h.ready harrives hread hgives.ready hgives.passes hgives.moves, hat, hrest,
    ⟨⟨_, hfirst⟩, hdepth₁.trans hdepth₂.symm, rfl, rfl, fun mark => ?_⟩, hgives.passes⟩
  have hnumber : (Lexer.Ready.newKey l₁).number - (s.behind l₂).lexer.released =
      l₁.waiting.length - l₂.fresh.readyCount := by
    have hreleased : (s.behind l₂).lexer.released = l₁.released + l₂.fresh.readyCount :=
      congrArg (· + l₂.fresh.readyCount) hgives.released
    rw [hreleased, Lexer.Ready.newKey]
    simp only
    omega
  rw [hnumber]
  have hfreshWaiting : l₂.fresh.waiting = l₁.waiting ++
      [⟨.scalar (String.ofList read) false, start, stop⟩] := hwaiting
  simp only [Splitting.behind, Lexer.release, hfreshWaiting, insertIdx_released hready]
  rw [harrives.waiting, List.map_append]
  rfl

theorem At.colon {c : Cursor} {key : PossibleKey} {before : List Token} {scalar : Token}
    {more : Chars} (h : s.At (depth + 1) (':' :: more)) (hawaits : s.Awaits before scalar key c)
    (hpasses : c.Passes passed s.lexer.cursor) (hline : ∀ ch ∈ passed, isLineBreak ch = false)
    (hspaces : ∀ ch ∈ s.lexer.cursor.rest.takeWhile isSpace, ch = ' ')
    (hlength : passed.length + (s.lexer.cursor.rest.takeWhile isSpace).length ≤ maxKeyLength) :
    ∃ s', s.Runs s' ∧ s'.At (depth + 1) (skipSpace more) ∧
      s'.tokens = before ++ [.key, scalar, .value] := by
  obtain ⟨l₁, harrives, hrest, hdepth⟩ := h.exists_arrives_char rfl (by decide)
  have hfits := h.fits_text
  rw [fitsFrom_outside (by decide), Bool.and_eq_true] at hfits
  have hflow : l₁.inFlow = true := by rw [Lexer.inFlow, hdepth]; rfl
  have hfresh : l₁.isStale key = false := by
    have hblanks : c.Passes (passed ++ s.lexer.cursor.rest.takeWhile isSpace) l₁.cursor := by
      rw [harrives.cursor]
      exact hpasses.trans (Cursor.passes_dropBlanks _)
    refine not_isStale hblanks ?_ (by rwa [List.length_append]) hawaits.index hawaits.place
    rw [List.forall_mem_append]
    exact ⟨hline, fun ch hch => by rw [hspaces ch hch]; rfl⟩
  obtain ⟨others, hothers⟩ := hawaits.first
  have hkey : l₁.key? = some key := by
    have hsame : key.flowDepth = l₁.flowDepth := by rw [hawaits.flowDepth, harrives.flowDepth]
    rw [Lexer.key?, harrives.keys, hothers, List.filter_cons_of_pos (by rw [hfresh]; rfl),
      List.find?_cons_of_pos (by rw [hsame, beq_self_eq_true])]
  let marked : Lexer := (l₁.forgetKey.insert key.number .key key.place).allowKey false
  have hmark : l₁.markKey key = l₁.forgetKey.insert key.number .key key.place := by
    rw [Lexer.markKey, Lexer.opensBlock, hflow]
    rfl
  have hread : l₁.readToken = .ok (marked.addMark .value 1) := by
    rw [Lexer.readToken_value hrest hflow, Lexer.readValue, hkey]
    simp only [hmark]
    rfl
  have hcolon : l₁.cursor.Passes [':'] (marked.addMark .value 1).cursor := .of_next hrest
  have hready : (marked.addMark .value 1).Ready :=
    ((harrives.ready.forgetKey.with_waiting _).with_flow l₁.flowDepth false).with_waiting _
      |>.with_cursor hcolon (List.cons_ne_nil _ _)
  refine ⟨_, runs_behind h.ready harrives hread hready hcolon (List.cons_ne_nil _ _),
    at_behind s hready hdepth (hcolon.rest_eq hrest) hfits.2, ?_⟩
  have hwaiting : (marked.addMark .value 1).waiting =
      s.lexer.waiting.insertIdx (key.number - s.lexer.released) ⟨.key, key.place, key.place⟩ ++
        [⟨.value, l₁.cursor.place, (l₁.cursor.skip 1).place⟩] := by
    rw [← harrives.waiting, ← harrives.released]
    rfl
  rw [tokens_behind, hwaiting, ← List.append_assoc, List.map_append, hawaits.insert]
  simp

theorem At.name {colon more : Chars} (h : s.At (depth + 1) ('"' :: (body ++ '"' :: colon)))
    (hallowed : s.lexer.keyAllowed = true) (hbody : Body body chars)
    (hcolon : skipSpace colon = ':' :: more) :
    ∃ s', s.Splits [.key, .scalar (String.ofList chars) false, .value] s' ∧
      s'.At (depth + 1) (skipSpace more) := by
  have hfits := h.fits_text
  rw [fitsFrom, Bool.and_eq_true] at hfits
  have hname := hfits.1
  simp only [nameFits, cutString_body hbody, hcolon, List.head?_cons, bne_self_eq_false,
    Bool.false_or, Bool.and_eq_true, decide_eq_true_eq, List.all_eq_true, beq_iff_eq] at hname
  obtain ⟨⟨hliteral, hspaces⟩, hlength⟩ := hname
  obtain ⟨s₁, key, c, hruns, hat, hrest, hawaits, hpasses⟩ :=
    h.exists_awaits hallowed hbody hliteral (by omega)
  rw [hcolon] at hat
  have hline := isLineBreak_of_quoted hbody hliteral
  obtain ⟨s₂, hruns', hat', htokens⟩ := hat.colon hawaits hpasses hline (by rwa [hrest])
    (by rw [hrest]; simpa [Nat.add_right_comm, Nat.add_assoc] using hlength)
  exact ⟨s₂, ⟨hruns.trans hruns', htokens⟩, hat'⟩

theorem At.tokensFrom_end (h : s.At 0 []) (fuel : Nat) :
    ∃ placed, Lexer.tokensFrom (fuel + 1) s.done s.lexer = ⟨placed, none⟩ ∧
      placed.map (·.token) = s.tokens ++ [.streamEnd] := by
  obtain ⟨l₁, harrives, hrest, hdepth⟩ := h.exists_arrives (by simp)
  let last : Lexer :=
    { (l₁.forgetKey.allowKey false).addHere .streamEnd with keys := [], finished := true }
  have hread : l₁.readToken = .ok last := by
    rw [Lexer.readToken_end hrest, Lexer.readEnd, Lexer.leaveDocument, harrives.ready.closeBlocks,
      harrives.ready.dropKey]
    rfl
  have hstep : s.lexer.step = .ok last := by
    rw [harrives.step, hread]
    rfl
  have hall : last.readyCount = last.waiting.length := rfl
  have hwaiting : last.waiting =
      s.lexer.waiting ++ [⟨.streamEnd, l₁.cursor.place, l₁.cursor.place⟩] := by
    rw [← harrives.waiting]
    rfl
  refine ⟨s.done.reverse ++ last.waiting, ?_, ?_⟩
  · rw [Lexer.tokensFrom_step h.ready.unfinished hstep, hall, List.take_length]
    have hdone : (last.waiting.reverse ++ s.done).reverse = s.done.reverse ++ last.waiting := by
      rw [List.reverse_append, List.reverse_reverse]
    cases fuel with
    | zero => rw [← hdone]; rfl
    | succ fuel => rw [Lexer.tokensFrom_succ, ← hdone]; rfl
  · rw [hwaiting, ← List.append_assoc, List.map_append]
    rfl

end Splitting

end JsonSchema.Yaml
