import JsonSchema.Proofs.Yaml.Fitting

/-!
# JSON scalars as YAML scalars

A JSON string that fits is a scalar in double quotes, and a number or a word of JSON is a scalar
without quotes.
-/

namespace JsonSchema.Yaml

open JsonReader

/-! ## Inside a string -/

/-- A place inside a string that fits: a cursor, and what is left up to the closing quote. -/
structure InString (rest : Chars) where
  cursor : Cursor
  body : Chars
  chars : Chars
  text : cursor.rest = body ++ '"' :: rest
  written : Body body chars
  fits : fitsFrom true cursor.rest = true

namespace InString

variable {rest : Chars} {s s' s'' : InString rest} {passed passed' read read' : Chars}

structure Moves (s : InString rest) (passed : Chars) (s' : InString rest) : Prop where
  passes : s.cursor.Passes passed s'.cursor
  body : s.body = passed ++ s'.body

/-- What is read in between are the characters of the string, where it is literal. -/
structure Reads (s : InString rest) (passed read : Chars) (s' : InString rest) : Prop extends
    s.Moves passed s' where
  literal : isLiteral s.body = true → isLiteral s'.body = true ∧ s.chars = read ++ s'.chars

theorem Moves.refl (s : InString rest) : s.Moves [] s := ⟨.refl _, rfl⟩

theorem Moves.trans (h : s.Moves passed s') (h' : s'.Moves passed' s'') :
    s.Moves (passed ++ passed') s'' where
  passes := h.passes.trans h'.passes
  body := by rw [h.body, h'.body, List.append_assoc]

theorem Reads.refl (s : InString rest) : s.Reads [] [] s := ⟨.refl s, fun h => ⟨h, rfl⟩⟩

theorem Reads.trans (h : s.Reads passed read s') (h' : s'.Reads passed' read' s'') :
    s.Reads (passed ++ passed') (read ++ read') s'' where
  toMoves := h.toMoves.trans h'.toMoves
  literal hliteral := by
    obtain ⟨hmiddle, hchars⟩ := h.literal hliteral
    obtain ⟨hlast, hchars'⟩ := h'.literal hmiddle
    exact ⟨hlast, by rw [hchars, hchars', List.append_assoc]⟩

theorem length_lt (s : InString rest) : s.body.length < s.cursor.rest.length := by
  rw [s.text, List.length_append, List.length_cons]
  omega

inductive Next (s : InString rest) : Prop
  | stop (htext : s.cursor.rest = '"' :: rest) (hbody : s.body = []) (hchars : s.chars = [])
  | plain (ch : Char) (s' : InString rest) (hquote : ch ≠ '"') (hslash : ch ≠ '\\')
      (hcontrol : 32 ≤ ch.toNat) (hreads : s.Reads [ch] [ch] s')
      (hbreak : isLineBreak ch = true →
        isLiteral s.body = false ∧ s'.cursor.atSeparator = false)
  | escape (ch escaped : Char) (s' : InString rest) (hch : simpleEscape? ch = some escaped)
      (hreads : s.Reads ['\\', ch] [escaped] s')
  | unit (a b c d : Char) (n : Nat) (s' : InString rest) (hunit : hexUnit? a b c d = some n)
      (hreads : s.Reads ['\\', 'u', a, b, c, d] [unitChar n] s')

theorem next (s : InString rest) : s.Next := by
  obtain ⟨c, body, chars, htext, hwritten, hfits⟩ := s
  cases hwritten with
  | nil => exact .stop htext rfl rfl
  | @plain ch body chars hquote hslash hcontrol hbody =>
    have hpasses : c.Passes [ch] c.next := .of_next htext
    have hrest : c.next.rest = body ++ '"' :: rest := hpasses.rest_eq htext
    rw [htext, List.cons_append, fitsFrom_plain hquote hslash, Bool.and_eq_true] at hfits
    refine .plain ch ⟨c.next, body, chars, hrest, hbody, by rw [hrest]; exact hfits.2⟩ hquote hslash
      hcontrol ⟨⟨hpasses, rfl⟩, fun hliteral => ?_⟩ fun hbreak => ⟨?_, ?_⟩
    · rw [isLiteral_plain hslash, Bool.and_eq_true] at hliteral
      exact ⟨hliteral.2, rfl⟩
    · rw [isLiteral_plain hslash, hbreak, Bool.not_true, Bool.false_and]
    · simp only [hbreak, Bool.true_and, Bool.not_eq_true'] at hfits
      rw [← hfits.1]
      exact congrArg (fun cs => (Cursor.ofChars cs).atSeparator) hrest
  | @escape ch escaped body chars hch hbody =>
    have hpasses : c.Passes ['\\', ch] (Cursor.skip 2 c) := .of_skip ['\\', ch] htext
    have hrest : (Cursor.skip 2 c).rest = body ++ '"' :: rest := hpasses.rest_eq htext
    have hu : ch ≠ 'u' := by
      rintro rfl
      cases hch
    rw [htext, List.cons_append, List.cons_append, fitsFrom_escape] at hfits
    refine .escape ch escaped ⟨Cursor.skip 2 c, body, chars, hrest, hbody, by rwa [hrest]⟩ hch
      ⟨⟨hpasses, rfl⟩, fun hliteral => ?_⟩
    rw [isLiteral_escape hu] at hliteral
    exact ⟨hliteral, rfl⟩
  | @unit a b d e n body chars hunit hbody =>
    have hpasses : c.Passes ['\\', 'u', a, b, d, e] (Cursor.skip 6 c) :=
      .of_skip ['\\', 'u', a, b, d, e] htext
    have hrest : (Cursor.skip 6 c).rest = body ++ '"' :: rest := hpasses.rest_eq htext
    rw [htext] at hfits
    simp only [List.cons_append, fitsFrom_unit hunit] at hfits
    refine .unit a b d e n ⟨Cursor.skip 6 c, body, chars, hrest, hbody, by rwa [hrest]⟩ hunit
      ⟨⟨hpasses, rfl⟩, fun hliteral => ?_⟩
    rw [isLiteral, Bool.and_eq_true] at hliteral
    exact ⟨hliteral.2, rfl⟩
  | @pair a b d e a' b' d' e' high low body chars hhigh hisHigh hlow hbody =>
    -- YAML reads the halves of a pair one by one.
    have hpasses : c.Passes ['\\', 'u', a, b, d, e] (Cursor.skip 6 c) :=
      .of_skip ['\\', 'u', a, b, d, e] htext
    have hrest : (Cursor.skip 6 c).rest =
        '\\' :: 'u' :: a' :: b' :: d' :: e' :: body ++ '"' :: rest := hpasses.rest_eq htext
    rw [htext] at hfits
    simp only [List.cons_append, fitsFrom_unit hhigh] at hfits
    refine .unit a b d e high
      ⟨Cursor.skip 6 c, _, unitChar low :: chars, hrest, .unit hlow hbody, by rwa [hrest]⟩ hhigh
      ⟨⟨hpasses, rfl⟩, fun hliteral => ?_⟩
    rw [isLiteral, hhigh, Option.any_some, hisHigh] at hliteral
    cases hliteral

theorem head_cases (s : InString rest) : (s.body = [] ∧ s.cursor.head = '"') ∨
    s.cursor.head = '\\' ∨ (s.cursor.head ≠ '"' ∧ s.cursor.head ≠ '\\' ∧ 32 ≤ s.cursor.head.toNat) := by
  cases s.next with
  | stop htext hbody => exact .inl ⟨hbody, Cursor.head_eq htext⟩
  | plain ch s' hquote hslash hcontrol hreads =>
    rw [Cursor.head_eq hreads.passes.text]
    exact .inr (.inr ⟨hquote, hslash, hcontrol⟩)
  | escape ch escaped s' hch hreads => exact .inr (.inl (Cursor.head_eq hreads.passes.text))
  | unit a b c d n s' hunit hreads => exact .inr (.inl (Cursor.head_eq hreads.passes.text))

/-! ## Blanks in a string -/

theorem exists_reads_blanks (s : InString rest) : ∃ run s', s.cursor.span isSpaceOrTab =
    (run, s'.cursor) ∧ s.Reads run run s' := by
  induction hlength : s.body.length using Nat.strongRecOn generalizing s with
  | ind n ih =>
    have hstay : isSpaceOrTab s.cursor.head = false → ∃ run s', s.cursor.span isSpaceOrTab =
        (run, s'.cursor) ∧ s.Reads run run s' := by
      refine fun hhead => ⟨[], s, Cursor.span_of_neg fun ch rest htext => ?_, .refl s⟩
      rwa [Cursor.head_eq htext] at hhead
    cases s.next with
    | stop htext => exact hstay (by rw [Cursor.head_eq htext]; rfl)
    | plain ch s' _ _ _ hreads =>
      cases hch : isSpaceOrTab ch with
      | false => exact hstay (by rw [Cursor.head_eq hreads.passes.text, hch])
      | true =>
        obtain ⟨run, s'', hspan, hrun⟩ := ih s'.body.length (by simp [← hlength, hreads.body]) s' rfl
        refine ⟨ch :: run, s'', ?_, hreads.trans hrun⟩
        rw [Cursor.span_of_pos hreads.passes.text hch]
        rw [hreads.passes.eq] at hspan
        simp only [List.length_singleton, Cursor.skip] at hspan
        rw [hspan]
    | escape ch escaped s' _ hreads => exact hstay (by rw [Cursor.head_eq hreads.passes.text]; rfl)
    | unit a b c d n s' _ hreads => exact hstay (by rw [Cursor.head_eq hreads.passes.text]; rfl)

theorem exists_moves_lineBreak (s : InString rest) (hbreak : isLineBreak s.cursor.head = true) :
    isLiteral s.body = false ∧ ∃ ch line s', s.cursor.lineBreak = (line, s'.cursor) ∧
      s'.cursor.atSeparator = false ∧ s.Moves [ch] s' := by
  cases s.next with
  | stop htext => simp [Cursor.head_eq htext, isLineBreak] at hbreak
  | escape ch escaped s' _ hreads => simp [Cursor.head_eq hreads.passes.text, isLineBreak] at hbreak
  | unit a b c d n s' _ hreads => simp [Cursor.head_eq hreads.passes.text, isLineBreak] at hbreak
  | plain ch s' _ _ hcontrol hreads hseparator =>
    have htext := hreads.passes.text
    have heq := hreads.passes.eq
    rw [Cursor.head_eq htext] at hbreak
    obtain ⟨hliteral, hseparator⟩ := hseparator hbreak
    refine ⟨hliteral, ch, s.cursor.lineBreak.1, s', ?_, hseparator, hreads.toMoves⟩
    refine Prod.ext rfl ?_
    unfold Cursor.lineBreak
    split
    case h_1 htext' =>
      rw [htext', List.singleton_append] at htext
      obtain ⟨rfl, -⟩ := List.cons.inj htext
      exact absurd hcontrol (by decide)
    case h_2 ch' _ _ htext' =>
      rw [htext', List.singleton_append] at htext
      obtain ⟨rfl, -⟩ := List.cons.inj htext
      split <;> exact heq.symm
    case h_3 htext' =>
      rw [htext'] at htext
      cases htext

theorem exists_quotedBreaksIn (s : InString rest) {fuel : Nat} (hfuel : s.body.length < fuel)
    (hseparator : s.cursor.atSeparator = false) : ∃ lines passed s',
      s.cursor.quotedBreaksIn fuel = .ok (lines, s'.cursor) ∧ s.Moves passed s' := by
  induction fuel generalizing s with
  | zero => omega
  | succ fuel ih =>
    obtain ⟨run, s₁, hspan, hrun⟩ := s.exists_reads_blanks
    rw [Cursor.quotedBreaksIn, hseparator]
    simp only [Bool.false_eq_true, if_false, Cursor.dropWhile, hspan]
    cases hbreak : isLineBreak s₁.cursor.head with
    | false => exact ⟨[], run, s₁, rfl, hrun.toMoves⟩
    | true =>
      obtain ⟨-, ch, line, s₂, hline, hseparator', hmoves⟩ := s₁.exists_moves_lineBreak hbreak
      have hshorter : s₂.body.length < fuel := by
        have hlength : s.body.length = run.length + (1 + s₂.body.length) := by
          rw [hrun.body, hmoves.body, List.length_append, List.length_append, List.length_singleton]
        omega
      obtain ⟨lines, passed, s₃, hlines, hmoves'⟩ := ih s₂ hshorter hseparator'
      refine ⟨line ++ lines, _, s₃, ?_, (hrun.toMoves.trans hmoves).trans hmoves'⟩
      simp only [if_true, hline, hlines, Except.ok_bind]
      rfl

theorem exists_quotedBlanks (s : InString rest) (hhead : isBlankOrEnd s.cursor.head = true) :
    ∃ blanks passed s', s.cursor.quotedBlanks = .ok (blanks, s'.cursor) ∧ s.Reads passed blanks s' ∧
      passed ≠ [] := by
  obtain ⟨run, s₁, hspan, hrun⟩ := s.exists_reads_blanks
  have hend : (s₁.cursor.head == endMark) = false := by
    rw [beq_eq_false_iff_ne]
    intro heq
    rcases s₁.head_cases with ⟨-, hquote⟩ | hslash | ⟨-, -, hcontrol⟩
    · exact absurd (hquote.symm.trans heq) (by decide)
    · exact absurd (hslash.symm.trans heq) (by decide)
    · rw [heq] at hcontrol
      exact absurd hcontrol (by decide)
  unfold Cursor.quotedBlanks
  simp only [hspan, hend, Bool.false_eq_true, if_false]
  cases hbreak : isLineBreak s₁.cursor.head with
  | false =>
    refine ⟨run, run, s₁, rfl, hrun, ?_⟩
    rintro rfl
    have hsame : s₁.cursor = s.cursor := hrun.passes.eq
    rw [hsame] at hbreak hend
    have hspace : isSpaceOrTab s.cursor.head = true := by
      simpa [isBlankOrEnd, isSpaceOrEnd, isLineEnd, hbreak, hend, isSpaceOrTab, or_comm] using hhead
    obtain ⟨ch, more, htext⟩ := List.exists_cons_of_length_pos (Nat.zero_lt_of_lt s.length_lt)
    rw [Cursor.head_eq htext] at hspace
    rw [Cursor.span_of_pos htext hspace] at hspan
    cases (Prod.mk.inj hspan).1
  | true =>
    obtain ⟨hliteral, ch, line, s₂, hline, hseparator, hmoves⟩ := s₁.exists_moves_lineBreak hbreak
    have hfuel := Nat.lt_succ_of_lt s₂.length_lt
    obtain ⟨lines, passed, s₃, hlines, hmoves'⟩ := s₂.exists_quotedBreaksIn hfuel hseparator
    refine ⟨if line != ['\n'] then line ++ lines else if lines.isEmpty then [' '] else lines, _, s₃,
      ?_, ⟨(hrun.toMoves.trans hmoves).trans hmoves', fun h => ?_⟩, by simp⟩
    · simp only [if_true, hline, Cursor.quotedBreaks, hlines, Except.ok_bind]
      rfl
    · rw [(hrun.literal h).1] at hliteral
      cases hliteral

/-! ## Escapes -/

theorem escapedCharacter?_of_simple {ch escaped : Char} (h : simpleEscape? ch = some escaped) :
    escapedCharacter? ch = some escaped := by
  unfold simpleEscape? at h
  split at h <;> cases h <;> rfl

theorem hexValue?_lt {ch : Char} {n : Nat} (h : hexValue? ch = some n) : n < 16 := by
  unfold hexValue? at h
  have hle : ∀ a b : Char, a ≤ b → a.toNat ≤ b.toNat := fun _ _ h => h
  split at h
  case isTrue hd =>
    have := hle _ _ hd.2
    obtain rfl := Option.some.inj h
    have : '9'.toNat = 57 := rfl
    omega
  case isFalse =>
    split at h
    case isTrue hd =>
      have := hle _ _ hd.2
      obtain rfl := Option.some.inj h
      have : 'f'.toNat = 102 := rfl
      omega
    case isFalse =>
      split at h
      case isTrue hd =>
        have := hle _ _ hd.2
        obtain rfl := Option.some.inj h
        have : 'F'.toNat = 70 := rfl
        omega
      case isFalse => cases h

theorem characterOfCode_unit {a b c d : Char} {n : Nat} (h : hexUnit? a b c d = some n) :
    characterOfCode n = .ok (unitChar n) := by
  obtain ⟨w, x, y, z, ha, hb, hc, hd, rfl⟩ := hexUnit?_eq_some h
  have hw := hexValue?_lt ha
  have hx := hexValue?_lt hb
  have hy := hexValue?_lt hc
  have hz := hexValue?_lt hd
  generalize hn : ((w * 16 + x) * 16 + y) * 16 + z = n
  have hlt : n < 65536 := by omega
  have hvalid : n.isValidChar ↔ (isHighUnit n || isLowUnit n) = false := by
    simp only [Nat.isValidChar, isHighUnit, isLowUnit, Bool.or_eq_false_iff, Bool.and_eq_false_iff,
      decide_eq_false_iff_not]
    omega
  have hbits : ¬ Nat.pow 2 escapeBits ≤ n := by
    have : Nat.pow 2 escapeBits = 2147483648 := rfl
    omega
  have hcodes : ¬ characterCodes ≤ n := by
    rw [characterCodes]
    omega
  rw [characterOfCode, if_neg hbits, if_neg hcodes, unitChar]
  by_cases hn : n.isValidChar
  · rw [if_pos hn, hvalid.mp hn]
    rfl
  · rw [if_neg hn, if_pos (Bool.eq_true_of_not_eq_false fun h => hn (hvalid.mpr h))]

theorem hexNumber_unit {c : Cursor} {a b x d : Char} {n : Nat} {more : Chars}
    (hunit : hexUnit? a b x d = some n) (htext : c.rest = a :: b :: x :: d :: more) :
    c.hexNumber 4 (.escape 4) = .ok (n, c.skip 4) := by
  obtain ⟨v, w, y, z, ha, hb, hx, hd, rfl⟩ := hexUnit?_eq_some hunit
  have hrange : List.range 4 = [0, 1, 2, 3] := rfl
  simp only [Cursor.hexNumber, hrange, Cursor.peek, htext, List.find?_cons, List.getD_cons_zero,
    List.getD_cons_succ, ha, hb, hx, hd, Option.isNone_some, List.find?_nil, List.take_succ_cons,
    List.take_zero, List.filterMap_cons, List.filterMap_nil, List.foldl_cons, List.foldl_nil]
  rw [Except.ok.injEq, Prod.mk.injEq]
  exact ⟨by omega, rfl⟩

theorem quotedEscape_simple {ch escaped : Char} (hch : simpleEscape? ch = some escaped)
    (h : s.Reads ['\\', ch] [escaped] s') :
    s.cursor.next.quotedEscape = .ok ([escaped], s'.cursor) := by
  have htext : s.cursor.next.rest = ch :: s'.cursor.rest := by
    rw [Cursor.rest_next, h.passes.text]
    rfl
  unfold Cursor.quotedEscape
  rw [Cursor.head_eq htext, escapedCharacter?_of_simple hch, h.passes.eq]
  rfl

theorem quotedEscape_unit {a b c d : Char} {n : Nat} (hunit : hexUnit? a b c d = some n)
    (h : s.Reads ['\\', 'u', a, b, c, d] [unitChar n] s') :
    s.cursor.next.quotedEscape = .ok ([unitChar n], s'.cursor) := by
  have htext : s.cursor.next.rest = 'u' :: a :: b :: c :: d :: s'.cursor.rest := by
    rw [Cursor.rest_next, h.passes.text]
    rfl
  have hdigits : s.cursor.next.next.rest = a :: b :: c :: d :: s'.cursor.rest := by
    rw [Cursor.rest_next, htext]
    rfl
  have hnone : escapedCharacter? 'u' = none := rfl
  have hlength : escapeLength? 'u' = some 4 := rfl
  unfold Cursor.quotedEscape
  rw [Cursor.head_eq htext, hnone, hlength]
  simp only [hexNumber_unit hunit hdigits, Except.ok_bind, characterOfCode_unit hunit, h.passes.eq]
  rfl

/-! ## A whole string -/

section

variable {c : Cursor} {ch : Char} {more done : Chars} {fuel : Nat}

theorem quotedText_quoted (htext : c.rest = ch :: more) (hch : isQuotedCharacter ch = true) :
    c.quotedText true (fuel + 1) done = c.next.quotedText true (fuel + 1) (ch :: done) := by
  rw [Cursor.quotedText, Cursor.quotedText, Cursor.span_of_pos htext hch]
  simp only [List.reverse_cons, List.append_assoc, List.singleton_append]

theorem quotedText_apostrophe (htext : c.rest = '\x27' :: more) :
    c.quotedText true (fuel + 1) done = c.next.quotedText true fuel ('\x27' :: done) := by
  rw [Cursor.quotedText, Cursor.span_of_neg (by simp [htext, isQuotedCharacter])]
  simp [Cursor.head_eq htext]

theorem quotedText_escape {read : Chars} {c' : Cursor} (hhead : c.head = '\\')
    (hescape : c.next.quotedEscape = .ok (read, c')) :
    c.quotedText true (fuel + 1) done = c'.quotedText true fuel (read.reverse ++ done) := by
  have hspan : c.span isQuotedCharacter = ([], c) := by
    refine Cursor.span_of_neg fun ch more htext => ?_
    rw [← Cursor.head_eq htext, hhead]
    rfl
  rw [Cursor.quotedText, hspan]
  simp [hhead, hescape, Except.ok_bind]

theorem quotedText_stop (hquoted : isQuotedCharacter c.head = false) (hapostrophe : c.head ≠ '\x27')
    (hslash : c.head ≠ '\\') : c.quotedText true (fuel + 1) done = .ok (done, c) := by
  have hspan : c.span isQuotedCharacter = ([], c) := by
    refine Cursor.span_of_neg fun ch more htext => ?_
    rwa [Cursor.head_eq htext] at hquoted
  rw [Cursor.quotedText, hspan]
  simp [hapostrophe, hslash, pure, Except.pure]

end

def quotedLoop (inner outer : Nat) (done : Chars) (c : Cursor) :
    Except YamlFault (Chars × Cursor) := do
  let (done, c) ← c.quotedText true inner done
  if c.head == '"' then return (done.reverse, c.next)
  else
    let (blanks, c) ← c.quotedBlanks
    c.quotedRest true outer (blanks.reverse ++ done)

theorem quotedRest_succ (outer : Nat) (done : Chars) (c : Cursor) :
    c.quotedRest true (outer + 1) done = quotedLoop (c.rest.length + 1) outer done c := rfl

/-- Reading from here on comes to the closing quote, and reads a literal string as it is. -/
def Finishes (s : InString rest) (done : Chars)
    (result : Except YamlFault (Chars × Cursor)) : Prop :=
  ∃ read c', result = .ok (done.reverse ++ read, c') ∧ s.cursor.Passes (s.body ++ ['"']) c' ∧
    (isLiteral s.body = true → read = s.chars)

theorem Finishes.of_reads {done : Chars} {result : Except YamlFault (Chars × Cursor)}
    (h : s.Reads passed read s') (h' : s'.Finishes (read.reverse ++ done) result) :
    s.Finishes done result := by
  obtain ⟨more, c', hresult, hpasses, hliteral⟩ := h'
  refine ⟨read ++ more, c', ?_, ?_, fun hbody => ?_⟩
  · rw [hresult, List.reverse_append, List.reverse_reverse, List.append_assoc]
  · rw [h.body, List.append_assoc]
    exact h.passes.trans hpasses
  · obtain ⟨hmiddle, hchars⟩ := h.literal hbody
    rw [hliteral hmiddle, hchars]

theorem quotedLoop_finishes (s : InString rest) (done : Chars) {inner outer : Nat}
    (hinner : s.body.length < inner) (houter : s.body.length ≤ outer) :
    s.Finishes done (quotedLoop inner outer done s.cursor) := by
  -- On what is left of the string: each character that is read makes it shorter.
  induction hlength : s.body.length using Nat.strongRecOn generalizing s done inner outer with
  | ind n ih =>
    obtain ⟨inner, rfl⟩ : ∃ k, inner = k + 1 := ⟨inner - 1, by omega⟩
    have hshorter : ∀ {passed : Chars} {s' : InString rest}, s.Moves passed s' → passed ≠ [] →
        s'.body.length < s.body.length := by
      intro passed s' hmoves hpassed
      rw [hmoves.body, List.length_append]
      have := List.length_pos_iff.mpr hpassed
      omega
    cases s.next with
    | stop htext hbody hchars =>
      refine ⟨[], s.cursor.next, ?_, ?_, fun _ => hchars.symm⟩
      · have hhead := Cursor.head_eq htext
        rw [quotedLoop, quotedText_stop (by rw [hhead]; rfl) (by rw [hhead]; decide)
          (by rw [hhead]; decide), Except.ok_bind]
        simp [hhead, pure, Except.pure]
      · rw [hbody]
        exact .of_next htext
    | plain ch s' hquote hslash hcontrol hreads hbreak =>
      have hlt := hshorter hreads.toMoves (List.cons_ne_nil _ _)
      have htext := hreads.passes.text
      have hnext : s'.cursor = s.cursor.next := hreads.passes.eq
      cases hquoted : isQuotedCharacter ch with
      | true =>
        refine .of_reads hreads ?_
        rw [quotedLoop, quotedText_quoted htext hquoted, ← hnext]
        exact ih _ (hlength ▸ hlt) s' _ (by omega) (by omega) rfl
      | false =>
        by_cases hapostrophe : ch = '\x27'
        · subst hapostrophe
          refine .of_reads hreads ?_
          rw [quotedLoop, quotedText_apostrophe htext, ← hnext]
          exact ih _ (hlength ▸ hlt) s' _ (by omega) (by omega) rfl
        · have hhead : s.cursor.head = ch := Cursor.head_eq htext
          have hblank : isBlankOrEnd s.cursor.head = true := by
            rw [hhead]
            simpa [isQuotedCharacter, hapostrophe, hquote, hslash] using hquoted
          obtain ⟨blanks, passed, s'', hblanks, hreads', hpassed⟩ := s.exists_quotedBlanks hblank
          refine .of_reads hreads' ?_
          have hlt' := hshorter hreads'.toMoves hpassed
          obtain ⟨outer, rfl⟩ : ∃ k, outer = k + 1 := ⟨outer - 1, by omega⟩
          have hnoquote : (s.cursor.head == '"') = false := by simpa [hhead] using hquote
          rw [quotedLoop, quotedText_stop (by rw [hhead, hquoted]) (by rw [hhead]; exact hapostrophe)
            (by rw [hhead]; exact hslash), Except.ok_bind]
          simp only [hnoquote, Bool.false_eq_true, if_false, hblanks, Except.ok_bind, quotedRest_succ]
          exact ih _ (hlength ▸ hlt') s'' _ (Nat.lt_succ_of_lt s''.length_lt) (by omega) rfl
    | escape ch escaped s' hch hreads =>
      have hlt := hshorter hreads.toMoves (List.cons_ne_nil _ _)
      refine .of_reads hreads ?_
      rw [quotedLoop, quotedText_escape (Cursor.head_eq hreads.passes.text)
        (quotedEscape_simple hch hreads)]
      exact ih _ (hlength ▸ hlt) s' _ (by omega) (by omega) rfl
    | unit a b c d n s' hunit hreads =>
      have hlt := hshorter hreads.toMoves (List.cons_ne_nil _ _)
      refine .of_reads hreads ?_
      rw [quotedLoop, quotedText_escape (Cursor.head_eq hreads.passes.text)
        (quotedEscape_unit hunit hreads)]
      exact ih _ (hlength ▸ hlt) s' _ (by omega) (by omega) rfl

end InString

theorem quoted_ok {c : Cursor} {body chars rest : Chars} (hbody : Body body chars)
    (htext : c.rest = '"' :: (body ++ '"' :: rest))
    (hfits : fitsFrom true (body ++ '"' :: rest) = true) :
    ∃ read c', c.quoted true = .ok (String.ofList read, c') ∧
      c.Passes ('"' :: (body ++ ['"'])) c' ∧ (isLiteral body = true → read = chars) := by
  have hopen : c.Passes ['"'] c.next := .of_next htext
  have hrest : c.next.rest = body ++ '"' :: rest := hopen.rest_eq htext
  let s : InString rest := ⟨c.next, body, chars, hrest, hbody, by rwa [hrest]⟩
  have hshorter : c.next.rest.length < c.rest.length := by
    rw [hopen.text, List.length_append, List.length_singleton]
    omega
  have hlt : s.body.length < c.next.rest.length := s.length_lt
  obtain ⟨read, c', hresult, hpasses, hliteral⟩ :=
    s.quotedLoop_finishes [] (Nat.lt_succ_of_lt hlt) (hlt.le.trans hshorter.le)
  refine ⟨read, c', ?_, hopen.trans hpasses, hliteral⟩
  rw [Cursor.quoted, InString.quotedRest_succ, hresult]
  rfl

/-! ## Numbers and words -/

section

variable {c : Cursor} {ch : Char} {word rest : Chars} {inFlow : Bool} {fuel : Nat}

theorem endsPlain_word (hch : isBareCharacter ch = true) (inFlow : Bool) (rest : Chars) :
    endsPlain inFlow ch rest = false := by
  have hne : ∀ other : Char, isBareCharacter other = false → (ch == other) = false := by
    intro other hother
    rw [beq_eq_false_iff_ne]
    rintro rfl
    rw [hother] at hch
    cases hch
  have hmark : isFlowMark ch = false := by
    simp only [isFlowMark, List.contains_cons, hne ',' rfl, hne '[' rfl, hne ']' rfl,
      hne '\x7b' rfl, hne '\x7d' rfl, List.contains_nil, Bool.or_self]
  simp only [endsPlain, isBlankOrEnd, isSpaceOrEnd, isLineEnd, isLineBreak, hmark, hne '\t' rfl,
    hne ' ' rfl, hne '\n' rfl, hne '\r' rfl, hne '\x85' rfl, hne '\u2028' rfl, hne '\u2029' rfl,
    hne endMark rfl, hne ':' rfl, hne '?' rfl, Bool.or_self, Bool.false_and, Bool.and_false]

theorem plainRun_word (hword : ∀ ch ∈ word, isBareCharacter ch = true) :
    plainRun inFlow (word ++ rest) = word ++ plainRun inFlow rest := by
  induction word with
  | nil => rfl
  | cons ch word ih =>
    rw [List.forall_mem_cons] at hword
    rw [List.cons_append, plainRun, endsPlain_word hword.1, ih hword.2]
    rfl

/-- A blank ends a plain scalar, so it ends in front of blanks where it ends behind them. -/
theorem plainRun_of_skipSpace (hend : plainRun inFlow (skipSpace rest) = []) :
    plainRun inFlow rest = [] := by
  cases rest with
  | nil => rfl
  | cons ch rest =>
    cases hch : isSpace ch with
    | false => rwa [skipSpace, List.dropWhile_cons_of_neg (by simp [hch])] at hend
    | true =>
      have hblank : isBlankOrEnd ch = true := by
        simp only [isSpace, Bool.or_eq_true, beq_iff_eq] at hch
        rcases hch with ((rfl | rfl) | rfl) | rfl <;> rfl
      rw [plainRun, endsPlain, hblank, Bool.true_or, Bool.true_or, if_pos rfl]

theorem atSeparator_of_plainRun (hend : plainRun inFlow (skipSpace c.rest) = []) :
    c.atSeparator = false := by
  rw [Bool.eq_false_iff]
  intro hseparator
  have hrun := plainRun_of_skipSpace hend
  obtain ⟨rest, hrest | hrest⟩ := Cursor.rest_of_atSeparator hseparator
  · rw [hrest, plainRun, endsPlain_word rfl] at hrun
    cases hrun
  · rw [hrest, plainRun, endsPlain_word rfl] at hrun
    cases hrun

theorem plainBreaks_ok (hclear : c.Clear) (hend : plainRun inFlow (skipSpace c.rest) = [])
    (hfuel : c.rest.length < fuel) (breaks : Chars) :
    ∃ lines, c.plainBreaks fuel breaks = (some lines, c.dropBlanks) := by
  induction fuel generalizing c breaks with
  | zero => omega
  | succ fuel ih =>
    rw [Cursor.plainBreaks, atSeparator_of_plainRun hend]
    simp only [Bool.false_eq_true, if_false]
    obtain ⟨hclear', ⟨hbreak, hspace⟩ | ⟨hbreak, hsame⟩⟩ := hclear.dropSpaces
    · obtain ⟨hblanks, hlength, passed, hpasses⟩ := Cursor.dropBlanks_lineBreak hspace hbreak
      rw [hbreak, ← Cursor.dropBlanks_dropSpaces, ← hblanks]
      refine ih (hclear'.of_passes hpasses hblanks) ?_ ?_ _
      · rwa [← Cursor.rest_dropBlanks, hblanks, Cursor.dropBlanks_dropSpaces,
          Cursor.rest_dropBlanks]
      · have hspaces : c.dropSpaces.rest.length ≤ c.rest.length := by
          rw [(Cursor.passes_dropWhile c _).text, List.length_append]
          exact Nat.le_add_left _ _
        omega
    · rw [hbreak, hsame]
      exact ⟨breaks, rfl⟩

theorem plainGap_ok (hclear : c.Clear) (hend : plainRun inFlow (skipSpace c.rest) = []) :
    c.plainGap.cursor = c.dropBlanks := by
  have hspan : c.span (· == ' ') = ((c.span (· == ' ')).1, c.dropSpaces) := rfl
  unfold Cursor.plainGap
  rw [hspan]
  obtain ⟨hclear', ⟨hbreak, hspace⟩ | ⟨hbreak, hsame⟩⟩ := hclear.dropSpaces
  · obtain ⟨hblanks, -, passed, hpasses⟩ := Cursor.dropBlanks_lineBreak hspace hbreak
    have hend' : plainRun inFlow (skipSpace c.dropSpaces.lineBreak.2.rest) = [] := by
      rwa [← Cursor.rest_dropBlanks, hblanks, Cursor.dropBlanks_dropSpaces, Cursor.rest_dropBlanks]
    obtain ⟨lines, hlines⟩ :=
      plainBreaks_ok (hclear'.of_passes hpasses hblanks) hend' (Nat.lt_succ_self _) []
    simp only [hbreak, if_true, hlines, hblanks, Cursor.dropBlanks_dropSpaces]
  · rw [hsame] at hbreak ⊢
    simp only [hbreak, Bool.false_eq_true, if_false]

theorem plain_ok (htext : c.rest = word ++ rest) (hword : IsWord word)
    (hend : plainRun inFlow (skipSpace rest) = []) (hclear : (c.skip word.length).Clear)
    (outer : Nat) : (c.plain inFlow outer).cursor = (c.skip word.length).dropBlanks := by
  have hbehind : (c.skip word.length).rest = rest := (Cursor.Passes.of_skip word htext).rest_eq htext
  have hgap : (c.skip word.length).plainGap.cursor = (c.skip word.length).dropBlanks :=
    plainGap_ok hclear (by rwa [hbehind])
  have hrun : plainRun inFlow c.rest = word := by
    rw [htext, plainRun_word hword.chars, plainRun_of_skipSpace hend, List.append_nil]
  have hstop : plainRun inFlow (c.skip word.length).dropBlanks.rest = [] := by
    rwa [Cursor.rest_dropBlanks, hbehind]
  obtain ⟨ch, more, hcons⟩ : ∃ ch more, word = ch :: more := by
    obtain ⟨ch, more, -, hcons | hcons⟩ := hword.start
    · exact ⟨_, _, hcons⟩
    · exact ⟨_, _, hcons⟩
  have hcomment : (c.head == '#') = false := by
    have hch := hword.chars ch (by simp [hcons])
    rw [hcons, List.cons_append] at htext
    rw [Cursor.head_eq htext, beq_eq_false_iff_ne]
    rintro rfl
    cases hch
  have hlength : c.rest.length = (more ++ rest).length + 1 := by
    rw [htext, hcons, List.cons_append, List.length_cons]
  have hne : word.isEmpty = false := by rw [hcons, List.isEmpty_cons]
  rw [Cursor.plain, hlength, Cursor.plainFrom]
  simp only [hrun, hcomment, hne, Bool.or_self, Bool.false_eq_true, if_false]
  split
  · exact hgap
  · rw [Cursor.plainFrom]
    simp only [hgap, hstop, List.isEmpty_nil, Bool.or_true, if_true]

end

end JsonSchema.Yaml
