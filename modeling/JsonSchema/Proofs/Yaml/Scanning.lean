import JsonSchema.Proofs.Outcome
import JsonSchema.Proofs.Yaml.Splitting

/-!
# Faults of the tokens of a text

Every reader leaves its cursor inside the text. A text that cannot be split is at fault itself, but
for the two numbers in it that are no scalars: one in a version, and the code of a character.
-/

namespace JsonSchema.Yaml

/-! ## Numbers that are no scalars -/

def codeOf (hex : List Char) : Nat := (hex.filterMap JsonReader.hexValue?).foldl (16 * · + ·) 0

def isVersionCharacter (c : Char) : Bool := c == ' ' || c == '.' || c.isDigit

/-- A number in a text that cannot be read, although it is no scalar. -/
inductive BadNumber (cs : List Char) : ScalarFault → Prop
  | version {between digits : List Char}
      (hplace : ['%', 'Y', 'A', 'M', 'L'] ++ between ++ digits <:+: cs)
      (hbetween : ∀ c ∈ between, isVersionCharacter c = true)
      (hdigits : ∀ c ∈ digits, c.isDigit = true) (hlong : maxIntegerDigits < digits.length) :
      BadNumber cs (.numeral (.tooManyDigits digits.length))
  | noCharacter {letter : Char} {hex : List Char} (hplace : '\\' :: letter :: hex <:+: cs)
      (hlength : escapeLength? letter = some hex.length) (hcode : characterCodes ≤ codeOf hex) :
      BadNumber cs .noSuchCharacter
  | tooLarge {letter : Char} {hex : List Char} (hplace : '\\' :: letter :: hex <:+: cs)
      (hlength : escapeLength? letter = some hex.length)
      (hcode : Nat.pow 2 escapeBits ≤ codeOf hex) : BadNumber cs .escapeTooLarge

/-- The document is at fault, or else a number in this text. -/
def IsLexical (cs : List Char) (fault : YamlFault) : Prop :=
  fault.isOfDocument = true ∨ ∃ cause, fault = .scalar cause ∧ BadNumber cs cause

variable {cs : List Char}

theorem isLexical_here (place : Place) (problem : YamlProblem) :
    IsLexical cs (.here place problem) := .inl rfl

namespace Cursor

def Within (c : Cursor) (cs : List Char) : Prop := c.rest <:+ cs

/-- A reader leaves its cursor inside the text, or the fault is one of its tokens. -/
abbrev Reads {α : Type} (cs : List Char) (read : Except YamlFault (α × Cursor)) : Prop :=
  Except.Ends (·.2.Within cs) (IsLexical cs) read

abbrev Moves (cs : List Char) (move : Except YamlFault Cursor) : Prop :=
  Except.Ends (·.Within cs) (IsLexical cs) move

variable {c : Cursor} {α : Type}

theorem Within.skip (h : c.Within cs) (n : Nat) : (c.skip n).Within cs := by
  rw [Within, rest_skip]
  exact (List.drop_suffix n c.rest).trans h

theorem Within.next (h : c.Within cs) : c.next.Within cs := h.skip 1

theorem Within.span (h : c.Within cs) (p : Char → Bool) : (c.span p).2.Within cs := h.skip _

theorem Within.dropWhile (h : c.Within cs) (p : Char → Bool) : (c.dropWhile p).Within cs := h.span p

theorem Within.dropSpaces (h : c.Within cs) : c.dropSpaces.Within cs := h.dropWhile _

theorem Within.dropComment (h : c.Within cs) : c.dropComment.Within cs := by
  unfold Cursor.dropComment
  split
  · exact h.dropWhile _
  · exact h

theorem Within.lineBreak (h : c.Within cs) : c.lineBreak.2.Within cs := by
  unfold Cursor.lineBreak
  split
  · exact h.skip 2
  · split
    · exact h.next
    split
    · exact h.next
    · exact h
  · exact h

/-! ## Small readers -/

theorem reads_expected (what : ExpectedText) : Reads cs (c.expected (α := α × Cursor) what) :=
  .error (isLexical_here _ _)

theorem require_ends (c : Cursor) (p : Char → Bool) (what : ExpectedText) :
    Except.Ends (fun c' => c' = c ∧ p c.head = true) (fun fault => fault.isOfDocument = true)
      (c.require p what) := by
  unfold Cursor.require
  split
  · exact .ok ⟨rfl, ‹_›⟩
  · exact .error rfl

theorem moves_require (h : c.Within cs) (p : Char → Bool) (what : ExpectedText) :
    Moves cs (c.require p what) :=
  (require_ends c p what).imp (fun _ hc => hc.1.symm ▸ h) fun _ => .inl

theorem moves_dropLineRest (h : c.Within cs) : Moves cs c.dropLineRest :=
  (moves_require h.dropSpaces.dropComment _ _).bind fun _ hc => .ok hc.lineBreak

theorem name_ends (c : Cursor) (stop : Char → Bool) :
    Except.Ends (fun r => c.rest = r.1.toList ++ r.2.rest) (fun fault => fault.isOfDocument = true)
      (c.name stop) := by
  unfold Cursor.name
  dsimp only
  split
  · exact .error rfl
  · exact .ok (String.toList_ofList ▸ (passes_span c isNameCharacter).text)

theorem reads_name (h : c.Within cs) (stop : Char → Bool) : Reads cs (c.name stop) :=
  (name_ends c stop).imp (fun r hr => (List.suffix_append r.1.toList r.2.rest).trans (hr ▸ h))
    fun _ => .inl

theorem hexNumber_ends (c : Cursor) (count : Nat) (what : ExpectedText) :
    Except.Ends (fun r => r = (codeOf (c.rest.take count), skip count c) ∧
        (c.rest.take count).length = count)
      (fun fault => fault.isOfDocument = true) (c.hexNumber count what) := by
  unfold Cursor.hexNumber
  split
  · exact .error rfl
  · rename_i hfind
    refine .ok ⟨rfl, List.length_take_of_le (Nat.le_of_not_lt fun hlt => ?_)⟩
    have hdigit := List.find?_eq_none.mp hfind c.rest.length (List.mem_range.mpr hlt)
    refine hdigit ?_
    have hend : c.peek c.rest.length = endMark := by simp [peek]
    rw [hend]
    decide

theorem reads_hexNumber (h : c.Within cs) (count : Nat) (what : ExpectedText) :
    Reads cs (c.hexNumber count what) := by
  refine (hexNumber_ends c count what).imp ?_ fun _ hdocument => .inl hdocument
  rintro r ⟨rfl, -⟩
  exact h.skip count

/-! ## Quoted scalars -/

theorem reads_quotedBreaksIn (fuel : Nat) (h : c.Within cs) : Reads cs (quotedBreaksIn fuel c) := by
  induction fuel generalizing c with
  | zero => exact .ok h
  | succ fuel ih =>
    rw [quotedBreaksIn]
    split
    · exact .error (isLexical_here _ _)
    dsimp only
    split
    · exact (ih (h.dropWhile _).lineBreak).bind fun _ hr => .ok hr
    · exact .ok (h.dropWhile _)

theorem reads_quotedBreaks (h : c.Within cs) : Reads cs c.quotedBreaks := reads_quotedBreaksIn _ h

theorem characterOfCode_ends {code : Nat} {letter : Char} {hex : List Char}
    (hcode : code = codeOf hex) (hplace : '\\' :: letter :: hex <:+: cs)
    (hlength : escapeLength? letter = some hex.length) :
    Except.Ends (fun _ => True) (IsLexical cs) (characterOfCode code) := by
  unfold characterOfCode
  subst hcode
  split
  · exact .error (.inr ⟨_, rfl, .tooLarge hplace hlength ‹_›⟩)
  split
  · exact .error (.inr ⟨_, rfl, .noCharacter hplace hlength ‹_›⟩)
  split
  · exact .ok trivial
  · exact .ok trivial

theorem rest_of_head {ch : Char} (h : c.head = ch) (hch : ch ≠ endMark) :
    c.rest = ch :: c.next.rest := by
  rw [rest_next]
  cases hrest : c.rest with
  | nil => exact absurd (h ▸ head_nil hrest) hch
  | cons ch' rest => rw [← h, head_eq hrest, List.drop_one, List.tail_cons]

theorem reads_quotedEscape (h : '\\' :: c.rest <:+ cs) : Reads cs c.quotedEscape := by
  have hwithin : c.Within cs := (List.suffix_cons _ _).trans h
  unfold Cursor.quotedEscape
  split
  · exact .ok hwithin.next
  · rename_i length _ hlength
    have hcode : Except.Ends (fun r : Nat × Cursor =>
        r.1 = codeOf (c.next.rest.take length) ∧ r.2.Within cs ∧
          (c.next.rest.take length).length = length) (IsLexical cs)
        (c.next.hexNumber length (.escape length)) := by
      refine (hexNumber_ends c.next length (.escape length)).imp ?_ fun _ => .inl
      rintro r ⟨rfl, htake⟩
      exact ⟨rfl, hwithin.next.skip length, htake⟩
    have hrest : c.rest = c.head :: c.next.rest := rest_of_head rfl (by
      intro hend
      have hnone : escapeLength? endMark = none := by decide
      rw [hend, hnone] at hlength
      cases hlength)
    refine hcode.bind ?_
    rintro ⟨code, c'⟩ ⟨hcode, hc', htake⟩
    have hplace : '\\' :: c.head :: c.next.rest.take length <:+: cs := by
      refine List.IsInfix.trans ?_ h.isInfix
      rw [hrest]
      exact (List.prefix_iff_eq_take.mpr (by simp [htake])).isInfix
    exact (characterOfCode_ends hcode hplace (by rw [hlength, htake])).bind fun _ _ => .ok hc'
  · split
    · exact reads_quotedBreaks hwithin.lineBreak
    · exact .error (isLexical_here _ _)

theorem reads_quotedText (double : Bool) (fuel : Nat) (done : List Char) (h : c.Within cs) :
    Reads cs (quotedText double fuel done c) := by
  induction fuel generalizing done c with
  | zero => exact .ok h
  | succ fuel ih =>
    have hrun := h.span isQuotedCharacter
    rw [quotedText]
    dsimp only
    split
    · split
      · exact ih _ hrun.next
      split
      · rename_i hback
        have hrest := rest_of_head (beq_iff_eq.mp hback) (by decide)
        exact (reads_quotedEscape (hrest ▸ hrun)).bind fun r hr => ih _ hr
      · exact .ok hrun
    · split
      · exact ih _ (hrun.skip 2)
      split
      · exact ih _ hrun.next
      · exact .ok hrun

theorem reads_quotedBlanks (h : c.Within cs) : Reads cs c.quotedBlanks := by
  have hblanks := h.span isSpaceOrTab
  unfold Cursor.quotedBlanks
  dsimp only
  split
  · exact .error (isLexical_here _ _)
  split
  · exact (reads_quotedBreaks hblanks.lineBreak).bind fun _ hr => .ok hr
  · exact .ok hblanks

theorem reads_quotedRest (double : Bool) (fuel : Nat) (done : List Char) (h : c.Within cs) :
    Reads cs (quotedRest double fuel done c) := by
  induction fuel generalizing done c with
  | zero => exact .ok h
  | succ fuel ih =>
    rw [quotedRest]
    refine (reads_quotedText double _ done h).bind fun r hr => ?_
    exact .ite (.ok hr.next) ((reads_quotedBlanks hr).bind fun r hr => ih _ hr)

theorem reads_quoted (double : Bool) (h : c.Within cs) : Reads cs (c.quoted double) :=
  (reads_quotedRest double _ _ h.next).bind fun _ hr => .ok hr

/-! ## Block scalars -/

theorem within_chompingMark (h : c.Within cs) : c.chompingMark.2.Within cs := by
  unfold Cursor.chompingMark
  split
  · exact h.next
  · exact h

theorem reads_indentationMark (h : c.Within cs) : Reads cs c.indentationMark := by
  unfold Cursor.indentationMark
  exact .ite (.error (isLexical_here _ _)) (.ite (.ok h.next) (.ok h))

theorem reads_blockHeader (h : c.Within cs) : Reads cs c.blockHeader := by
  unfold Cursor.blockHeader
  refine (reads_indentationMark (within_chompingMark h)).bind fun r hr => ?_
  have hsecond (p : Bool) : (if p then r.2.chompingMark else (none, r.2)).2.Within cs := by
    cases p with
    | true => exact within_chompingMark hr
    | false => exact hr
  exact (moves_require (hsecond _) _ _).bind fun _ hc => .ok hc

theorem within_blockStart (fuel : Nat) (breaks : List Char) (widest : Nat) (h : c.Within cs) :
    (blockStart fuel breaks widest c).2.2.Within cs := by
  induction fuel generalizing breaks widest c with
  | zero => exact h
  | succ fuel ih =>
    rw [blockStart]
    split
    · exact ih _ _ h.next
    split
    · exact ih _ _ h.lineBreak
    · exact h

theorem within_indentTo (indentation fuel : Nat) (h : c.Within cs) :
    (indentTo indentation fuel c).Within cs := by
  induction fuel generalizing c with
  | zero => exact h
  | succ fuel ih =>
    rw [indentTo]
    split
    · exact ih h.next
    · exact h

theorem within_blockBreaks (indentation fuel : Nat) (breaks : List Char) (h : c.Within cs) :
    (blockBreaks indentation fuel breaks c).2.Within cs := by
  induction fuel generalizing breaks c with
  | zero => exact h
  | succ fuel ih =>
    have hindented := within_indentTo indentation indentation h
    rw [blockBreaks]
    dsimp only
    split
    · exact ih _ hindented.lineBreak
    · exact hindented

theorem within_blockLines (folded : Bool) (indentation fuel : Nat) (done line breaks : List Char)
    (h : c.Within cs) :
    (blockLines folded indentation fuel done line breaks c).cursor.Within cs := by
  induction fuel generalizing done line breaks c with
  | zero => exact h
  | succ fuel ih =>
    have hbehind := within_blockBreaks indentation
      ((c.span (!isLineEnd ·)).2.lineBreak.2.rest.length + 1) [] (h.span (!isLineEnd ·)).lineBreak
    rw [blockLines]
    split
    · dsimp only
      split
      · exact ih _ _ _ hbehind
      · exact hbehind
    · exact h

theorem reads_block (folded : Bool) (outer : Nat) (h : c.Within cs) :
    Reads cs (c.block folded outer) := by
  unfold Cursor.block
  refine (reads_blockHeader h.next).bind fun r hr => ?_
  refine (moves_dropLineRest hr).bind fun c hc => ?_
  cases r.1.indentation with
  | some n =>
    have hbreaks := within_blockBreaks (max outer 1 + n - 1) (c.rest.length + 1) [] hc
    exact .ok (within_blockLines _ _ _ _ _ _ hbreaks)
  | none =>
    have hstart := within_blockStart (c.rest.length + 1) [] 0 hc
    exact .ok (within_blockLines _ _ _ _ _ _ hstart)

/-! ## Plain scalars -/

theorem within_plainBreaks (fuel : Nat) (breaks : List Char) (h : c.Within cs) :
    (plainBreaks fuel breaks c).2.Within cs := by
  induction fuel generalizing breaks c with
  | zero => exact h
  | succ fuel ih =>
    rw [plainBreaks]
    split
    · exact h
    dsimp only
    split
    · exact ih _ h.dropSpaces.lineBreak
    · exact h.dropSpaces

theorem within_plainGap (h : c.Within cs) : c.plainGap.cursor.Within cs := by
  have hspaces := h.span (· == ' ')
  have hbreaks := within_plainBreaks ((c.span (· == ' ')).2.lineBreak.2.rest.length + 1) []
    hspaces.lineBreak
  unfold Cursor.plainGap
  dsimp only
  split
  · split
    · rename_i heq
      rwa [heq] at hbreaks
    · rename_i heq
      rwa [heq] at hbreaks
  · exact hspaces

theorem within_plainFrom (inFlow : Bool) (outer fuel : Nat) (done : List Char) {text : PlainText}
    {gap : PlainGap} (htext : text.cursor.Within cs) (hgap : gap.cursor.Within cs) :
    (plainFrom inFlow outer fuel done text gap).cursor.Within cs := by
  induction fuel generalizing done text gap with
  | zero => exact htext
  | succ fuel ih =>
    have hnext := within_plainGap (hgap.skip (plainRun inFlow gap.cursor.rest).length)
    rw [plainFrom]
    dsimp only
    split
    · exact htext
    split
    · exact hnext
    · exact ih _ hnext hnext

theorem within_plain (inFlow : Bool) (outer : Nat) (h : c.Within cs) :
    (c.plain inFlow outer).cursor.Within cs := within_plainFrom inFlow outer _ _ h h

/-! ## Tags and directives -/

theorem reads_uriBytes (fuel : Nat) (done : Bytes) (h : c.Within cs) :
    Reads cs (uriBytes fuel done c) := by
  induction fuel generalizing done c with
  | zero => exact .ok h
  | succ fuel ih =>
    rw [uriBytes]
    exact .ite ((reads_hexNumber h.next _ _).bind fun r hr => ih _ hr) (.ok h)

theorem reads_uriEscapes (h : c.Within cs) : Reads cs c.uriEscapes := by
  unfold Cursor.uriEscapes
  refine (reads_uriBytes _ _ h).bind fun r hr => ?_
  dsimp only
  split
  · exact .ok hr
  · exact .error (isLexical_here _ _)

theorem reads_uriFrom (fuel : Nat) (done : List Char) (h : c.Within cs) :
    Reads cs (uriFrom fuel done c) := by
  induction fuel generalizing done c with
  | zero => exact .ok h
  | succ fuel ih =>
    rw [uriFrom]
    exact .ite ((reads_uriEscapes (h.span _)).bind fun r hr => ih _ hr) (.ok (h.span _))

theorem reads_uri (h : c.Within cs) : Reads cs c.uri := by
  unfold Cursor.uri
  exact (reads_uriFrom _ _ h).bind fun r hr => .ite (reads_expected _) (.ok hr)

theorem reads_tagHandle (h : c.Within cs) : Reads cs c.tagHandle := by
  unfold Cursor.tagHandle
  refine (moves_require h _ _).bind fun c hc => ?_
  refine .ite (.ok hc.next) ?_
  exact (moves_require (hc.next.span _) _ _).bind fun _ hc => .ok hc.next

theorem reads_tag (h : c.Within cs) : Reads cs c.tag := by
  have hend (r : WrittenTag × Cursor) (hr : r.2.Within cs) :
      Reads cs (do return (r.1, ← r.2.require isSpaceOrEnd .space)) :=
    (moves_require hr _ _).bind fun _ hc => .ok hc
  have hrest (r : String × Cursor) (hr : r.2.Within cs) :
      Reads cs (r.2.uri >>= fun r' => do
        return ((⟨some r.1, r'.1⟩ : WrittenTag), ← r'.2.require isSpaceOrEnd .space)) :=
    (reads_uri hr).bind fun r' hr' => hend (⟨some r.1, r'.1⟩, r'.2) hr'
  unfold Cursor.tag
  refine .ite ?_ (.ite (hend (⟨none, "!"⟩, c.next) h.next) (.ite ?_ (hrest ("!", c.next) h.next)))
  · refine (reads_uri (h.skip 2)).bind fun r hr => ?_
    exact (moves_require hr _ _).bind fun c hc => hend (⟨none, r.1⟩, c.next) hc.next
  · exact (reads_tagHandle h).bind hrest

theorem reads_handleDirective (h : c.Within cs) : Reads cs c.handleDirective := by
  unfold Cursor.handleDirective
  refine (reads_tagHandle h.dropSpaces).bind fun r hr => ?_
  refine (moves_require hr _ _).bind fun c hc => ?_
  refine (reads_uri hc.dropSpaces).bind fun r hr => ?_
  exact (moves_require hr _ _).bind fun _ hc => .ok hc

/-! ### Versions -/

def InVersion (cs : List Char) (c : Cursor) : Prop :=
  ∃ between, (∀ ch ∈ between, isVersionCharacter ch = true) ∧
    ['%', 'Y', 'A', 'M', 'L'] ++ between ++ c.rest <:+ cs

theorem InVersion.within (h : InVersion cs c) : c.Within cs := by
  obtain ⟨between, -, hsuffix⟩ := h
  exact (List.suffix_append _ _).trans hsuffix

theorem InVersion.passes {c' : Cursor} {passed : List Char} (h : InVersion cs c)
    (hpasses : c.rest = passed ++ c'.rest)
    (hpassed : ∀ ch ∈ passed, isVersionCharacter ch = true) : InVersion cs c' := by
  obtain ⟨between, hbetween, hsuffix⟩ := h
  refine ⟨between ++ passed, List.forall_mem_append.mpr ⟨hbetween, hpassed⟩, ?_⟩
  rwa [hpasses, ← List.append_assoc, List.append_assoc _ between] at hsuffix

theorem InVersion.span (h : InVersion cs c) {p : Char → Bool}
    (hp : ∀ ch, p ch = true → isVersionCharacter ch = true) : InVersion cs (c.span p).2 :=
  h.passes (passes_span c p).text fun ch hch => hp ch (List.mem_takeWhile_imp hch)

theorem versionNumber_ends (h : InVersion cs c) :
    Except.Ends (fun r => InVersion cs r.2) (IsLexical cs) c.versionNumber := by
  unfold Cursor.versionNumber
  refine ((require_ends c _ _).mono fun _ => .inl).bind ?_
  rintro c ⟨rfl, -⟩
  dsimp only
  split
  · rename_i hlong
    obtain ⟨between, hbetween, hsuffix⟩ := h
    have hplace : ['%', 'Y', 'A', 'M', 'L'] ++ between ++ (c.span Char.isDigit).1 <:+: cs := by
      refine List.IsInfix.trans ?_ hsuffix.isInfix
      rw [(passes_span c Char.isDigit).text, ← List.append_assoc]
      exact List.infix_append_left
    refine .error (.inr ⟨_, rfl, .version hplace hbetween ?_ hlong⟩)
    exact fun ch hch => List.mem_takeWhile_imp hch
  · exact .ok (h.span fun ch hch => by simp [isVersionCharacter, hch])

theorem reads_version (h : InVersion cs c) : Reads cs c.version := by
  unfold Cursor.version
  have hspaces : InVersion cs c.dropSpaces := h.span fun ch hch => by simp_all [isVersionCharacter]
  refine (versionNumber_ends hspaces).bind fun r hr => ?_
  refine ((require_ends r.2 _ _).mono fun _ => .inl).bind ?_
  rintro _ ⟨rfl, hpoint⟩
  have hrest := rest_of_head (beq_iff_eq.mp hpoint) (by decide)
  have hpassed : ∀ ch ∈ ['.'], isVersionCharacter ch = true :=
    List.all_eq_true.mp (by decide)
  have hnext : InVersion cs r.2.next := by
    refine hr.passes ?_ hpassed
    exact hrest
  refine (versionNumber_ends hnext).bind fun r hr => ?_
  exact (moves_require hr.within _ _).bind fun _ hc => .ok hc

theorem reads_directive (h : '%' :: c.next.rest <:+ cs) : Reads cs c.directive := by
  have hwithin : c.next.Within cs := (List.suffix_cons _ _).trans h
  unfold Cursor.directive
  refine ((name_ends c.next isSpaceOrEnd).mono fun _ => .inl).bind ?_
  rintro ⟨name, behind⟩ hname
  have hbehind : behind.Within cs := (List.suffix_append name.toList behind.rest).trans (hname ▸ hwithin)
  dsimp only at hname ⊢
  split
  · rw [hname] at h
    exact reads_version ⟨[], nofun, h⟩
  · exact reads_handleDirective hbehind
  · exact .ok (hbehind.dropWhile _)

end Cursor

/-! ## Tokens -/

namespace Lexer

abbrev Stays (l : Lexer) (step : Except YamlFault Lexer) : Prop :=
  Except.Ends (·.cursor = l.cursor) (fun fault => fault.isOfDocument = true) step

abbrev Advances (cs : List Char) (step : Except YamlFault Lexer) : Prop :=
  Except.Ends (·.cursor.Within cs) (IsLexical cs) step

variable {l : Lexer}

theorem Stays.advances {step : Except YamlFault Lexer} (h : Stays l step)
    (hl : l.cursor.Within cs) : Advances cs step :=
  h.imp (fun _ hcursor => hcursor.symm ▸ hl) fun _ => .inl

theorem stays_dropKey (l : Lexer) : Stays l l.dropKey := by
  unfold Lexer.dropKey
  exact .ite (.error rfl) (.ok rfl)

theorem stays_dropStaleKeys (l : Lexer) : Stays l l.dropStaleKeys := by
  unfold Lexer.dropStaleKeys
  exact .ite (.error rfl) (.ok rfl)

theorem stays_saveKey (l : Lexer) : Stays l l.saveKey := by
  unfold Lexer.saveKey
  exact .ite (.ok rfl) ((stays_dropKey l).bind fun _ hkept => .ok hkept)

theorem cursor_foldl_addHere (closed : List Nat) (l : Lexer) :
    (closed.foldl (fun l _ => l.addHere .blockEnd) l).cursor = l.cursor := by
  induction closed generalizing l with
  | nil => rfl
  | cons column rest ih => exact ih _

theorem cursor_closeBlocks (l : Lexer) (column : Nat) :
    (l.closeBlocks column).cursor = l.cursor := by
  unfold Lexer.closeBlocks
  split
  · rfl
  · exact cursor_foldl_addHere _ _

theorem cursor_openBlock (l : Lexer) (token : Token) : (l.openBlock token).cursor = l.cursor := by
  unfold Lexer.openBlock
  split <;> rfl

theorem cursor_markKey (l : Lexer) (key : PossibleKey) : (l.markKey key).cursor = l.cursor := by
  unfold Lexer.markKey
  dsimp only
  split <;> rfl

theorem within_toNextTokenIn (fuel : Nat) (h : l.cursor.Within cs) :
    (toNextTokenIn fuel l).cursor.Within cs := by
  induction fuel generalizing l with
  | zero => exact h
  | succ fuel ih =>
    rw [toNextTokenIn]
    split
    · exact ih h.dropSpaces.dropComment.lineBreak
    · exact h.dropSpaces.dropComment

theorem within_toNextToken (h : l.cursor.Within cs) : l.toNextToken.cursor.Within cs := by
  unfold Lexer.toNextToken
  refine within_toNextTokenIn _ ?_
  dsimp only
  split
  · exact h.next
  · exact h

theorem stays_leaveDocument (l : Lexer) : Stays l l.leaveDocument :=
  (stays_dropKey _).bind fun _ hl => .ok (hl.trans (cursor_closeBlocks l 0))

theorem advances_readEnd (h : l.cursor.Within cs) : Advances cs l.readEnd :=
  ((stays_leaveDocument l).advances h).bind fun _ hl => .ok hl

theorem advances_readDirective (h : l.cursor.Within cs) (hhead : l.cursor.head = '%') :
    Advances cs l.readDirective := by
  have hrest := Cursor.rest_of_head hhead (by decide)
  unfold Lexer.readDirective
  refine ((stays_leaveDocument l).mono fun _ => .inl).bind fun l' hl' => ?_
  refine (Cursor.reads_directive ?_).bind fun r hr => ?_
  · rw [hl', ← hrest]
    exact h
  · exact (Cursor.moves_dropLineRest hr).bind fun _ hc => .ok hc

theorem advances_readSeparator (h : l.cursor.Within cs) : Advances cs l.readSeparator :=
  ((stays_leaveDocument l).advances h).bind fun _ hl => .ok (hl.skip 3)

theorem advances_readFlowStart (h : l.cursor.Within cs) (token : Token) :
    Advances cs (l.readFlowStart token) :=
  ((stays_saveKey l).advances h).bind fun _ hl => .ok (hl.skip 1)

theorem advances_readFlowEnd (h : l.cursor.Within cs) (token : Token) :
    Advances cs (l.readFlowEnd token) :=
  ((stays_dropKey l).advances h).bind fun _ hl => .ok (hl.skip 1)

theorem advances_readFlowEntry (h : l.cursor.Within cs) : Advances cs l.readFlowEntry :=
  ((stays_dropKey (l.allowKey true)).advances h).bind fun _ hl => .ok (hl.skip 1)

theorem advances_blockMark (h : l.cursor.Within cs) (opening token : Token) (allowed : Bool) :
    Advances cs (do return (← ((l.openBlock opening).allowKey allowed).dropKey).addMark token 1) := by
  have hopened : ((l.openBlock opening).allowKey allowed).cursor.Within cs :=
    (cursor_openBlock l opening).symm ▸ h
  exact ((stays_dropKey _).advances hopened).bind fun _ hl => .ok (hl.skip 1)

theorem advances_readBlockEntry (h : l.cursor.Within cs) : Advances cs l.readBlockEntry := by
  unfold Lexer.readBlockEntry
  exact .ite (.error (isLexical_here _ _)) (advances_blockMark h _ _ _)

theorem advances_readKey (h : l.cursor.Within cs) : Advances cs l.readKey := by
  unfold Lexer.readKey
  exact .ite (.error (isLexical_here _ _)) (advances_blockMark h _ _ _)

theorem advances_readValue (h : l.cursor.Within cs) : Advances cs l.readValue := by
  unfold Lexer.readValue
  split
  · rename_i key _
    have hmarked : (l.markKey key).cursor.Within cs := (cursor_markKey l key).symm ▸ h
    exact .ok (hmarked.skip 1)
  · exact .ite (.error (isLexical_here _ _)) (advances_blockMark h _ _ _)

theorem advances_readNode (h : l.cursor.Within cs) {read : Cursor → Except YamlFault (Token × Cursor)}
    (hread : ∀ c : Cursor, c.Within cs → Cursor.Reads cs (read c)) : Advances cs (l.readNode read) :=
  ((stays_saveKey l).advances h).bind fun l' hl' => (hread l'.cursor hl').bind fun _ hr => .ok hr

theorem advances_readBlockScalar (h : l.cursor.Within cs) (folded : Bool) :
    Advances cs (l.readBlockScalar folded) :=
  ((stays_dropKey (l.allowKey true)).advances h).bind fun l' hl' =>
    (Cursor.reads_block folded l'.indent hl').bind fun _ hr => .ok hr

theorem advances_readPlain (h : l.cursor.Within cs) : Advances cs l.readPlain :=
  ((stays_saveKey l).advances h).bind fun l' hl' =>
    .ok (Cursor.within_plain l'.inFlow l'.indent hl')

theorem reads_anchorName {c : Cursor} (h : c.Within cs) : Cursor.Reads cs (anchorName c) :=
  Cursor.reads_name h.next _

theorem advances_readToken (h : l.cursor.Within cs) : Advances cs l.readToken := by
  unfold Lexer.readToken
  refine .ite (advances_readEnd h) ?_
  refine .ite_of (fun hdirective => ?_) fun _ => .ite (advances_readSeparator h) ?_
  · exact advances_readDirective h (beq_iff_eq.mp (Bool.and_eq_true_iff.mp hdirective).2)
  refine .ite (advances_readFlowStart h _) (.ite (advances_readFlowStart h _) ?_)
  refine .ite (advances_readFlowEnd h _) (.ite (advances_readFlowEnd h _) ?_)
  refine .ite (advances_readFlowEntry h) (.ite (advances_readBlockEntry h) ?_)
  refine .ite (advances_readKey h) (.ite (advances_readValue h) ?_)
  refine .ite (advances_readNode h fun c hc => (reads_anchorName hc).bind fun _ hr => .ok hr) ?_
  refine .ite (advances_readNode h fun c hc => (reads_anchorName hc).bind fun _ hr => .ok hr) ?_
  refine .ite (advances_readNode h fun c hc => (Cursor.reads_tag hc).bind fun _ hr => .ok hr) ?_
  refine .ite (advances_readBlockScalar h _) (.ite (advances_readBlockScalar h _) ?_)
  refine .ite (advances_readNode h fun c hc => (Cursor.reads_quoted _ hc).bind fun _ hr => .ok hr) ?_
  refine .ite (advances_readNode h fun c hc => (Cursor.reads_quoted _ hc).bind fun _ hr => .ok hr) ?_
  exact .ite (advances_readPlain h) (.error (isLexical_here _ _))

theorem advances_step (h : l.cursor.Within cs) : Advances cs l.step := by
  unfold Lexer.step
  refine ((stays_dropStaleKeys _).advances (within_toNextToken h)).bind fun l hl => ?_
  have hclosed : (l.closeBlocks l.column).cursor.Within cs := (cursor_closeBlocks l _).symm ▸ hl
  refine (advances_readToken hclosed).bind fun l hl => ?_
  exact .ite (.ok hl) ((stays_dropStaleKeys l).advances hl)

/-- A run over a text stops at a fault of its tokens only. -/
theorem tokensFrom_fault (fuel : Nat) (done : List PlacedToken) (h : l.cursor.Within cs) :
    ∀ fault ∈ (tokensFrom fuel done l).fault, IsLexical cs fault := by
  induction fuel generalizing done l with
  | zero =>
    intro fault hfault
    cases hfault
  | succ fuel ih =>
    have hstep := advances_step h
    rw [tokensFrom_succ]
    by_cases hfinished : l.finished = true
    · intro fault hfault
      rw [if_pos hfinished] at hfault
      cases hfault
    rw [if_neg hfinished]
    cases hnext : l.step with
    | error fault =>
      rw [hnext] at hstep
      rintro _ ⟨rfl⟩
      exact hstep.of_error
    | ok l' =>
      rw [hnext] at hstep
      exact ih _ hstep.of_ok

end Lexer

/-- The tokens of a text end with its document at fault, or with a number that cannot be read. -/
theorem TokenStream.fault_isLexical (cs : List Char) :
    ∀ fault ∈ (TokenStream.ofChars cs).fault, IsLexical cs fault :=
  Lexer.tokensFrom_fault _ _ (List.suffix_refl cs)

end JsonSchema.Yaml
