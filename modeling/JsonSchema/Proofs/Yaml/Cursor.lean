import JsonSchema.Proofs.Json.Grammar
import JsonSchema.Yaml.Cursor

/-!
# Moving along a text

Every reader moves its cursor over some characters. What a cursor knows behind them, its index and
its place, follows from the characters alone.
-/

namespace JsonSchema.Yaml.Cursor

open JsonReader (isSpace skipSpace)

variable {c c' c'' : Cursor} {cs cs' rest : List Char} {ch : Char} {p q : Char → Bool}

/-! ## Skipping -/

theorem skip_add (m n : Nat) (c : Cursor) : skip (m + n) c = skip n (skip m c) := by
  induction m generalizing c with
  | zero => rw [Nat.zero_add, skip]
  | succ m ih => rw [Nat.succ_add, skip, skip, ih]

theorem rest_next (c : Cursor) : c.next.rest = c.rest.drop 1 := by
  unfold next
  split
  case h_1 h => rw [h]; rfl
  case h_2 h => rw [h]; rfl

theorem rest_skip (n : Nat) (c : Cursor) : (skip n c).rest = c.rest.drop n := by
  induction n generalizing c with
  | zero => rfl
  | succ n ih => rw [skip, ih, rest_next, List.drop_drop, Nat.add_comm]

/-- The second cursor stands behind the first one, with these characters in between. -/
structure Passes (c : Cursor) (cs : List Char) (c' : Cursor) : Prop where
  text : c.rest = cs ++ c'.rest
  eq : c' = skip cs.length c

namespace Passes

theorem refl (c : Cursor) : c.Passes [] c := ⟨rfl, rfl⟩

theorem trans (h : c.Passes cs c') (h' : c'.Passes cs' c'') : c.Passes (cs ++ cs') c'' where
  text := by rw [h.text, h'.text, List.append_assoc]
  eq := by rw [h'.eq, h.eq, ← skip_add, List.length_append]

theorem of_skip (cs : List Char) (h : c.rest = cs ++ rest) : c.Passes cs (skip cs.length c) where
  text := by rw [rest_skip, h, List.drop_left]
  eq := rfl

theorem of_next (h : c.rest = ch :: rest) : c.Passes [ch] c.next :=
  of_skip [ch] h

theorem rest_eq (h : c.Passes cs c') (htext : c.rest = cs ++ rest) : c'.rest = rest :=
  List.append_cancel_left (h.text.symm.trans htext)

theorem induct {P : Cursor → List Char → Prop} (h : c.Passes cs c') (hnil : P c' [])
    (hcons : ∀ c ch cs, c.rest = ch :: (cs ++ c'.rest) → P c.next cs → P c (ch :: cs)) :
    P c cs := by
  induction cs generalizing c with
  | nil =>
    obtain rfl : c' = c := h.eq
    exact hnil
  | cons ch cs ih =>
    exact hcons c ch cs h.text (ih ⟨by rw [rest_next, h.text]; rfl, h.eq⟩)

theorem index (h : c.Passes cs c') : c'.index = c.index + cs.length := by
  refine h.induct (P := fun c cs => c'.index = c.index + cs.length) rfl fun c ch cs hrest ih => ?_
  rw [ih, next, hrest, List.length_cons, Nat.add_assoc, Nat.add_comm 1]

theorem line (h : c.Passes cs c') (hline : ∀ ch ∈ cs, isLineBreak ch = false) :
    c'.place.line = c.place.line := by
  refine h.induct (P := fun c cs => (∀ ch ∈ cs, isLineBreak ch = false) →
    c'.place.line = c.place.line) (fun _ => rfl) (fun c ch cs hrest ih hline => ?_) hline
  rw [List.forall_mem_cons] at hline
  have hends : endsLine ch (cs ++ c'.rest) = false := by rw [endsLine, hline.1, Bool.false_and]
  rw [ih hline.2, next, hrest]
  simp only [placeAfter, hends, Bool.false_eq_true, if_false]
  split <;> rfl

theorem column (h : c.Passes cs c') (hcolumn : 1 ≤ c.place.column) : 1 ≤ c'.place.column := by
  refine h.induct (P := fun c _ => 1 ≤ c.place.column → 1 ≤ c'.place.column) id
    (fun c ch cs hrest ih hcolumn => ih ?_) hcolumn
  rw [next, hrest]
  simp only [placeAfter]
  split
  · exact Nat.le_refl 1
  · split
    · exact hcolumn
    · exact Nat.le_add_left 1 _

end Passes

/-! ## Runs of characters -/

theorem passes_span (c : Cursor) (p : Char → Bool) : c.Passes (c.rest.takeWhile p) (c.span p).2 :=
  .of_skip _ List.takeWhile_append_dropWhile.symm

theorem passes_dropWhile (c : Cursor) (p : Char → Bool) :
    c.Passes (c.rest.takeWhile p) (c.dropWhile p) :=
  passes_span c p

theorem rest_dropWhile (c : Cursor) (p : Char → Bool) :
    (c.dropWhile p).rest = c.rest.dropWhile p :=
  (passes_dropWhile c p).rest_eq List.takeWhile_append_dropWhile.symm

theorem span_of_pos (h : c.rest = ch :: rest) (hp : p ch = true) :
    c.span p = (ch :: (c.next.span p).1, (c.next.span p).2) := by
  have hrest : c.next.rest = rest := by rw [rest_next, h, List.drop_one, List.tail_cons]
  simp only [span, h, hrest, List.takeWhile_cons_of_pos hp, List.length_cons, skip]

theorem span_of_neg (h : ∀ ch rest, c.rest = ch :: rest → p ch = false) : c.span p = ([], c) := by
  cases hrest : c.rest with
  | nil => simp [span, hrest, skip]
  | cons ch rest => simp [span, hrest, h ch rest hrest, skip]

theorem dropWhile_of_pos (h : c.rest = ch :: rest) (hp : p ch = true) :
    c.dropWhile p = c.next.dropWhile p := by
  rw [dropWhile, span_of_pos h hp]
  rfl

theorem dropWhile_of_neg (h : ∀ ch rest, c.rest = ch :: rest → p ch = false) :
    c.dropWhile p = c := by
  rw [dropWhile, span_of_neg h]

theorem dropWhile_dropWhile (h : ∀ ch, p ch = true → q ch = true) (c : Cursor) :
    (c.dropWhile p).dropWhile q = c.dropWhile q := by
  induction hrest : c.rest generalizing c with
  | nil => rw [dropWhile_of_neg (p := p) (by simp [hrest])]
  | cons ch rest ih =>
    cases hp : p ch with
    | true =>
      rw [dropWhile_of_pos hrest hp, dropWhile_of_pos hrest (h ch hp)]
      exact ih c.next (by rw [rest_next, hrest, List.drop_one, List.tail_cons])
    | false => rw [dropWhile_of_neg (p := p) (by simpa [hrest] using hp)]

theorem head_eq (h : c.rest = ch :: rest) : c.head = ch := by rw [head, h, List.headD_cons]

theorem head_nil (h : c.rest = []) : c.head = endMark := by rw [head, h, List.headD_nil]

theorem peek_one (h : c.rest = ch :: rest) : c.peek 1 = rest.headD endMark := by
  rw [peek, h]
  cases rest <;> rfl

theorem rest_of_atSeparator (h : c.atSeparator = true) :
    ∃ rest, c.rest = '-' :: '-' :: rest ∨ c.rest = '.' :: '.' :: rest := by
  rw [atSeparator, Bool.and_eq_true, Bool.or_eq_true] at h
  rcases h.1 with h | h <;> obtain ⟨rest, hrest⟩ := List.isPrefixOf_iff_prefix.mp h
  · exact ⟨'-' :: rest, .inl hrest.symm⟩
  · exact ⟨'.' :: rest, .inr hrest.symm⟩

/-! ## Blanks of a JSON text -/

def dropBlanks (c : Cursor) : Cursor := c.dropWhile isSpace

theorem rest_dropBlanks (c : Cursor) : c.dropBlanks.rest = skipSpace c.rest :=
  rest_dropWhile c isSpace

theorem passes_dropBlanks (c : Cursor) : c.Passes (c.rest.takeWhile isSpace) c.dropBlanks :=
  passes_dropWhile c isSpace

theorem dropBlanks_dropSpaces (c : Cursor) : c.dropSpaces.dropBlanks = c.dropBlanks :=
  dropWhile_dropWhile (by simp [isSpace]) c

theorem dropBlanks_of_isSpace (h : c.rest = ch :: rest) (hch : isSpace ch = true) :
    c.dropBlanks = c.next.dropBlanks :=
  dropWhile_of_pos h hch

theorem dropBlanks_lineBreak (hspace : isSpace c.head = true) (hbreak : isLineBreak c.head = true) :
    c.lineBreak.2.dropBlanks = c.dropBlanks ∧ c.lineBreak.2.rest.length < c.rest.length ∧
      ∃ passed, c.Passes passed c.lineBreak.2 := by
  unfold lineBreak
  split
  case h_1 rest h =>
    have hnext : c.next.rest = '\n' :: rest := by rw [rest_next, h]; rfl
    refine ⟨?_, ?_, _, (Passes.of_next h).trans (.of_next hnext)⟩
    · rw [dropBlanks_of_isSpace h rfl, dropBlanks_of_isSpace hnext rfl]
      rfl
    · simp only [skip, rest_next, h, List.drop_one, List.tail_cons, List.length_cons]
      omega
  case h_2 ch rest _ h =>
    rw [head_eq h] at hspace hbreak
    split
    case isTrue hseparator =>
      rcases Bool.or_eq_true _ _ ▸ hseparator with heq | heq <;> rw [beq_iff_eq.mp heq] at hspace <;>
        simp [isSpace] at hspace
    case isFalse =>
      refine ⟨(dropBlanks_of_isSpace h hspace).symm, ?_, _, .of_next h⟩
      simp [rest_next, h]
  case h_3 h => simp [head_nil h, endMark, isSpace] at hspace

/-- Blanks without tabs stand here, and behind them no line break of YAML and no comment. -/
structure Clear (c : Cursor) : Prop where
  untabbed : '\t' ∉ c.rest.takeWhile isSpace
  token : ∀ ch rest, skipSpace c.rest = ch :: rest → isLineBreak ch = false ∧ ch ≠ '#'

theorem Clear.of_passes (h : c.Clear) (hpasses : c.Passes cs c')
    (hsame : c'.dropBlanks = c.dropBlanks) : c'.Clear := by
  have hskip : skipSpace c'.rest = skipSpace c.rest := by
    rw [← rest_dropBlanks, hsame, rest_dropBlanks]
  refine ⟨fun hmem => h.untabbed ?_, by rw [hskip]; exact h.token⟩
  -- The blanks at the first cursor are those in between and those at the second one.
  have hblanks : c.rest.takeWhile isSpace ++ skipSpace c.rest =
      (cs ++ c'.rest.takeWhile isSpace) ++ skipSpace c.rest := by
    rw [JsonReader.takeWhile_append_skipSpace, ← hskip, List.append_assoc,
      JsonReader.takeWhile_append_skipSpace, hpasses.text]
  rw [List.append_cancel_right hblanks]
  exact List.mem_append_right cs hmem

theorem Clear.dropSpaces (h : c.Clear) :
    c.dropSpaces.Clear ∧ ((isLineBreak c.dropSpaces.head = true ∧ isSpace c.dropSpaces.head = true) ∨
      (isLineBreak c.dropSpaces.head = false ∧ c.dropSpaces = c.dropBlanks)) := by
  have hclear : c.dropSpaces.Clear :=
    h.of_passes (passes_dropWhile c _) (dropBlanks_dropSpaces c)
  refine ⟨hclear, ?_⟩
  rw [← dropBlanks_dropSpaces c]
  cases hrest : c.dropSpaces.rest with
  | nil =>
    refine .inr ⟨by rw [head_nil hrest]; rfl, (dropWhile_of_neg ?_).symm⟩
    simp [hrest]
  | cons ch rest =>
    rw [head_eq hrest]
    cases hspace : isSpace ch with
    | false =>
      refine .inr ⟨(hclear.token ch rest ?_).1, (dropWhile_of_neg ?_).symm⟩
      · rw [hrest, skipSpace, List.dropWhile_cons_of_neg (by simp [hspace])]
      · simpa [hrest] using hspace
    | true =>
      refine .inl ⟨?_, rfl⟩
      have htab : ch ≠ '\t' := by
        rintro rfl
        exact hclear.untabbed (by simp [hrest, isSpace])
      have hne : ch ≠ ' ' := by
        rintro rfl
        have hdropped : c.rest.dropWhile (· == ' ') = ' ' :: rest := by
          rw [← rest_dropWhile]
          exact hrest
        simpa [hdropped] using List.head?_dropWhile_not (· == ' ') c.rest
      simp only [isSpace, Bool.or_eq_true, beq_iff_eq, hne, htab, false_or] at hspace
      rcases hspace with rfl | rfl <;> rfl

end JsonSchema.Yaml.Cursor
