import JsonSchema.Proofs.Yaml.Cursor
import JsonSchema.Yaml.Lexer
import JsonSchema.Yaml.Source

/-!
# JSON texts that are YAML

YAML takes most JSON texts for the same document, but not all of them. A text fits when it has none
of the following: a character that YAML does not know, a tab between its tokens, a line in a string
that starts like a mark between documents, and a name whose colon comes late or on another line, or
that YAML reads in another way.
-/

namespace JsonSchema.Yaml

open JsonReader

/-! ## Texts that fit -/

def cutString : Chars → Chars × Chars
  | [] => ([], [])
  | '"' :: rest => ([], rest)
  | '\\' :: c :: rest => ('\\' :: c :: (cutString rest).1, (cutString rest).2)
  | c :: rest => (c :: (cutString rest).1, (cutString rest).2)

/-- Whether YAML reads the same characters in a string: no line ends in it, and no escape is half
of a surrogate pair. -/
def isLiteral : Chars → Bool
  | [] => true
  | '\\' :: 'u' :: a :: b :: c :: d :: rest =>
    !(hexUnit? a b c d).any (fun n => isHighUnit n || isLowUnit n) && isLiteral rest
  | '\\' :: _ :: rest => isLiteral rest
  | c :: rest => !isLineBreak c && isLiteral rest

/-- Whether a string is either no name of a member or one that YAML finds; the text starts behind
its opening quote. -/
def nameFits (cs : Chars) : Bool :=
  let (body, behind) := cutString cs
  let blanks := behind.takeWhile isSpace
  (skipSpace behind).head? != some ':' ||
    (isLiteral body && blanks.all (· == ' ') &&
      decide (body.length + 2 + blanks.length ≤ maxKeyLength))

/-- Whether a text fits from here on, inside or outside a string. -/
def fitsFrom : (inString : Bool) → Chars → Bool
  | _, [] => true
  | true, '"' :: rest => fitsFrom false rest
  | true, '\\' :: _ :: rest => fitsFrom true rest
  | true, c :: rest =>
    !(isLineBreak c && (Cursor.ofChars rest).atSeparator) && fitsFrom true rest
  | false, '"' :: rest => nameFits rest && fitsFrom true rest
  | false, c :: rest => c != '\t' && fitsFrom false rest

/-- Whether a JSON text is a YAML text for the same document. -/
def fits (text : String) : Bool :=
  text.toList.all isYamlCharacter && fitsFrom false text.toList

/-! ## Strings that fit -/

attribute [local simp] cutString isLiteral fitsFrom

theorem hexValue?_ne {c : Char} {n : Nat} (h : hexValue? c = some n) :
    c ≠ '"' ∧ c ≠ '\\' ∧ isLineBreak c = false := by
  have hne : ∀ other : Char, hexValue? other = none → c ≠ other := by
    rintro other hnone rfl
    rw [hnone] at h
    cases h
  refine ⟨hne _ rfl, hne _ rfl, ?_⟩
  simp [isLineBreak, hne '\n' rfl, hne '\r' rfl, hne '\x85' rfl, hne '\u2028' rfl, hne '\u2029' rfl]

theorem hexUnit?_eq_some {a b c d : Char} {n : Nat} (h : hexUnit? a b c d = some n) :
    ∃ w x y z, hexValue? a = some w ∧ hexValue? b = some x ∧ hexValue? c = some y ∧
      hexValue? d = some z ∧ n = ((w * 16 + x) * 16 + y) * 16 + z := by
  unfold hexUnit? at h
  obtain ⟨w, hw, h⟩ := Option.bind_eq_some_iff.mp h
  obtain ⟨x, hx, h⟩ := Option.bind_eq_some_iff.mp h
  obtain ⟨y, hy, h⟩ := Option.bind_eq_some_iff.mp h
  obtain ⟨z, hz, h⟩ := Option.bind_eq_some_iff.mp h
  exact ⟨w, x, y, z, hw, hx, hy, hz, (Option.some.inj h).symm⟩

section

variable {c : Char} {body chars rest : Chars}

theorem cutString_plain (hquote : c ≠ '"') (hslash : c ≠ '\\') (cs : Chars) :
    cutString (c :: cs) = (c :: (cutString cs).1, (cutString cs).2) := by
  simp [hslash]

theorem isLiteral_plain (hslash : c ≠ '\\') :
    isLiteral (c :: body) = (!isLineBreak c && isLiteral body) := by
  simp [hslash]

theorem isLiteral_escape (hc : c ≠ 'u') : isLiteral ('\\' :: c :: body) = isLiteral body := by
  simp [hc]

theorem fitsFrom_plain (hquote : c ≠ '"') (hslash : c ≠ '\\') (cs : Chars) :
    fitsFrom true (c :: cs) =
      (!(isLineBreak c && (Cursor.ofChars cs).atSeparator) && fitsFrom true cs) := by
  simp [hslash]

theorem fitsFrom_outside (hquote : c ≠ '"') (cs : Chars) :
    fitsFrom false (c :: cs) = (c != '\t' && fitsFrom false cs) := by
  simp

theorem fitsFrom_hex {n : Nat} (h : hexValue? c = some n) (cs : Chars) :
    fitsFrom true (c :: cs) = fitsFrom true cs := by
  obtain ⟨hquote, hslash, hbreak⟩ := hexValue?_ne h
  rw [fitsFrom_plain hquote hslash, hbreak, Bool.false_and, Bool.not_false, Bool.true_and]

theorem fitsFrom_escape (c : Char) (cs : Chars) :
    fitsFrom true ('\\' :: c :: cs) = fitsFrom true cs := by
  simp

theorem fitsFrom_unit {a b c d : Char} {n : Nat} (h : hexUnit? a b c d = some n) (cs : Chars) :
    fitsFrom true ('\\' :: 'u' :: a :: b :: c :: d :: cs) = fitsFrom true cs := by
  obtain ⟨w, x, y, z, ha, hb, hc, hd, -⟩ := hexUnit?_eq_some h
  rw [fitsFrom_escape, fitsFrom_hex ha, fitsFrom_hex hb, fitsFrom_hex hc, fitsFrom_hex hd]

theorem cutString_unit {a b c d : Char} {n : Nat} (h : hexUnit? a b c d = some n) (cs : Chars) :
    cutString ('\\' :: 'u' :: a :: b :: c :: d :: cs) =
      ('\\' :: 'u' :: a :: b :: c :: d :: (cutString cs).1, (cutString cs).2) := by
  obtain ⟨w, x, y, z, ha, hb, hc, hd, -⟩ := hexUnit?_eq_some h
  rw [cutString, cutString_plain (hexValue?_ne ha).1 (hexValue?_ne ha).2.1,
    cutString_plain (hexValue?_ne hb).1 (hexValue?_ne hb).2.1,
    cutString_plain (hexValue?_ne hc).1 (hexValue?_ne hc).2.1,
    cutString_plain (hexValue?_ne hd).1 (hexValue?_ne hd).2.1]

theorem cutString_body (h : Body body chars) (rest : Chars) :
    cutString (body ++ '"' :: rest) = (body, rest) := by
  induction h with
  | nil => rfl
  | plain hquote hslash _ _ ih => rw [List.cons_append, cutString_plain hquote hslash, ih]
  | escape _ _ ih => rw [List.cons_append, List.cons_append, cutString, ih]
  | unit hunit _ ih => simp only [List.cons_append, cutString_unit hunit, ih]
  | pair hhigh _ hlow _ ih =>
    simp only [List.cons_append, cutString_unit hhigh, cutString_unit hlow, ih]

theorem fitsFrom_body (h : Body body chars)
    (hfits : fitsFrom true (body ++ '"' :: rest) = true) : fitsFrom false rest = true := by
  induction h with
  | nil => rwa [List.nil_append, fitsFrom] at hfits
  | plain hquote hslash _ _ ih =>
    rw [List.cons_append, fitsFrom_plain hquote hslash, Bool.and_eq_true] at hfits
    exact ih hfits.2
  | escape _ _ ih =>
    rw [List.cons_append, List.cons_append, fitsFrom_escape] at hfits
    exact ih hfits
  | unit hunit _ ih =>
    simp only [List.cons_append, fitsFrom_unit hunit] at hfits
    exact ih hfits
  | pair hhigh _ hlow _ ih =>
    simp only [List.cons_append, fitsFrom_unit hhigh, fitsFrom_unit hlow] at hfits
    exact ih hfits

theorem isLineBreak_of_isLiteral (h : Body body chars) (hliteral : isLiteral body = true) :
    ∀ ch ∈ body, isLineBreak ch = false := by
  have hhex : ∀ {a b c d : Char} {n : Nat}, hexUnit? a b c d = some n →
      ∀ ch ∈ ['\\', 'u', a, b, c, d], isLineBreak ch = false := by
    intro a b c d n hunit ch hch
    obtain ⟨w, x, y, z, ha, hb, hc, hd, -⟩ := hexUnit?_eq_some hunit
    simp only [List.mem_cons, List.not_mem_nil, or_false] at hch
    rcases hch with rfl | rfl | rfl | rfl | rfl | rfl
    · rfl
    · rfl
    · exact (hexValue?_ne ha).2.2
    · exact (hexValue?_ne hb).2.2
    · exact (hexValue?_ne hc).2.2
    · exact (hexValue?_ne hd).2.2
  induction h with
  | nil => exact nofun
  | plain _ hslash _ _ ih =>
    rw [isLiteral_plain hslash, Bool.and_eq_true, Bool.not_eq_true'] at hliteral
    exact List.forall_mem_cons.mpr ⟨hliteral.1, ih hliteral.2⟩
  | @escape c escaped _ _ hc _ ih =>
    have hu : c ≠ 'u' := by
      rintro rfl
      cases hc
    have hbreak : isLineBreak c = false := by
      unfold simpleEscape? at hc
      split at hc <;> first | rfl | cases hc
    rw [isLiteral_escape hu] at hliteral
    exact List.forall_mem_cons.mpr ⟨rfl, List.forall_mem_cons.mpr ⟨hbreak, ih hliteral⟩⟩
  | unit hunit _ ih =>
    rw [isLiteral, Bool.and_eq_true] at hliteral
    exact List.forall_mem_append.mpr ⟨hhex hunit, ih hliteral.2⟩
  | pair hhigh hisHigh =>
    rw [isLiteral, hhigh, Option.any_some, hisHigh] at hliteral
    cases hliteral

theorem isLineBreak_of_quoted (h : Body body chars) (hliteral : isLiteral body = true) :
    ∀ ch ∈ '"' :: (body ++ ['"']), isLineBreak ch = false := by
  rw [List.forall_mem_cons, List.forall_mem_append, List.forall_mem_singleton]
  exact ⟨rfl, isLineBreak_of_isLiteral h hliteral, rfl⟩

/-! ## Blanks that fit -/

theorem fitsFrom_skipSpace {cs : Chars} (h : fitsFrom false cs = true) :
    fitsFrom false (skipSpace cs) = true ∧ '\t' ∉ cs.takeWhile isSpace := by
  induction cs with
  | nil => exact ⟨rfl, List.not_mem_nil⟩
  | cons c rest ih =>
    cases hc : isSpace c with
    | false =>
      rw [skipSpace, List.dropWhile_cons_of_neg (by simp [hc])]
      exact ⟨h, by simp [hc]⟩
    | true =>
      have hquote : c ≠ '"' := by
        rintro rfl
        cases hc
      rw [fitsFrom_outside hquote, Bool.and_eq_true, bne_iff_ne] at h
      rw [skipSpace, List.dropWhile_cons_of_pos hc, List.takeWhile_cons_of_pos hc,
        List.mem_cons, not_or]
      exact ⟨(ih h.2).1, h.1.symm, (ih h.2).2⟩

end

end JsonSchema.Yaml
