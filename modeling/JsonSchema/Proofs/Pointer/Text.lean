import JsonSchema.Pointer.Resolve

/-!
# Pointers in text

The tokens of a pointer come back from its text.
-/

namespace JsonSchema

/-! ## Cutting at a character -/

theorem splitChars_of_not_mem {mark : Char} {cs : List Char} (h : mark ∉ cs) :
    splitChars mark cs = [cs] := by
  induction cs with
  | nil => rfl
  | cons c rest ih =>
    rw [List.mem_cons, not_or] at h
    rw [splitChars, ih h.2]
    simp [Ne.symm h.1]

theorem splitChars_append {mark : Char} {part rest : List Char} (h : mark ∉ part) :
    splitChars mark (part ++ mark :: rest) = part :: splitChars mark rest := by
  induction part with
  | nil =>
    rw [List.nil_append, splitChars]
    cases hrest : splitChars mark rest with
    | nil =>
      cases rest with
      | nil => simp [splitChars] at hrest
      | cons c rest =>
        rw [splitChars] at hrest
        split at hrest
        · simp at hrest
        · split at hrest <;> simp at hrest
    | cons first others => simp
  | cons c part ih =>
    rw [List.mem_cons, not_or] at h
    rw [List.cons_append, splitChars, ih h.2]
    simp [Ne.symm h.1]

namespace Pointer

/-! ## Tokens -/

theorem slash_notMem_escapeChars (cs : List Char) : '/' ∉ escapeChars cs := by
  fun_induction escapeChars cs with
  | case1 => simp
  | case2 rest ih => simp [ih]
  | case3 rest ih => simp [ih]
  | case4 c rest _ hslash ih => simp [ih, Ne.symm hslash]

theorem unescapeChars_cons {c : Char} (h : c ≠ '~') (rest : List Char) :
    unescapeChars (c :: rest) = c :: unescapeChars rest := by
  rw [unescapeChars] <;> simp_all

theorem unescapeChars_escapeChars (cs : List Char) : unescapeChars (escapeChars cs) = cs := by
  fun_induction escapeChars cs with
  | case1 => rfl
  | case2 rest ih => rw [unescapeChars, ih]
  | case3 rest ih => rw [unescapeChars, ih]
  | case4 c rest htilde _ ih => rw [unescapeChars_cons htilde, ih]

/-! ## Whole pointers -/

def chars (tokens : List String) : List Char :=
  tokens.flatMap fun token => '/' :: escapeChars token.toList

theorem toList_join (base : String) (tokens : List String) :
    (join base tokens).toList = base.toList ++ chars tokens := by
  rw [join, String.toList_append]
  congr 1
  induction tokens with
  | nil => rfl
  | cons token rest ih => simp_all [chars, escape]

theorem toList_ofTokens (tokens : List String) : (ofTokens tokens).toList = chars tokens :=
  toList_join "" tokens

theorem join_join (base : String) (tokens more : List String) :
    join (join base tokens) more = join base (tokens ++ more) := by
  rw [← String.toList_inj, toList_join, toList_join, toList_join]
  simp [chars]

theorem join_nil (base : String) : join base [] = base := by
  rw [← String.toList_inj, toList_join]
  simp [chars]

theorem join_ofTokens (tokens more : List String) :
    join (ofTokens tokens) more = ofTokens (tokens ++ more) :=
  join_join "" tokens more

theorem splitChars_chars (token : String) (tokens : List String) :
    splitChars '/' (escapeChars token.toList ++ chars tokens) =
      (token :: tokens).map fun token => escapeChars token.toList := by
  induction tokens generalizing token with
  | nil => simpa [chars] using splitChars_of_not_mem (slash_notMem_escapeChars _)
  | cons next rest ih =>
    rw [chars, List.flatMap_cons, List.cons_append,
      splitChars_append (slash_notMem_escapeChars _), List.map_cons, ← ih next]
    rfl

theorem ofChars_chars (tokens : List String) : ofChars (chars tokens) = .ok tokens := by
  cases tokens with
  | nil => rfl
  | cons token rest =>
    rw [chars, List.flatMap_cons, List.cons_append, ofChars]
    have := splitChars_chars token rest
    rw [chars] at this
    rw [this]
    simp [Function.comp_def, unescapeChars_escapeChars]

theorem split_ofTokens (tokens : List String) : split (ofTokens tokens) = .ok tokens := by
  rw [split, toList_ofTokens]
  cases tokens with
  | nil => rfl
  | cons token rest => exact ofChars_chars (token :: rest)

theorem chars_injective : Function.Injective chars := by
  intro tokens tokens' h
  have := ofChars_chars tokens
  rw [h, ofChars_chars] at this
  exact (Except.ok.inj this).symm

theorem ofTokens_injective : Function.Injective ofTokens := by
  intro tokens tokens' h
  apply chars_injective
  rw [← toList_ofTokens, ← toList_ofTokens, h]

theorem ofTokens_append (tokens more : List String) :
    ofTokens (tokens ++ more) = ofTokens tokens ++ ofTokens more := by
  rw [← String.toList_inj, String.toList_append, toList_ofTokens, toList_ofTokens, toList_ofTokens]
  exact List.flatMap_append

theorem split_of_decodes {fragment : String} {tokens : List String}
    (h : Uri.percentDecode fragment = ofTokens tokens) : split ("#" ++ fragment) = .ok tokens := by
  have hchars : Uri.percentDecodeChars fragment.toList = chars tokens := by
    rw [← toList_ofTokens, ← h, Uri.percentDecode, String.toList_ofList]
  have hsplit : ("#" ++ fragment).toList = '#' :: fragment.toList := String.toList_append ..
  rw [split, hsplit, ← ofChars_chars, ← hchars]
  rfl

end Pointer

theorem Path.pointer_append (base path : Path) :
    Path.pointer (base ++ path) = base.pointer ++ path.pointer := by
  rw [Path.pointer, List.map_append, Pointer.ofTokens_append]
  rfl

end JsonSchema
