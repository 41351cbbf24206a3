import JsonSchema.Format.Check
import JsonSchema.Proofs.Pointer.Text
import Mathlib.Computability.Language
import Mathlib.Data.List.TFAE
import Mathlib.Tactic.TFAE

/-!
# The format of pointers

Three descriptions of the same strings: what is written for tokens, what the format of pointers
accepts, and the expression `(/([^~/]|~[01])*)*`. What is written is read back.
-/

namespace JsonSchema

namespace Pointer

/-! ## Escapes as replacements -/

theorem escapeChars_cons {c : Char} (htilde : c ≠ '~') (hslash : c ≠ '/') (rest : List Char) :
    escapeChars (c :: rest) = c :: escapeChars rest := by
  rw [escapeChars] <;> simp_all

def replaceChar (mark : Char) (text : List Char) (cs : List Char) : List Char :=
  cs.flatMap fun c => if c = mark then text else [c]

/-- Puts `mark` in the place of every `first` that has `second` behind it, from left to right. -/
def replacePair (first second mark : Char) : List Char → List Char
  | c :: d :: rest =>
    if c = first ∧ d = second then mark :: replacePair first second mark rest
    else c :: replacePair first second mark (d :: rest)
  | cs => cs

/-- The marks of pointers are escaped one after the other; `~` has to be the first of them. -/
theorem escapeChars_eq_replaceChar (cs : List Char) :
    escapeChars cs = replaceChar '/' ['~', '1'] (replaceChar '~' ['~', '0'] cs) := by
  fun_induction escapeChars cs with
  | case1 => rfl
  | case2 rest ih => simp [ih, replaceChar]
  | case3 rest ih => simp [ih, replaceChar]
  | case4 c rest htilde hslash ih => simp [ih, replaceChar, if_neg htilde, if_neg hslash]

section

variable {first second mark c d : Char}

theorem replacePair_cons (h : c ≠ first) (rest : List Char) :
    replacePair first second mark (c :: rest) = c :: replacePair first second mark rest := by
  cases rest with
  | nil => rfl
  | cons d rest => rw [replacePair, if_neg fun hpair => h hpair.1]

theorem replacePair_pair (rest : List Char) :
    replacePair first second mark (first :: second :: rest) =
      mark :: replacePair first second mark rest := by
  rw [replacePair, if_pos ⟨rfl, rfl⟩]

theorem replacePair_other (h : d ≠ second) (rest : List Char) :
    replacePair first second mark (c :: d :: rest) =
      c :: replacePair first second mark (d :: rest) := by
  rw [replacePair, if_neg fun hpair => h hpair.2]

theorem exists_replacePair_cons (first second mark c : Char) (rest : List Char) :
    ∃ d more, replacePair first second mark (c :: rest) = d :: more ∧ (d = c ∨ d = mark) := by
  cases rest with
  | nil => exact ⟨c, [], rfl, .inl rfl⟩
  | cons d rest =>
    rw [replacePair]
    split
    · exact ⟨mark, _, rfl, .inr rfl⟩
    · exact ⟨c, _, rfl, .inl rfl⟩

end

theorem unescapeChars_eq_replacePair (cs : List Char) :
    unescapeChars cs = replacePair '~' '0' '~' (replacePair '~' '1' '/' cs) := by
  fun_induction unescapeChars cs with
  | case1 => rfl
  | case2 rest ih => rw [replacePair_pair, replacePair_cons (by decide), ih]
  | case3 rest ih =>
    have hzero : '0' ≠ '~' := by decide
    rw [replacePair_other (by decide), replacePair_cons hzero, replacePair_pair, ih]
  | case4 c rest hslash htilde ih =>
    by_cases hc : c = '~'
    case neg => rw [replacePair_cons hc, replacePair_cons hc, ih]
    case pos =>
      subst hc
      cases rest with
      | nil => rw [ih]; rfl
      | cons d rest =>
        have hone : d ≠ '1' := by
          rintro rfl
          exact hslash rest rfl rfl
        have hzero : d ≠ '0' := by
          rintro rfl
          exact htilde rest rfl rfl
        -- What is put in for slashes makes no new escape of `~`.
        obtain ⟨e, more, heq, he⟩ := exists_replacePair_cons '~' '1' '/' d rest
        have hne : e ≠ '0' := by rcases he with rfl | rfl <;> simp_all
        rw [replacePair_other hone, ih, heq, replacePair_other hne]

/-! ## Tokens from a text -/

theorem areEscapes_cons {c : Char} (h : c ≠ '~') (rest : List Char) :
    Format.areEscapes (c :: rest) = Format.areEscapes rest := by
  rw [Format.areEscapes] <;> simp_all

theorem areEscapes_escapeChars_append (cs rest : List Char) :
    Format.areEscapes (escapeChars cs ++ rest) = Format.areEscapes rest := by
  fun_induction escapeChars cs with
  | case1 => rfl
  | case2 cs ih => simpa [Format.areEscapes] using ih
  | case3 cs ih => simpa [Format.areEscapes] using ih
  | case4 c cs htilde _ ih => rw [List.cons_append, areEscapes_cons htilde, ih]

theorem areEscapes_chars (tokens : List String) : Format.areEscapes (chars tokens) = true := by
  induction tokens with
  | nil => rfl
  | cons token rest ih =>
    have htoken : chars (token :: rest) = '/' :: (escapeChars token.toList ++ chars rest) := by
      simp [chars]
    rw [htoken, areEscapes_cons (by decide), areEscapes_escapeChars_append, ih]

theorem escapeChars_unescapeChars {cs : List Char} (hslash : '/' ∉ cs)
    (h : Format.areEscapes cs = true) : escapeChars (unescapeChars cs) = cs := by
  fun_induction unescapeChars cs with
  | case1 => rfl
  | case2 rest ih => simp_all [Format.areEscapes, escapeChars]
  | case3 rest ih => simp_all [Format.areEscapes, escapeChars]
  | case4 c rest hone hzero ih =>
    have htilde : c ≠ '~' := by
      rintro rfl
      cases rest with
      | nil => cases h
      | cons d rest =>
        simp only [Format.areEscapes, Bool.and_eq_true, Bool.or_eq_true, beq_iff_eq] at h
        rcases h.1 with rfl | rfl
        · exact hzero rest rfl rfl
        · exact hone rest rfl rfl
    rw [List.mem_cons, not_or] at hslash
    rw [areEscapes_cons htilde] at h
    rw [escapeChars_cons htilde (Ne.symm hslash.1), ih hslash.2 h]

theorem areEscapes_append {part rest : List Char}
    (h : Format.areEscapes (part ++ '/' :: rest) = true) :
    Format.areEscapes part = true ∧ Format.areEscapes rest = true := by
  fun_induction Format.areEscapes part with
  | case1 => exact ⟨rfl, by simpa [Format.areEscapes] using h⟩
  | case2 c part ih =>
    simp only [List.cons_append, Format.areEscapes, Bool.and_eq_true] at h ⊢
    exact ⟨⟨h.1, (ih h.2).1⟩, (ih h.2).2⟩
  | case3 => simp [Format.areEscapes] at h
  | case4 c part hpair hlast ih =>
    have hc : c ≠ '~' := by
      rintro rfl
      cases part with
      | nil => exact hlast rfl rfl
      | cons d part => exact hpair d part rfl rfl
    rw [List.cons_append, areEscapes_cons hc] at h
    exact ih h

theorem exists_chars_of_areEscapes {cs : List Char} (h : Format.areEscapes cs = true) :
    ∃ (token : String) (tokens : List String), cs = escapeChars token.toList ++ chars tokens := by
  induction hlength : cs.length using Nat.strongRecOn generalizing cs with
  | ind n ih =>
    by_cases hslash : '/' ∈ cs
    case neg =>
      exact ⟨String.ofList (unescapeChars cs), [],
        by simp [chars, escapeChars_unescapeChars hslash h]⟩
    case pos =>
      obtain ⟨part, rest, rfl, hpart⟩ := List.eq_append_cons_of_mem hslash
      obtain ⟨hhead, htail⟩ := areEscapes_append h
      obtain ⟨token, tokens, hrest⟩ := ih rest.length (by simp at hlength; omega) htail rfl
      refine ⟨String.ofList (unescapeChars part), token :: tokens, ?_⟩
      rw [String.toList_ofList, escapeChars_unescapeChars hpart hhead, chars, List.flatMap_cons,
        List.cons_append, ← chars, ← hrest]

theorem isPointer_iff (cs : List Char) :
    Format.isPointer cs = true ↔ ∃ tokens, cs = chars tokens := by
  rw [Format.isPointer, Bool.and_eq_true]
  constructor
  · rintro ⟨hhead, hescapes⟩
    obtain ⟨token, tokens, hcs⟩ := exists_chars_of_areEscapes hescapes
    cases cs with
    | nil => exact ⟨[], rfl⟩
    | cons c rest =>
      obtain rfl : c = '/' := by simpa using hhead
      -- The slash is in front of all tokens, since no token has one.
      have hempty : escapeChars token.toList = [] := by
        cases hchars : escapeChars token.toList with
        | nil => rfl
        | cons d more =>
          rw [hchars, List.cons_append] at hcs
          obtain ⟨rfl, -⟩ := List.cons.inj hcs
          exact absurd (hchars ▸ List.mem_cons_self) (slash_notMem_escapeChars token.toList)
      exact ⟨tokens, by rw [hcs, hempty, List.nil_append]⟩
  · rintro ⟨tokens, rfl⟩
    refine ⟨?_, areEscapes_chars tokens⟩
    cases tokens with
    | nil => rfl
    | cons token rest => simp [chars]

/-! ## The expression -/

open scoped Computability

/-- One alternative of `[^~/]|~[01]`. -/
def unit : Language Char :=
  {cs | (∃ c, c ≠ '~' ∧ c ≠ '/' ∧ cs = [c]) ∨ cs = ['~', '0'] ∨ cs = ['~', '1']}

/-- The texts of `(/([^~/]|~[01])*)*`. -/
def grammar : Language Char := ({['/']} * unit∗)∗

theorem escapeChars_append (cs more : List Char) :
    escapeChars (cs ++ more) = escapeChars cs ++ escapeChars more := by
  simp [escapeChars_eq_replaceChar, replaceChar]

theorem mem_unit {cs : List Char} : cs ∈ unit ↔ ∃ c, cs = escapeChars [c] := by
  constructor
  · rintro (⟨c, htilde, hslash, rfl⟩ | rfl | rfl)
    · exact ⟨c, (escapeChars_cons htilde hslash []).symm⟩
    · exact ⟨'~', rfl⟩
    · exact ⟨'/', rfl⟩
  · rintro ⟨c, rfl⟩
    by_cases htilde : c = '~'
    case pos => exact .inr (.inl (by rw [htilde]; rfl))
    by_cases hslash : c = '/'
    case pos => exact .inr (.inr (by rw [hslash]; rfl))
    exact .inl ⟨c, htilde, hslash, escapeChars_cons htilde hslash []⟩

theorem mem_units {cs : List Char} : cs ∈ unit∗ ↔ ∃ token, cs = escapeChars token := by
  rw [Language.mem_kstar]
  constructor
  · rintro ⟨parts, rfl, hparts⟩
    induction parts with
    | nil => exact ⟨[], rfl⟩
    | cons part rest ih =>
      obtain ⟨token, htoken⟩ := ih fun part hpart => hparts part (List.mem_cons_of_mem _ hpart)
      obtain ⟨c, hc⟩ := mem_unit.1 (hparts part List.mem_cons_self)
      exact ⟨[c] ++ token, by rw [escapeChars_append, List.flatten_cons, hc, htoken]⟩
  · rintro ⟨token, rfl⟩
    refine ⟨token.map fun c => escapeChars [c], ?_, ?_⟩
    · induction token with
      | nil => rfl
      | cons c rest ih =>
        rw [← List.singleton_append, escapeChars_append, ih, List.map_append, List.flatten_append]
        simp
    · intro part hpart
      obtain ⟨c, -, rfl⟩ := List.mem_map.1 hpart
      exact mem_unit.2 ⟨c, rfl⟩

theorem mem_grammar {cs : List Char} : cs ∈ grammar ↔ ∃ tokens, cs = chars tokens := by
  rw [grammar, Language.mem_kstar]
  constructor
  · rintro ⟨parts, rfl, hparts⟩
    induction parts with
    | nil => exact ⟨[], rfl⟩
    | cons part rest ih =>
      obtain ⟨tokens, htokens⟩ := ih fun part hpart => hparts part (List.mem_cons_of_mem _ hpart)
      obtain ⟨_, rfl, units, hunits, rfl⟩ := Language.mem_mul.1 (hparts part List.mem_cons_self)
      obtain ⟨token, rfl⟩ := mem_units.1 hunits
      refine ⟨String.ofList token :: tokens, ?_⟩
      simp [htokens, chars]
  · rintro ⟨tokens, rfl⟩
    rw [chars, List.flatMap_def]
    refine ⟨_, rfl, fun part hpart => ?_⟩
    obtain ⟨token, -, rfl⟩ := List.mem_map.1 hpart
    exact Language.append_mem_mul (Set.mem_singleton ['/']) (mem_units.2 ⟨token.toList, rfl⟩)

/-! ## The format -/

theorem check_pointer (text : String) :
    Format.check "json-pointer" text = .ok (some (Format.isPointer text.toList)) := by
  have hname : Format.ofName? "json-pointer" = some .jsonPointer := by decide +kernel
  rw [Format.check, hname]
  rfl

theorem token_index (n : Nat) : token (.index n) = n.repr := by
  rw [token, intText, if_neg (by omega), natText]
  rfl

theorem exists_ofTokens_iff {text : String} :
    (∃ tokens, ofTokens tokens = text) ↔ ∃ tokens, text.toList = chars tokens := by
  refine exists_congr fun tokens => ?_
  rw [← String.toList_inj, toList_ofTokens, eq_comm]

/-- Only the texts of pointers are written for the tokens that are read from them. -/
theorem pointers_tfae (text : String) : List.TFAE [
    Format.check "json-pointer" text = .ok (some true),
    text.toList.head? ≠ some '#' ∧ ∃ tokens, split text = .ok tokens ∧ ofTokens tokens = text,
    ∃ tokens, ofTokens tokens = text,
    ∃ path : Path, path.pointer = text,
    text.toList ∈ grammar] := by
  tfae_have 1 ↔ 3 := by
    rw [check_pointer, exists_ofTokens_iff, ← isPointer_iff]
    simp
  tfae_have 5 ↔ 3 := by rw [exists_ofTokens_iff, mem_grammar]
  tfae_have 3 → 2 := by
    rintro ⟨tokens, rfl⟩
    refine ⟨?_, tokens, split_ofTokens tokens, rfl⟩
    rw [toList_ofTokens]
    cases tokens with
    | nil => simp [chars]
    | cons token rest => simp [chars]
  tfae_have 2 → 4 := by
    rintro ⟨-, tokens, -, rfl⟩
    exact ⟨tokens.map .name, by simp [Path.pointer, token, Function.comp_def]⟩
  tfae_have 4 → 3 := by
    rintro ⟨path, rfl⟩
    exact ⟨path.map token, rfl⟩
  tfae_finish

/--
What is written for a path is read back as its tokens, with indices in decimal, and the texts that
are written are those of the format.
-/
theorem pointer_bijective :
    (∀ path : Path, split path.pointer = .ok (path.map token)) ∧
    (∀ name, token (.name name) = name) ∧ (∀ n : Nat, token (.index n) = n.repr) ∧
    (∀ text, List.TFAE [
      Format.check "json-pointer" text = .ok (some true),
      text.toList.head? ≠ some '#' ∧ ∃ tokens, split text = .ok tokens ∧ ofTokens tokens = text,
      ∃ tokens, ofTokens tokens = text,
      ∃ path : Path, path.pointer = text,
      text.toList ∈ grammar]) ∧
    Function.Injective fun names : List String => Path.pointer (names.map .name) := by
  refine ⟨fun path => split_ofTokens _, fun _ => rfl, token_index, pointers_tfae, ?_⟩
  intro names names' h
  simpa [Path.pointer, token, Function.comp_def] using ofTokens_injective h

end Pointer

end JsonSchema
