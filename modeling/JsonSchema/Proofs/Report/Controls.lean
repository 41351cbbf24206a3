import JsonSchema.Evaluation.Assertion
import JsonSchema.Proofs.Pointer.Place

/-!
# Control characters in texts

Numbers and documents on one line are written without control characters. A pointer has those of
its tokens.
-/

namespace JsonSchema

/-- The control characters of a text, among them every line feed and carriage return. -/
def controls (text : String) : List Char := text.toList.filter fun c => c.toNat < 32

@[simp]
theorem controls_append (text more : String) :
    controls (text ++ more) = controls text ++ controls more := by
  simp [controls]

def Clean (text : String) : Prop := ∀ c ∈ text.toList, 32 ≤ c.toNat

instance (text : String) : Decidable (Clean text) :=
  List.decidableBAll (fun c : Char => 32 ≤ c.toNat) text.toList

theorem clean_iff {text : String} : Clean text ↔ controls text = [] := by
  simp [controls, Clean]

@[simp]
theorem clean_append (text more : String) : Clean (text ++ more) ↔ Clean text ∧ Clean more := by
  simp [clean_iff]

theorem clean_ofList (cs : List Char) : Clean (String.ofList cs) ↔ ∀ c ∈ cs, 32 ≤ c.toNat := by
  rw [Clean, String.toList_ofList]

theorem clean_join {texts : List String} (h : ∀ text ∈ texts, Clean text) :
    Clean (String.join texts) := by
  intro c hc
  rw [String.toList_join, List.mem_flatMap] at hc
  obtain ⟨text, htext, hc⟩ := hc
  exact h text htext c hc

theorem clean_intercalate {separator : String} {texts : List String}
    (hseparator : Clean separator) (h : ∀ text ∈ texts, Clean text) :
    Clean (separator.intercalate texts) := by
  induction texts with
  | nil => exact String.intercalate_nil ▸ (by decide : Clean "")
  | cons text rest ih =>
    rw [List.forall_mem_cons] at h
    cases rest with
    | nil => exact (String.intercalate_singleton ..).symm ▸ h.1
    | cons next rest => simp [String.intercalate_cons_cons, h.1, hseparator, ih h.2]

/-! ## Numbers -/

@[simp]
theorem clean_natText (n : Nat) : Clean (natText n) := by
  rw [natText, clean_ofList]
  intro c hc
  obtain ⟨d, hd, rfl⟩ := exists_digit_of_mem_toDigits hc
  have hdigits : ∀ d < 10, 32 ≤ (Nat.digitChar d).toNat := by decide
  exact hdigits d hd

@[simp]
theorem clean_intText (n : Int) : Clean (intText n) := by
  unfold intText
  split <;> simp +decide

@[simp]
theorem clean_zeros (n : Nat) : Clean (zeros n) := by
  rw [zeros, clean_ofList]
  intro c hc
  rw [List.eq_of_mem_replicate hc]
  decide

theorem clean_take {text : String} (h : Clean text) (n : Nat) : Clean (text.take n).copy :=
  fun c hc => h c (List.mem_of_mem_take (by simpa using hc))

theorem clean_drop {text : String} (h : Clean text) (n : Nat) : Clean (text.drop n).copy :=
  fun c hc => h c (List.mem_of_mem_drop (by simpa using hc))

theorem clean_layout {digits : String} (h : Clean digits) (point : Int) :
    Clean (layout digits point) := by
  have htake := clean_take h
  have hdrop := clean_drop h
  unfold layout
  dsimp only
  split_ifs <;> simp +decide [h, htake, hdrop]

@[simp]
theorem clean_number (n : Number) : Clean n.text := by
  cases n with
  | int n => exact clean_intText n
  | float x =>
    rw [Number.text, Binary64.text]
    dsimp only
    split_ifs <;> simp +decide [clean_layout]

/-! ## Documents -/

theorem clean_hexDigit (n : Nat) : 32 ≤ (hexDigit (n % 16)).toNat := by
  have hdigits : ∀ d : Fin 16, 32 ≤ (hexDigit d).toNat := by decide
  exact hdigits ⟨n % 16, Nat.mod_lt n (by decide)⟩

theorem clean_unitEscapes {c : Char} (h : c.toNat < 32) : Clean (unitEscapes c) := by
  rw [unitEscapes, if_pos (by omega), clean_append]
  refine ⟨by decide, (clean_ofList _).2 ?_⟩
  simp [clean_hexDigit]

theorem clean_escapeChar (c : Char) : Clean (escapeChar false c) := by
  unfold escapeChar
  simp only [Bool.false_and, Bool.or_false, decide_eq_true_eq]
  have hself (h : ¬ c.toNat < 32) : Clean c.toString := by simpa [Clean] using h
  split_ifs
  any_goals decide
  case pos h => exact clean_unitEscapes h
  case neg h => exact hself h

theorem clean_quoteString (text : String) : Clean (quoteString false text) := by
  have hinner : Clean (String.join (text.toList.map (escapeChar false))) :=
    clean_join (List.forall_mem_map.mpr fun c _ => clean_escapeChar c)
  simp +decide [quoteString, hinner]

theorem clean_enclose {level : Nat} {opening closing : String} {items : List String}
    (hopening : Clean opening) (hclosing : Clean closing) (h : ∀ item ∈ items, Clean item) :
    Clean (TextStyle.enclose {} level opening closing items) := by
  have hitems : Clean ((", " ++ "").intercalate items) := clean_intercalate (by decide) h
  have hempty : Clean "" := by decide
  unfold TextStyle.enclose
  simp only [clean_append]
  exact ⟨⟨⟨⟨hopening, hempty⟩, hitems⟩, hempty⟩, hclosing⟩

mutual

theorem clean_textIn (level : Nat) : ∀ value : Json, Clean (value.textIn {} level)
  | .null => (by decide : Clean "null")
  | .bool true => (by decide : Clean "true")
  | .bool false => (by decide : Clean "false")
  | .num n => clean_number n
  | .str s => clean_quoteString s
  | .arr [] => (by decide : Clean "[]")
  | .arr (item :: items) =>
    clean_enclose (by decide) (by decide) (clean_itemTexts level (item :: items))
  | .obj [] => (by decide : Clean "\x7b\x7d")
  | .obj (member :: members) =>
    clean_enclose (by decide) (by decide) (clean_memberTexts level (member :: members))

theorem clean_itemTexts (level : Nat) :
    ∀ items : List Json, ∀ text ∈ Json.itemTexts {} level items, Clean text
  | [] => nofun
  | item :: items =>
    List.forall_mem_cons.mpr ⟨clean_textIn (level + 1) item, clean_itemTexts level items⟩

theorem clean_memberTexts (level : Nat) :
    ∀ members : List (String × Json), ∀ text ∈ Json.memberTexts {} level members, Clean text
  | [] => nofun
  | (name, value) :: members =>
    List.forall_mem_cons.mpr ⟨by
      simp +decide [clean_quoteString, clean_textIn (level + 1) value], clean_memberTexts level members⟩

end

@[simp]
theorem clean_text (value : Json) : Clean value.text := clean_textIn 0 value

/-! ## Pointers -/

def Path.names (path : Path) : List String :=
  path.filterMap fun
    | .name name => some name
    | .index _ => none

theorem filter_escapeChars (cs : List Char) :
    (Pointer.escapeChars cs).filter (fun c => c.toNat < 32) =
      cs.filter fun c => c.toNat < 32 := by
  fun_induction Pointer.escapeChars cs with
  | case1 => rfl
  | case2 rest ih => simpa using ih
  | case3 rest ih => simpa using ih
  | case4 c rest _ _ ih => rw [List.filter_cons, List.filter_cons, ih]

theorem controls_ofTokens (tokens : List String) :
    controls (Pointer.ofTokens tokens) = tokens.flatMap controls := by
  rw [controls, Pointer.toList_ofTokens]
  induction tokens with
  | nil => rfl
  | cons token rest ih =>
    rw [Pointer.chars, List.flatMap_cons, ← Pointer.chars, List.filter_append, ih,
      List.flatMap_cons, List.filter_cons_of_neg (by decide), filter_escapeChars, controls]

theorem controls_pointer (path : Path) : controls path.pointer = path.names.flatMap controls := by
  rw [Path.pointer, controls_ofTokens]
  induction path with
  | nil => rfl
  | cons segment rest ih =>
    cases segment with
    | name name => simp [Path.names, Pointer.token, ih]
    | index i => simp [Path.names, Pointer.token, clean_iff.1 (clean_intText i), ih]

end JsonSchema
