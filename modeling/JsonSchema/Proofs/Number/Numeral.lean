import JsonSchema.Number.Extended
import JsonSchema.Proofs.Number.Decimal
import JsonSchema.Proofs.Outcome
import JsonSchema.Proofs.Pointer.Index
import Mathlib.Data.Bool.AllAny
import Mathlib.Data.List.TakeDrop
import Mathlib.Data.List.TakeWhile

/-!
# Numerals that are read

A row of digits is an integer, whatever blanks stand behind it, unless it is too long for a base
that is no power of two. Digits around a point, with an exponent behind them, are a number. A whole
number of not too many bits has a nearest number in the format.
-/

namespace JsonSchema

variable {cs blanks : List Char}

/-! ## Characters of a class -/

theorem dropWhile_of_neg {p : Char → Bool} (h : ∀ c ∈ cs, p c = false) : cs.dropWhile p = cs :=
  List.dropWhile_eq_self_iff.mpr fun hpos => by simpa using h _ (List.getElem_mem hpos)

namespace Numeral

theorem trim_append (h : ∀ c ∈ cs, isSpace c = false) (hblanks : ∀ c ∈ blanks, isSpace c = true) :
    trim (cs ++ blanks) = cs := by
  have hreverse : (blanks.reverse ++ cs.reverse).dropWhile isSpace = cs.reverse := by
    rw [List.dropWhile_append_of_pos (by simpa using hblanks), dropWhile_of_neg (by simpa using h)]
  cases cs with
  | nil => simp [trim, List.dropWhile_eq_nil_iff.mpr hblanks]
  | cons c rest =>
    rw [trim, List.cons_append, List.dropWhile_cons_of_neg (by simp [h c]), ← List.cons_append,
      List.reverse_append, hreverse, List.reverse_reverse]

def digitCharacters : List Char :=
  ['0', '1', '2', '3', '4', '5', '6', '7', '8', '9', 'a', 'b', 'c', 'd', 'e', 'f', 'A', 'B', 'C',
    'D', 'E', 'F']

def AreDigits (base : Nat) (cs : List Char) : Prop :=
  ∀ c ∈ cs, c ∈ digitCharacters ∧ (digit? base c).isSome = true

-- A bounded claim about characters is decided over the list: all characters are too many.
theorem isSpace_digit : ∀ c ∈ digitCharacters, isSpace c = false :=
  List.all_iff_forall_prop.mp (by decide +kernel)

theorem ne_mark_digit : ∀ c ∈ digitCharacters, c ≠ '-' ∧ c ≠ '+' ∧ c ≠ '_' :=
  List.all_iff_forall_prop.mp (by decide)

theorem baseLetter_digit : ∀ c ∈ digitCharacters, ∀ base ∈ [2, 8, 10, 16],
    (digit? base c).isSome = true → baseLetter? base ≠ some c.toLower :=
  List.all_iff_forall_prop.mp (by decide)

theorem AreDigits.of_isDigit (h : ∀ c ∈ cs, c.isDigit = true) : AreDigits 10 cs := by
  intro c hc
  obtain ⟨d, hd, rfl⟩ := Pointer.exists_digit_of_isDigit (h c hc)
  clear hc
  revert d
  decide +kernel

variable {base : Nat}

theorem digits?_eq_some (hne : cs ≠ []) (h : AreDigits base cs) :
    ∃ digits, digits? base cs = some digits ∧ digits.length = cs.length := by
  induction cs with
  | nil => exact (hne rfl).elim
  | cons c rest ih =>
    obtain ⟨d, hd⟩ := Option.isSome_iff_exists.mp (h c List.mem_cons_self).2
    cases rest with
    | nil =>
      refine ⟨[d], ?_, rfl⟩
      unfold digits?
      rw [hd]
    | cons c' more =>
      obtain ⟨digits, hdigits, hlength⟩ := ih nofun fun c hc => h c (List.mem_cons_of_mem _ hc)
      have hmark : c' ≠ '_' := (ne_mark_digit c' (h c' (by simp)).1).2.2
      refine ⟨d :: digits, ?_, by simp [hlength]⟩
      unfold digits?
      split <;> simp_all

theorem dropBaseLetter_digits (hbase : base ∈ [2, 8, 10, 16]) (h : AreDigits base cs) :
    dropBaseLetter base cs = cs := by
  unfold dropBaseLetter
  split
  · rename_i c rest
    have hc := h c (by simp)
    rw [if_neg (baseLetter_digit c hc.1 base hbase hc.2)]
  · rfl

theorem dropSign_digits (h : AreDigits base cs) : dropSign cs = (false, cs) := by
  cases cs with
  | nil => rfl
  | cons c rest =>
    have hmark := ne_mark_digit c (h c (by simp)).1
    unfold dropSign
    split <;> simp_all

theorem readInteger_digits (hbase : base ∈ [2, 8, 10, 16]) (hne : cs ≠ []) (h : AreDigits base cs)
    (hblanks : ∀ c ∈ blanks, isSpace c = true) :
    Except.Ends (fun _ => True) (fun fault => isUnlimited base = false ∧
      maxIntegerDigits < cs.length ∧ fault = .tooManyDigits cs.length)
      (readInteger base (String.ofList (cs ++ blanks))) := by
  obtain ⟨digits, hdigits, hlength⟩ := digits?_eq_some hne h
  rw [readInteger, String.toList_ofList,
    trim_append (fun c hc => isSpace_digit c (h c hc).1) hblanks, dropSign_digits h]
  simp only [dropBaseLetter_digits hbase h, hdigits, hlength]
  split
  case isTrue hlong => exact .error (by simpa [and_comm] using hlong)
  case isFalse => exact .ok trivial

end Numeral

namespace Extended

theorem isAsciiDigit_eq (c : Char) : JsonReader.isAsciiDigit c = c.isDigit := by
  simp [JsonReader.isAsciiDigit, Char.isDigit, Char.le_def]

/-- A point and digits behind it, or nothing. -/
def IsFraction (cs : List Char) : Prop :=
  cs = [] ∨ ∃ digits, cs = '.' :: digits ∧ ∀ c ∈ digits, c.isDigit = true

/-- The letter of an exponent, its sign and its digits, or nothing. -/
def IsExponent (cs : List Char) : Prop :=
  cs = [] ∨ ∃ e sign digits, cs = e :: sign :: digits ∧ e ∈ ['e', 'E'] ∧ sign ∈ ['+', '-'] ∧
    digits ≠ [] ∧ ∀ c ∈ digits, c.isDigit = true

/-- A decimal number without a sign, with digits on one side of the point at least. -/
structure IsDecimal (whole fraction exponent : List Char) : Prop where
  digits : ∀ c ∈ whole, c.isDigit = true
  isFraction : IsFraction fraction
  isExponent : IsExponent exponent
  hasDigit : whole = [] → 1 < fraction.length

variable {whole fraction exponent : List Char}

theorem IsExponent.read (h : IsExponent exponent) : (exponentPart? exponent).isSome = true := by
  obtain rfl | ⟨e, sign, digits, rfl, he, hsign, hne, hdigits⟩ := h
  · rfl
  · have hall : digits.all JsonReader.isAsciiDigit = true := by
      simpa [isAsciiDigit_eq] using hdigits
    simp only [List.mem_cons, List.not_mem_nil, or_false] at he hsign
    rcases he with rfl | rfl <;> rcases hsign with rfl | rfl <;>
      simp [exponentPart?, Numeral.dropSign, hne, hall]

theorem span_digits {rest : List Char} (h : ∀ c ∈ cs, c.isDigit = true)
    (hrest : ∀ c ∈ rest.head?, c.isDigit = false) :
    (cs ++ rest).span JsonReader.isAsciiDigit = (cs, rest) := by
  have hp : JsonReader.isAsciiDigit = Char.isDigit := funext isAsciiDigit_eq
  rw [List.span_eq_takeWhile_dropWhile, hp, List.takeWhile_append_of_pos h,
    List.dropWhile_append_of_pos h]
  cases rest with
  | nil => simp
  | cons c rest => simp [hrest c rfl]

theorem IsExponent.head (h : IsExponent exponent) : ∀ c ∈ exponent.head?, c.isDigit = false := by
  obtain rfl | ⟨e, sign, digits, rfl, he, -⟩ := h
  · nofun
  · simp only [List.mem_cons, List.not_mem_nil, or_false] at he
    rcases he with rfl | rfl <;> simp

theorem IsFraction.part (h : IsFraction fraction) (hexponent : IsExponent exponent) :
    fractionPart (fraction ++ exponent) = (fraction.drop 1, exponent) := by
  obtain rfl | ⟨digits, rfl, hdigits⟩ := h
  · obtain rfl | ⟨e, sign, digits, rfl, he, -⟩ := hexponent
    · rfl
    · simp only [List.mem_cons, List.not_mem_nil, or_false] at he
      rcases he with rfl | rfl <;> rfl
  · exact span_digits hdigits hexponent.head

theorem IsFraction.head (h : IsFraction fraction) (hexponent : IsExponent exponent) :
    ∀ c ∈ (fraction ++ exponent).head?, c.isDigit = false := by
  obtain rfl | ⟨digits, rfl, -⟩ := h
  · exact hexponent.head
  · simp

theorem IsDecimal.unsigned (h : IsDecimal whole fraction exponent) (negative : Bool) :
    (unsigned? negative (whole ++ fraction ++ exponent)).isSome = true := by
  obtain ⟨n, hn⟩ := Option.isSome_iff_exists.mp h.isExponent.read
  have hspan := span_digits h.digits (h.isFraction.head h.isExponent)
  have hne : (whole.isEmpty && (fraction.drop 1).isEmpty) = false := by
    cases whole with
    | cons c rest => rfl
    | nil =>
      have := h.hasDigit rfl
      simpa using List.ne_nil_of_length_pos (by simpa using this)
  rw [unsigned?, List.append_assoc, hspan]
  dsimp only
  rw [h.isFraction.part h.isExponent]
  simp only [hne, hn]
  rfl

def decimalCharacters : List Char :=
  ['0', '1', '2', '3', '4', '5', '6', '7', '8', '9', '.', 'e', 'E', '+', '-']

theorem plain_decimalCharacters : ∀ c ∈ decimalCharacters,
    Numeral.isSpace c = false ∧ asciiDigit c = c := List.all_iff_forall_prop.mp (by decide +kernel)

theorem mem_decimalCharacters {c : Char} (h : c.isDigit = true) : c ∈ decimalCharacters := by
  obtain ⟨d, hd, rfl⟩ := Pointer.exists_digit_of_isDigit h
  clear h
  revert d
  decide

theorem IsDecimal.characters (h : IsDecimal whole fraction exponent) :
    ∀ c ∈ whole ++ fraction ++ exponent, c ∈ decimalCharacters := by
  have hdot : '.' ∈ decimalCharacters := by decide
  have hletter : ['e', 'E'] ⊆ decimalCharacters := List.all_iff_forall_prop.mp (by decide)
  have hsign : ['+', '-'] ⊆ decimalCharacters := List.all_iff_forall_prop.mp (by decide)
  intro c hc
  rw [List.mem_append, List.mem_append] at hc
  rcases hc with (hc | hc) | hc
  · exact mem_decimalCharacters (h.digits c hc)
  · obtain rfl | ⟨digits, rfl, hdigits⟩ := h.isFraction
    · exact absurd hc List.not_mem_nil
    · rcases List.mem_cons.mp hc with rfl | hc
      · exact hdot
      · exact mem_decimalCharacters (hdigits c hc)
  · obtain rfl | ⟨e, sign, digits, rfl, he, hs, -, hdigits⟩ := h.isExponent
    · exact absurd hc List.not_mem_nil
    · rcases List.mem_cons.mp hc with rfl | hc
      · exact hletter he
      rcases List.mem_cons.mp hc with rfl | hc
      · exact hsign hs
      · exact mem_decimalCharacters (hdigits c hc)

theorem IsDecimal.exists_cons (h : IsDecimal whole fraction exponent) :
    ∃ c rest, whole ++ fraction ++ exponent = c :: rest ∧ (c.isDigit = true ∨ c = '.') := by
  cases whole with
  | cons c rest => exact ⟨c, _, rfl, .inl (h.digits c (by simp))⟩
  | nil =>
    have hlong := h.hasDigit rfl
    obtain rfl | ⟨digits, rfl, -⟩ := h.isFraction
    · simp at hlong
    · exact ⟨'.', _, rfl, .inr rfl⟩

theorem start_of_decimal {c : Char} (h : c.isDigit = true ∨ c = '.') :
    c ≠ '+' ∧ c ≠ '-' ∧ c.toLower ≠ 'i' ∧ c.toLower ≠ 'n' := by
  obtain h | rfl := h
  · obtain ⟨d, hd, rfl⟩ := Pointer.exists_digit_of_isDigit h
    clear h
    revert d
    decide
  · decide

theorem toList_lowerAscii (cs : List Char) :
    (lowerAscii (String.ofList cs)).toList = cs.map Char.toLower := by
  rw [lowerAscii, String.toList_ofList, String.toList_ofList]

theorem IsDecimal.ofText? (h : IsDecimal whole fraction exponent)
    (hblanks : ∀ c ∈ blanks, Numeral.isSpace c = true) :
    (Extended.ofText? (String.ofList (whole ++ fraction ++ exponent ++ blanks))).isSome = true := by
  have hmap : (whole ++ fraction ++ exponent).map asciiDigit = whole ++ fraction ++ exponent :=
    (List.map_congr_left fun c hc => (plain_decimalCharacters c (h.characters c hc)).2).trans
      (List.map_id _)
  have htrim := Numeral.trim_append
    (fun c hc => (plain_decimalCharacters c (h.characters c hc)).1) hblanks
  obtain ⟨c, rest, hcons, hstart⟩ := h.exists_cons
  obtain ⟨hplus, hminus, hi, hn⟩ := start_of_decimal hstart
  have hsign : Numeral.dropSign (whole ++ fraction ++ exponent) =
      (false, whole ++ fraction ++ exponent) := by
    rw [hcons]
    unfold Numeral.dropSign
    split <;> simp_all
  have hword (word : String) (hword : lowerAscii (String.ofList (whole ++ fraction ++ exponent)) = word) :
      word.toList.head? = some c.toLower := by
    rw [← hword, toList_lowerAscii, hcons]
    rfl
  rw [Extended.ofText?, String.toList_ofList, htrim, hmap, hsign]
  dsimp only
  split
  · rename_i hinf
    exact absurd (Option.some.inj (hword _ hinf)).symm hi
  · rename_i hinf
    exact absurd (Option.some.inj (hword _ hinf)).symm hi
  · rename_i hnan
    exact absurd (Option.some.inj (hword _ hnan)).symm hn
  · exact h.unsigned false

end Extended

/-! ## Whole numbers that are not too large -/

theorem roundHalfEven_le (num den : Nat) : roundHalfEven num den ≤ num / den + 1 := by
  have := Nat.mod_lt (num / den) Nat.two_pos
  unfold roundHalfEven
  dsimp only
  split
  · omega
  split <;> omega

namespace Binary64

theorem ofFields?_isSome {negative : Bool} {significand scale : Nat}
    (hlt : significand < 2 ^ significandBits)
    (hnormal : 2 ^ (significandBits - 1) ≤ significand ∨ scale = 0) (hscale : scale ≤ maxScale) :
    (ofFields? negative significand scale).isSome = true := by
  rw [ofFields?, dif_pos ⟨hlt, hnormal, hscale⟩]
  rfl

theorem mul_pow_lt {a b : Nat} (h : a < 2 ^ b) (c : Nat) : a * 2 ^ c < 2 ^ (b + c) := by
  rw [Nat.pow_add]
  exact Nat.mul_lt_mul_of_pos_right h (Nat.pow_pos Nat.two_pos)

theorem quotient_bounds {units scale : Nat} (hscale : scale = Nat.log2 units - 52) :
    units / 2 ^ scale < 2 ^ 53 ∧ (scale ≠ 0 → 2 ^ 52 ≤ units / 2 ^ scale) := by
  have hpos : 0 < 2 ^ scale := Nat.pow_pos Nat.two_pos
  constructor
  · rw [Nat.div_lt_iff_lt_mul hpos, ← Nat.pow_add]
    exact Nat.lt_of_lt_of_le Nat.lt_log2_self (Nat.pow_le_pow_right Nat.two_pos (by omega))
  · intro hne
    rw [Nat.le_div_iff_mul_le hpos, ← Nat.pow_add]
    have hunits : units ≠ 0 := by
      rintro rfl
      simp at hscale
      omega
    exact Nat.le_trans (Nat.pow_le_pow_right Nat.two_pos (by omega)) (Nat.log2_self_le hunits)

theorem ofInt?_isSome {n : Int} {bits : Nat} (hbits : bits ≤ 1023) (h : n.natAbs < 2 ^ bits) :
    (ofInt? n).isSome = true := by
  have hunits := mul_pow_lt h unitBits
  simp only [ofInt?, ofRatio?, Nat.pow_eq, Nat.div_one, Nat.one_mul]
  generalize n.natAbs * 2 ^ unitBits = units at hunits
  generalize hscale : Nat.log2 units - (significandBits - 1) = scale
  have hlog : scale < maxScale := by
    by_cases hzero : units = 0
    · rw [← hscale, hzero]
      decide
    · have := (Nat.log2_lt hzero).mpr hunits
      unfold unitBits at this
      unfold significandBits at hscale
      unfold maxScale
      omega
  obtain ⟨hlt, hge⟩ := quotient_bounds hscale.symm
  have hle := roundHalfEven_le units (2 ^ scale)
  have hround := le_roundHalfEven units (2 ^ scale)
  split
  case isTrue => exact ofFields?_isSome (by decide) (.inl le_rfl) hlog
  case isFalse hne =>
    refine ofFields?_isSome ?_ ?_ hlog.le
    · exact lt_of_le_of_ne (hle.trans hlt) hne
    · by_cases hzero : scale = 0
      · exact .inr hzero
      · exact .inl ((hge hzero).trans hround)

end Binary64

end JsonSchema
