import JsonSchema.Proofs.Number.Numeral
import JsonSchema.Proofs.Text.Case
import JsonSchema.Proofs.Text.Split
import JsonSchema.Proofs.Uri.Parts
import JsonSchema.Yaml.Scalar

/-!
# Scalars whose text decides on their tag

A text takes the tag of a number or of a truth value for its form, and the reader of that tag
takes the text, but for five forms: no digit behind the letter of a base, too many digits, too many
colons, and a word with a line break behind it.
-/

namespace JsonSchema.Yaml

open Implicit ScalarValue

variable {text : String} {cs rest sign tail : List Char} {c : Char}

/-! ## Signs, underscores and line ends -/

def signs : List (List Char) := [[], ['+'], ['-']]

theorem nil_mem_signs : [] ∈ signs := List.mem_cons_self

/-- What may stand behind the last character that counts. -/
def lineEnds : List (List Char) := [[], ['\n']]

def withoutMarks (cs : List Char) : List Char := cs.filter (· != '_')

theorem eq_sign_of_mem (hsign : sign ∈ signs) (hc : c ∈ sign) : c = '+' ∨ c = '-' := by
  simp only [signs, List.mem_cons, List.not_mem_nil, or_false] at hsign
  rcases hsign with rfl | rfl | rfl
  · cases hc
  · exact .inl (List.mem_singleton.mp hc)
  · exact .inr (List.mem_singleton.mp hc)

theorem eq_lineEnd_of_mem (hend : tail ∈ lineEnds) (hc : c ∈ tail) : c = '\n' := by
  simp only [lineEnds, List.mem_cons, List.not_mem_nil, or_false] at hend
  rcases hend with rfl | rfl
  · cases hc
  · exact List.mem_singleton.mp hc

theorem isSpace_lineEnd (hend : tail ∈ lineEnds) : ∀ c ∈ tail, Numeral.isSpace c = true :=
  fun _ hc => eq_lineEnd_of_mem hend hc ▸ by decide +kernel

theorem withoutMarks_lineEnd : ∀ tail ∈ lineEnds, withoutMarks tail = tail := by decide

theorem colon_notMem_lineEnd : ∀ tail ∈ lineEnds, ':' ∉ tail := by decide

theorem withoutMarks_append (cs more : List Char) :
    withoutMarks (cs ++ more) = withoutMarks cs ++ withoutMarks more := List.filter_append ..

theorem withoutMarks_cons (hc : c ≠ '_') (rest : List Char) :
    withoutMarks (c :: rest) = c :: withoutMarks rest :=
  List.filter_cons_of_pos (by simpa using hc)

theorem exists_sign (cs : List Char) : ∃ sign ∈ signs, cs = sign ++ Implicit.dropSign cs := by
  cases cs with
  | nil => exact ⟨[], by decide, rfl⟩
  | cons c rest =>
    by_cases hc : isSign c = true
    · refine ⟨[c], ?_, by simp [Implicit.dropSign, hc]⟩
      simp only [isSign, Bool.or_eq_true, beq_iff_eq] at hc
      rcases hc with rfl | rfl <;> decide
    · exact ⟨[], by decide, by simp [Implicit.dropSign, hc]⟩

def StartsNumber (cs : List Char) : Prop :=
  ∃ c rest, cs = c :: rest ∧ (c.isDigit = true ∨ c = '.')

theorem ne_mark_of_isDigit (h : c.isDigit = true) : c ≠ '_' := by
  rintro rfl
  exact absurd h (by decide)

theorem signed_eq (hsign : sign ∈ signs) (hstart : StartsNumber cs) :
    ∃ negative, signed (String.ofList (sign ++ cs)) = .ok (negative, withoutMarks cs) := by
  obtain ⟨c, rest, rfl, hc⟩ := hstart
  obtain ⟨hplus, hminus, -⟩ := Extended.start_of_decimal hc
  have hmark : c ≠ '_' := by
    rcases hc with hc | rfl
    · exact ne_mark_of_isDigit hc
    · decide
  have hrest := withoutMarks_cons hmark rest
  simp only [signs, List.mem_cons, List.not_mem_nil, or_false] at hsign
  rcases hsign with rfl | rfl | rfl
  · refine ⟨false, ?_⟩
    rw [signed, String.toList_ofList, List.nil_append, ← withoutMarks, hrest]
    split <;> simp_all
  · refine ⟨false, ?_⟩
    rw [signed, String.toList_ofList, ← withoutMarks, withoutMarks_append, hrest]
    rfl
  · refine ⟨true, ?_⟩
    rw [signed, String.toList_ofList, ← withoutMarks, withoutMarks_append, hrest]
    rfl

/-! ## Rows of digits -/

/-- Digits with underscores between them, and one digit at least. -/
structure IsRow (cs : List Char) : Prop where
  characters : ∀ c ∈ cs, isDigitOrMark c = true
  nonempty : withoutMarks cs ≠ []

theorem isDigit_withoutMarks (h : ∀ c ∈ cs, isDigitOrMark c = true) :
    ∀ c ∈ withoutMarks cs, c.isDigit = true := by
  intro c hc
  obtain ⟨hmem, hmark⟩ := List.mem_filter.mp hc
  have := h c hmem
  simp_all [isDigitOrMark]

theorem isRow_of_isNumeral (h : isNumeral cs = true) : IsRow cs := by
  cases cs with
  | nil => exact absurd h (by decide)
  | cons c rest =>
    simp only [isNumeral, Bool.and_eq_true, List.all_eq_true] at h
    refine ⟨List.forall_mem_cons.mpr ⟨by simp [isDigitOrMark, h.1], h.2⟩, ?_⟩
    rw [withoutMarks_cons (ne_mark_of_isDigit h.1)]
    exact List.cons_ne_nil _ _

theorem isRow_of_isSixtieth (h : isSixtieth cs = true) : IsRow cs := by
  have hdigits : cs ≠ [] ∧ ∀ c ∈ cs, c.isDigit = true := by
    unfold isSixtieth at h
    split at h
    · simpa using h
    · rename_i a b
      simp only [Bool.and_eq_true, decide_eq_true_eq] at h
      obtain ⟨⟨hzero, hfive⟩, hb⟩ := h
      have ha : a.isDigit = true := by
        simp only [Char.isDigit, Char.le_def, UInt32.le_iff_toNat_le, Bool.and_eq_true,
          decide_eq_true_eq, ge_iff_le] at hzero hfive ⊢
        exact ⟨hzero, hfive.trans (by decide)⟩
      simp [ha, hb]
    · exact absurd h (by decide)
  have hkept : withoutMarks cs = cs :=
    List.filter_eq_self.mpr fun c hc => by simpa using ne_mark_of_isDigit (hdigits.2 c hc)
  exact ⟨fun c hc => by simp [isDigitOrMark, hdigits.2 c hc], hkept.symm ▸ hdigits.1⟩

theorem IsRow.areDigits (h : IsRow cs) : Numeral.AreDigits 10 (withoutMarks cs) :=
  .of_isDigit (isDigit_withoutMarks h.characters)

/-! ## Texts that are not read -/

/-- In a number with more colons than this the powers of sixty become too large. -/
def maxColons : Nat := 173

def letterBases : List (Char × Nat) := [('b', 2), ('x', 16)]

/-- Why a scalar cannot be read although its tag comes from the form of its text. -/
inductive Unreadable (text : String) : ScalarFault → Prop
  | noDigits {sign tail : List Char} {letter : Char} {base : Nat} (hsign : sign ∈ signs)
      (hend : tail ∈ lineEnds) (hletter : (letter, base) ∈ letterBases)
      (htext : withoutMarks text.toList = sign ++ '0' :: letter :: tail) :
      Unreadable text (.numeral (.notAnInteger base (String.ofList tail)))
  | tooManyDigits {count : Nat} (hlong : maxIntegerDigits < count)
      (hcount : count ≤ text.toList.countP Char.isDigit) :
      Unreadable text (.numeral (.tooManyDigits count))
  | tooManyColons (h : maxColons < text.toList.count ':') : Unreadable text .baseTooLarge
  | truthLine {word : String} (hword : word ∈ truthWords) (htext : text = word ++ "\n") :
      Unreadable text .notABoolean
  | floatLine {sign : List Char} {word : String} (hsign : sign ∈ signs)
      (hword : word ∈ infinityWords ++ nanWords) (htext : text.toList = sign ++ word.toList ++ ['\n']) :
      Unreadable text (.notAFloat (lowerAscii word ++ "\n"))

/-! ## Integers -/

theorem integerIn_ends {base : Nat} (hbase : base ∈ [2, 8, 10, 16]) (hne : cs ≠ [])
    (hdigits : Numeral.AreDigits base cs) (hend : tail ∈ lineEnds) :
    Except.Ends (fun _ => True) (fun fault => Numeral.isUnlimited base = false ∧
      maxIntegerDigits < cs.length ∧ fault = .numeral (.tooManyDigits cs.length))
      (integerIn base (cs ++ tail)) := by
  refine (Numeral.readInteger_digits hbase hne hdigits (isSpace_lineEnd hend)).mapError ?_
  rintro fault ⟨hbase, hlong, rfl⟩
  exact ⟨hbase, hlong, rfl⟩

theorem integerIn_lineEnd : ∀ tail ∈ lineEnds, ∀ letterBase ∈ letterBases,
    integerIn letterBase.2 tail = .error (.numeral (.notAnInteger letterBase.2 (String.ofList tail))) := by
  decide +kernel

theorem letter_ends {letter : Char} {base : Nat} (hletter : (letter, base) ∈ letterBases)
    (hsign : sign ∈ signs) (hend : tail ∈ lineEnds)
    (htext : text.toList = sign ++ '0' :: letter :: rest ++ tail)
    (hdigits : Numeral.AreDigits base (withoutMarks rest)) :
    Except.Ends (fun _ => True) (Unreadable text) (integerIn base (withoutMarks rest ++ tail)) := by
  have hbase : base ∈ [2, 8, 10, 16] ∧ Numeral.isUnlimited base = true := by
    revert hletter
    simp only [letterBases, List.mem_cons, Prod.mk.injEq, List.not_mem_nil, or_false]
    rintro (⟨rfl, rfl⟩ | ⟨rfl, rfl⟩) <;> decide
  by_cases hne : withoutMarks rest = []
  · rw [hne, List.nil_append, integerIn_lineEnd tail hend _ hletter]
    have hkept : withoutMarks (sign ++ ['0', letter]) = sign ++ ['0', letter] := by
      revert hletter hsign
      simp only [letterBases, signs, List.mem_cons, Prod.mk.injEq, List.not_mem_nil, or_false]
      rintro (⟨rfl, -⟩ | ⟨rfl, -⟩) (rfl | rfl | rfl) <;> rfl
    refine .error (.noDigits hsign hend hletter ?_)
    calc withoutMarks text.toList
        = withoutMarks (sign ++ ['0', letter]) ++ withoutMarks rest ++ withoutMarks tail := by
          rw [htext, ← withoutMarks_append, ← withoutMarks_append]
          simp
      _ = sign ++ '0' :: letter :: tail := by
          rw [hkept, hne, withoutMarks_lineEnd tail hend]
          simp
  · refine (integerIn_ends hbase.1 hne hdigits hend).mono ?_
    rintro fault ⟨hlimited, -⟩
    exact absurd hbase.2 (by simp [hlimited])

/-- The characters of a class are digits of the base when those with small codes are. -/
theorem areDigits_of_codes {base : Nat} (limit : Nat) {p : Char → Bool}
    (hsmall : ∀ code < limit, p (Char.ofNat code) = true → Char.ofNat code ≠ '_' →
      Char.ofNat code ∈ Numeral.digitCharacters ∧
        (Numeral.digit? base (Char.ofNat code)).isSome = true)
    (hlimit : ∀ c, p c = true → c.toNat < limit) (hcs : ∀ c ∈ cs, p c = true) :
    Numeral.AreDigits base (withoutMarks cs) := by
  intro c hc
  obtain ⟨hmem, hmark⟩ := List.mem_filter.mp hc
  have := hsmall c.toNat (hlimit c (hcs c hmem))
  rw [Char.ofNat_toNat] at this
  exact this (hcs c hmem) (by simpa using hmark)

theorem areDigits_binary (h : ∀ c ∈ cs, (c == '0' || c == '1' || c == '_') = true) :
    Numeral.AreDigits 2 (withoutMarks cs) := by
  refine areDigits_of_codes 96 (by decide) (fun c hc => ?_) h
  simp only [Bool.or_eq_true, beq_iff_eq] at hc
  rcases hc with (rfl | rfl) | rfl <;> decide

theorem areDigits_octal
    (h : ∀ c ∈ cs, (decide ('0' ≤ c) && decide (c ≤ '7') || c == '_') = true) :
    Numeral.AreDigits 8 (withoutMarks cs) := by
  refine areDigits_of_codes 96 (by decide) (fun c hc => ?_) h
  simp only [Bool.or_eq_true, beq_iff_eq, Bool.and_eq_true, decide_eq_true_eq, Char.le_def,
    UInt32.le_iff_toNat_le] at hc
  rcases hc with ⟨-, hc⟩ | rfl
  · exact Nat.lt_of_le_of_lt hc (by decide)
  · decide

theorem areDigits_hex (h : ∀ c ∈ cs, isHexDigitOrMark c = true) :
    Numeral.AreDigits 16 (withoutMarks cs) := by
  refine areDigits_of_codes 103 (by decide) (fun c hc => ?_) h
  simp only [isHexDigitOrMark, isDigitOrMark, Char.isDigit, Bool.or_eq_true, beq_iff_eq,
    Bool.and_eq_true, decide_eq_true_eq, Char.le_def, UInt32.le_iff_toNat_le] at hc
  rcases hc with ((⟨-, hc⟩ | rfl) | ⟨-, hc⟩) | ⟨-, hc⟩
  · exact Nat.lt_of_le_of_lt hc (by decide)
  · decide
  · exact Nat.lt_of_le_of_lt hc (by decide)
  · exact Nat.lt_of_le_of_lt hc (by decide)

theorem unsignedInt_zero (h : ∀ c ∈ rest.head?, c ≠ 'b' ∧ c ≠ 'x') :
    unsignedInt ('0' :: rest) = if rest = [] then .ok 0 else integerIn 8 ('0' :: rest) := by
  unfold unsignedInt
  split <;> simp_all

theorem octal_ends {fair : ScalarFault → Prop} (hend : tail ∈ lineEnds)
    (h : ∀ c ∈ rest, (decide ('0' ≤ c) && decide (c ≤ '7') || c == '_') = true) :
    Except.Ends (fun _ => True) fair (unsignedInt ('0' :: (withoutMarks rest ++ tail))) := by
  have hdigits : Numeral.AreDigits 8 ('0' :: withoutMarks rest) :=
    List.forall_mem_cons.mpr ⟨by decide, areDigits_octal h⟩
  have hletter : ∀ c ∈ Numeral.digitCharacters, (Numeral.digit? 8 c).isSome = true →
      c ≠ 'b' ∧ c ≠ 'x' := List.all_iff_forall_prop.mp (by decide)
  have hhead : ∀ c ∈ (withoutMarks rest ++ tail).head?, c ≠ 'b' ∧ c ≠ 'x' := by
    cases hrest : withoutMarks rest with
    | nil => exact fun c hc => eq_lineEnd_of_mem hend (List.mem_of_mem_head? hc) ▸ by decide
    | cons c more =>
      rintro c' ⟨rfl⟩
      have hc := hdigits c (by simp [hrest])
      exact hletter c hc.1 hc.2
  rw [unsignedInt_zero hhead]
  split
  · exact .ok trivial
  · refine (integerIn_ends (by decide) (List.cons_ne_nil _ _) hdigits hend).mono ?_
    rintro fault ⟨hlimited, -⟩
    exact absurd hlimited (by decide)

theorem unsignedInt_decimal {fair : ScalarFault → Prop} (hc : c ≠ '0')
    (h : ∀ part ∈ splitChars ':' (c :: rest),
      Except.Ends (fun _ => True) fair (integerIn 10 part)) :
    Except.Ends (fun _ => True) fair (unsignedInt (c :: rest)) := by
  unfold unsignedInt
  split
  case h_6 =>
    split
    · exact (Except.Ends.mapM h).bind fun _ _ => .ok trivial
    · rename_i hcolon
      rw [splitChars_of_not_mem (by simpa using hcolon)] at h
      exact h _ List.mem_cons_self
  all_goals simp_all

theorem exists_part {part : List Char} (hend : tail ∈ lineEnds)
    (h : part ∈ splitChars ':' (withoutMarks cs ++ tail)) :
    ∃ part' ∈ splitChars ':' cs, ∃ tail' ∈ lineEnds, part = withoutMarks part' ++ tail' := by
  obtain ⟨front, last, hsplit, happend⟩ :=
    splitChars_append_last (colon_notMem_lineEnd tail hend) (withoutMarks cs)
  have hparts : front ++ [last] = (splitChars ':' cs).map withoutMarks :=
    hsplit.symm.trans (splitChars_filter (by decide) cs)
  have hof : ∀ part' ∈ front ++ [last], ∃ part ∈ splitChars ':' cs, withoutMarks part = part' := by
    rw [hparts]
    exact fun part' => List.mem_map.mp
  rw [happend, List.mem_append, List.mem_singleton] at h
  rcases h with h | rfl
  · obtain ⟨part', hmem, rfl⟩ := hof part (List.mem_append_left _ h)
    exact ⟨part', hmem, [], by decide, (List.append_nil _).symm⟩
  · obtain ⟨part', hmem, rfl⟩ := hof last (by simp)
    exact ⟨part', hmem, tail, hend, rfl⟩

theorem decimal_ends (hend : tail ∈ lineEnds) (htext : text.toList = sign ++ cs ++ tail)
    (hrows : ∀ part ∈ splitChars ':' cs, IsRow part) :
    ∀ part ∈ splitChars ':' (withoutMarks cs ++ tail),
      Except.Ends (fun _ => True) (Unreadable text) (integerIn 10 part) := by
  intro part hpart
  obtain ⟨part', hmem, tail', hend', rfl⟩ := exists_part hend hpart
  have hrow := hrows part' hmem
  refine (integerIn_ends (by decide) hrow.nonempty hrow.areDigits hend').mono ?_
  rintro fault ⟨-, hlong, rfl⟩
  refine .tooManyDigits hlong ?_
  calc (withoutMarks part').length
      = (withoutMarks part').countP Char.isDigit :=
        (List.countP_eq_length.mpr (isDigit_withoutMarks hrow.characters)).symm
    _ ≤ part'.countP Char.isDigit := List.filter_sublist.countP_le
    _ ≤ cs.countP Char.isDigit := (sublist_of_mem_splitChars hmem).countP_le
    _ ≤ text.toList.countP Char.isDigit := by
        rw [htext, List.countP_append, List.countP_append]
        omega

theorem exists_cons_of_isNumeral {first : List Char} {parts : List (List Char)}
    (h : splitChars ':' cs = first :: parts) (hfirst : isNumeral first = true) :
    ∃ c rest, cs = c :: rest ∧ c.isDigit = true := by
  cases cs with
  | nil =>
    obtain ⟨rfl, -⟩ := List.cons.inj h
    exact absurd hfirst (by decide)
  | cons c rest =>
    refine ⟨c, rest, rfl, ?_⟩
    by_cases hc : c = ':'
    · rw [hc, splitChars_mark] at h
      obtain ⟨rfl, -⟩ := List.cons.inj h
      exact absurd hfirst (by decide)
    · obtain ⟨part, parts', hsplit⟩ := exists_splitChars ':' rest
      rw [splitChars_cons hc hsplit] at h
      obtain ⟨rfl, -⟩ := List.cons.inj h
      simp only [isNumeral, Bool.and_eq_true] at hfirst
      exact hfirst.1

theorem unsignedInt_ends (hsign : sign ∈ signs) (hend : tail ∈ lineEnds)
    (htext : text.toList = sign ++ cs ++ tail) (h : isUnsignedInteger cs = true) :
    StartsNumber (cs ++ tail) ∧
      Except.Ends (fun _ => True) (Unreadable text) (unsignedInt (withoutMarks (cs ++ tail))) := by
  rw [withoutMarks_append, withoutMarks_lineEnd tail hend]
  unfold isUnsignedInteger at h
  split at h
  case h_1 =>
    exact ⟨⟨'0', tail, rfl, .inl (by decide)⟩, octal_ends hend (List.forall_mem_nil _)⟩
  case h_2 rest =>
    simp only [Bool.and_eq_true, List.all_eq_true] at h
    exact ⟨⟨'0', _, rfl, .inl (by decide)⟩,
      letter_ends (by decide) hsign hend htext (areDigits_binary h.2)⟩
  case h_3 rest =>
    simp only [Bool.and_eq_true, List.all_eq_true] at h
    exact ⟨⟨'0', _, rfl, .inl (by decide)⟩,
      letter_ends (by decide) hsign hend htext (areDigits_hex h.2)⟩
  case h_4 rest _ _ _ =>
    exact ⟨⟨'0', _, rfl, .inl (by decide)⟩, octal_ends hend (List.all_eq_true.mp h)⟩
  case h_5 hzero hbinary hhex hoctal =>
    cases hsplit : splitChars ':' cs with
    | nil => simp [hsplit] at h
    | cons first parts =>
      simp only [hsplit, Bool.and_eq_true, List.all_eq_true] at h
      obtain ⟨hfirst, hparts⟩ := h
      have hrows : ∀ part ∈ splitChars ':' cs, IsRow part := by
        rw [hsplit]
        exact List.forall_mem_cons.mpr ⟨isRow_of_isNumeral hfirst,
          fun part hpart => isRow_of_isSixtieth (hparts part hpart)⟩
      have hdecimal := decimal_ends hend htext hrows
      obtain ⟨c, rest, rfl, hc⟩ := exists_cons_of_isNumeral hsplit hfirst
      have hzero : c ≠ '0' := fun heq => hoctal rest (heq ▸ rfl)
      rw [withoutMarks_cons (ne_mark_of_isDigit hc)] at hdecimal ⊢
      exact ⟨⟨c, _, rfl, .inl hc⟩, unsignedInt_decimal hzero hdecimal⟩

theorem readInt_ends (hend : tail ∈ lineEnds) (htext : text.toList = cs ++ tail)
    (h : isInteger cs = true) : Except.Ends (fun _ => True) (Unreadable text) (readInt text) := by
  obtain ⟨sign, hsign, hcs⟩ := exists_sign cs
  rw [hcs] at htext
  obtain ⟨hstart, hends⟩ := unsignedInt_ends hsign hend htext h
  obtain ⟨negative, hsigned⟩ := signed_eq hsign hstart
  rw [← List.append_assoc, ← htext, String.ofList_toList] at hsigned
  rw [readInt, hsigned]
  exact hends.bind fun _ _ => .ok trivial

/-! ## Other numbers -/

/-- Whether the text of a part is a decimal number, in small letters and without underscores. -/
def IsNumber (cs : List Char) : Prop :=
  ∃ whole fraction exponent, Extended.IsDecimal whole fraction exponent ∧
    withoutMarks (cs.map lowerChar) = whole ++ fraction ++ exponent

theorem extended_ends (h : IsNumber cs) (hend : tail ∈ lineEnds) (fair : ScalarFault → Prop) :
    Except.Ends (fun _ => True) fair (extended (withoutMarks (cs.map lowerChar) ++ tail)) := by
  obtain ⟨whole, fraction, exponent, hdecimal, heq⟩ := h
  have hread := hdecimal.ofText? (isSpace_lineEnd hend)
  rw [heq, ScalarValue.extended]
  split
  · exact .ok trivial
  · simp_all

theorem lowerChar_digitOrMark (h : isDigitOrMark c = true) : lowerChar c = c := by
  refine lowerChar_eq_self ?_
  simp only [isDigitOrMark, Bool.or_eq_true, beq_iff_eq] at h
  rcases h with h | rfl
  · obtain ⟨d, hd, rfl⟩ := Pointer.exists_digit_of_isDigit h
    clear h
    revert d
    decide
  · decide

theorem map_lowerChar (h : ∀ c ∈ cs, isDigitOrMark c = true) : cs.map lowerChar = cs :=
  (List.map_congr_left fun c hc => lowerChar_digitOrMark (h c hc)).trans (List.map_id _)

theorem isNumber_of_isRow (h : IsRow cs) : IsNumber cs := by
  refine ⟨withoutMarks cs, [], [], ⟨isDigit_withoutMarks h.characters, .inl rfl, .inl rfl,
    fun hempty => absurd hempty h.nonempty⟩, ?_⟩
  rw [map_lowerChar h.characters, List.append_nil, List.append_nil]

theorem isExponent_lowered (h : Implicit.isExponent cs = true) :
    Extended.IsExponent (withoutMarks (cs.map lowerChar)) := by
  unfold Implicit.isExponent at h
  split at h
  · exact .inl rfl
  · rename_i e sign digits
    simp only [Bool.and_eq_true, List.all_eq_true, Bool.or_eq_true, beq_iff_eq, isSign,
      Bool.not_eq_true'] at h
    obtain ⟨⟨⟨he, hsign⟩, hne⟩, hdigits⟩ := h
    have hlower : digits.map lowerChar = digits :=
      map_lowerChar fun c hc => by simp [isDigitOrMark, hdigits c hc]
    have hkept : withoutMarks digits = digits :=
      List.filter_eq_self.mpr fun c hc => by simpa using ne_mark_of_isDigit (hdigits c hc)
    have hletter : ∀ e ∈ ['e', 'E'], e.toNat < 128 ∧ e.toLower = 'e' :=
      List.all_iff_forall_prop.mp (by decide)
    have hmark : ∀ sign ∈ ['+', '-'], sign.toNat < 65 ∧ sign ≠ '_' :=
      List.all_iff_forall_prop.mp (by decide)
    have hsign : sign ∈ ['+', '-'] := by simpa using hsign
    obtain ⟨hsmall, hplain⟩ := hmark sign hsign
    have hsame := lowerChar_eq_self (.inl hsmall)
    obtain ⟨hascii, hlowered⟩ := hletter e (by simpa using he)
    refine .inr ⟨'e', sign, digits, ?_, by decide, hsign, by simpa using hne, hdigits⟩
    rw [List.map_cons, List.map_cons, hlower, lowerChar_ascii hascii, hlowered, hsame,
      withoutMarks_cons (by decide), withoutMarks_cons hplain, hkept]
  · exact absurd h (by decide)

theorem isNumber_of_point {whole fraction : List Char} (hwhole : ∀ c ∈ whole, isDigitOrMark c = true)
    (hfraction : isFraction fraction = true)
    (hdigit : withoutMarks whole = [] → ∃ c rest, fraction = c :: rest ∧ c.isDigit = true) :
    IsNumber (whole ++ '.' :: fraction) := by
  have hdigits : ∀ c ∈ fraction.takeWhile isDigitOrMark, isDigitOrMark c = true :=
    fun c hc => List.mem_takeWhile_imp hc
  refine ⟨withoutMarks whole, '.' :: withoutMarks (fraction.takeWhile isDigitOrMark),
    withoutMarks ((fraction.dropWhile isDigitOrMark).map lowerChar),
    ⟨isDigit_withoutMarks hwhole, .inr ⟨_, rfl, isDigit_withoutMarks hdigits⟩,
      isExponent_lowered hfraction, fun hempty => ?_⟩, ?_⟩
  · obtain ⟨c, rest, rfl, hc⟩ := hdigit hempty
    rw [List.takeWhile_cons_of_pos (by simp [isDigitOrMark, hc]),
      withoutMarks_cons (ne_mark_of_isDigit hc)]
    simp
  · calc withoutMarks ((whole ++ '.' :: fraction).map lowerChar)
        = withoutMarks ((whole ++ '.' :: (fraction.takeWhile isDigitOrMark ++
            fraction.dropWhile isDigitOrMark)).map lowerChar) := by
          rw [List.takeWhile_append_dropWhile]
      _ = _ := by
          rw [List.map_append, List.map_cons, List.map_append, map_lowerChar hwhole,
            map_lowerChar hdigits, withoutMarks_append, lowerChar_eq_self (.inl (by decide)),
            withoutMarks_cons (by decide), withoutMarks_append]
          simp

/-! ### Parts behind colons -/

theorem power_of_sixty {power : Nat} (h : power ≤ maxColons) :
    Binary64.ofInt? (Nat.pow colonBase power) ≠ none := by
  have hlast : 60 ^ 173 < 2 ^ 1023 := by decide +kernel
  have h : power ≤ 173 := h
  rw [← Option.isSome_iff_ne_none]
  refine Binary64.ofInt?_isSome (le_refl 1023) ?_
  exact (Nat.pow_le_pow_right (by decide) h).trans_lt hlast

theorem sixtieths_ends (power : Nat) (sum : Extended) (parts : List Extended) :
    Except.Ends (fun _ => True)
      (fun fault => fault = .baseTooLarge ∧ maxColons + 1 < power + parts.length)
      (sixtieths power sum parts) := by
  induction parts generalizing power sum with
  | nil => exact .ok trivial
  | cons part rest ih =>
    rw [sixtieths, List.length_cons]
    cases hfactor : Binary64.ofInt? (Nat.pow colonBase power) with
    | some factor =>
      refine (ih (power + 1) _).mono ?_
      rintro fault ⟨rfl, hlong⟩
      exact ⟨rfl, by omega⟩
    | none =>
      have hlarge : ¬ power ≤ maxColons := fun hle => power_of_sixty hle hfactor
      exact .error ⟨rfl, by omega⟩

theorem length_parts (hend : tail ∈ lineEnds) (cs : List Char) :
    (splitChars ':' (withoutMarks cs ++ tail)).length = (splitChars ':' cs).length := by
  obtain ⟨front, last, hsplit, happend⟩ :=
    splitChars_append_last (colon_notMem_lineEnd tail hend) (withoutMarks cs)
  calc (splitChars ':' (withoutMarks cs ++ tail)).length
      = (splitChars ':' (withoutMarks cs)).length := by
        rw [hsplit, happend, List.length_append, List.length_append]
        rfl
    _ = (splitChars ':' cs).length := by
        rw [withoutMarks, splitChars_filter (by decide), List.length_map]

theorem unsignedFloat_ends (hend : tail ∈ lineEnds) (hcount : cs.count ':' ≤ text.toList.count ':')
    (hnumbers : ∀ part ∈ splitChars ':' cs, IsNumber part) :
    Except.Ends (fun _ => True) (Unreadable text)
      (unsignedFloat (withoutMarks (cs.map lowerChar) ++ tail)) := by
  have hlowered : splitChars ':' (cs.map lowerChar) = (splitChars ':' cs).map (List.map lowerChar) :=
    splitChars_map (lowerChar_eq_self (.inl (by decide))) fun c _ => eq_colon_of_lowerChar
  have hends : ∀ part ∈ splitChars ':' (withoutMarks (cs.map lowerChar) ++ tail),
      Except.Ends (fun _ => True) (Unreadable text) (extended part) := by
    intro part hpart
    obtain ⟨part', hmem, tail', hend', rfl⟩ := exists_part hend hpart
    rw [hlowered] at hmem
    obtain ⟨number, hnumber, rfl⟩ := List.mem_map.mp hmem
    exact extended_ends (hnumbers number hnumber) hend' _
  have hlength : (splitChars ':' (withoutMarks (cs.map lowerChar) ++ tail)).length =
      cs.count ':' + 1 := by
    rw [length_parts hend, hlowered, List.length_map, length_splitChars]
  unfold unsignedFloat
  split
  · exact .ok trivial
  split
  · exact .ok trivial
  split
  · refine (Except.Ends.mapM hends).bind fun parts hparts => ?_
    refine (sixtieths_ends 0 _ _).mono ?_
    rintro fault ⟨rfl, hlong⟩
    refine .tooManyColons ?_
    rw [List.length_reverse, hparts, hlength] at hlong
    omega
  · rename_i hcolon
    rw [splitChars_of_not_mem (by simpa using hcolon)] at hends
    exact hends _ List.mem_cons_self

/-! ### Forms -/

theorem isNumber_of_isLastSixtieth (h : isLastSixtieth cs = true) : IsNumber cs := by
  unfold isLastSixtieth at h
  split at h
  · rename_i whole fraction hcut
    simp only [Bool.and_eq_true, List.all_eq_true] at h
    have hrow := isRow_of_isSixtieth h.1
    have hfraction : isFraction fraction = true := by
      rw [isFraction, List.dropWhile_eq_nil_iff.mpr h.2]
      rfl
    rw [eq_of_cutChars? hcut]
    exact isNumber_of_point hrow.characters hfraction fun hempty => absurd hempty hrow.nonempty
  · exact absurd h (by decide)

theorem eq_of_splitChars_eq_singleton {mark : Char} {part : List Char}
    (h : splitChars mark cs = [part]) : part = cs := by
  have hcount : cs.count mark = 0 := by simpa [h] using (length_splitChars mark cs).symm
  rw [splitChars_of_not_mem (List.count_eq_zero.mp hcount)] at h
  exact (List.cons.inj h).1.symm

theorem startsNumber_of_isNumeral {more : List Char} (h : isNumeral cs = true) :
    StartsNumber (cs ++ more) := by
  cases cs with
  | nil => exact absurd h (by decide)
  | cons c rest =>
    simp only [isNumeral, Bool.and_eq_true] at h
    exact ⟨c, _, rfl, .inl h.1⟩

theorem numbers_of_isUnsignedFloat (h : isUnsignedFloat cs = true) :
    StartsNumber cs ∧ ∀ part ∈ splitChars ':' cs, IsNumber part := by
  unfold isUnsignedFloat at h
  split at h
  case h_1 part hsplit =>
    split at h
    · rename_i whole fraction hcut
      simp only [Bool.and_eq_true] at h
      have hcs := eq_of_cutChars? hcut
      have hrow := isRow_of_isNumeral h.1
      refine ⟨hcs ▸ startsNumber_of_isNumeral h.1, ?_⟩
      rw [hsplit, eq_of_splitChars_eq_singleton hsplit]
      refine List.forall_mem_singleton.mpr ?_
      rw [hcs]
      exact isNumber_of_point hrow.characters h.2 fun hempty => absurd hempty hrow.nonempty
    · exact absurd h (by decide)
  case h_2 first rest _ hsplit =>
    simp only [Bool.and_eq_true, List.all_eq_true] at h
    obtain ⟨⟨hfirst, hmiddle⟩, hlast⟩ := h
    obtain ⟨c, more, hcs, hc⟩ := exists_cons_of_isNumeral hsplit hfirst
    refine ⟨⟨c, more, hcs, .inl hc⟩, ?_⟩
    rw [hsplit]
    refine List.forall_mem_cons.mpr ⟨isNumber_of_isRow (isRow_of_isNumeral hfirst), ?_⟩
    intro part hpart
    cases hgetLast : rest.getLast? with
    | none => exact absurd (List.getLast?_eq_none_iff.mp hgetLast ▸ hpart) List.not_mem_nil
    | some last =>
      rw [hgetLast] at hlast
      rw [← List.dropLast_append_getLast? last hgetLast] at hpart
      rcases List.mem_append.mp hpart with hpart | hpart
      · exact isNumber_of_isRow (isRow_of_isSixtieth (hmiddle part hpart))
      · rw [List.mem_singleton.mp hpart]
        exact isNumber_of_isLastSixtieth hlast
  case h_3 => exact absurd h (by decide)

theorem colon_notMem_of_isExponent (h : Implicit.isExponent cs = true) : ':' ∉ cs := by
  unfold Implicit.isExponent at h
  split at h
  · exact List.not_mem_nil
  · rename_i e sign digits
    simp only [Bool.and_eq_true, List.all_eq_true, Bool.or_eq_true, beq_iff_eq, isSign] at h
    obtain ⟨⟨⟨he, hsign⟩, -⟩, hdigits⟩ := h
    intro hmem
    rcases List.mem_cons.mp hmem with rfl | hmem
    · exact absurd he (by decide)
    rcases List.mem_cons.mp hmem with rfl | hmem
    · exact absurd hsign (by decide)
    · exact absurd (hdigits ':' hmem) (by decide)
  · exact absurd h (by decide)

theorem colon_notMem_of_isFraction (h : isFraction cs = true) : ':' ∉ cs := by
  intro hmem
  rw [← List.takeWhile_append_dropWhile (p := isDigitOrMark) (l := cs), List.mem_append] at hmem
  rcases hmem with hmem | hmem
  · exact absurd (List.mem_takeWhile_imp hmem) (by decide)
  · exact colon_notMem_of_isExponent h hmem

theorem numbers_of_isBareFraction (h : isBareFraction cs = true) :
    StartsNumber cs ∧ ∀ part ∈ splitChars ':' cs, IsNumber part := by
  unfold isBareFraction at h
  split at h
  · rename_i c rest
    simp only [Bool.and_eq_true] at h
    have hfraction : isFraction (c :: rest) = true := by
      rw [isFraction, List.dropWhile_cons_of_pos (by simp [isDigitOrMark, h.1])]
      exact h.2
    have hcolon : ':' ∉ '.' :: c :: rest := by
      rw [List.mem_cons, not_or]
      exact ⟨by decide, colon_notMem_of_isFraction hfraction⟩
    refine ⟨⟨'.', _, rfl, .inr rfl⟩, ?_⟩
    rw [splitChars_of_not_mem hcolon]
    refine List.forall_mem_singleton.mpr ?_
    have hnumber : IsNumber ([] ++ '.' :: c :: rest) :=
      isNumber_of_point nofun hfraction fun _ => ⟨c, rest, rfl, h.1⟩
    exact hnumber
  · exact absurd h (by decide)

theorem map_lowerChar_sign (hsign : sign ∈ signs) : sign.map lowerChar = sign :=
  map_lowerChar_small fun c hc => by rcases eq_sign_of_mem hsign hc with rfl | rfl <;> decide

theorem map_lowerChar_lineEnd (hend : tail ∈ lineEnds) : tail.map lowerChar = tail :=
  map_lowerChar_small fun _ hc => eq_lineEnd_of_mem hend hc ▸ by decide

theorem StartsNumber.lowered (h : StartsNumber cs) : StartsNumber (cs.map lowerChar) := by
  obtain ⟨c, rest, rfl, hc⟩ := h
  refine ⟨lowerChar c, rest.map lowerChar, rfl, ?_⟩
  rcases hc with hc | rfl
  · rw [lowerChar_digitOrMark (by simp [isDigitOrMark, hc])]
    exact .inl hc
  · exact .inr (lowerChar_eq_self (.inl (by decide)))

theorem readFloat_number (hsign : sign ∈ signs) (hend : tail ∈ lineEnds)
    (htext : text.toList = sign ++ cs ++ tail)
    (h : StartsNumber cs ∧ ∀ part ∈ splitChars ':' cs, IsNumber part) :
    Except.Ends (fun _ => True) (Unreadable text) (readFloat text) := by
  obtain ⟨c, rest, hlowered, hc⟩ := h.1.lowered
  have hstart : StartsNumber (cs.map lowerChar ++ tail) :=
    ⟨c, rest ++ tail, by rw [hlowered]; rfl, hc⟩
  obtain ⟨negative, hsigned⟩ := signed_eq hsign hstart
  have hcount : cs.count ':' ≤ text.toList.count ':' := by
    rw [htext, List.count_append, List.count_append]
    omega
  have hmap : text.toList.map lowerChar = sign ++ (cs.map lowerChar ++ tail) := by
    rw [htext, List.map_append, List.map_append, map_lowerChar_sign hsign,
      map_lowerChar_lineEnd hend, List.append_assoc]
  rw [withoutMarks_append, withoutMarks_lineEnd tail hend] at hsigned
  rw [readFloat, hmap, hsigned]
  exact (unsignedFloat_ends hend hcount h.2).bind fun _ _ => .ok trivial

def floatWords : List (List Char) := [['.', 'i', 'n', 'f'], ['.', 'n', 'a', 'n']]

theorem floatWord_spellings : ∀ word ∈ infinityWords ++ nanWords,
    word.toList.all (·.toNat < 128) = true ∧ word.toList.map Char.toLower ∈ floatWords := by
  decide

theorem signed_word : ∀ sign ∈ signs, ∀ word ∈ floatWords, ∀ tail ∈ lineEnds,
    (signed (String.ofList (sign ++ word ++ tail))).map (·.2) = .ok (word ++ tail) := by
  decide

theorem unsignedFloat_word : ∀ word ∈ floatWords, (unsignedFloat word).toOption.isSome = true ∧
    unsignedFloat (word ++ ['\n']) = .error (.notAFloat (String.ofList (word ++ ['\n']))) := by
  decide +kernel

theorem readFloat_word {word : String} (hsign : sign ∈ signs) (hend : tail ∈ lineEnds)
    (htext : text.toList = sign ++ word.toList ++ tail) (h : word ∈ infinityWords ++ nanWords) :
    Except.Ends (fun _ => True) (Unreadable text) (readFloat text) := by
  obtain ⟨hascii, hword⟩ := floatWord_spellings word h
  have hlower : word.toList.map lowerChar = word.toList.map Char.toLower :=
    List.map_congr_left fun c hc => lowerChar_ascii (List.all_iff_forall_prop.mp hascii c hc)
  have hmap : text.toList.map lowerChar = sign ++ word.toList.map Char.toLower ++ tail := by
    rw [htext, List.map_append, List.map_append, map_lowerChar_sign hsign,
      map_lowerChar_lineEnd hend, hlower]
  obtain ⟨⟨negative, cs⟩, hsigned, hcs⟩ :=
    Except.map_eq_ok.mp (signed_word sign hsign _ hword tail hend)
  obtain rfl : cs = word.toList.map Char.toLower ++ tail := hcs
  obtain ⟨hread, hline⟩ := unsignedFloat_word _ hword
  rw [readFloat, hmap, hsigned]
  simp only [lineEnds, List.mem_cons, List.not_mem_nil, or_false] at hend
  rcases hend with rfl | rfl
  · obtain ⟨x, hx⟩ := Option.isSome_iff_exists.mp hread
    rw [List.append_nil]
    dsimp only [Except.ok_bind]
    rw [Except.toOption_eq_some.mp hx]
    exact .ok trivial
  · dsimp only [Except.ok_bind]
    rw [hline]
    have hlowered : String.ofList (word.toList.map Char.toLower ++ ['\n']) =
        lowerAscii word ++ "\n" := String.ofList_append
    exact .error (hlowered ▸ .floatLine hsign h htext)

theorem readFloat_ends (hend : tail ∈ lineEnds) (htext : text.toList = cs ++ tail)
    (h : isFloat cs = true) : Except.Ends (fun _ => True) (Unreadable text) (readFloat text) := by
  obtain ⟨sign, hsign, hcs⟩ := exists_sign cs
  simp only [isFloat, Bool.or_eq_true, List.contains_iff_mem] at h
  rcases h with ((h | h) | h) | h
  · rw [hcs] at htext
    exact readFloat_number hsign hend htext (numbers_of_isUnsignedFloat h)
  · exact readFloat_number nil_mem_signs hend htext (numbers_of_isBareFraction h)
  · refine readFloat_word hsign hend ?_ (List.mem_append_left _ h)
    rw [htext, String.toList_ofList, ← hcs]
  · refine readFloat_word nil_mem_signs hend ?_ (List.mem_append_right _ h)
    rw [htext, String.toList_ofList, List.nil_append]

/-! ## Truth values -/

theorem readBool_word : ∀ word ∈ truthWords, (readBool word).toOption.isSome = true ∧
    readBool (word ++ "\n") = .error .notABoolean := by decide +kernel

theorem readBool_ends {word : String} (hend : tail ∈ lineEnds)
    (htext : text.toList = word.toList ++ tail) (h : word ∈ truthWords) :
    Except.Ends (fun _ => True) (Unreadable text) (readBool text) := by
  obtain ⟨hread, hline⟩ := readBool_word word h
  simp only [lineEnds, List.mem_cons, List.not_mem_nil, or_false] at hend
  rcases hend with rfl | rfl
  · obtain rfl : text = word := String.toList_inj.mp (by simpa using htext)
    obtain ⟨b, hb⟩ := Option.isSome_iff_exists.mp hread
    rw [Except.toOption_eq_some.mp hb]
    exact .ok trivial
  · obtain rfl : text = word ++ "\n" := String.toList_inj.mp (by simpa using htext)
    rw [hline]
    exact .error (.truthLine h rfl)

/-! ## The tags of texts -/

theorem exists_lineEnd (cs : List Char) : ∃ tail ∈ lineEnds,
    cs = (if cs.getLast? == some '\n' then cs.dropLast else cs) ++ tail := by
  split
  · rename_i h
    exact ⟨['\n'], by decide, (List.dropLast_append_getLast? _ (by simpa using h)).symm⟩
  · exact ⟨[], by decide, (List.append_nil cs).symm⟩

/-- What a text is read as that has taken a tag with text. -/
inductive Form (cs : List Char) : ScalarTag → Prop
  | null : Form cs .null
  | str : Form cs .str
  | bool {word : String} (hword : word ∈ truthWords) (hcs : cs = word.toList) : Form cs .bool
  | float (h : isFloat cs = true) : Form cs .float
  | int (h : isInteger cs = true) : Form cs .int

theorem form_of_implicitTag {tag : ScalarTag}
    (h : KnownTag.ofText? (implicitTag text) = some (.scalar tag)) :
    ∃ cs, ∃ tail ∈ lineEnds, text.toList = cs ++ tail ∧ Form cs tag := by
  obtain ⟨tail, hend, htext⟩ := exists_lineEnd text.toList
  refine ⟨_, tail, hend, htext, ?_⟩
  unfold implicitTag at h
  dsimp only at h
  generalize (if text.toList.getLast? == some '\n' then text.toList.dropLast else text.toList) = cs
    at h
  have htag {name : String} (tag' : ScalarTag) (hname : KnownTag.ofText? name = some (.scalar tag'))
      (h : KnownTag.ofText? name = some (.scalar tag)) : tag = tag' :=
    KnownTag.scalar.inj (Option.some.inj (h.symm.trans hname))
  have hother {name : String} (hname : KnownTag.ofText? name = none)
      (h : KnownTag.ofText? name = some (.scalar tag)) : Form cs tag :=
    absurd (h.symm.trans hname) (Option.some_ne_none _)
  split at h
  · exact htag .null (by decide) h ▸ .null
  split at h
  · exact htag .str (by decide) h ▸ .str
  split at h
  · rename_i hword
    exact htag .bool (by decide) h ▸ .bool (by simpa using hword) String.toList_ofList.symm
  split at h
  · rename_i hfloat
    exact htag .float (by decide) h ▸ .float hfloat
  split at h
  · rename_i hint
    exact htag .int (by decide) h ▸ .int hint
  split at h
  · exact hother (by decide) h
  split at h
  · exact htag .null (by decide) h ▸ .null
  split at h
  · exact hother (by decide) h
  split at h
  · exact hother (by decide) h
  · exact htag .str (by decide) h ▸ .str

/-- A text is read under the tag that it takes for its form, unless it has one of the five flaws. -/
theorem read_implied {tag : ScalarTag} (inMapping : Bool) (place : Place)
    (h : KnownTag.ofText? (implicitTag text) = some (.scalar tag)) :
    Except.Ends (fun _ => True) (fun fault => ∃ cause, fault = .scalar cause ∧ Unreadable text cause)
      (tag.read inMapping place text) := by
  obtain ⟨cs, tail, hend, htext, hform⟩ := form_of_implicitTag h
  cases hform with
  | null | str => exact .ok trivial
  | bool hword hcs =>
    exact ((readBool_ends hend (hcs ▸ htext) hword).map fun _ _ => trivial).mapError
      fun cause hcause => ⟨cause, rfl, hcause⟩
  | float hfloat =>
    exact ((readFloat_ends hend htext hfloat).map fun _ _ => trivial).mapError
      fun cause hcause => ⟨cause, rfl, hcause⟩
  | int hint =>
    exact ((readInt_ends hend htext hint).map fun _ _ => trivial).mapError
      fun cause hcause => ⟨cause, rfl, hcause⟩

end JsonSchema.Yaml
