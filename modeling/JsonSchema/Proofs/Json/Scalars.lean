import JsonSchema.Json.Read
import JsonSchema.Json.Text
import JsonSchema.Number.Numeral
import JsonSchema.Proofs.Number.Decimal
import JsonSchema.Proofs.Number.Numeral
import JsonSchema.Proofs.Pointer.Index

/-!
# Strings and integers that read back

The escapes of a string, in either spelling, stand for its characters, and the digits of an integer
for its value. An integer that is read is never too long to be written out.
-/

namespace JsonSchema

namespace JsonReader

/-! ## Strings -/

theorem hexUnit?_hex4 {n : Nat} (h : n < 0x10000) :
    hexUnit? (hexDigit (n / 4096 % 16)) (hexDigit (n / 256 % 16)) (hexDigit (n / 16 % 16))
      (hexDigit (n % 16)) = some n := by
  have hdigit : ∀ d < 16, hexValue? (hexDigit d) = some d := by decide
  have hvalue : ∀ k, hexValue? (hexDigit (k % 16)) = some (k % 16) :=
    fun k => hdigit _ (Nat.mod_lt k (by decide))
  simp only [hexUnit?, hvalue, Option.pure_def, Option.bind_eq_bind, Option.bind_some,
    Option.some.injEq]
  omega

variable {start done more : Chars} {c : Char}

theorem readString_plain (hquote : c ≠ '"') (hslash : c ≠ '\\') (hcontrol : 32 ≤ c.toNat) :
    readString start done (c :: more) = readString start (c :: done) more := by
  rw [readString.eq_def]
  split
  case h_1 h => cases h
  case h_2 h => exact absurd (List.cons.inj h).1 hquote
  case h_3 h => exact absurd (List.cons.inj h).1 hslash
  case h_4 h =>
    obtain ⟨rfl, rfl⟩ := List.cons.inj h
    rw [if_neg (by omega)]

theorem readString_escape {cs : Chars} {count : Nat} (h : readEscape start cs = .ok (c, count))
    (done : Chars) :
    readString start done ('\\' :: cs) = readString start (c :: done) (cs.drop count) := by
  rw [readString, h]

-- Behind its digits an escape has to be followed by a character, if only by the closing quote.
theorem readEscape_unit (start : Chars) {n : Nat} (h : n < 0x10000) (hhigh : isHighUnit n = false)
    (hmore : more ≠ []) :
    readEscape start ('u' :: ((hex4 n).toList ++ more)) = .ok (unitChar n, 5) := by
  obtain ⟨last, more, rfl⟩ := List.exists_cons_of_ne_nil hmore
  rw [hex4, String.toList_ofList]
  simp only [readEscape, List.cons_append, List.nil_append, hexUnit?_hex4 h, hhigh]
  rfl

theorem readEscape_pair (start : Chars) {high low : Nat} (hhigh : isHighUnit high = true)
    (hlow : isLowUnit low = true) (hmore : more ≠ []) :
    readEscape start ('u' :: ((hex4 high).toList ++ '\\' :: 'u' :: ((hex4 low).toList ++ more))) =
      .ok (joinUnits high low, 11) := by
  obtain ⟨last, more, rfl⟩ := List.exists_cons_of_ne_nil hmore
  have hbounds : high < 0x10000 ∧ low < 0x10000 := by
    simp only [isHighUnit, isLowUnit, Bool.and_eq_true, decide_eq_true_eq] at hhigh hlow
    omega
  rw [hex4, String.toList_ofList, hex4, String.toList_ofList]
  simp only [readEscape, lowUnit?, List.cons_append, List.nil_append, hexUnit?_hex4 hbounds.1,
    hexUnit?_hex4 hbounds.2, hhigh, hlow]
  rfl

theorem code_range (c : Char) : c.toNat < 0xD800 ∨ 0xDFFF < c.toNat ∧ c.toNat < 0x110000 :=
  c.valid

theorem unit_of_char (c : Char) : isHighUnit c.toNat = false ∧ unitChar c.toNat = c := by
  have hunit : isHighUnit c.toNat = false ∧ isLowUnit c.toNat = false := by
    have hrange := code_range c
    simp only [isHighUnit, isLowUnit, Bool.and_eq_false_iff, decide_eq_false_iff_not]
    omega
  refine ⟨hunit.1, ?_⟩
  rw [unitChar, hunit.1, hunit.2]
  exact Char.ofNat_toNat c

theorem joinUnits_of_char (hc : 0x10000 ≤ c.toNat) :
    joinUnits (0xD800 + (c.toNat - 0x10000) / 1024) (0xDC00 + (c.toNat - 0x10000) % 1024) = c := by
  have hcode : 0x10000 + (0xD800 + (c.toNat - 0x10000) / 1024 - 0xD800) * 1024 +
      (0xDC00 + (c.toNat - 0x10000) % 1024 - 0xDC00) = c.toNat := by omega
  rw [joinUnits, hcode]
  exact Char.ofNat_toNat c

theorem readString_unitEscapes (c : Char) (hmore : more ≠ []) :
    readString start done ((unitEscapes c).toList ++ more) = readString start (c :: done) more := by
  unfold unitEscapes
  dsimp only
  split
  case isTrue hunit =>
    have hescape := readEscape_unit start hunit (unit_of_char c).1 hmore
    rw [(unit_of_char c).2] at hescape
    simpa [hex4] using readString_escape hescape done
  case isFalse hpair =>
    have hrange := code_range c
    have hhigh : isHighUnit (0xD800 + (c.toNat - 0x10000) / 1024) = true := by
      simp only [isHighUnit, Bool.and_eq_true, decide_eq_true_eq]
      omega
    have hlow : isLowUnit (0xDC00 + (c.toNat - 0x10000) % 1024) = true := by
      simp only [isLowUnit, Bool.and_eq_true, decide_eq_true_eq]
      omega
    have hescape := readEscape_pair start hhigh hlow hmore
    rw [joinUnits_of_char (by omega)] at hescape
    simpa [hex4] using readString_escape hescape done

theorem readString_simpleEscape {letter : Char} (hescape : simpleEscape? letter = some c)
    (hletter : letter ≠ 'u') :
    readString start done ('\\' :: letter :: more) = readString start (c :: done) more := by
  have hread : readEscape start (letter :: more) = .ok (c, 1) := by
    rw [readEscape.eq_def]
    split <;> simp_all
  exact readString_escape hread done

theorem readString_escapeChar (asciiOnly : Bool) (c : Char) (hmore : more ≠ []) :
    readString start done ((escapeChar asciiOnly c).toList ++ more) =
      readString start (c :: done) more := by
  unfold escapeChar
  simp only [beq_iff_eq]
  split_ifs with hquote hslash hfeed hreturn htab hback hform hunit
  · exact hquote ▸ readString_simpleEscape rfl (by decide)
  · exact hslash ▸ readString_simpleEscape rfl (by decide)
  · exact hfeed ▸ readString_simpleEscape rfl (by decide)
  · exact hreturn ▸ readString_simpleEscape rfl (by decide)
  · exact htab ▸ readString_simpleEscape rfl (by decide)
  · obtain rfl : c = Char.ofNat 8 := by rw [← hback, Char.ofNat_toNat]
    exact readString_simpleEscape rfl (by decide)
  · obtain rfl : c = Char.ofNat 12 := by rw [← hform, Char.ofNat_toNat]
    exact readString_simpleEscape rfl (by decide)
  · exact readString_unitEscapes c hmore
  · have hcontrol : ¬ c.toNat < 32 := fun h => hunit (by simp [h])
    have hread : readString start done (c :: more) = readString start (c :: done) more :=
      readString_plain hquote hslash (by omega)
    simpa using hread

theorem readString_chars (asciiOnly : Bool) (start done chars rest : Chars) :
    readString start done
      ((String.join (chars.map (escapeChar asciiOnly))).toList ++ '"' :: rest) =
        .ok (String.ofList (done.reverse ++ chars), rest) := by
  induction chars generalizing done with
  | nil => simp [readString]
  | cons c chars ih =>
    have hmore : (String.join (chars.map (escapeChar asciiOnly))).toList ++ '"' :: rest ≠ [] := by
      simp
    rw [List.map_cons, String.join_cons, String.toList_append, List.append_assoc,
      readString_escapeChar asciiOnly c hmore, ih]
    simp

theorem exists_quoted (asciiOnly : Bool) (s : String) :
    ∃ body, (quoteString asciiOnly s).toList = '"' :: body ∧
      ∀ start rest, readString start [] (body ++ rest) = .ok (s, rest) := by
  refine ⟨(String.join (s.toList.map (escapeChar asciiOnly))).toList ++ ['"'], ?_, ?_⟩
  · simp [quoteString]
  · intro start rest
    rw [List.append_assoc]
    have hread := readString_chars asciiOnly start [] s.toList rest
    rwa [List.reverse_nil, List.nil_append, String.ofList_toList] at hread

/-! ## Numbers -/

def EndsNumber (rest : Chars) : Prop :=
  ∀ c ∈ rest.head?, c.isDigit = false ∧ c ∉ ['.', 'e', 'E']

variable {rest : Chars} {value : Json}

theorem takeWhile_toDigits (n : Nat) (hrest : EndsNumber rest) :
    (Nat.toDigits 10 n ++ rest).takeWhile isAsciiDigit = Nat.toDigits 10 n ∧
      (Nat.toDigits 10 n ++ rest).dropWhile isAsciiDigit = rest := by
  have hdigits : ∀ c ∈ Nat.toDigits 10 n, isAsciiDigit c = true := by
    intro c hc
    rw [Extended.isAsciiDigit_eq]
    exact Pointer.isDigit_of_mem_natText (n := n) (by rwa [Pointer.toList_natText])
  rw [List.takeWhile_append_of_pos hdigits, List.dropWhile_append_of_pos hdigits]
  cases rest with
  | nil => simp
  | cons c more =>
    have hc : isAsciiDigit c = false := (Extended.isAsciiDigit_eq c).trans (hrest c rfl).1
    simp [hc]

theorem wholeOf_toDigits (n : Nat) (hrest : EndsNumber rest) :
    wholeOf (Nat.toDigits 10 n ++ rest) = (Nat.toDigits 10 n, rest) := by
  unfold wholeOf
  split
  case h_1 more hzero =>
    have hhead : (Nat.toDigits 10 n).head? = some '0' := by
      have := congrArg List.head? hzero
      rwa [List.head?_append_of_ne_nil _ Nat.toDigits_ne_nil] at this
    obtain rfl := eq_zero_of_head?_toDigits hhead
    have hmore : rest = more := (List.cons.inj hzero).2
    rw [hmore]
    rfl
  case h_2 => rw [(takeWhile_toDigits n hrest).1, (takeWhile_toDigits n hrest).2]

theorem fractionOf_of_ends (hrest : EndsNumber rest) : fractionOf rest = ([], rest) := by
  unfold fractionOf
  split
  case h_1 => exact absurd (by simp) (hrest '.' rfl).2
  case h_2 => rfl

theorem exponentOf_of_ends (hrest : EndsNumber rest) : exponentOf rest = (none, rest) := by
  unfold exponentOf
  split
  case h_1 c more =>
    have hc := (hrest c rfl).2
    have hletter : ¬ (c == 'e' || c == 'E') = true := by
      simp only [List.mem_cons, not_or] at hc
      simp [hc]
    rw [if_neg hletter]
  case h_2 => rfl

theorem digitsValue_concat (digits : Chars) (digit : Char) :
    digitsValue (digits ++ [digit]) = 10 * digitsValue digits + digitValue digit := by
  rw [digitsValue, List.foldl_append, ← digitsValue]
  rfl

theorem digitsValue_toDigits (n : Nat) : digitsValue (Nat.toDigits 10 n) = n := by
  have hdigit : ∀ d < 10, digitValue (Nat.digitChar d) = d := by decide
  induction n using Nat.strongRecOn with
  | ind n ih =>
    rw [Nat.toDigits_eq_if (by decide)]
    split
    case isTrue hlt => simp [digitsValue, hdigit n hlt]
    case isFalse hge =>
      rw [digitsValue_concat, ih (n / 10) (by omega), hdigit _ (Nat.mod_lt n (by decide))]
      omega

theorem readNumber_toDigits (start : Chars) (negative : Bool) {n : Nat}
    (hlength : decimalLength n ≤ maxIntegerDigits) (hrest : EndsNumber rest) :
    readNumber start negative (Nat.toDigits 10 n ++ rest) =
      .ok (.int (if negative then -n else n), rest) := by
  have hne : (Nat.toDigits 10 n).isEmpty = false := by simp [Nat.toDigits_ne_nil]
  rw [readNumber]
  simp only [wholeOf_toDigits n hrest, fractionOf_of_ends hrest, exponentOf_of_ends hrest, hne,
    digitsValue_toDigits]
  rw [decimalLength] at hlength
  simp [Nat.not_lt.mpr hlength]

theorem exists_toDigits_cons (n : Nat) :
    ∃ c more, Nat.toDigits 10 n = c :: more ∧ c.isDigit = true := by
  obtain ⟨c, more, hdigits⟩ := List.exists_cons_of_ne_nil (Nat.toDigits_ne_nil (b := 10) (n := n))
  refine ⟨c, more, hdigits, Pointer.isDigit_of_mem_natText (n := n) ?_⟩
  rw [Pointer.toList_natText, hdigits]
  exact List.mem_cons_self

theorem readScalar_digit {cs : Chars} (hc : c.isDigit = true) :
    readScalar (c :: cs) = readNumber (c :: cs) false (c :: cs) := by
  unfold readScalar
  split
  case h_7 => rfl
  all_goals
    rename_i h
    rw [(List.cons.inj h).1] at hc
    cases hc

theorem readScalar_intText {n : Int} (hlength : decimalLength n.natAbs ≤ maxIntegerDigits)
    (hrest : EndsNumber rest) : readScalar ((intText n).toList ++ rest) = .ok (.int n, rest) := by
  obtain ⟨c, more, hdigits, hc⟩ := exists_toDigits_cons n.natAbs
  unfold intText
  split
  case isTrue hneg =>
    have hinfinity : ('I' == c) = false := by
      rw [beq_eq_false_iff_ne]
      rintro rfl
      cases hc
    have hword : (after? "-Infinity" ('-' :: (Nat.toDigits 10 n.natAbs ++ rest))).isSome =
        false := by
      simp [after?, hdigits, List.isPrefixOf, hinfinity]
    have htext : ("-" ++ natText n.natAbs).toList ++ rest =
        '-' :: (Nat.toDigits 10 n.natAbs ++ rest) := by simp [natText]
    rw [htext, readScalar, hword]
    have hread := readNumber_toDigits ('-' :: (Nat.toDigits 10 n.natAbs ++ rest)) true hlength hrest
    rw [if_neg Bool.false_ne_true, hread]
    simp [abs_of_neg hneg]
  case isFalse hpos =>
    rw [Pointer.toList_natText, hdigits, List.cons_append, readScalar_digit hc, ← List.cons_append,
      ← hdigits, readNumber_toDigits _ false hlength hrest]
    simp [abs_of_nonneg (Int.not_lt.mp hpos)]

theorem after?_of_eq (word : String) (rest : Chars) {cs : Chars} (hcs : cs = word.toList ++ rest) :
    after? word cs = some rest := by
  rw [hcs, after?, if_pos (by simp), ← String.length_toList, List.drop_left]

def intStarts : List Char := ['-', '0', '1', '2', '3', '4', '5', '6', '7', '8', '9']

theorem exists_intText_cons (n : Int) :
    ∃ c more, (intText n).toList = c :: more ∧ c ∈ intStarts := by
  have hdigit : ∀ d < 10, Nat.digitChar d ∈ intStarts := by decide
  unfold intText
  split
  case isTrue => exact ⟨'-', (natText n.natAbs).toList, by simp, List.mem_cons_self⟩
  case isFalse =>
    obtain ⟨c, more, hdigits, hc⟩ := exists_toDigits_cons n.natAbs
    obtain ⟨d, hd, rfl⟩ := Pointer.exists_digit_of_isDigit hc
    exact ⟨_, more, by rw [Pointer.toList_natText, hdigits], hdigit d hd⟩

/-! ## What is read can be written -/

theorem digitsValue_lt {digits : Chars} (h : ∀ c ∈ digits, isAsciiDigit c = true) :
    digitsValue digits < 10 ^ digits.length := by
  induction digits using List.reverseRecOn with
  | nil => simp [digitsValue]
  | append_singleton digits digit ih =>
    have hfront := ih fun c hc => h c (List.mem_append_left _ hc)
    have hdigit : digitValue digit < 10 := by
      have hvalues : ∀ d < 10, digitValue (Nat.digitChar d) < 10 := by decide
      obtain ⟨d, hd, rfl⟩ := Pointer.exists_digit_of_isDigit
        ((Extended.isAsciiDigit_eq digit).symm.trans (h digit (by simp)))
      exact hvalues d hd
    rw [digitsValue_concat, List.length_append, List.length_singleton, Nat.pow_succ]
    omega

theorem isAsciiDigit_of_mem_wholeOf {cs : Chars} {c : Char} (hc : c ∈ (wholeOf cs).1) :
    isAsciiDigit c = true := by
  unfold wholeOf at hc
  split at hc
  case h_1 =>
    rw [List.mem_singleton.mp hc]
    rfl
  case h_2 => exact List.mem_takeWhile_imp hc

theorem readNumber_hasText {start cs : Chars} {negative : Bool}
    (h : readNumber start negative cs = .ok (value, rest)) : value.hasText = true := by
  unfold readNumber at h
  obtain ⟨⟨whole, afterWhole⟩, hwhole⟩ : ∃ parts, wholeOf cs = parts := ⟨_, rfl⟩
  simp only [hwhole] at h
  split at h
  case isTrue => cases h
  case isFalse hne =>
    split at h
    case isTrue =>
      split at h
      case isTrue => cases h
      case isFalse hshort =>
        obtain ⟨rfl, -⟩ := Prod.mk.inj (Except.ok.inj h)
        have hdigits : ∀ c ∈ (wholeOf cs).1, isAsciiDigit c = true :=
          fun c hc => isAsciiDigit_of_mem_wholeOf hc
        rw [hwhole] at hdigits
        have hpos : 0 < whole.length := List.length_pos_iff.mpr (by simpa using hne)
        have hlength := decimalLength_le hpos (digitsValue_lt hdigits)
        rw [Json.int, Json.hasText, Number.hasText, decide_eq_true_eq]
        cases negative <;> simp <;> omega
    case isFalse =>
      split at h
      case h_1 =>
        obtain ⟨rfl, -⟩ := Prod.mk.inj (Except.ok.inj h)
        rfl
      case h_2 => cases h

theorem readScalar_hasText {cs : Chars} (h : readScalar cs = .ok (value, rest)) :
    value.hasText = true := by
  unfold readScalar at h
  split at h
  case h_6 =>
    split at h
    case isTrue => cases h
    case isFalse => exact readNumber_hasText h
  case h_7 => exact readNumber_hasText h
  all_goals
    split at h
    · first
      | exact (Prod.mk.inj (Except.ok.inj h)).1 ▸ rfl
      | cases h
    · cases h

end JsonReader

end JsonSchema
