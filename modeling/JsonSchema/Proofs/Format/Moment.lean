import JsonSchema.Format.Check
import JsonSchema.Proofs.Pointer.Index
import Mathlib

/-!
# The formats of dates and times

The texts of days that the calendar of the standard library has, and of times with an offset, as
languages. The formats accept these texts, and the same ones in the digits of other scripts.
-/

namespace JsonSchema

namespace Moment

open scoped Computability

variable {c d : Char} {cs rest : Chars} {n k count : Nat}

/-! ## Digits of any script -/

/-- The digit between `0` and `9` in the place of one of any script; other characters stay. -/
def plainDigit (c : Char) : Char := ((decimalValue? c).map Nat.digitChar).getD c

def plain (cs : Chars) : Chars := cs.map plainDigit

theorem decimalValue?_lt (h : decimalValue? c = some n) : n < 10 := by
  obtain ⟨start, hstart, rfl⟩ := Option.map_eq_some_iff.mp h
  have hrange := Array.find?_some hstart
  simp only [Bool.and_eq_true, decide_eq_true_eq] at hrange
  omega

theorem digitChar_inj (hk : k < 10) (hn : n < 10) (h : Nat.digitChar k = Nat.digitChar n) :
    k = n := by
  have hvalue := congrArg decimalValue? h
  rw [decimalValue?_digitChar hk, decimalValue?_digitChar hn] at hvalue
  exact Option.some.inj hvalue

theorem isDigit_digitChar (hk : k < 10) : (Nat.digitChar k).isDigit = true := by
  revert k
  decide

theorem plainDigit_of_value (h : decimalValue? c = some n) : plainDigit c = Nat.digitChar n := by
  rw [plainDigit, h]
  rfl

theorem plainDigit_of_none (h : decimalValue? c = none) : plainDigit c = c := by
  rw [plainDigit, h]
  rfl

theorem plainDigit_eq_digitChar (hk : k < 10) :
    plainDigit c = Nat.digitChar k ↔ decimalValue? c = some k := by
  cases hc : decimalValue? c with
  | none =>
    rw [plainDigit_of_none hc]
    refine ⟨?_, nofun⟩
    rintro rfl
    exact hc.symm.trans (decimalValue?_digitChar hk)
  | some n =>
    rw [plainDigit_of_value hc, Option.some.injEq]
    exact ⟨digitChar_inj (decimalValue?_lt hc) hk, fun h => h ▸ rfl⟩

theorem plainDigit_eq_mark (hd : decimalValue? d = none) : plainDigit c = d ↔ c = d := by
  constructor
  · intro h
    cases hc : decimalValue? c with
    | none => rwa [plainDigit_of_none hc] at h
    | some n =>
      rw [plainDigit_of_value hc] at h
      rw [← h, decimalValue?_digitChar (decimalValue?_lt hc)] at hd
      cases hd
  · rintro rfl
    exact plainDigit_of_none hd

theorem isDigit_plainDigit : (plainDigit c).isDigit = isDecimalDigit c := by
  rw [isDecimalDigit]
  cases hc : decimalValue? c with
  | none =>
    rw [plainDigit_of_none hc, Option.isSome_none, ← Bool.not_eq_true]
    intro hdigit
    obtain ⟨k, hk, rfl⟩ := Pointer.exists_digit_of_isDigit hdigit
    rw [decimalValue?_digitChar hk] at hc
    cases hc
  | some n =>
    rw [plainDigit_of_value hc]
    exact isDigit_digitChar (decimalValue?_lt hc)

theorem plainDigit_eq_self (h : isDecimalDigit c = true → c.isDigit = true) : plainDigit c = c := by
  cases hc : decimalValue? c with
  | none => exact plainDigit_of_none hc
  | some n =>
    obtain ⟨k, hk, rfl⟩ := Pointer.exists_digit_of_isDigit (h (by rw [isDecimalDigit, hc]; rfl))
    exact (plainDigit_eq_digitChar hk).mpr (decimalValue?_digitChar hk)

/-! ## Numerals -/

def numeral : (count n : Nat) → Chars
  | 0, _ => []
  | count + 1, n => numeral count (n / 10) ++ [Nat.digitChar (n % 10)]

theorem length_numeral (count n : Nat) : (numeral count n).length = count := by
  induction count generalizing n with
  | zero => rfl
  | succ count ih => rw [numeral, List.length_append, ih, List.length_singleton]

theorem decimalNumeral?_eq_some : decimalNumeral? cs = some n ↔
    n < 10 ^ cs.length ∧ plain cs = numeral cs.length n := by
  induction cs using List.reverseRecOn generalizing n with
  | nil => simp [decimalNumeral?, plain, numeral, eq_comm]
  | append_singleton front c ih =>
    have hplain : plain (front ++ [c]) = plain front ++ [plainDigit c] := List.map_append
    rw [decimalNumeral?_concat, hplain, List.length_append, List.length_singleton, numeral,
      ← List.concat_eq_append, ← List.concat_eq_append, List.concat_inj,
      plainDigit_eq_digitChar (Nat.mod_lt _ (by omega)), pow_succ]
    simp only [Option.bind_eq_some_iff, Option.map_eq_some_iff]
    constructor
    · rintro ⟨m, hm, v, hv, rfl⟩
      have hlt := decimalValue?_lt hv
      obtain ⟨hbound, hfront⟩ := ih.mp hm
      rw [show (10 * m + v) / 10 = m by omega, show (10 * m + v) % 10 = v by omega]
      exact ⟨by omega, hfront, hv⟩
    · rintro ⟨hbound, hfront, hc⟩
      exact ⟨n / 10, ih.mpr ⟨by omega, hfront⟩, n % 10, hc, by omega⟩

theorem plain_append (cs rest : Chars) : plain (cs ++ rest) = plain cs ++ plain rest :=
  List.map_append

theorem plain_mark (hd : decimalValue? d = none) (cs : Chars) :
    plain (d :: cs) = d :: plain cs := by
  rw [plain, List.map_cons, plainDigit_of_none hd]
  rfl

theorem exists_of_plain_append {front : Chars} (h : plain cs = front ++ rest) :
    ∃ cs₁ cs₂, cs = cs₁ ++ cs₂ ∧ plain cs₁ = front ∧ plain cs₂ = rest :=
  List.map_eq_append_iff.mp h

theorem exists_of_plain_mark (hd : decimalValue? d = none) (h : plain cs = d :: rest) :
    ∃ more, cs = d :: more ∧ plain more = rest := by
  obtain ⟨c, more, rfl, hc, hmore⟩ := List.map_eq_cons_iff.mp h
  obtain rfl := (plainDigit_eq_mark hd).mp hc
  exact ⟨more, rfl, hmore⟩

theorem digits?_eq_some : digits? count cs = some (n, rest) ↔
    ∃ front, cs = front ++ rest ∧ n < 10 ^ count ∧ plain front = numeral count n := by
  rw [digits?]
  constructor
  · intro h
    split at h
    case isTrue => cases h
    case isFalse hlong =>
      obtain ⟨m, hm, heq⟩ := Option.map_eq_some_iff.mp h
      obtain ⟨rfl, rfl⟩ := Prod.mk.inj heq
      have hfront := decimalNumeral?_eq_some.mp hm
      rw [Nat.le_antisymm (List.length_take_le _ _) (Nat.not_lt.mp hlong)] at hfront
      exact ⟨cs.take count, (List.take_append_drop ..).symm, hfront⟩
  · rintro ⟨front, rfl, hbound, hfront⟩
    have hlength : front.length = count := by
      rw [← length_numeral count n, ← hfront, plain, List.length_map]
    subst hlength
    rw [List.take_left', List.drop_left', if_neg (Nat.lt_irrefl _),
      decimalNumeral?_eq_some.mpr ⟨hbound, hfront⟩]
    all_goals rfl

theorem after?_eq_some : after? c cs = some rest ↔ cs = c :: rest := by
  cases cs with
  | nil => simp [after?]
  | cons d more =>
    rw [after?]
    split <;> simp_all

/-! ## Days -/

theorem isLeap_ofNat (year : Nat) :
    (Std.Time.Year.Offset.ofNat year).isLeap = isLeapYear year := by
  have htmod (k : Nat) : (year : Int).tmod k = 0 ↔ year % k = 0 := by
    rw [← Int.ofNat_tmod, Int.natCast_eq_zero]
  rw [Bool.eq_iff_iff, isLeapYear, Std.Time.Year.Offset.isLeap]
  simp only [Bool.and_eq_true, Bool.or_eq_true, beq_iff_eq, bne_iff_ne, decide_eq_true_eq, ne_eq,
    ← htmod]
  rfl

theorem val_days (year : Nat) (month : Std.Time.Month.Ordinal) :
    (month.days (isLeapYear year)).val = daysIn year month.val.toNat := by
  obtain ⟨month, hlow, hhigh⟩ := month
  unfold daysIn
  cases isLeapYear year <;> interval_cases month <;> rfl

theorem daysIn_le (year month : Nat) : daysIn year month ≤ 31 := by
  unfold daysIn
  split
  · split <;> omega
  all_goals omega

/-- The calendar is the one of the standard library, from the year one on. -/
theorem isDay_iff {year month day : Nat} : isDay year month day = true ↔
    1 ≤ year ∧ ∃ date : Std.Time.PlainDate, date.year = .ofNat year ∧ date.month.val = month ∧
      date.day.val = day := by
  have hvalid (month : Std.Time.Month.Ordinal) (day : Std.Time.Day.Ordinal) :
      (Std.Time.Year.Offset.ofNat year).Valid month day ↔
        day.val ≤ daysIn year month.val.toNat := by
    rw [← val_days, ← isLeap_ofNat]
    rfl
  simp only [isDay, Bool.and_eq_true, decide_eq_true_eq]
  constructor
  · rintro ⟨⟨⟨⟨hyear, hmonth⟩, hmonth'⟩, hday⟩, hlast⟩
    have hbound := daysIn_le year month
    exact ⟨hyear, ⟨.ofNat year, ⟨month, by omega, by omega⟩, ⟨day, by omega, by omega⟩,
      (hvalid _ _).mpr (Int.ofNat_le.mpr hlast)⟩, rfl, rfl, rfl⟩
  · rintro ⟨hyear, ⟨_, ⟨_, hmonth⟩, ⟨_, hday⟩, hdate⟩, rfl, rfl, rfl⟩
    have hlast : day ≤ daysIn year month := Int.ofNat_le.mp ((hvalid _ _).mp hdate)
    omega

/-- The text of a date whose year has four digits. -/
def dateText (date : Std.Time.PlainDate) : Chars :=
  numeral 4 date.year.toInt.toNat ++ '-' ::
    (numeral 2 date.month.val.toNat ++ '-' :: numeral 2 date.day.val.toNat)

/-- The dates of the years from one on that have a numeral of four digits. -/
def dates : Language Char :=
  {cs | ∃ date : Std.Time.PlainDate, 1 ≤ date.year.toInt ∧ date.year.toInt ≤ 9999 ∧
    cs = dateText date}

theorem readDate?_eq_some {year month day : Nat} : readDate? cs = some (year, month, day) ↔
    year < 10 ^ 4 ∧ month < 10 ^ 2 ∧ day < 10 ^ 2 ∧
      plain cs = numeral 4 year ++ '-' :: (numeral 2 month ++ '-' :: numeral 2 day) := by
  simp only [readDate?, Option.bind_eq_bind, Option.bind_eq_some_iff, Prod.exists, after?_eq_some,
    digits?_eq_some, Option.ite_none_right_eq_some, Option.some.injEq, Prod.mk.injEq,
    List.isEmpty_iff]
  constructor
  · rintro ⟨_, _, ⟨years, rfl, hyear, hyears⟩, _, rfl, _, _, ⟨months, rfl, hmonth, hmonths⟩, _, rfl,
      _, _, ⟨days, rfl, hday, hdays⟩, rfl, rfl, rfl, rfl⟩
    refine ⟨hyear, hmonth, hday, ?_⟩
    rw [plain_append, plain_mark rfl, plain_append, plain_mark rfl, plain_append, hyears, hmonths,
      hdays]
    simp [plain]
  · rintro ⟨hyear, hmonth, hday, htext⟩
    obtain ⟨years, _, rfl, hyears, hmark⟩ := exists_of_plain_append htext
    obtain ⟨_, rfl, hrest⟩ := exists_of_plain_mark rfl hmark
    obtain ⟨months, _, rfl, hmonths, hmark⟩ := exists_of_plain_append hrest
    obtain ⟨days, rfl, hdays⟩ := exists_of_plain_mark rfl hmark
    exact ⟨_, _, ⟨years, rfl, hyear, hyears⟩, _, rfl, _, _, ⟨months, rfl, hmonth, hmonths⟩, _, rfl,
      _, [], ⟨days, (List.append_nil _).symm, hday, hdays⟩, rfl, rfl, rfl, rfl⟩

theorem isDate_iff : isDate cs = true ↔ plain cs ∈ dates := by
  constructor
  · intro h
    rw [isDate] at h
    split at h
    case h_1 year month day hread =>
      obtain ⟨hbound, -, -, htext⟩ := readDate?_eq_some.mp hread
      obtain ⟨hfirst, date, hyear, hmonth, hday⟩ := isDay_iff.mp h
      refine ⟨date, ?_⟩
      rw [dateText, hyear, hmonth, hday]
      exact ⟨Int.ofNat_le.mpr hfirst, Int.ofNat_le.mpr (Nat.le_of_lt_succ hbound), htext⟩
    case h_2 => cases h
  · rintro ⟨date, hfirst, hlast, htext⟩
    obtain ⟨year, hyear⟩ := Int.eq_ofNat_of_zero_le (Int.le_trans (by decide) hfirst)
    obtain ⟨month, hmonth⟩ :=
      Int.eq_ofNat_of_zero_le (Int.le_trans (by decide) date.month.property.1)
    obtain ⟨day, hday⟩ := Int.eq_ofNat_of_zero_le (Int.le_trans (by decide) date.day.property.1)
    have hgreatest := date.month.property.2
    have hgreatest' := date.day.property.2
    rw [dateText, hyear, hmonth, hday] at htext
    have hread : readDate? cs = some (year, month, day) :=
      readDate?_eq_some.mpr ⟨by omega, by omega, by omega, htext⟩
    rw [isDate, hread]
    exact isDay_iff.mpr ⟨by omega, date, hyear, hmonth, hday⟩

/-! ## Times -/

def mark (allowed : Chars) : Language Char := {cs | ∃ c ∈ allowed, cs = [c]}

def digit : Language Char := {cs | ∃ c, c.isDigit = true ∧ cs = [c]}

def numerals (count greatest : Nat) : Language Char := {cs | ∃ n ≤ greatest, cs = numeral count n}

def hours : Language Char := numerals 2 23 * (mark [':'] * numerals 2 59)

def fraction : Language Char := 1 + mark ['.'] * (digit * digit∗)

def offsets : Language Char := mark ['Z', 'z'] + mark ['+', '-'] * hours

/-- The sixtieth second is a leap second. -/
def times : Language Char := hours * (mark [':'] * (numerals 2 60 * (fraction * offsets)))

def dateTimes : Language Char := dates * (mark ['T', 't', ' '] * times)

section Languages

variable {L M : Language Char} {allowed : Chars} {greatest : Nat}

theorem plain_mem_mul : plain cs ∈ L * M ↔
    ∃ front rest, cs = front ++ rest ∧ plain front ∈ L ∧ plain rest ∈ M := by
  rw [Language.mem_mul]
  constructor
  · rintro ⟨front, hfront, rest, hrest, h⟩
    obtain ⟨cs₁, cs₂, rfl, rfl, rfl⟩ := exists_of_plain_append h.symm
    exact ⟨cs₁, cs₂, rfl, hfront, hrest⟩
  · rintro ⟨front, rest, rfl, hfront, hrest⟩
    exact ⟨_, hfront, _, hrest, (plain_append ..).symm⟩

theorem plain_mem_mark (h : allowed.any isDecimalDigit = false) :
    plain cs ∈ mark allowed ↔ ∃ c ∈ allowed, cs = [c] := by
  have hnone (c : Char) (hc : c ∈ allowed) : decimalValue? c = none := by
    simpa [isDecimalDigit] using List.any_eq_false.mp h c hc
  constructor
  · rintro ⟨c, hc, hcs⟩
    obtain ⟨more, rfl, hmore⟩ := exists_of_plain_mark (hnone c hc) hcs
    exact ⟨c, hc, by rw [List.map_eq_nil_iff.mp hmore]⟩
  · rintro ⟨c, hc, rfl⟩
    exact ⟨c, hc, plain_mark (hnone c hc) []⟩

theorem plain_mem_mark_mul (h : allowed.any isDecimalDigit = false) :
    plain cs ∈ mark allowed * M ↔ ∃ c ∈ allowed, ∃ rest, cs = c :: rest ∧ plain rest ∈ M := by
  simp only [plain_mem_mul, plain_mem_mark h]
  constructor
  · rintro ⟨_, rest, rfl, ⟨c, hc, rfl⟩, hrest⟩
    exact ⟨c, hc, rest, rfl, hrest⟩
  · rintro ⟨c, hc, rest, rfl, hrest⟩
    exact ⟨[c], rest, rfl, ⟨c, hc, rfl⟩, hrest⟩

theorem plain_mem_digit : plain cs ∈ digit ↔ ∃ c, isDecimalDigit c = true ∧ cs = [c] := by
  constructor
  · rintro ⟨c, hc, h⟩
    obtain ⟨d, rfl, rfl⟩ := List.map_eq_singleton_iff.mp h
    exact ⟨d, isDigit_plainDigit.symm.trans hc, rfl⟩
  · rintro ⟨c, hc, rfl⟩
    exact ⟨plainDigit c, isDigit_plainDigit.trans hc, rfl⟩

theorem mem_kstar_digit : cs ∈ digit∗ ↔ ∀ c ∈ cs, c.isDigit = true := by
  rw [Language.mem_kstar]
  constructor
  · rintro ⟨parts, rfl, hparts⟩ c hc
    obtain ⟨part, hpart, hc⟩ := List.mem_flatten.mp hc
    obtain ⟨d, hd, rfl⟩ := hparts part hpart
    rwa [List.mem_singleton.mp hc]
  · intro h
    refine ⟨cs.map fun c => [c], (List.flatMap_singleton' cs).symm, ?_⟩
    rintro _ hpart
    obtain ⟨c, hc, rfl⟩ := List.mem_map.mp hpart
    exact ⟨c, h c hc, rfl⟩

theorem plain_mem_kstar_digit : plain cs ∈ digit∗ ↔ ∀ c ∈ cs, isDecimalDigit c = true := by
  simp [mem_kstar_digit, plain, isDigit_plainDigit]

theorem plain_mem_numerals_mul (h : greatest < 10 ^ count) :
    plain cs ∈ numerals count greatest * M ↔
      ∃ n ≤ greatest, ∃ rest, digits? count cs = some (n, rest) ∧ plain rest ∈ M := by
  simp only [plain_mem_mul, digits?_eq_some]
  constructor
  · rintro ⟨front, rest, rfl, ⟨n, hn, hfront⟩, hrest⟩
    exact ⟨n, hn, rest, ⟨front, rfl, by omega, hfront⟩, hrest⟩
  · rintro ⟨n, hn, rest, ⟨front, rfl, -, hfront⟩, hrest⟩
    exact ⟨front, rest, rfl, ⟨n, hn, hfront⟩, hrest⟩

theorem readHours?_eq_some {hour minute : Nat} : readHours? cs = some (hour, minute, rest) ↔
    ∃ more, digits? 2 cs = some (hour, ':' :: more) ∧ digits? 2 more = some (minute, rest) := by
  simp only [readHours?, Option.bind_eq_bind, Option.bind_eq_some_iff, Prod.exists, after?_eq_some,
    Option.pure_def, Option.some.injEq, Prod.mk.injEq]
  constructor
  · rintro ⟨_, _, hhour, more, rfl, _, _, hminute, rfl, rfl, rfl⟩
    exact ⟨more, hhour, hminute⟩
  · rintro ⟨more, hhour, hminute⟩
    exact ⟨_, _, hhour, more, rfl, _, _, hminute, rfl, rfl, rfl⟩

theorem plain_mem_hours_mul : plain cs ∈ hours * M ↔
    ∃ hour ≤ 23, ∃ minute ≤ 59, ∃ rest, readHours? cs = some (hour, minute, rest) ∧
      plain rest ∈ M := by
  have hcolon : [':'].any isDecimalDigit = false := rfl
  simp only [hours, mul_assoc, plain_mem_numerals_mul (show 23 < 10 ^ 2 by decide),
    plain_mem_mark_mul hcolon, plain_mem_numerals_mul (show 59 < 10 ^ 2 by decide)]
  simp only [readHours?_eq_some, List.mem_singleton, exists_eq_left]
  constructor
  · rintro ⟨hour, hhour, _, hfirst, more, rfl, minute, hminute, rest, hsecond, hrest⟩
    exact ⟨hour, hhour, minute, hminute, rest, ⟨more, hfirst, hsecond⟩, hrest⟩
  · rintro ⟨hour, hhour, minute, hminute, rest, ⟨more, hfirst, hsecond⟩, hrest⟩
    exact ⟨hour, hhour, _, hfirst, more, rfl, minute, hminute, rest, hsecond, hrest⟩

theorem plain_mem_hours : plain cs ∈ hours ↔
    ∃ hour ≤ 23, ∃ minute ≤ 59, readHours? cs = some (hour, minute, []) := by
  rw [← mul_one hours, plain_mem_hours_mul]
  simp [Language.mem_one, plain]

theorem plain_mem_fraction : plain cs ∈ fraction ↔ cs = [] ∨ ∃ c digits,
    cs = '.' :: c :: digits ∧ isDecimalDigit c = true ∧ ∀ d ∈ digits, isDecimalDigit d = true := by
  rw [fraction, Language.mem_add, plain_mem_mark_mul rfl]
  refine or_congr List.map_eq_nil_iff ?_
  simp only [List.mem_singleton, exists_eq_left, plain_mem_mul, plain_mem_digit,
    plain_mem_kstar_digit]
  constructor
  · rintro ⟨_, rfl, _, digits, rfl, ⟨c, hc, rfl⟩, hdigits⟩
    exact ⟨c, digits, rfl, hc, hdigits⟩
  · rintro ⟨c, digits, rfl, hc, hdigits⟩
    exact ⟨_, rfl, [c], digits, rfl, ⟨c, hc, rfl⟩, hdigits⟩

end Languages

theorem isOffset_iff : isOffset cs = true ↔ plain cs ∈ offsets := by
  rw [offsets, Language.mem_add, plain_mem_mark rfl, plain_mem_mark_mul rfl]
  simp only [List.mem_cons, List.not_mem_nil, or_false, exists_eq_or_imp, exists_eq_left]
  unfold isOffset
  split
  case h_1 | h_2 => simp
  case h_3 c rest hupper hlower =>
    have hzone : ¬ (c :: rest = ['Z'] ∨ c :: rest = ['z']) := by
      rintro (h | h) <;> cases h
      · exact hupper rfl rfl
      · exact hlower rfl rfl
    rw [or_iff_right hzone, Bool.and_eq_true]
    have hsigned : ((∃ more, c :: rest = '+' :: more ∧ plain more ∈ hours) ∨
        ∃ more, c :: rest = '-' :: more ∧ plain more ∈ hours) ↔
        (c = '+' ∨ c = '-') ∧ plain rest ∈ hours := by
      simp only [List.cons.injEq, and_assoc, exists_and_left, exists_eq_left', or_and_right]
    rw [hsigned, plain_mem_hours]
    refine and_congr (by simp) ?_
    split
    case h_1 heq => simp [heq]
    case h_2 hother => simpa using fun hour _ minute _ heq => hother hour minute heq
  case h_4 => simp

theorem head_of_isOffset (h : isOffset cs = true) :
    ∃ c rest, cs = c :: rest ∧ c ≠ '.' ∧ isDecimalDigit c = false := by
  unfold isOffset at h
  split at h
  case h_1 | h_2 => exact ⟨_, _, rfl, by decide, rfl⟩
  case h_3 c rest _ _ =>
    obtain ⟨hsign, -⟩ := Bool.and_eq_true_iff.mp h
    obtain rfl | rfl : c = '+' ∨ c = '-' := by simpa using hsign
    all_goals exact ⟨_, _, rfl, by decide, rfl⟩
  case h_4 => cases h

theorem skipFraction?_iff : (∃ rest, skipFraction? cs = some rest ∧ isOffset rest = true) ↔
    plain cs ∈ fraction * offsets := by
  simp only [plain_mem_mul, plain_mem_fraction, ← isOffset_iff]
  constructor
  · rintro ⟨rest, hskip, hoffset⟩
    unfold skipFraction? at hskip
    split at hskip
    case h_1 c more =>
      obtain ⟨hc, hrest⟩ := Option.ite_none_right_eq_some.mp hskip
      obtain rfl := Option.some.inj hrest
      refine ⟨'.' :: c :: more.takeWhile isDecimalDigit, _, ?_,
        .inr ⟨c, _, rfl, hc, fun d => List.mem_takeWhile_imp⟩, hoffset⟩
      simp
    case h_2 => cases hskip
    case h_3 =>
      obtain rfl := Option.some.inj hskip
      exact ⟨[], cs, rfl, .inl rfl, hoffset⟩
  · rintro ⟨front, rest, rfl, hfront, hoffset⟩
    refine ⟨rest, ?_, hoffset⟩
    obtain ⟨c, more, rfl, hpoint, hc⟩ := head_of_isOffset hoffset
    obtain rfl | ⟨first, digits, rfl, hfirst, hdigits⟩ := hfront
    · simp [skipFraction?, hpoint]
    · have hrest : (digits ++ c :: more).dropWhile isDecimalDigit = c :: more := by
        rw [List.dropWhile_append_of_pos hdigits, List.dropWhile_cons_of_neg (by simp [hc])]
      simp [skipFraction?, hfirst, hrest]

theorem isTime_iff : isTime cs = true ↔ plain cs ∈ times := by
  rw [times, plain_mem_hours_mul]
  unfold isTime
  split
  case h_1 hnone => simp [hnone]
  case h_2 hour minute rest hread =>
    have hseconds : plain rest ∈ mark [':'] * (numerals 2 60 * (fraction * offsets)) ↔
        ∃ second ≤ 60, ∃ more, (after? ':' rest).bind (digits? 2) = some (second, more) ∧
          ∃ tail, skipFraction? more = some tail ∧ isOffset tail = true := by
      simp only [plain_mem_mark_mul (show [':'].any isDecimalDigit = false from rfl),
        plain_mem_numerals_mul (show 60 < 10 ^ 2 by decide), ← skipFraction?_iff,
        Option.bind_eq_some_iff, after?_eq_some, List.mem_singleton, exists_eq_left]
      constructor
      · rintro ⟨digits, rfl, second, hsecond, more, hdigits, hmore⟩
        exact ⟨second, hsecond, more, ⟨digits, rfl, hdigits⟩, hmore⟩
      · rintro ⟨second, hsecond, more, ⟨digits, rfl, hdigits⟩, hmore⟩
        exact ⟨digits, rfl, second, hsecond, more, hdigits, hmore⟩
    simp only [hread, Option.some.injEq, Prod.mk.injEq, hseconds, and_assoc,
      exists_and_left, exists_eq_left']
    split
    case h_1 hnone => simp [hnone]
    case h_2 second more hmore =>
      simp only [hmore, Option.some.injEq, Prod.mk.injEq, Bool.and_eq_true, decide_eq_true_eq]
      constructor
      · rintro ⟨⟨⟨hhour, hminute⟩, hsecond⟩, htail⟩
        refine ⟨hour, hhour, minute, hminute, rfl, rfl, second, hsecond, more, ⟨rfl, rfl⟩, ?_⟩
        split at htail
        case h_1 tail htaken => exact ⟨tail, htaken, htail⟩
        case h_2 => cases htail
      · rintro ⟨_, hhour, _, hminute, rfl, rfl, _, hsecond, _, ⟨rfl, rfl⟩, tail, htaken, htail⟩
        refine ⟨⟨⟨hhour, hminute⟩, hsecond⟩, ?_⟩
        rw [htaken]
        exact htail

theorem length_of_mem_dates (h : plain cs ∈ dates) : cs.length = 10 := by
  obtain ⟨date, -, -, htext⟩ := h
  rw [← List.length_map (f := plainDigit), ← plain, htext, dateText]
  simp [length_numeral]

theorem isDateTime_iff : isDateTime cs = true ↔ plain cs ∈ dateTimes := by
  have hmarks : ['T', 't', ' '].any isDecimalDigit = false := rfl
  simp only [dateTimes, plain_mem_mul (M := mark _ * _), plain_mem_mark_mul hmarks]
  unfold isDateTime
  constructor
  · intro h
    split at h
    case h_1 c rest hrest =>
      simp only [Bool.and_eq_true, Bool.or_eq_true, beq_iff_eq, isDate_iff, isTime_iff] at h
      obtain ⟨⟨hc, hdate⟩, htime⟩ := h
      refine ⟨cs.take 10, cs.drop 10, (List.take_append_drop ..).symm, hdate, c, ?_, rest, hrest,
        htime⟩
      simpa [or_assoc] using hc
    case h_2 => cases h
  · rintro ⟨date, _, rfl, hdate, c, hc, time, rfl, htime⟩
    have hlength := length_of_mem_dates hdate
    rw [List.drop_left' hlength, List.take_left' hlength]
    simp only [Bool.and_eq_true, Bool.or_eq_true, beq_iff_eq, isDate_iff, isTime_iff]
    exact ⟨⟨by simpa [or_assoc] using hc, hdate⟩, htime⟩

/-! ## Languages in plain digits -/

section Plain

variable {L M : Language Char} {allowed : Chars} {greatest : Nat}

/-- All digits in the texts of the language are between `0` and `9`. -/
def IsPlain (L : Language Char) : Prop :=
  ∀ cs ∈ L, ∀ c ∈ cs, isDecimalDigit c = true → c.isDigit = true

theorem plain_eq_self : plain cs = cs ↔ ∀ c ∈ cs, isDecimalDigit c = true → c.isDigit = true := by
  conv_lhs => rw [plain, ← List.map_id cs, List.map_map, List.map_inj_left]
  refine forall₂_congr fun c _ => ⟨fun h hc => ?_, plainDigit_eq_self⟩
  rw [← isDigit_plainDigit] at hc
  rwa [show plainDigit c = c from h] at hc

theorem IsPlain.mem_iff (hL : IsPlain L) :
    cs ∈ L ↔ plain cs ∈ L ∧ ∀ c ∈ cs, isDecimalDigit c = true → c.isDigit = true := by
  constructor
  · intro h
    have hplain := hL cs h
    exact ⟨by rwa [plain_eq_self.mpr hplain], hplain⟩
  · rintro ⟨h, hplain⟩
    rwa [plain_eq_self.mpr hplain] at h

theorem IsPlain.mul (hL : IsPlain L) (hM : IsPlain M) : IsPlain (L * M) := by
  rintro _ ⟨front, hfront, rest, hrest, rfl⟩ c hc
  exact (List.mem_append.mp hc).elim (hL front hfront c) (hM rest hrest c)

theorem IsPlain.add (hL : IsPlain L) (hM : IsPlain M) : IsPlain (L + M) :=
  fun cs h => h.elim (hL cs) (hM cs)

theorem isPlain_one : IsPlain 1 := by
  rintro _ rfl c hc
  cases hc

theorem isPlain_mark (h : allowed.any isDecimalDigit = false) : IsPlain (mark allowed) := by
  rintro _ ⟨c, hc, rfl⟩ d hd hdigit
  rw [List.mem_singleton.mp hd] at hdigit
  exact absurd hdigit (List.any_eq_false.mp h c hc)

theorem isPlain_digit : IsPlain digit := by
  rintro _ ⟨c, hc, rfl⟩ d hd -
  rwa [List.mem_singleton.mp hd]

theorem isPlain_digits : IsPlain digit∗ := fun _ h c hc _ => mem_kstar_digit.mp h c hc

theorem isDigit_of_mem_numeral (h : c ∈ numeral count n) : c.isDigit = true := by
  induction count generalizing n with
  | zero => cases h
  | succ count ih =>
    obtain h | h := List.mem_append.mp h
    · exact ih h
    · rw [List.mem_singleton.mp h]
      exact isDigit_digitChar (Nat.mod_lt _ (by omega))

theorem isPlain_numerals : IsPlain (numerals count greatest) := by
  rintro _ ⟨n, -, rfl⟩ c hc -
  exact isDigit_of_mem_numeral hc

theorem isPlain_dates : IsPlain dates := by
  rintro _ ⟨date, -, -, rfl⟩ c hc hdigit
  simp only [dateText, List.mem_append, List.mem_cons] at hc
  obtain h | rfl | h | rfl | h := hc
  case inr.inl | inr.inr.inr.inl => exact absurd hdigit (Bool.eq_false_iff.mp rfl)
  all_goals exact isDigit_of_mem_numeral h

theorem isPlain_times : IsPlain times := by
  have hcolon := isPlain_mark (show [':'].any isDecimalDigit = false from rfl)
  have hhours : IsPlain hours := isPlain_numerals.mul (hcolon.mul isPlain_numerals)
  have hfraction : IsPlain fraction :=
    isPlain_one.add ((isPlain_mark rfl).mul (isPlain_digit.mul isPlain_digits))
  have hoffsets : IsPlain offsets := (isPlain_mark rfl).add ((isPlain_mark rfl).mul hhours)
  exact hhours.mul (hcolon.mul (isPlain_numerals.mul (hfraction.mul hoffsets)))

theorem isPlain_dateTimes : IsPlain dateTimes :=
  isPlain_dates.mul ((isPlain_mark rfl).mul isPlain_times)

end Plain

end Moment

namespace Format

/--
The format takes the text if the language has it, in the digits of any script. The language has
just those of the texts taken whose digits are between `0` and `9`.
-/
structure TakesInAnyScript (name : String) (language : Language Char) (text : String) : Prop where
  accepts_iff : check name text = .ok (some true) ↔ Moment.plain text.toList ∈ language
  rejects_iff : check name text = .ok (some false) ↔ Moment.plain text.toList ∉ language
  mem_iff : text.toList ∈ language ↔ check name text = .ok (some true) ∧
    ∀ c ∈ text.toList, isDecimalDigit c = true → c.isDigit = true

theorem takesInAnyScript_of_decides {name text : String} {language : Language Char}
    {accepted : Bool} (hcheck : check name text = .ok (some accepted))
    (hdecides : accepted = true ↔ Moment.plain text.toList ∈ language)
    (hplain : Moment.IsPlain language) : TakesInAnyScript name language text where
  accepts_iff := by
    rw [hcheck, Except.ok.injEq, Option.some.injEq]
    exact hdecides
  rejects_iff := by
    rw [hcheck, Except.ok.injEq, Option.some.injEq, ← hdecides, Bool.not_eq_true]
  mem_iff := by
    rw [hcheck, Except.ok.injEq, Option.some.injEq, hdecides]
    exact hplain.mem_iff

/--
The formats of dates and times accept exactly their grammars, but for the script of the digits:
a text in plain digits is accepted if and only if its language has it, and any other text if and
only if the language has it with its digits between `0` and `9`.
-/
theorem moments_accepted_in_any_script (text : String) :
    TakesInAnyScript "date" Moment.dates text ∧
      TakesInAnyScript "time" Moment.times text ∧
      TakesInAnyScript "date-time" Moment.dateTimes text :=
  ⟨takesInAnyScript_of_decides rfl Moment.isDate_iff Moment.isPlain_dates,
    takesInAnyScript_of_decides rfl Moment.isTime_iff Moment.isPlain_times,
    takesInAnyScript_of_decides rfl Moment.isDateTime_iff Moment.isPlain_dateTimes⟩

example : check "date" "２０２０-01-01" = .ok (some true) := by decide +kernel

end Format

end JsonSchema
