import JsonSchema.Proofs.Evaluation.Checks
import JsonSchema.Proofs.Interpreter.Basic

/-!
# Keywords that look at the value alone

The interpreter asks the same of a value as the keywords that a compilation reads.
-/

namespace JsonSchema.Interpreter

variable {schema : Members Json} {keyword : String}

/-! ## Single keywords -/

theorem asks_iff {check : Json → Bool} :
    asks schema keyword check = true ↔ ∀ value ∈ schema.get? keyword, check value = true :=
  Option.all_eq_true ..

theorem asksNumber_iff {check : Number → Bool} {read : Option Number}
    (h : schema.number? keyword = .ok read) :
    asksNumber schema keyword check = true ↔ ∀ n ∈ read, check n = true := by
  unfold Members.number? at h
  rw [asksNumber, asks]
  split at h
  case h_1 hnone => cases h; simp [hnone]
  case h_2 n hsome => cases h; simp [hsome, onNumber]
  case h_3 => cases h

theorem asksCount_iff {check : Nat → Bool} {read : Option Nat}
    (h : schema.count? keyword = .ok read) :
    asksCount schema keyword check = true ↔ ∀ n ∈ read, check n = true := by
  unfold Members.count? at h
  rw [asksCount, asksNumber, asks]
  split at h
  case h_1 hnone => cases h; simp [hnone]
  case h_2 n hsome =>
    split at h <;> cases h
    simp [hsome, onNumber]
  case h_3 => cases h

theorem has_of_count {read : Option Nat} (h : schema.count? keyword = .ok read) :
    schema.has keyword = read.isSome := by
  unfold Members.count? at h
  rw [Members.has]
  split at h
  case h_1 hnone => cases h; simp [hnone]
  case h_2 n hsome =>
    split at h <;> cases h
    simp [hsome]
  case h_3 => cases h

theorem isTrue_eq {read : Bool} (h : schema.bool keyword = .ok read) :
    isTrue schema keyword = read := by
  unfold Members.bool at h
  unfold isTrue
  split at h
  case h_1 hnone => cases h; simp [hnone]
  case h_2 b hsome => cases h; simp [hsome]
  case h_3 => cases h

theorem forall_of_mapM {α β ε : Type} {found : Option α} {read : α → Except ε β} {result : Option β}
    {asked : α → Prop} {holds : β → Prop} (h : found.mapM read = .ok result)
    (heq : ∀ a b, read a = .ok b → (asked a ↔ holds b)) :
    (∀ a ∈ found, asked a) ↔ ∀ b ∈ result, holds b := by
  cases found with
  | none =>
    cases h
    simp
  | some a =>
    cases hread : read a with
    | error e => simp [hread, Functor.map, Except.map] at h
    | ok b =>
      simp only [Option.mapM_some, hread, Functor.map, Except.map, Except.ok.injEq] at h
      subst h
      simpa using heq a b hread

/-! ## Values of every type -/

theorem isOfType_iff {value name : Json} : isOfType value name = true ↔
    ∃ kind, name.string?.bind Json.Kind.ofName? = some kind ∧ value.hasKind kind = true := by
  cases name <;> simp [isOfType, Json.string?, Option.any_eq_true]

theorem any_isOfType {value : Json} {names : List Json} :
    names.any (isOfType value) =
      (names.filterMap fun name => name.string?.bind Json.Kind.ofName?).any value.hasKind := by
  rw [Bool.eq_iff_iff, List.any_eq_true, List.any_eq_true]
  simp only [List.mem_filterMap, isOfType_iff]
  grind

theorem any_of_readTypes {value types : Json} {kinds : List Json.Kind}
    (h : readTypes types = .ok kinds) : kinds.any value.hasKind = isOfTypes value types := by
  unfold readTypes at h
  simp only at h
  split at h
  case h_1 => cases h
  case h_2 names hnames =>
    split at h <;> cases h
    rw [← any_isOfType]
    split at hnames <;> cases hnames
    · exact Bool.or_false _
    · rfl

theorem isOfTypes_iff {value types : Json} {kinds : List Json.Kind}
    (h : readTypes types = .ok kinds) :
    isOfTypes value types = true ↔ ∃ kind ∈ kinds, value.OfKind kind := by
  rw [← any_of_readTypes h, List.any_eq_true]
  simp only [Json.hasKind_iff]

theorem valueAllows_iff {value : Json} {read : ValueKeywords}
    (h : readValueKeywords schema = .ok read) :
    valueAllows schema value = true ↔ read.Holds value := by
  simp only [readValueKeywords, Except.bind_eq_ok, Except.pure_eq_ok] at h
  obtain ⟨types, htypes, options, hoptions, rfl⟩ := h
  have hkinds : (∀ types ∈ schema.get? "type", isOfTypes value types = true) ↔
      ∀ kinds ∈ types, ∃ kind ∈ kinds, value.OfKind kind :=
    forall_of_mapM htypes fun _ _ => isOfTypes_iff
  have hsame := forall_of_mapM hoptions fun a options hread => show isAmong value a = true ↔
      ∃ option ∈ options, value.same option = true by
    split at hread <;> cases hread
    exact List.any_eq_true
  simp only [valueAllows, Bool.and_eq_true, asks_iff, hkinds, hsame]
  exact ⟨fun ⟨⟨hkind, hoption⟩, hconst⟩ => ⟨hkind, hoption, hconst⟩,
    fun ⟨hkind, hoption, hconst⟩ => ⟨⟨hkind, hoption⟩, hconst⟩⟩

/-! ## Numbers -/

theorem bounds_iff {declaration : DraftDeclaration} {inclusive : Option Number} {bound : Bound}
    (strict loose : Number → Bool) (h : readBound declaration schema keyword inclusive = .ok bound) :
    ((∀ limit ∈ inclusive, (if isTrue schema keyword then strict limit else loose limit) = true) ∧
        asksNumber schema keyword strict = true) ↔
      (∀ limit ∈ bound.inclusive, loose limit = true) ∧
        ∀ limit ∈ bound.exclusive, strict limit = true := by
  unfold readBound at h
  split at h
  case h_1 isExclusive hbool =>
    have htrue : isTrue schema keyword = isExclusive := by simp [isTrue, hbool]
    have hnone : asksNumber schema keyword strict = true := by
      simp [asksNumber, asks, hbool, onNumber]
    rw [htrue, and_iff_left hnone]
    split at h
    · cases h
    · cases isExclusive <;> cases h <;> simp
  case h_2 hother =>
    obtain ⟨exclusive, hread, rfl⟩ := Except.map_eq_ok.mp h
    have hfalse : isTrue schema keyword = false := by
      unfold isTrue
      split
      case h_1 b hbool => exact absurd hbool (hother b)
      case h_2 => rfl
    rw [hfalse, asksNumber_iff hread]
    simp

theorem numberAllows_iff {declaration : DraftDeclaration} {n : Number} {read : NumberKeywords}
    (h : readNumberKeywords declaration schema = .ok read) :
    numberAllows schema n = true ↔ read.Holds n := by
  simp only [readNumberKeywords, Except.bind_eq_ok] at h
  obtain ⟨minimum, hminimum, maximum, hmaximum, low, hlow, high, hhigh, step, hstep, h⟩ := h
  obtain rfl : ⟨low.inclusive, high.inclusive, low.exclusive, high.exclusive, step⟩ = read := by
    split at h
    · split at h
      · cases h
      · exact Except.pure_eq_ok.mp h
    · exact Except.pure_eq_ok.mp h
  have hbelow := bounds_iff (fun limit => limit.lt n) (fun limit => limit.le n) hlow
  have habove := bounds_iff (fun limit => n.lt limit) (fun limit => n.le limit) hhigh
  rw [← asksNumber_iff hminimum] at hbelow
  rw [← asksNumber_iff hmaximum] at habove
  simp only [numberAllows, Bool.and_eq_true, asksNumber_iff hstep]
  simp only [Number.lt_iff, Number.le_iff] at hbelow habove
  constructor
  · rintro ⟨⟨⟨⟨hmin, hmax⟩, hexmin⟩, hexmax⟩, hmultiple⟩
    obtain ⟨hleast, hstrict⟩ := hbelow.mp ⟨hmin, hexmin⟩
    obtain ⟨hmost, hstrict'⟩ := habove.mp ⟨hmax, hexmax⟩
    exact ⟨hleast, hmost, hstrict, hstrict', hmultiple⟩
  · rintro ⟨hleast, hmost, hstrict, hstrict', hmultiple⟩
    obtain ⟨hmin, hexmin⟩ := hbelow.mpr ⟨hleast, hstrict⟩
    obtain ⟨hmax, hexmax⟩ := habove.mpr ⟨hmost, hstrict'⟩
    exact ⟨⟨⟨⟨hmin, hmax⟩, hexmin⟩, hexmax⟩, hmultiple⟩

/-! ## Strings -/

theorem matchesSource_eq {source s : String} {pattern : Pattern}
    (h : Pattern.read source = .ok pattern) : matchesSource source s = pattern.isIn s := by
  rw [matchesSource, h]

theorem hasFormat_iff {name s : String} : hasFormat name s = true ↔
    ∀ format ∈ Format.ofName? name, format.accepts s = .ok true := by
  rw [hasFormat, Option.all_eq_true]
  refine forall₂_congr fun format _ => ?_
  cases format.accepts s <;> simp

theorem text_of_readPattern {location : String} {value : Json} {pattern : Pattern}
    (h : readPattern location keyword value = .ok pattern) :
    ∃ source, value = .str source ∧ Pattern.read source = .ok pattern := by
  unfold readPattern at h
  split at h
  case h_1 source =>
    split at h <;> cases h
    exact ⟨source, rfl, by assumption⟩
  case h_2 => cases h

theorem stringAllows_iff {assertFormats : Bool} {location s : String} {read : StringKeywords}
    (h : readStringKeywords location schema = .ok read) :
    stringAllows assertFormats schema s = true ↔ read.Holds assertFormats s := by
  simp only [readStringKeywords, Except.bind_eq_ok, Except.pure_eq_ok, Except.mapError_eq_ok] at h
  obtain ⟨least, hleast, most, hmost, pattern, hpattern, format, hformat, rfl⟩ := h
  have hmatches : asksText schema "pattern" (matchesSource · s) = true ↔
      ∀ regex ∈ pattern, regex.isIn s = true := by
    rw [asksText, asks_iff]
    refine forall_of_mapM hpattern fun value regex hread => ?_
    obtain ⟨source, rfl, hsource⟩ := text_of_readPattern hread
    rw [onText, matchesSource_eq hsource]
  have hformats : asksText schema "format" (hasFormat · s) = true ↔
      ∀ name ∈ format, ∀ format ∈ Format.ofName? name, format.accepts s = .ok true := by
    rw [asksText, asks_iff]
    refine forall_of_mapM hformat fun value name hread => ?_
    split at hread <;> cases hread
    exact hasFormat_iff
  simp only [stringAllows, Bool.and_eq_true, asksCount_iff hleast, asksCount_iff hmost, hmatches,
    Bool.or_eq_true, Bool.not_eq_true', hformats, decide_eq_true_eq]
  constructor
  · rintro ⟨⟨⟨hmin, hmax⟩, hmatch⟩, hasserted⟩
    refine ⟨hmin, hmax, hmatch, fun htrue => ?_⟩
    exact hasserted.resolve_left (by simp [htrue])
  · rintro ⟨hmin, hmax, hmatch, hasserted⟩
    refine ⟨⟨⟨hmin, hmax⟩, hmatch⟩, ?_⟩
    cases assertFormats
    · exact .inl rfl
    · exact .inr (hasserted rfl)

end JsonSchema.Interpreter
