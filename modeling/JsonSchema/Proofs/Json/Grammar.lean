import JsonSchema.Json.Read
import JsonSchema.Proofs.Outcome
import JsonSchema.Proofs.Pointer.Place
import Mathlib.Data.List.DropRight

/-!
# The grammar of JSON texts

What the reader accepts, as a relation between a text and what is left of it. Where an object
repeats a name, the grammar keeps all of its members, while the document has the last one only.
-/

namespace JsonSchema

namespace JsonReader

/-! ## Blanks -/

theorem takeWhile_append_skipSpace (cs : Chars) : cs.takeWhile isSpace ++ skipSpace cs = cs :=
  List.takeWhile_append_dropWhile

theorem skipSpace_skipSpace (cs : Chars) : skipSpace (skipSpace cs) = skipSpace cs :=
  List.dropWhile_idempotent isSpace cs

/-! ## Strings -/

/-- What stands between the quotes of a string, and the characters that it stands for. -/
inductive Body : Chars → Chars → Prop
  | nil : Body [] []
  | plain {c : Char} {body chars : Chars} (hquote : c ≠ '"') (hslash : c ≠ '\\')
      (hcontrol : 32 ≤ c.toNat) (h : Body body chars) : Body (c :: body) (c :: chars)
  | escape {c escaped : Char} {body chars : Chars} (hc : simpleEscape? c = some escaped)
      (h : Body body chars) : Body ('\\' :: c :: body) (escaped :: chars)
  | unit {a b c d : Char} {n : Nat} {body chars : Chars} (hunit : hexUnit? a b c d = some n)
      (h : Body body chars) : Body ('\\' :: 'u' :: a :: b :: c :: d :: body) (unitChar n :: chars)
  | pair {a b c d a' b' c' d' : Char} {high low : Nat} {body chars : Chars}
      (hhigh : hexUnit? a b c d = some high) (hisHigh : isHighUnit high = true)
      (hlow : hexUnit? a' b' c' d' = some low) (h : Body body chars) :
      Body ('\\' :: 'u' :: a :: b :: c :: d :: '\\' :: 'u' :: a' :: b' :: c' :: d' :: body)
        (joinUnits high low :: chars)

theorem lowUnit?_some {cs : Chars} {low : Nat} (h : lowUnit? cs = .ok (some low)) :
    ∃ a b c d rest, cs = '\\' :: 'u' :: a :: b :: c :: d :: rest ∧ hexUnit? a b c d = some low := by
  unfold lowUnit? at h
  split at h
  case h_1 a b c d last more =>
    split at h
    case h_1 => cases h
    case h_2 unit hunit =>
      split at h
      case isTrue =>
        obtain rfl := Option.some.inj (Except.ok.inj h)
        exact ⟨a, b, c, d, _, rfl, hunit⟩
      case isFalse => cases h
  case h_2 => cases h

theorem readEscape_ok {start cs : Chars} {ch : Char} {count : Nat}
    (h : readEscape start cs = .ok (ch, count)) :
    ∃ escape, cs = escape ++ cs.drop count ∧
      ∀ body chars, Body body chars → Body ('\\' :: escape ++ body) (ch :: chars) := by
  unfold readEscape at h
  split at h
  case h_1 => cases h
  case h_2 a b c d last more =>
    split at h
    case h_1 => cases h
    case h_2 unit hunit =>
      split at h
      case isTrue hhigh =>
        obtain ⟨low?, hlow, h⟩ := Except.bind_eq_ok.mp h
        split at h
        case h_1 low =>
          obtain ⟨rfl, rfl⟩ := Prod.mk.inj (Except.pure_eq_ok.mp h)
          obtain ⟨a', b', c', d', rest, hmore, hunit'⟩ := lowUnit?_some hlow
          obtain ⟨rfl, rfl⟩ := List.cons.inj hmore
          exact ⟨['u', a, b, c, d, '\\', 'u', a', b', c', d'], rfl,
            fun body chars hbody => .pair hunit hhigh hunit' hbody⟩
        case h_2 =>
          obtain ⟨rfl, rfl⟩ := Prod.mk.inj (Except.pure_eq_ok.mp h)
          exact ⟨['u', a, b, c, d], rfl, fun body chars hbody => .unit hunit hbody⟩
      case isFalse =>
        obtain ⟨rfl, rfl⟩ := Prod.mk.inj (Except.pure_eq_ok.mp h)
        exact ⟨['u', a, b, c, d], rfl, fun body chars hbody => .unit hunit hbody⟩
  case h_3 => cases h
  case h_4 c rest _ _ =>
    split at h
    case h_1 escaped hescape =>
      obtain ⟨rfl, rfl⟩ := Prod.mk.inj (Except.ok.inj h)
      exact ⟨[c], rfl, fun body chars hbody => .escape hescape hbody⟩
    case h_2 => cases h

theorem readString_ok {start done cs rest : Chars} {s : String}
    (h : readString start done cs = .ok (s, rest)) :
    ∃ body chars, Body body chars ∧ cs = body ++ '"' :: rest ∧
      s = String.ofList (done.reverse ++ chars) := by
  fun_induction readString start done cs with
  | case1 => cases h
  | case2 done rest' =>
    obtain ⟨rfl, rfl⟩ := Prod.mk.inj (Except.ok.inj h)
    exact ⟨[], [], .nil, rfl, by simp⟩
  | case3 done rest' c count hescape ih =>
    obtain ⟨body, chars, hbody, hcs, rfl⟩ := ih h
    obtain ⟨escape, hrest, hwrap⟩ := readEscape_ok hescape
    refine ⟨_, _, hwrap body chars hbody, ?_, by simp⟩
    rw [hcs] at hrest
    rw [hrest]
    simp
  | case4 => cases h
  | case5 => cases h
  | case6 done c rest' hquote hslash hcontrol ih =>
    obtain ⟨body, chars, hbody, hcs, rfl⟩ := ih h
    exact ⟨c :: body, c :: chars, .plain hquote hslash (by omega) hbody, by rw [hcs]; rfl, by simp⟩

/-! ## Numbers and words -/

def isBareCharacter (c : Char) : Bool := c.isAlphanum || c == '+' || c == '-' || c == '.'

/-- A number or a fixed word: a letter or a digit comes first, or a minus and then a digit. -/
structure IsWord (word : Chars) : Prop where
  chars : ∀ c ∈ word, isBareCharacter c = true
  start : ∃ c more, c.isAlphanum = true ∧ (word = c :: more ∨ word = '-' :: c :: more)

theorem isAlphanum_of_digit {c : Char} (h : isAsciiDigit c = true) : c.isAlphanum = true := by
  have hdigit : c.isDigit = true := by
    simpa [isAsciiDigit, Char.isDigit, Char.le_def] using h
  rw [Char.isAlphanum, hdigit, Bool.or_true]

theorem isBareCharacter_of_digit {c : Char} (h : isAsciiDigit c = true) :
    isBareCharacter c = true := by
  simp [isBareCharacter, isAlphanum_of_digit h]

theorem forall_digits (cs : Chars) : ∀ c ∈ cs.takeWhile isAsciiDigit, isBareCharacter c = true :=
  fun _ hc => isBareCharacter_of_digit (List.mem_takeWhile_imp hc)

def Takes (cs rest : Chars) : Prop :=
  ∃ word, cs = word ++ rest ∧ ∀ c ∈ word, isBareCharacter c = true

theorem takes_digits (cs : Chars) : Takes cs (cs.dropWhile isAsciiDigit) :=
  ⟨cs.takeWhile isAsciiDigit, List.takeWhile_append_dropWhile.symm, forall_digits cs⟩

theorem Takes.cons {cs rest : Chars} (h : Takes cs rest) {c : Char}
    (hc : isBareCharacter c = true) : Takes (c :: cs) rest := by
  obtain ⟨word, rfl, hword⟩ := h
  exact ⟨c :: word, rfl, List.forall_mem_cons.mpr ⟨hc, hword⟩⟩

theorem Takes.trans {cs more rest : Chars} (h : Takes cs more) (h' : Takes more rest) :
    Takes cs rest := by
  obtain ⟨word, rfl, hword⟩ := h
  obtain ⟨word', rfl, hword'⟩ := h'
  exact ⟨word ++ word', by simp, List.forall_mem_append.mpr ⟨hword, hword'⟩⟩

theorem Takes.refl (cs : Chars) : Takes cs cs := ⟨[], rfl, nofun⟩

theorem takes_fraction (cs : Chars) : Takes cs (fractionOf cs).2 := by
  unfold fractionOf
  split
  case h_1 c rest =>
    split
    case isTrue => exact (takes_digits (c :: rest)).cons rfl
    case isFalse => exact .refl _
  case h_2 => exact .refl _

theorem takes_exponent (cs : Chars) : Takes cs (exponentOf cs).2 := by
  unfold exponentOf
  split
  case h_1 c rest =>
    split
    case isTrue hletter =>
      have hc : isBareCharacter c = true := by
        rcases Bool.or_eq_true _ _ ▸ hletter with h | h <;> rw [beq_iff_eq.mp h] <;> rfl
      have hsign : ∀ more : Chars, Takes (c :: more) (more.dropWhile isAsciiDigit) :=
        fun more => (takes_digits more).cons hc
      dsimp only
      split
      case h_1 s more =>
        split
        case isTrue hs =>
          have hs' : isBareCharacter s = true := by
            rcases Bool.or_eq_true _ _ ▸ hs with h | h <;> rw [beq_iff_eq.mp h] <;> rfl
          split
          · exact .refl _
          · exact ((takes_digits more).cons hs').cons hc
        case isFalse =>
          split
          · exact .refl _
          · exact hsign _
      case h_2 => exact .refl _
    case isFalse => exact .refl _
  case h_2 => exact .refl _

theorem wholeOf_eq {cs whole rest : Chars} (h : wholeOf cs = (whole, rest))
    (hwhole : whole.isEmpty = false) :
    ∃ c more, isAsciiDigit c = true ∧ cs = c :: more ∧ Takes more rest := by
  unfold wholeOf at h
  split at h
  case h_1 more =>
    obtain ⟨rfl, rfl⟩ := Prod.mk.inj h
    exact ⟨'0', more, rfl, rfl, .refl _⟩
  case h_2 =>
    obtain ⟨rfl, rfl⟩ := Prod.mk.inj h
    cases cs with
    | nil => simp at hwhole
    | cons c more =>
      by_cases hc : isAsciiDigit c = true
      · refine ⟨c, more, hc, rfl, ?_⟩
        rw [List.dropWhile_cons_of_pos hc]
        exact takes_digits more
      · simp [List.takeWhile_cons_of_neg hc] at hwhole

theorem readNumber_ok {start cs rest : Chars} {negative : Bool} {json : Json}
    (h : readNumber start negative cs = .ok (json, rest)) :
    json.IsFlat ∧ ∃ c more, isAsciiDigit c = true ∧ cs = c :: more ∧ Takes more rest := by
  unfold readNumber at h
  obtain ⟨⟨whole, afterWhole⟩, hwhole⟩ : ∃ parts, wholeOf cs = parts := ⟨_, rfl⟩
  simp only [hwhole] at h
  split at h
  case isTrue => cases h
  case isFalse hne =>
    obtain ⟨c, more, hc, rfl, hmore⟩ := wholeOf_eq hwhole (by simpa using hne)
    have hrest : Takes more (exponentOf (fractionOf afterWhole).2).2 :=
      hmore.trans ((takes_fraction _).trans (takes_exponent _))
    split at h
    case isTrue =>
      split at h
      case isTrue => cases h
      case isFalse =>
        obtain ⟨rfl, rfl⟩ := Prod.mk.inj (Except.ok.inj h)
        exact ⟨trivial, c, more, hc, rfl, hrest⟩
    case isFalse =>
      split at h
      case h_1 =>
        obtain ⟨rfl, rfl⟩ := Prod.mk.inj (Except.ok.inj h)
        exact ⟨trivial, c, more, hc, rfl, hrest⟩
      case h_2 => cases h

theorem after?_eq_some {word : String} {cs rest : Chars} (h : after? word cs = some rest) :
    cs = word.toList ++ rest := by
  unfold after? at h
  split at h
  case isTrue hprefix =>
    obtain ⟨more, rfl⟩ := List.isPrefixOf_iff_prefix.mp hprefix
    obtain rfl := Option.some.inj h
    simp [← String.length_toList]
  case isFalse => cases h

theorem isWord_number {c : Char} {word : Chars} (hc : isAsciiDigit c = true)
    (hword : ∀ other ∈ word, isBareCharacter other = true) :
    IsWord (c :: word) ∧ IsWord ('-' :: c :: word) := by
  have hall : ∀ other ∈ c :: word, isBareCharacter other = true :=
    List.forall_mem_cons.mpr ⟨isBareCharacter_of_digit hc, hword⟩
  exact ⟨⟨hall, c, word, isAlphanum_of_digit hc, .inl rfl⟩,
    List.forall_mem_cons.mpr ⟨rfl, hall⟩, c, word, isAlphanum_of_digit hc, .inr rfl⟩

theorem readScalar_ok {cs rest : Chars} {json : Json} (h : readScalar cs = .ok (json, rest)) :
    json.IsFlat ∧ ∃ word, IsWord word ∧ cs = word ++ rest := by
  have hnull : IsWord "null".toList :=
    ⟨List.all_eq_true.mp rfl, 'n', "ull".toList, rfl, .inl rfl⟩
  have htrue : IsWord "true".toList :=
    ⟨List.all_eq_true.mp rfl, 't', "rue".toList, rfl, .inl rfl⟩
  have hfalse : IsWord "false".toList :=
    ⟨List.all_eq_true.mp rfl, 'f', "alse".toList, rfl, .inl rfl⟩
  unfold readScalar at h
  split at h
  case h_1 =>
    split at h
    case h_1 hafter =>
      obtain ⟨rfl, rfl⟩ := Prod.mk.inj (Except.ok.inj h)
      exact ⟨trivial, _, hnull, after?_eq_some hafter⟩
    case h_2 => cases h
  case h_2 =>
    split at h
    case h_1 hafter =>
      obtain ⟨rfl, rfl⟩ := Prod.mk.inj (Except.ok.inj h)
      exact ⟨trivial, _, htrue, after?_eq_some hafter⟩
    case h_2 => cases h
  case h_3 =>
    split at h
    case h_1 hafter =>
      obtain ⟨rfl, rfl⟩ := Prod.mk.inj (Except.ok.inj h)
      exact ⟨trivial, _, hfalse, after?_eq_some hafter⟩
    case h_2 => cases h
  case h_4 => split at h <;> cases h
  case h_5 => split at h <;> cases h
  case h_6 more =>
    split at h
    case isTrue => cases h
    case isFalse =>
      obtain ⟨hflat, c, digits, hc, rfl, word, rfl, hword⟩ := readNumber_ok h
      exact ⟨hflat, _, (isWord_number hc hword).2, rfl⟩
  case h_7 =>
    obtain ⟨hflat, c, digits, hc, rfl, word, rfl, hword⟩ := readNumber_ok h
    exact ⟨hflat, _, (isWord_number hc hword).1, rfl⟩

/-! ## Values -/

/-- What a piece of text is written for: a value, or the inside of a container up to its end. -/
inductive Part where
  | value (json : Json)
  | items (items : List Json)
  | members (members : Members Json)

/--
The text is written for a part, up to what is left of it. Containers nest `depth` levels at most,
and an object has all of its members in their order.
-/
inductive Written : (depth : Nat) → Part → (text rest : Chars) → Prop
  | word {depth : Nat} {json : Json} {word rest : Chars} (hflat : json.IsFlat)
      (hword : IsWord word) : Written depth (.value json) (word ++ rest) rest
  | string {depth : Nat} {body chars rest : Chars} (hbody : Body body chars) :
      Written depth (.value (.str (String.ofList chars))) ('"' :: (body ++ '"' :: rest)) rest
  | emptyArray {depth : Nat} {text rest : Chars} (hend : skipSpace text = ']' :: rest) :
      Written (depth + 1) (.value (.arr [])) ('[' :: text) rest
  | array {depth : Nat} {items : List Json} {text rest : Chars}
      (h : Written depth (.items items) (skipSpace text) rest) :
      Written (depth + 1) (.value (.arr items)) ('[' :: text) rest
  | emptyObject {depth : Nat} {text rest : Chars} (hend : skipSpace text = '\x7d' :: rest) :
      Written (depth + 1) (.value (.obj [])) ('\x7b' :: text) rest
  | object {depth : Nat} {members : Members Json} {text rest : Chars}
      (h : Written depth (.members members) (skipSpace text) rest) :
      Written (depth + 1) (.value (.obj members)) ('\x7b' :: text) rest
  | lastItem {depth : Nat} {item : Json} {text behind rest : Chars}
      (hitem : Written depth (.value item) text behind) (hend : skipSpace behind = ']' :: rest) :
      Written depth (.items [item]) text rest
  | nextItem {depth : Nat} {item : Json} {items : List Json} {text behind more rest : Chars}
      (hitem : Written depth (.value item) text behind) (hcomma : skipSpace behind = ',' :: more)
      (h : Written depth (.items items) (skipSpace more) rest) :
      Written depth (.items (item :: items)) text rest
  | lastMember {depth : Nat} {value : Json} {body chars colon more behind rest : Chars}
      (hname : Body body chars) (hcolon : skipSpace colon = ':' :: more)
      (hvalue : Written depth (.value value) (skipSpace more) behind)
      (hend : skipSpace behind = '\x7d' :: rest) :
      Written depth (.members [(String.ofList chars, value)]) ('"' :: (body ++ '"' :: colon)) rest
  | nextMember {depth : Nat} {value : Json} {members : Members Json}
      {body chars colon more behind next rest : Chars}
      (hname : Body body chars) (hcolon : skipSpace colon = ':' :: more)
      (hvalue : Written depth (.value value) (skipSpace more) behind)
      (hcomma : skipSpace behind = ',' :: next)
      (h : Written depth (.members members) (skipSpace next) rest) :
      Written depth (.members ((String.ofList chars, value) :: members))
        ('"' :: (body ++ '"' :: colon)) rest

end JsonReader

/-! ## Repeated names -/

/-- Whatever a document has at a place, the text has a value there too. -/
def Json.CoveredBy (document raw : Json) : Prop :=
  ∀ tokens value, document.Leads tokens value → ∃ found, raw.Leads tokens found

namespace Json.CoveredBy

theorem refl (json : Json) : json.CoveredBy json := fun _ value h => ⟨value, h⟩

theorem leads_arr {items : List Json} {tokens : List String} {value : Json}
    (h : (Json.arr items).Leads tokens value) : (tokens = [] ∧ value = .arr items) ∨
      ∃ (index : Nat) (item : Json) (more : List String), items[index]? = some item ∧
        tokens = natText index :: more ∧ item.Leads more value := by
  induction h with
  | root => exact .inl ⟨rfl, rfl⟩
  | member _ hvalue ih =>
    rcases ih with ⟨-, hroot⟩ | ⟨index, item, more, hitem, rfl, hleads⟩
    · cases hroot
    · exact .inr ⟨index, item, _, hitem, rfl, hleads.member hvalue⟩
  | item _ hvalue ih =>
    rcases ih with ⟨rfl, hroot⟩ | ⟨index, item, more, hitem, rfl, hleads⟩
    · cases hroot
      exact .inr ⟨_, _, [], hvalue, rfl, .root⟩
    · exact .inr ⟨index, item, _, hitem, rfl, hleads.item hvalue⟩

theorem leads_obj {members : Members Json} {tokens : List String} {value : Json}
    (h : (Json.obj members).Leads tokens value) : (tokens = [] ∧ value = .obj members) ∨
      ∃ member ∈ members, ∃ more, tokens = member.1 :: more ∧ member.2.Leads more value := by
  induction h with
  | root => exact .inl ⟨rfl, rfl⟩
  | member _ hvalue ih =>
    rcases ih with ⟨rfl, hroot⟩ | ⟨member, hmember, more, rfl, hleads⟩
    · cases hroot
      exact .inr ⟨_, hvalue, [], rfl, .root⟩
    · exact .inr ⟨member, hmember, _, rfl, hleads.member hvalue⟩
  | item _ hvalue ih =>
    rcases ih with ⟨-, hroot⟩ | ⟨member, hmember, more, rfl, hleads⟩
    · cases hroot
    · exact .inr ⟨member, hmember, _, rfl, hleads.item hvalue⟩

theorem arr {items raws : List Json} (h : List.Forall₂ Json.CoveredBy items raws) :
    (Json.arr items).CoveredBy (.arr raws) := by
  intro tokens value hleads
  rcases leads_arr hleads with ⟨rfl, -⟩ | ⟨index, item, more, hitem, rfl, hmore⟩
  · exact ⟨_, .root⟩
  · obtain ⟨raw, hraw⟩ := exists_getElem?_of_length h.length_eq hitem
    obtain ⟨found, hfound⟩ := rel_of_getElem? h hitem hraw more value hmore
    exact ⟨found, (Json.Leads.root.item hraw).append hfound⟩

theorem obj {members raws : Members Json}
    (h : ∀ member ∈ members, ∃ raw ∈ raws, raw.1 = member.1 ∧ member.2.CoveredBy raw.2) :
    (Json.obj members).CoveredBy (.obj raws) := by
  intro tokens value hleads
  rcases leads_obj hleads with ⟨rfl, -⟩ | ⟨member, hmember, more, rfl, hmore⟩
  · exact ⟨_, .root⟩
  · obtain ⟨raw, hraw, hname, hcovered⟩ := h member hmember
    obtain ⟨found, hfound⟩ := hcovered more value hmore
    exact ⟨found, (Json.Leads.root.member (hname ▸ hraw)).append hfound⟩

end Json.CoveredBy

/-! ## Reading -/

namespace JsonReader

/-- What the reader gives with so much fuel is written in the text. -/
structure Sound (fuel : Nat) : Prop where
  value : ∀ {depth : Nat} {cs rest : Chars} {json : Json},
    readValue fuel depth cs = .ok (json, rest) →
      ∃ raw, Written depth (.value raw) cs rest ∧ json.CoveredBy raw
  items : ∀ {depth : Nat} {cs rest : Chars} {items : List Json},
    readItems fuel depth cs = .ok (items, rest) →
      ∃ raws, Written depth (.items raws) cs rest ∧ List.Forall₂ Json.CoveredBy items raws
  members : ∀ {depth : Nat} {done members : Members Json} {cs rest : Chars},
    readMembers fuel depth done cs = .ok (members, rest) →
      ∃ raws, Written depth (.members raws) cs rest ∧ ∀ member ∈ members,
        member ∈ done ∨ ∃ raw ∈ raws, raw.1 = member.1 ∧ member.2.CoveredBy raw.2

variable {fuel depth : Nat} {cs rest : Chars}

theorem readValue_sound (ih : Sound fuel) {json : Json}
    (h : readValue (fuel + 1) depth cs = .ok (json, rest)) :
    ∃ raw, Written depth (.value raw) cs rest ∧ json.CoveredBy raw := by
  unfold readValue at h
  split at h
  case h_1 => cases h
  case h_2 more =>
    obtain ⟨⟨s, behind⟩, hs, h⟩ := Except.bind_eq_ok.mp h
    obtain ⟨rfl, rfl⟩ := Prod.mk.inj (Except.pure_eq_ok.mp h)
    obtain ⟨body, chars, hbody, rfl, rfl⟩ := readString_ok hs
    exact ⟨_, .string hbody, .refl _⟩
  case h_3 more =>
    split at h
    case isTrue => cases h
    case isFalse hdepth =>
      obtain ⟨depth, rfl⟩ := Nat.exists_eq_succ_of_ne_zero hdepth
      split at h
      case h_1 hend =>
        obtain ⟨rfl, rfl⟩ := Prod.mk.inj (Except.ok.inj h)
        exact ⟨_, .emptyArray hend, .refl _⟩
      case h_2 =>
        obtain ⟨⟨items, behind⟩, hitems, h⟩ := Except.bind_eq_ok.mp h
        obtain ⟨rfl, rfl⟩ := Prod.mk.inj (Except.pure_eq_ok.mp h)
        obtain ⟨raws, hwritten, hcovered⟩ := ih.items hitems
        exact ⟨_, .array hwritten, .arr hcovered⟩
  case h_4 more =>
    split at h
    case isTrue => cases h
    case isFalse hdepth =>
      obtain ⟨depth, rfl⟩ := Nat.exists_eq_succ_of_ne_zero hdepth
      split at h
      case h_1 hend =>
        obtain ⟨rfl, rfl⟩ := Prod.mk.inj (Except.ok.inj h)
        exact ⟨_, .emptyObject hend, .refl _⟩
      case h_2 =>
        obtain ⟨⟨members, behind⟩, hmembers, h⟩ := Except.bind_eq_ok.mp h
        obtain ⟨rfl, rfl⟩ := Prod.mk.inj (Except.pure_eq_ok.mp h)
        obtain ⟨raws, hwritten, hcovered⟩ := ih.members hmembers
        refine ⟨_, .object hwritten, .obj fun member hmember => ?_⟩
        exact (hcovered member hmember).resolve_left List.not_mem_nil
  case h_5 =>
    obtain ⟨hflat, word, hword, rfl⟩ := readScalar_ok h
    exact ⟨json, .word hflat hword, .refl _⟩

theorem readItems_sound (ih : Sound fuel) {items : List Json}
    (h : readItems (fuel + 1) depth cs = .ok (items, rest)) :
    ∃ raws, Written depth (.items raws) cs rest ∧ List.Forall₂ Json.CoveredBy items raws := by
  unfold readItems at h
  obtain ⟨⟨item, behind⟩, hitem, h⟩ := Except.bind_eq_ok.mp h
  obtain ⟨raw, hwritten, hcovered⟩ := ih.value hitem
  dsimp only at h
  split at h
  case h_1 hend =>
    obtain ⟨rfl, rfl⟩ := Prod.mk.inj (Except.pure_eq_ok.mp h)
    exact ⟨_, .lastItem hwritten hend, .cons hcovered .nil⟩
  case h_2 hcomma =>
    obtain ⟨⟨others, behind⟩, hothers, h⟩ := Except.bind_eq_ok.mp h
    obtain ⟨rfl, rfl⟩ := Prod.mk.inj (Except.pure_eq_ok.mp h)
    obtain ⟨raws, hwritten', hcovered'⟩ := ih.items hothers
    exact ⟨_, .nextItem hwritten hcomma hwritten', .cons hcovered hcovered'⟩
  case h_3 => cases h

theorem readMembers_sound (ih : Sound fuel) {done members : Members Json}
    (h : readMembers (fuel + 1) depth done cs = .ok (members, rest)) :
    ∃ raws, Written depth (.members raws) cs rest ∧ ∀ member ∈ members,
      member ∈ done ∨ ∃ raw ∈ raws, raw.1 = member.1 ∧ member.2.CoveredBy raw.2 := by
  unfold readMembers at h
  split at h
  case h_1 more =>
    obtain ⟨⟨name, colon⟩, hname, h⟩ := Except.bind_eq_ok.mp h
    obtain ⟨body, chars, hbody, rfl, rfl⟩ := readString_ok hname
    dsimp only at h
    split at h
    case h_1 hcolon =>
      obtain ⟨⟨value, behind⟩, hvalue, h⟩ := Except.bind_eq_ok.mp h
      obtain ⟨raw, hwritten, hcovered⟩ := ih.value hvalue
      dsimp only at h
      split at h
      case h_1 hend =>
        obtain ⟨rfl, rfl⟩ := Prod.mk.inj (Except.pure_eq_ok.mp h)
        refine ⟨_, .lastMember hbody hcolon hwritten hend, fun member hmember => ?_⟩
        rcases Members.mem_put hmember with hold | rfl
        · exact .inl hold
        · exact .inr ⟨_, List.mem_singleton_self _, rfl, hcovered⟩
      case h_2 hcomma =>
        obtain ⟨raws, hwritten', hcovered'⟩ := ih.members h
        refine ⟨_, .nextMember hbody hcolon hwritten hcomma hwritten', fun member hmember => ?_⟩
        rcases hcovered' member hmember with hold | ⟨raw', hraw, hfound⟩
        · rcases Members.mem_put hold with hold | rfl
          · exact .inl hold
          · exact .inr ⟨_, List.mem_cons_self, rfl, hcovered⟩
        · exact .inr ⟨raw', List.mem_cons_of_mem _ hraw, hfound⟩
      case h_3 => cases h
    case h_2 => cases h
  case h_2 => cases h

theorem sound (fuel : Nat) : Sound fuel := by
  induction fuel with
  | zero =>
    constructor
    · intro depth cs rest json h
      rw [readValue] at h
      cases h
    · intro depth cs rest items h
      rw [readItems] at h
      cases h
    · intro depth done members cs rest h
      rw [readMembers] at h
      cases h
  | succ fuel ih => exact ⟨readValue_sound ih, readItems_sound ih, readMembers_sound ih⟩

theorem readText_ok {document : Json} (h : readText depth cs = .ok document) :
    cs.head? ≠ some '\uFEFF' ∧ ∃ raw rest, Written depth (.value raw) (skipSpace cs) rest ∧
      skipSpace rest = [] ∧ document.CoveredBy raw := by
  unfold readText at h
  split at h
  case isTrue => cases h
  case isFalse hmark =>
    refine ⟨hmark, ?_⟩
    obtain ⟨⟨value, rest⟩, hvalue, h⟩ := Except.bind_eq_ok.mp h
    dsimp only at h
    split at h
    case h_1 hend =>
      obtain rfl := Except.pure_eq_ok.mp h
      obtain ⟨raw, hwritten, hcovered⟩ := (sound _).value hvalue
      exact ⟨raw, rest, hwritten, hend, hcovered⟩
    case h_2 => cases h

/-! ## Nesting -/

/-- A reader that may nest deeper gives what it gave before. -/
structure Deepens (fuel : Nat) : Prop where
  value : ∀ {depth depth' : Nat} {cs : Chars} {out : Json × Chars}, depth ≤ depth' →
    readValue fuel depth cs = .ok out → readValue fuel depth' cs = .ok out
  items : ∀ {depth depth' : Nat} {cs : Chars} {out : List Json × Chars}, depth ≤ depth' →
    readItems fuel depth cs = .ok out → readItems fuel depth' cs = .ok out
  members : ∀ {depth depth' : Nat} {done : Members Json} {cs : Chars}
    {out : Members Json × Chars}, depth ≤ depth' →
    readMembers fuel depth done cs = .ok out → readMembers fuel depth' done cs = .ok out

variable {depth' : Nat}

theorem readValue_deepens (ih : Deepens fuel) {out : Json × Chars} (hdepth : depth ≤ depth')
    (h : readValue (fuel + 1) depth cs = .ok out) : readValue (fuel + 1) depth' cs = .ok out := by
  have hinner : depth - 1 ≤ depth' - 1 := Nat.sub_le_sub_right hdepth 1
  unfold readValue at h ⊢
  split at h
  case h_1 => exact h
  case h_2 => exact h
  case h_3 more =>
    split at h
    case isTrue => cases h
    case isFalse hzero =>
      rw [if_neg (by omega)]
      split at h
      case h_1 => exact h
      case h_2 =>
        obtain ⟨items, hitems, h⟩ := Except.bind_eq_ok.mp h
        rw [ih.items hinner hitems]
        exact h
  case h_4 more =>
    split at h
    case isTrue => cases h
    case isFalse hzero =>
      rw [if_neg (by omega)]
      split at h
      case h_1 => exact h
      case h_2 =>
        obtain ⟨members, hmembers, h⟩ := Except.bind_eq_ok.mp h
        rw [ih.members hinner hmembers]
        exact h
  case h_5 => exact h

theorem readItems_deepens (ih : Deepens fuel) {out : List Json × Chars} (hdepth : depth ≤ depth')
    (h : readItems (fuel + 1) depth cs = .ok out) : readItems (fuel + 1) depth' cs = .ok out := by
  unfold readItems at h ⊢
  obtain ⟨item, hitem, h⟩ := Except.bind_eq_ok.mp h
  rw [ih.value hdepth hitem, Except.ok_bind]
  dsimp only at h ⊢
  split at h
  case h_1 => exact h
  case h_2 =>
    obtain ⟨items, hitems, h⟩ := Except.bind_eq_ok.mp h
    rw [ih.items hdepth hitems]
    exact h
  case h_3 => cases h

theorem readMembers_deepens (ih : Deepens fuel) {done : Members Json} {out : Members Json × Chars}
    (hdepth : depth ≤ depth') (h : readMembers (fuel + 1) depth done cs = .ok out) :
    readMembers (fuel + 1) depth' done cs = .ok out := by
  unfold readMembers at h ⊢
  split at h
  case h_1 more =>
    obtain ⟨name, hname, h⟩ := Except.bind_eq_ok.mp h
    rw [hname, Except.ok_bind]
    dsimp only at h ⊢
    split at h
    case h_1 =>
      obtain ⟨value, hvalue, h⟩ := Except.bind_eq_ok.mp h
      rw [ih.value hdepth hvalue, Except.ok_bind]
      split at h
      case h_1 => exact h
      case h_2 => exact ih.members hdepth h
      case h_3 => cases h
    case h_2 => cases h
  case h_2 => cases h

theorem deepens (fuel : Nat) : Deepens fuel := by
  induction fuel with
  | zero =>
    constructor
    · intro depth depth' cs out _ h
      rw [readValue] at h
      cases h
    · intro depth depth' cs out _ h
      rw [readItems] at h
      cases h
    · intro depth depth' done cs out _ h
      rw [readMembers] at h
      cases h
  | succ fuel ih => exact ⟨readValue_deepens ih, readItems_deepens ih, readMembers_deepens ih⟩

/-- A deeper limit takes every text that a lower one takes, for the same document. -/
theorem readText_deepens {document : Json} (hdepth : depth ≤ depth')
    (h : readText depth cs = .ok document) : readText depth' cs = .ok document := by
  unfold readText at h ⊢
  split at h
  case isTrue => cases h
  case isFalse hmark =>
    rw [if_neg hmark]
    obtain ⟨value, hvalue, h⟩ := Except.bind_eq_ok.mp h
    rw [(deepens _).value hdepth hvalue]
    exact h

end JsonReader

end JsonSchema
