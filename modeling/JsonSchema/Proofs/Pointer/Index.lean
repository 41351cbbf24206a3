import JsonSchema.Proofs.Pointer.Path

/-!
# Where tokens lead

A token that meets an array has to be the numeral of an index, in the digits `0` to `9` and without
leading zeros. Numerals in other digits, and those that are too long, are not refused as they should
be. Everywhere else the tokens lead along the path that they spell, and along no other one.
-/

namespace JsonSchema

namespace Pointer

variable {token : String} {n : Nat}

/-! ## Tokens as indices -/

structure Digital (token : String) : Prop where
  nonempty : token.toList ≠ []
  digits : ∀ c ∈ token.toList, isDigitCharacter c = true
  noZero : token.toList.head? = some '0' → token.toList.length ≤ 1

/-- A token that is taken for a numeral and has other digits than `0` to `9`, or too many of them. -/
structure Foreign (token : String) : Prop extends Digital token where
  foreign : (∃ c ∈ token.toList, c.isDigit = false) ∨ maxIntegerDigits < token.toList.length

/-- The numeral of an index is read as this index, and every other token is said not to be one. -/
def IsRead (token : String) : Prop :=
  (∃ n, token = natText n ∧ index token = .ok n) ∨
    (∀ n, token ≠ natText n) ∧ index token = .error (.invalidIndex token)

theorem digital_iff (token : String) : Digital token ↔
    (token.toList.isEmpty || !token.toList.all isDigitCharacter ||
      (token.toList.head? == some '0' && decide (1 < token.toList.length))) = false := by
  simp only [Bool.or_eq_false_iff, Bool.and_eq_false_imp, beq_iff_eq, decide_eq_false_iff_not,
    not_lt, List.isEmpty_eq_false_iff, Bool.not_eq_false', List.all_eq_true]
  exact ⟨fun ⟨hnonempty, hdigits, hzero⟩ => ⟨⟨hnonempty, hdigits⟩, hzero⟩,
    fun ⟨⟨hnonempty, hdigits⟩, hzero⟩ => ⟨hnonempty, hdigits, hzero⟩⟩

theorem index_of_not_digital (h : ¬ Digital token) : index token = .error (.invalidIndex token) :=
  if_pos (by rwa [digital_iff, Bool.not_eq_false] at h)

theorem index_of_digital (h : Digital token) : index token =
    match decimalNumeral? token.toList with
    | none => .error (.notANumeral token)
    | some n =>
      if maxIntegerDigits < token.toList.length then .error (.tooManyDigits token.toList.length)
      else .ok n :=
  if_neg (by rw [(digital_iff token).mp h]; exact Bool.false_ne_true)

theorem toList_natText (n : Nat) : (natText n).toList = Nat.toDigits 10 n := by
  rw [natText, String.toList_ofList]

theorem digital_natText (n : Nat) : Digital (natText n) where
  nonempty := toList_natText n ▸ Nat.toDigits_ne_nil
  digits := toList_natText n ▸ fun _ => isDigitCharacter_of_mem_toDigits
  noZero hhead := by
    rw [toList_natText] at hhead ⊢
    rw [eq_zero_of_head?_toDigits hhead]
    exact le_rfl

theorem isDigit_of_mem_natText {c : Char} (h : c ∈ (natText n).toList) : c.isDigit = true := by
  rw [toList_natText] at h
  obtain ⟨d, hd, rfl⟩ := exists_digit_of_mem_toDigits h
  clear h
  revert d
  decide

/-! ### Digits -/

theorem exists_digit_of_isDigit {c : Char} (h : c.isDigit = true) :
    ∃ d < 10, c = Nat.digitChar d := by
  have hdigits : ∀ code < 58, 48 ≤ code → ∃ d < 10, Char.ofNat code = Nat.digitChar d := by decide
  have hrange : 48 ≤ c.toNat ∧ c.toNat < 58 := by
    simp only [Char.isDigit, Bool.and_eq_true, decide_eq_true_eq, ge_iff_le, UInt32.le_iff_toNat_le] at h
    exact ⟨h.1, Nat.lt_succ_of_le h.2⟩
  simpa only [Char.ofNat_toNat] using hdigits c.toNat hrange.2 hrange.1

theorem exists_toDigits {digits : List Char} (hne : digits ≠ [])
    (hdigits : ∀ c ∈ digits, c.isDigit = true)
    (hzero : digits.head? = some '0' → digits.length ≤ 1) :
    ∃ n, decimalNumeral? digits = some n ∧ Nat.toDigits 10 n = digits := by
  induction digits using List.reverseRecOn with
  | nil => exact (hne rfl).elim
  | append_singleton front digit ih =>
    obtain ⟨d, hd, rfl⟩ := exists_digit_of_isDigit (hdigits digit (by simp))
    rcases List.eq_nil_or_concat front with rfl | ⟨_, _, hfront⟩
    · refine ⟨d, ?_, Nat.toDigits_of_lt_base hd⟩
      rw [decimalNumeral?_concat, decimalValue?_digitChar hd]
      simp [decimalNumeral?]
    · have hfrontNe : front ≠ [] := by simp [hfront]
      have hhead : front.head? ≠ some '0' := by
        intro hhead
        have := hzero (by rwa [List.head?_append_of_ne_nil _ hfrontNe])
        simp [hfront] at this
      obtain ⟨n, hn, htoDigits⟩ := ih hfrontNe (fun c hc => hdigits c (List.mem_append_left _ hc))
        fun h => (hhead h).elim
      have hpos : n ≠ 0 := by
        rintro rfl
        exact hhead (htoDigits ▸ rfl)
      refine ⟨10 * n + d, ?_, ?_⟩
      · rw [decimalNumeral?_concat, hn, decimalValue?_digitChar hd]
        rfl
      · rw [Nat.toDigits_eq_if (by omega), if_neg (by omega),
          show (10 * n + d) / 10 = n by omega, show (10 * n + d) % 10 = d by omega, htoDigits]

/-! ### Tokens that are read -/

theorem isRead_of_not_foreign (h : ¬ Foreign token) : IsRead token := by
  by_cases hdigital : Digital token
  · have hplain : (∀ c ∈ token.toList, c.isDigit = true) ∧
        token.toList.length ≤ maxIntegerDigits := by
      by_contra hnot
      refine h ⟨hdigital, ?_⟩
      by_contra hneither
      simp only [not_or, not_exists, not_and, Bool.not_eq_false, not_lt] at hneither
      exact hnot hneither
    obtain ⟨n, hn, htoDigits⟩ := exists_toDigits hdigital.nonempty hplain.1 hdigital.noZero
    refine .inl ⟨n, by rw [natText, htoDigits, String.ofList_toList], ?_⟩
    rw [index_of_digital hdigital, hn]
    exact if_neg (Nat.not_lt.mpr hplain.2)
  · refine .inr ⟨?_, index_of_not_digital hdigital⟩
    rintro n rfl
    exact hdigital (digital_natText n)

theorem Foreign.index (h : Foreign token) :
    ((∃ i, index token = .ok i) ∧ ∀ n, token ≠ natText n) ∨
      ∃ fault, index token = .error fault ∧ fault.isLookup = false := by
  have hindex := index_of_digital h.toDigital
  split at hindex
  · exact .inr ⟨_, hindex, rfl⟩
  · split at hindex
    case isTrue => exact .inr ⟨_, hindex, rfl⟩
    case isFalse hshort =>
      refine .inl ⟨⟨_, hindex⟩, ?_⟩
      rintro n rfl
      obtain ⟨c, hc, hforeign⟩ := h.foreign.resolve_right hshort
      exact Bool.false_ne_true (hforeign.symm.trans (isDigit_of_mem_natText hc))

/-! ## Positions -/

section

variable {document value : Json} {tokens : List String} {path : Path}

/-- Resolving the tokens goes along this path, by the names and indices that are found for them. -/
inductive Lands (document : Json) : List String → Path → Json → Prop where
  | root : Lands document [] [] document
  | member {tokens : List String} {path : Path} {members : Members Json} {name : String}
      {value : Json} (hparent : Lands document tokens path (.obj members))
      (hvalue : members.get? name = some value) :
      Lands document (tokens ++ [name]) (path ++ [.name name]) value
  | item {tokens : List String} {path : Path} {items : List Json} {token : String} {i : Nat}
      {value : Json} (hparent : Lands document tokens path (.arr items))
      (hindex : index token = .ok i) (hvalue : items[i]? = some value) :
      Lands document (tokens ++ [token]) (path ++ [.index i]) value

theorem resolve_concat_eq_ok : resolve document (tokens ++ [token]) = .ok value ↔
    ∃ parent, resolve document tokens = .ok parent ∧ descend parent token = .ok value := by
  rw [resolve_append, Except.bind_eq_ok]

theorem Lands.resolve (h : Lands document tokens path value) :
    resolve document tokens = .ok value := by
  induction h with
  | root => rfl
  | member _ hvalue ih => exact resolve_concat_eq_ok.mpr ⟨_, ih, by simp [descend, hvalue]⟩
  | item _ hindex hvalue ih =>
    refine resolve_concat_eq_ok.mpr ⟨_, ih, ?_⟩
    rw [descend, hindex, Except.ok_bind, hvalue]

theorem exists_lands (h : Pointer.resolve document tokens = .ok value) :
    ∃ path, Lands document tokens path value := by
  induction tokens using List.reverseRecOn generalizing value with
  | nil =>
    obtain rfl := Except.pure_eq_ok.mp h
    exact ⟨[], .root⟩
  | append_singleton tokens token ih =>
    obtain ⟨parent, hparent, hdescend⟩ := resolve_concat_eq_ok.mp h
    obtain ⟨path, hpath⟩ := ih hparent
    cases parent with
    | obj members =>
      simp only [descend] at hdescend
      split at hdescend
      case h_1 member hmember => exact ⟨_, hpath.member (Except.ok.inj hdescend ▸ hmember)⟩
      case h_2 => cases hdescend
    | arr items =>
      simp only [descend, Except.bind_eq_ok] at hdescend
      obtain ⟨i, hindex, hitem⟩ := hdescend
      split at hitem
      case h_1 item hget => exact ⟨_, hpath.item hindex (Except.ok.inj hitem ▸ hget)⟩
      case h_2 => cases hitem
    | _ => cases hdescend

theorem Lands.along? (h : Lands document tokens path value) :
    document.along? path = some value := by
  induction h with
  | root => rfl
  | member _ hvalue ih =>
    rw [Json.along?_concat, ih]
    exact hvalue
  | item _ _ hvalue ih =>
    rw [Json.along?_concat, ih]
    simpa [Json.child?] using hvalue

/-! ### Tokens that no array misreads -/

/-- A foreign token, unless it is read as an index beyond the items and so leads nowhere. -/
def Misread (items : List Json) (token : String) : Prop :=
  Foreign token ∧ ∀ i, index token = .ok i → i < items.length

theorem isRead_or_beyond {items : List Json} (h : ¬ Misread items token) : IsRead token ∨
    (∃ i, index token = .ok i ∧ items.length ≤ i) ∧ ∀ n, token ≠ natText n := by
  by_cases hforeign : Foreign token
  · right
    simp only [Misread, not_and, not_forall, not_lt, exists_prop] at h
    obtain ⟨i, hindex, hbeyond⟩ := h hforeign
    rcases hforeign.index with ⟨-, hno⟩ | ⟨fault, hfault, -⟩
    · exact ⟨⟨i, hindex, hbeyond⟩, hno⟩
    · cases hindex.symm.trans hfault
  · exact .inl (isRead_of_not_foreign hforeign)

/-- No array misreads its token. -/
def Clear (document : Json) (tokens : List String) : Prop :=
  ∀ front token items, front ++ [token] <+: tokens →
    resolve document front = .ok (.arr items) → ¬ Misread items token

theorem clear_nil : Clear document [] := by
  intro front token items hfront
  simp at hfront

theorem clear_concat (tokens : List String) (token : String) : Clear document (tokens ++ [token]) ↔
    Clear document tokens ∧
      ∀ items, resolve document tokens = .ok (.arr items) → ¬ Misread items token := by
  constructor
  · intro h
    exact ⟨fun front other items hfront => h front other items (hfront.trans (List.prefix_append _ _)),
      fun items => h tokens token items (List.prefix_refl _)⟩
  · rintro ⟨hclear, hlast⟩ front other items hfront
    rcases List.prefix_concat_iff.mp hfront with heq | hfront
    · obtain ⟨rfl, hother⟩ := List.append_inj' heq rfl
      obtain rfl := List.singleton_inj.mp hother
      exact hlast items
    · exact hclear front other items hfront

theorem Lands.spells (h : Lands document tokens path value) (hclear : Clear document tokens) :
    tokens = path.map Pointer.token := by
  induction h with
  | root => rfl
  | member _ _ ih => rw [List.map_append, ← ih ((clear_concat _ _).mp hclear).1]; rfl
  | item hparent hindex hvalue ih =>
    obtain ⟨hfront, hlast⟩ := (clear_concat _ _).mp hclear
    have hlt := (List.getElem?_eq_some_iff.mp hvalue).1
    rcases isRead_or_beyond (hlast _ hparent.resolve) with
      (⟨n, rfl, hn⟩ | ⟨-, hinvalid⟩) | ⟨⟨i, hi, hbeyond⟩, -⟩
    · obtain rfl := Except.ok.inj (hindex.symm.trans hn)
      rw [List.map_append, ← ih hfront]
      rfl
    · cases hindex.symm.trans hinvalid
    · obtain rfl := Except.ok.inj (hindex.symm.trans hi)
      exact absurd hlt (Nat.not_lt.mpr hbeyond)

theorem lands_of_along? (h : document.along? path = some value)
    (hclear : Clear document (path.map Pointer.token)) :
    Lands document (path.map Pointer.token) path value := by
  induction path using List.reverseRecOn generalizing value with
  | nil =>
    obtain rfl := Option.some.inj h
    exact .root
  | append_singleton path segment ih =>
    rw [List.map_append, List.map_singleton] at hclear ⊢
    obtain ⟨hfront, hlast⟩ := (clear_concat _ _).mp hclear
    rw [Json.along?_concat, Option.bind_eq_some_iff] at h
    obtain ⟨parent, hparent, hchild⟩ := h
    have hlands := ih hparent hfront
    cases parent with
    | obj members =>
      cases segment with
      | name name => exact hlands.member hchild
      | index index => cases hchild
    | arr items =>
      cases segment with
      | name name => cases hchild
      | index index =>
        rw [Json.child?] at hchild
        split at hchild
        case isTrue hindex =>
          obtain ⟨n, rfl⟩ := Int.eq_ofNat_of_zero_le hindex
          rcases isRead_or_beyond (hlast items hlands.resolve) with
            (⟨m, hm, hread⟩ | ⟨hno, -⟩) | ⟨-, hno⟩
          · obtain rfl : n = m := natText_inj hm
            exact hlands.item hread hchild
          · exact (hno n rfl).elim
          · exact (hno n rfl).elim
        case isFalse => cases hchild
    | _ => cases segment <;> cases hchild

theorem isLookup_of_clear {fault : PointerFault} (h : resolve document tokens = .error fault)
    (hclear : Clear document tokens) : fault.isLookup = true := by
  induction tokens using List.reverseRecOn with
  | nil => cases h
  | append_singleton tokens token ih =>
    obtain ⟨hfront, hlast⟩ := (clear_concat _ _).mp hclear
    rw [resolve_append, Except.bind_eq_error] at h
    rcases h with hfault | ⟨parent, hparent, hdescend⟩
    · exact ih hfault hfront
    · cases parent with
      | obj members =>
        simp only [descend] at hdescend
        split at hdescend <;> cases hdescend
        rfl
      | arr items =>
        simp only [descend, Except.bind_eq_error] at hdescend
        rcases hdescend with hindex | ⟨i, -, hitem⟩
        · rcases isRead_or_beyond (hlast items hparent) with
            (⟨n, -, hn⟩ | ⟨-, hinvalid⟩) | ⟨⟨i, hi, -⟩, -⟩
          · cases hindex.symm.trans hn
          · obtain rfl := Except.error.inj (hindex.symm.trans hinvalid)
            rfl
          · cases hindex.symm.trans hi
        · split at hitem <;> cases hitem
          rfl
      | _ =>
        cases hdescend
        rfl

/-! ### Paths -/

/-- Tokens lead along the path that they spell, if there is one, and else they are said to lead nowhere. -/
structure Follows (document : Json) (tokens : List String) : Prop where
  found : ∀ value, resolve document tokens = .ok value ↔
    ∃ path, document.along? path = some value ∧ tokens = path.map Pointer.token
  lookup : ∀ fault, resolve document tokens = .error fault → fault.isLookup = true

theorem follows_of_clear (hclear : Clear document tokens) : Follows document tokens where
  found value := by
    constructor
    · intro h
      obtain ⟨path, hlands⟩ := exists_lands h
      exact ⟨path, hlands.along?, hlands.spells hclear⟩
    · rintro ⟨path, halong, rfl⟩
      exact (lands_of_along? halong hclear).resolve
  lookup _ hfault := isLookup_of_clear hfault hclear

/-- So no weaker condition does: an array that misreads a token goes astray at once. -/
theorem not_follows_of_misread {items : List Json} (h : Misread items token) :
    ¬ Follows (.arr items) [token] := by
  intro hfollows
  have hresolve : resolve (.arr items) [token] = descend (.arr items) token := bind_pure _
  rcases h.1.index with ⟨⟨i, hindex⟩, hno⟩ | ⟨fault, hfault, hother⟩
  · have hlt := h.2 i hindex
    have hitem : resolve (.arr items) [token] = .ok items[i] := by
      rw [hresolve, descend, hindex, Except.ok_bind, List.getElem?_eq_getElem hlt]
    obtain ⟨path, halong, hspells⟩ := (hfollows.found _).mp hitem
    obtain ⟨segment, rfl, rfl⟩ := List.map_eq_singleton_iff.mp hspells.symm
    rw [Json.along?, List.foldlM_cons] at halong
    cases segment with
    | name name => cases halong
    | index index =>
      obtain ⟨value, hchild, -⟩ := Option.bind_eq_some_iff.mp halong
      rw [Json.child?] at hchild
      split at hchild
      case isTrue hindex =>
        obtain ⟨n, rfl⟩ := Int.eq_ofNat_of_zero_le hindex
        exact hno n rfl
      case isFalse => cases hchild
  · have herror : resolve (.arr items) [token] = .error fault := by
      rw [hresolve, descend, hfault]
      rfl
    exact Bool.false_ne_true (hother.symm.trans (hfollows.lookup fault herror))

/--
Where no array misreads its token, tokens lead along the path that they spell, by the names and
indices that resolving them goes along, and two rows of tokens do not lead to one position.
-/
theorem resolve_follows_paths (hclear : Clear document tokens) :
    Follows document tokens ∧
      (∀ path value, Lands document tokens path value ↔
        document.along? path = some value ∧ tokens = path.map Pointer.token) ∧
      ∀ others path value value', Clear document others → Lands document tokens path value →
        Lands document others path value' → tokens = others := by
  refine ⟨follows_of_clear hclear,
    fun path value => ⟨fun hlands => ⟨hlands.along?, hlands.spells hclear⟩, ?_⟩,
    fun others path value value' hothers hlands hlands' =>
      (hlands.spells hclear).trans (hlands'.spells hothers).symm⟩
  rintro ⟨halong, rfl⟩
  exact lands_of_along? halong hclear

def scriptDigits : Json := .obj [("\u0661", .arr [.int 10, .int 20, .int 30])]

/-- The name leads to the array, and there a numeral with a leading zero is refused. -/
theorem scriptDigits_resolved :
    (∃ path, scriptDigits.along? path = some (.int 30) ∧
      ["\u0661", "2"] = path.map Pointer.token) ∧
      ∃ fault, resolve scriptDigits ["\u0661", "02"] = .error fault ∧ fault.isLookup = true := by
  have hname : Clear scriptDigits ["\u0661"] := by
    refine (clear_concat [] _).mpr ⟨clear_nil, fun items hitems => ?_⟩
    cases hitems
  have hplain : Clear scriptDigits ["\u0661", "2"] := by
    refine (clear_concat ["\u0661"] _).mpr ⟨hname, fun _ _ hmisread => ?_⟩
    rcases hmisread.1.foreign with ⟨digit, hdigit, hforeign⟩ | hlong
    · obtain rfl : digit = '2' := by simpa using hdigit
      cases hforeign
    · exact absurd hlong (by simp [maxIntegerDigits])
  have hzero : Clear scriptDigits ["\u0661", "02"] := by
    refine (clear_concat ["\u0661"] _).mpr ⟨hname, fun _ _ hmisread => ?_⟩
    exact absurd (hmisread.1.noZero (by simp)) (by simp)
  exact ⟨((resolve_follows_paths hplain).1.found (.int 30)).mp rfl,
    _, rfl, (resolve_follows_paths hzero).1.lookup _ rfl⟩

end

end Pointer

end JsonSchema
