import JsonSchema.Proofs.Json.Members
import JsonSchema.Proofs.Json.Scalars
import JsonSchema.Proofs.Outcome

/-!
# Documents that read back

The reader undoes the writer in every layout: a document without binary64 numbers reads back from
its text as it was, with its members in their order. Only an integer can be too long for that, and
whatever is read has no integer that long.
-/

namespace JsonSchema

namespace JsonReader

/-! ## Layout -/

def Blank (cs : Chars) : Prop := ∀ c ∈ cs, isSpace c = true

theorem Blank.skipSpace {blanks : Chars} (h : Blank blanks) (cs : Chars) :
    skipSpace (blanks ++ cs) = skipSpace cs :=
  List.dropWhile_append_of_pos h

theorem endsNumber_mark {mark : Char} (hmark : mark ∈ [',', ']', '\x7d']) (rest : Chars) :
    EndsNumber (mark :: rest) := by
  have hmarks : ∀ mark ∈ [',', ']', '\x7d'], mark.isDigit = false ∧ mark ∉ ['.', 'e', 'E'] :=
    List.all_iff_forall_prop.mp (by decide)
  intro c hc
  obtain rfl : mark = c := by simpa using hc
  exact hmarks mark hmark

theorem Blank.endsNumber {blanks : Chars} (h : Blank blanks) {mark : Char}
    (hmark : mark ∈ [',', ']', '\x7d']) (rest : Chars) : EndsNumber (blanks ++ mark :: rest) := by
  cases blanks with
  | nil => exact endsNumber_mark hmark rest
  | cons blank more =>
    intro c hc
    obtain rfl : blank = c := by simpa using hc
    have hblank := h blank List.mem_cons_self
    simp only [isSpace, Bool.or_eq_true, beq_iff_eq] at hblank
    rcases hblank with ((rfl | rfl) | rfl) | rfl <;> decide

theorem blank_lineStart (style : TextStyle) (level : Nat) :
    Blank (style.lineStart level).toList := by
  intro c hc
  unfold TextStyle.lineStart at hc
  split at hc
  case h_1 => simp at hc
  case h_2 width =>
    simp only [String.toList_append, String.toList_ofList, List.mem_append] at hc
    rcases hc with hc | hc
    · obtain rfl : c = '\n' := by simpa using hc
      rfl
    · rw [List.eq_of_mem_replicate hc]
      rfl

theorem exists_gap (style : TextStyle) (level : Nat) :
    ∃ blanks, Blank blanks ∧ (style.separator ++ style.lineStart level).toList = ',' :: blanks := by
  have hline := blank_lineStart style level
  unfold TextStyle.separator
  split
  case h_1 =>
    refine ⟨' ' :: (style.lineStart level).toList, ?_, by simp⟩
    exact List.forall_mem_cons.mpr ⟨rfl, hline⟩
  case h_2 => exact ⟨(style.lineStart level).toList, hline, by simp⟩

/-- A text that starts with no blank, no end of an array and no byte order mark. -/
def opens : Chars → Bool
  | [] => false
  | c :: _ => !isSpace c && c != ']' && c != '\uFEFF'

theorem exists_cons_of_opens {cs : Chars} (h : opens cs = true) :
    ∃ c more, cs = c :: more ∧ isSpace c = false ∧ c ≠ ']' ∧ c ≠ '\uFEFF' := by
  cases cs with
  | nil => cases h
  | cons c more => exact ⟨c, more, rfl, by simpa [opens, and_assoc] using h⟩

theorem opens_append {cs : Chars} (h : opens cs = true) (rest : Chars) :
    opens (cs ++ rest) = true := by
  obtain ⟨c, more, rfl, -⟩ := exists_cons_of_opens h
  exact h

theorem skipSpace_of_opens {cs : Chars} (h : opens cs = true) : skipSpace cs = cs := by
  obtain ⟨c, more, rfl, hc, -⟩ := exists_cons_of_opens h
  exact List.dropWhile_cons_of_neg (by simp [hc])

def joined (style : TextStyle) (level : Nat) (texts : List String) : Chars :=
  ((style.separator ++ style.lineStart (level + 1)).intercalate texts).toList

theorem joined_singleton (style : TextStyle) (level : Nat) (text : String) :
    joined style level [text] = text.toList := by
  rw [joined, String.intercalate_singleton]

theorem joined_cons_cons (style : TextStyle) (level : Nat) : ∃ blanks, Blank blanks ∧
    ∀ text next texts, joined style level (text :: next :: texts) =
      text.toList ++ ',' :: (blanks ++ joined style level (next :: texts)) := by
  obtain ⟨blanks, hblanks, hgap⟩ := exists_gap style (level + 1)
  refine ⟨blanks, hblanks, fun text next texts => ?_⟩
  rw [joined, String.intercalate_cons_cons, String.toList_append, String.toList_append, hgap,
    ← joined]
  simp

theorem exists_joined (style : TextStyle) (level : Nat) (text : String) (texts : List String) :
    ∃ more, joined style level (text :: texts) = text.toList ++ more := by
  cases texts with
  | nil => exact ⟨[], by rw [joined_singleton, List.append_nil]⟩
  | cons next texts =>
    obtain ⟨blanks, -, hjoined⟩ := joined_cons_cons style level
    exact ⟨_, hjoined text next texts⟩

theorem toList_enclose (style : TextStyle) (level : Nat) (opening closing : String)
    (texts : List String) : (style.enclose level opening closing texts).toList =
      opening.toList ++ ((style.lineStart (level + 1)).toList ++ (joined style level texts ++
        ((style.lineStart level).toList ++ closing.toList))) := by
  simp [TextStyle.enclose, joined]

end JsonReader

/-! ## Values -/

/--
A document without binary64 numbers, whose objects have each name once and whose containers nest
`depth` levels at most.
-/
inductive Json.Regular : (depth : Nat) → Json → Prop
  | null {depth : Nat} : Regular depth .null
  | bool {depth : Nat} (b : Bool) : Regular depth (.bool b)
  | int {depth : Nat} (n : Int) : Regular depth (.int n)
  | str {depth : Nat} (s : String) : Regular depth (.str s)
  | arr {depth : Nat} {items : List Json} (h : ∀ item ∈ items, item.Regular depth) :
      Regular (depth + 1) (.arr items)
  | obj {depth : Nat} {members : Members Json} (hnames : members.names.Nodup)
      (h : ∀ member ∈ members, member.2.Regular depth) : Regular (depth + 1) (.obj members)

namespace JsonReader

variable {style : TextStyle} {level depth fuel : Nat} {value : Json} {rest : Chars}

theorem opens_textIn (hvalue : value.Regular depth) :
    opens (value.textIn style level).toList = true := by
  cases hvalue with
  | null => exact (by decide : opens "null".toList = true)
  | bool b =>
    cases b with
    | false => exact (by decide : opens "false".toList = true)
    | true => exact (by decide : opens "true".toList = true)
  | int n =>
    have hstart : ∀ c ∈ intStarts, (!isSpace c && c != ']' && c != '\uFEFF') = true :=
      List.all_iff_forall_prop.mp (by decide)
    obtain ⟨c, more, hcs, hc⟩ := exists_intText_cons n
    rw [show (Json.int n).textIn style level = intText n from rfl, hcs]
    exact hstart c hc
  | str s =>
    obtain ⟨body, htext, -⟩ := exists_quoted style.asciiOnly s
    rw [Json.textIn, htext]
    rfl
  | @arr _ items =>
    cases items with
    | nil => exact (by decide : opens "[]".toList = true)
    | cons item items =>
      rw [Json.textIn, toList_enclose]
      rfl
  | @obj _ members =>
    cases members with
    | nil => exact (by decide : opens "\x7b\x7d".toList = true)
    | cons member members =>
      rw [Json.textIn, toList_enclose]
      rfl

/-! ### One step of the reader -/

section

variable {cs tail more : Chars} {done members : Members Json} {items : List Json} {item : Json}
  {name : String} {colon : Chars}

theorem readValue_scalar {c : Char} (hc : c ∉ ['"', '[', '\x7b']) :
    readValue (fuel + 1) depth (c :: cs) = readScalar (c :: cs) := by
  unfold readValue
  split
  case h_5 => rfl
  all_goals simp_all

theorem readValue_array (hopens : opens (skipSpace cs) = true)
    (h : readItems fuel depth (skipSpace cs) = .ok (items, rest)) :
    readValue (fuel + 1) (depth + 1) ('[' :: cs) = .ok (.arr items, rest) := by
  obtain ⟨c, more, hcs, -, hend, -⟩ := exists_cons_of_opens hopens
  rw [hcs] at h
  rw [readValue, if_neg (Nat.succ_ne_zero depth), hcs]
  split
  case h_1 heq => exact absurd (List.cons.inj heq).1 hend
  case h_2 =>
    rw [Nat.add_sub_cancel, h]
    rfl

theorem readValue_object (hquote : (skipSpace cs).head? = some '"')
    (h : readMembers fuel depth [] (skipSpace cs) = .ok (members, rest)) :
    readValue (fuel + 1) (depth + 1) ('\x7b' :: cs) = .ok (.obj members, rest) := by
  obtain ⟨more, hcs⟩ := List.head?_eq_some_iff.mp hquote
  rw [hcs] at h
  rw [readValue, if_neg (Nat.succ_ne_zero depth), hcs]
  split
  case h_1 heq => cases heq
  case h_2 =>
    rw [Nat.add_sub_cancel, h]
    rfl

theorem readItems_last (hitem : readValue fuel depth cs = .ok (item, tail))
    (hend : skipSpace tail = ']' :: rest) :
    readItems (fuel + 1) depth cs = .ok ([item], rest) := by
  simp only [readItems, hitem, hend, Except.ok_bind]
  rfl

theorem readItems_next (hitem : readValue fuel depth cs = .ok (item, tail))
    (hcomma : skipSpace tail = ',' :: more)
    (h : readItems fuel depth (skipSpace more) = .ok (items, rest)) :
    readItems (fuel + 1) depth cs = .ok (item :: items, rest) := by
  simp only [readItems, hitem, hcomma, h, Except.ok_bind]
  rfl

theorem readMembers_last (hname : readString ('"' :: cs) [] cs = .ok (name, colon))
    (hcolon : skipSpace colon = ':' :: more)
    (hvalue : readValue fuel depth (skipSpace more) = .ok (value, tail))
    (hend : skipSpace tail = '\x7d' :: rest) :
    readMembers (fuel + 1) depth done ('"' :: cs) = .ok (done.put name value, rest) := by
  simp only [readMembers, hname, hcolon, hvalue, hend, Except.ok_bind]
  rfl

theorem readMembers_next {next : Chars} (hname : readString ('"' :: cs) [] cs = .ok (name, colon))
    (hcolon : skipSpace colon = ':' :: more)
    (hvalue : readValue fuel depth (skipSpace more) = .ok (value, tail))
    (hcomma : skipSpace tail = ',' :: next) :
    readMembers (fuel + 1) depth done ('"' :: cs) =
      readMembers fuel depth (done.put name value) (skipSpace next) := by
  simp only [readMembers, hname, hcolon, hvalue, hcomma, Except.ok_bind]

end

/-! ### Written values -/

/-- A value inside a text is read back, and what stands behind it is left. -/
def ReadsBack (style : TextStyle) (level depth : Nat) (value : Json) : Prop :=
  ∀ fuel rest, EndsNumber rest → 2 * (value.textIn style level).toList.length ≤ fuel →
    readValue fuel depth ((value.textIn style level).toList ++ rest) = .ok (value, rest)

theorem opens_items {item : Json} {items : List Json} (hitem : item.Regular depth) :
    opens (joined style level (Json.itemTexts style level (item :: items))) = true := by
  obtain ⟨more, hmore⟩ := exists_joined style level (item.textIn style (level + 1))
    (Json.itemTexts style level items)
  rw [Json.itemTexts, hmore]
  exact opens_append (opens_textIn hitem) more

theorem readsBack_of_succ (hvalue : value.Regular depth)
    (h : ∀ fuel rest, EndsNumber rest → 2 * (value.textIn style level).toList.length ≤ fuel + 1 →
      readValue (fuel + 1) depth ((value.textIn style level).toList ++ rest) = .ok (value, rest)) :
    ReadsBack style level depth value := by
  intro fuel rest hends hfuel
  have hopens : opens (value.textIn style level).toList = true := opens_textIn hvalue
  obtain ⟨c, more, htext, -⟩ := exists_cons_of_opens hopens
  have hpos : 0 < (value.textIn style level).toList.length := by
    rw [htext]
    exact Nat.succ_pos _
  obtain ⟨fuel, rfl⟩ : ∃ k, fuel = k + 1 := ⟨fuel - 1, by omega⟩
  exact h fuel rest hends hfuel

-- An item takes one unit of fuel besides its own; the comma behind it pays for the items to come.
theorem readItems_joined {items : List Json} {blanks : Chars} (hne : items ≠ [])
    (hitems : ∀ item ∈ items, item.Regular depth)
    (hreads : ∀ item ∈ items, ReadsBack style (level + 1) depth item) (hblanks : Blank blanks)
    (hfuel : 2 * (joined style level (Json.itemTexts style level items)).length + 1 ≤ fuel) :
    readItems fuel depth
      (joined style level (Json.itemTexts style level items) ++ (blanks ++ ']' :: rest)) =
        .ok (items, rest) := by
  obtain ⟨gap, hgap, hjoined⟩ := joined_cons_cons style level
  induction items generalizing fuel with
  | nil => exact (hne rfl).elim
  | cons item items ih =>
    obtain ⟨fuel, rfl⟩ : ∃ k, fuel = k + 1 := ⟨fuel - 1, by omega⟩
    have hitem := hreads item List.mem_cons_self
    cases items with
    | nil =>
      rw [Json.itemTexts, Json.itemTexts, joined_singleton] at hfuel ⊢
      have hends := hblanks.endsNumber (by decide : ']' ∈ [',', ']', '\x7d']) rest
      exact readItems_last (hitem fuel _ hends (by omega)) (hblanks.skipSpace _)
    | cons next items =>
      rw [List.forall_mem_cons] at hitems hreads
      have hopens : opens (joined style level (Json.itemTexts style level (next :: items))) =
          true := opens_items (hitems.2 next List.mem_cons_self)
      rw [Json.itemTexts, Json.itemTexts, hjoined, ← Json.itemTexts] at hfuel ⊢
      rw [List.length_append, List.length_cons, List.length_append] at hfuel
      rw [List.append_assoc, List.cons_append, List.append_assoc]
      have hends := endsNumber_mark (by decide : ',' ∈ [',', ']', '\x7d'])
      refine readItems_next (hitem fuel _ (hends _) (by omega)) rfl ?_
      rw [hgap.skipSpace, skipSpace_of_opens (opens_append hopens _)]
      exact ih (List.cons_ne_nil _ _) hitems.2 hreads.2 (by omega)

def memberText (style : TextStyle) (level : Nat) (name : String) (value : Json) : Chars :=
  (quoteString style.asciiOnly name ++ ": " ++ value.textIn style (level + 1)).toList

section

variable {name : String} {done : Members Json} {tail : Chars}

theorem exists_member (name : String) (hvalue : value.Regular depth) (tail : Chars) :
    ∃ cs colon more, memberText style level name value ++ tail = '"' :: cs ∧
      readString ('"' :: cs) [] cs = .ok (name, colon) ∧ skipSpace colon = ':' :: more ∧
      skipSpace more = (value.textIn style (level + 1)).toList ++ tail := by
  obtain ⟨body, hquoted, hread⟩ := exists_quoted style.asciiOnly name
  refine ⟨body ++ ':' :: ' ' :: ((value.textIn style (level + 1)).toList ++ tail), _, _, ?_,
    hread _ _, rfl, ?_⟩
  · simp [memberText, hquoted]
  · exact skipSpace_of_opens (opens_append (opens_textIn hvalue) tail)

theorem length_memberText (style : TextStyle) (level : Nat) (name : String) (value : Json) :
    (value.textIn style (level + 1)).toList.length ≤
      (memberText style level name value).length := by
  rw [memberText, String.toList_append, List.length_append]
  omega

theorem readMembers_lastText (hvalue : value.Regular depth)
    (hreads : ReadsBack style (level + 1) depth value) (hends : EndsNumber tail)
    (hfuel : 2 * (memberText style level name value).length ≤ fuel)
    (hend : skipSpace tail = '\x7d' :: rest) :
    readMembers (fuel + 1) depth done (memberText style level name value ++ tail) =
      .ok (done.put name value, rest) := by
  have hlength := length_memberText style level name value
  obtain ⟨cs, colon, more, htext, hname, hcolon, hmore⟩ := exists_member name hvalue tail
  rw [htext]
  exact readMembers_last hname hcolon (hmore ▸ hreads fuel tail hends (by omega)) hend

theorem readMembers_nextText {next : Chars} (hvalue : value.Regular depth)
    (hreads : ReadsBack style (level + 1) depth value) (hends : EndsNumber tail)
    (hfuel : 2 * (memberText style level name value).length ≤ fuel)
    (hcomma : skipSpace tail = ',' :: next) :
    readMembers (fuel + 1) depth done (memberText style level name value ++ tail) =
      readMembers fuel depth (done.put name value) (skipSpace next) := by
  have hlength := length_memberText style level name value
  obtain ⟨cs, colon, more, htext, hname, hcolon, hmore⟩ := exists_member name hvalue tail
  rw [htext]
  exact readMembers_next hname hcolon (hmore ▸ hreads fuel tail hends (by omega)) hcomma

end

theorem exists_memberTexts (style : TextStyle) (level : Nat) (member : String × Json)
    (members : Members Json) :
    ∃ more, joined style level (Json.memberTexts style level (member :: members)) =
      '"' :: more := by
  obtain ⟨name, value⟩ := member
  obtain ⟨more, hmore⟩ := exists_joined style level
    (quoteString style.asciiOnly name ++ ": " ++ value.textIn style (level + 1))
    (Json.memberTexts style level members)
  obtain ⟨body, hquoted, -⟩ := exists_quoted style.asciiOnly name
  rw [Json.memberTexts, hmore, String.toList_append, String.toList_append, hquoted]
  exact ⟨_, rfl⟩

theorem readMembers_joined {members done : Members Json} {blanks : Chars} (hne : members ≠ [])
    (hmembers : ∀ member ∈ members, member.2.Regular depth)
    (hreads : ∀ member ∈ members, ReadsBack style (level + 1) depth member.2)
    (hnames : (done ++ members : Members Json).names.Nodup) (hblanks : Blank blanks)
    (hfuel : 2 * (joined style level (Json.memberTexts style level members)).length + 1 ≤ fuel) :
    readMembers fuel depth done
      (joined style level (Json.memberTexts style level members) ++ (blanks ++ '\x7d' :: rest)) =
        .ok (done ++ members, rest) := by
  obtain ⟨gap, hgap, hjoined⟩ := joined_cons_cons style level
  induction members generalizing fuel done with
  | nil => exact (hne rfl).elim
  | cons member members ih =>
    obtain ⟨name, value⟩ := member
    obtain ⟨fuel, rfl⟩ : ∃ k, fuel = k + 1 := ⟨fuel - 1, by omega⟩
    rw [List.forall_mem_cons] at hmembers hreads
    dsimp only at hmembers hreads
    have hput : done.put name value = done ++ [(name, value)] := by
      refine Members.put_of_notMem value fun hmem => ?_
      rw [Members.names, List.map_append, List.map_cons, List.nodup_append] at hnames
      exact hnames.2.2 _ hmem _ List.mem_cons_self rfl
    cases members with
    | nil =>
      rw [Json.memberTexts, Json.memberTexts, joined_singleton, ← memberText] at hfuel ⊢
      have hends := hblanks.endsNumber (by decide : '\x7d' ∈ [',', ']', '\x7d']) rest
      rw [← hput]
      exact readMembers_lastText hmembers.1 hreads.1 hends (by omega) (hblanks.skipSpace _)
    | cons next members =>
      obtain ⟨nextName, next⟩ := next
      have hopens : opens (joined style level
          (Json.memberTexts style level ((nextName, next) :: members))) = true := by
        obtain ⟨more, hmore⟩ := exists_memberTexts style level (nextName, next) members
        rw [hmore]
        rfl
      rw [Json.memberTexts, Json.memberTexts, hjoined, ← Json.memberTexts, ← memberText]
        at hfuel ⊢
      rw [List.length_append, List.length_cons, List.length_append] at hfuel
      rw [List.append_assoc, List.cons_append, List.append_assoc]
      have hends := endsNumber_mark (by decide : ',' ∈ [',', ']', '\x7d'])
      rw [readMembers_nextText hmembers.1 hreads.1 (hends _) (by omega) rfl, hgap.skipSpace,
        skipSpace_of_opens (opens_append hopens _), hput,
        ih (List.cons_ne_nil _ _) hmembers.2 hreads.2 (by simpa using hnames) (by omega)]
      simp

theorem readsBack_scalar {c : Char} {cs : Chars} (hvalue : value.Regular depth)
    (hc : c ∉ ['"', '[', '\x7b']) (htext : (value.textIn style level).toList = c :: cs)
    (h : ∀ rest, EndsNumber rest → readScalar (c :: cs ++ rest) = .ok (value, rest)) :
    ReadsBack style level depth value := by
  refine readsBack_of_succ hvalue fun fuel rest hends _ => ?_
  rw [htext, List.cons_append, readValue_scalar hc]
  exact h rest hends

theorem readsBack_arr {items : List Json} (hitems : ∀ item ∈ items, item.Regular depth)
    (hreads : ∀ item ∈ items, ReadsBack style (level + 1) depth item) :
    ReadsBack style level (depth + 1) (.arr items) := by
  refine readsBack_of_succ (.arr hitems) fun fuel rest hends hfuel => ?_
  cases items with
  | nil =>
    have hempty : (Json.textIn style level (.arr [])).toList = ['[', ']'] := by simp [Json.textIn]
    rw [hempty]
    rfl
  | cons item items =>
    have hopens : opens (joined style level (Json.itemTexts style level (item :: items))) = true :=
      opens_items (List.forall_mem_cons.mp hitems).1
    have htext : (Json.textIn style level (.arr (item :: items))).toList = '[' ::
        ((style.lineStart (level + 1)).toList ++
          (joined style level (Json.itemTexts style level (item :: items)) ++
            ((style.lineStart level).toList ++ [']']))) := by
      rw [Json.textIn, toList_enclose]
      rfl
    rw [htext] at hfuel ⊢
    simp only [List.length_cons, List.length_append] at hfuel
    have hskip := (blank_lineStart style (level + 1)).skipSpace
    simp only [List.cons_append, List.append_assoc, List.nil_append]
    refine readValue_array ?_ ?_
    · rw [hskip, skipSpace_of_opens (opens_append hopens _)]
      exact opens_append hopens _
    · rw [hskip, skipSpace_of_opens (opens_append hopens _)]
      exact readItems_joined (List.cons_ne_nil _ _) hitems hreads (blank_lineStart style level)
        (by omega)

theorem readsBack_obj {members : Members Json} (hnames : members.names.Nodup)
    (hmembers : ∀ member ∈ members, member.2.Regular depth)
    (hreads : ∀ member ∈ members, ReadsBack style (level + 1) depth member.2) :
    ReadsBack style level (depth + 1) (.obj members) := by
  refine readsBack_of_succ (.obj hnames hmembers) fun fuel rest hends hfuel => ?_
  cases members with
  | nil =>
    have hempty : (Json.textIn style level (.obj [])).toList = ['\x7b', '\x7d'] := by
      simp [Json.textIn]
    rw [hempty]
    rfl
  | cons member members =>
    have htext : (Json.textIn style level (.obj (member :: members))).toList = '\x7b' ::
        ((style.lineStart (level + 1)).toList ++
          (joined style level (Json.memberTexts style level (member :: members)) ++
            ((style.lineStart level).toList ++ ['\x7d']))) := by
      rw [Json.textIn, toList_enclose]
      rfl
    rw [htext] at hfuel ⊢
    simp only [List.length_cons, List.length_append] at hfuel
    obtain ⟨more, hmore⟩ := exists_memberTexts style level member members
    have hskip : ∀ tail, skipSpace ((style.lineStart (level + 1)).toList ++
        (joined style level (Json.memberTexts style level (member :: members)) ++ tail)) =
          '"' :: (more ++ tail) := by
      intro tail
      rw [(blank_lineStart style (level + 1)).skipSpace, hmore]
      rfl
    simp only [List.cons_append, List.append_assoc, List.nil_append]
    refine readValue_object ?_ ?_
    · rw [hskip]
      rfl
    · rw [hskip, ← List.cons_append, ← hmore]
      exact readMembers_joined (List.cons_ne_nil _ _) hmembers hreads hnames
        (blank_lineStart style level) (by omega)

theorem readsBack (hvalue : value.Regular depth) (htext : value.hasText = true) :
    ReadsBack style level depth value := by
  induction hvalue generalizing level with
  | null =>
    have hword : (Json.textIn style level .null).toList = ['n', 'u', 'l', 'l'] := by
      simp [Json.textIn]
    exact readsBack_scalar .null (by decide) hword fun rest _ => by
      simp [readScalar, after?_of_eq "null" rest]
  | bool b =>
    cases b with
    | false =>
      have hword : (Json.textIn style level (.bool false)).toList = ['f', 'a', 'l', 's', 'e'] := by
        simp [Json.textIn]
      exact readsBack_scalar (.bool false) (by decide) hword fun rest _ => by
        simp [readScalar, after?_of_eq "false" rest]
    | true =>
      have hword : (Json.textIn style level (.bool true)).toList = ['t', 'r', 'u', 'e'] := by
        simp [Json.textIn]
      exact readsBack_scalar (.bool true) (by decide) hword fun rest _ => by
        simp [readScalar, after?_of_eq "true" rest]
  | int n =>
    have hstart : ∀ c ∈ intStarts, c ∉ ['"', '[', '\x7b'] :=
      List.all_iff_forall_prop.mp (by decide)
    obtain ⟨c, more, hcs, hc⟩ := exists_intText_cons n
    refine readsBack_scalar (.int n) (hstart c hc) hcs fun rest hends => ?_
    rw [← hcs]
    exact readScalar_intText (of_decide_eq_true htext) hends
  | str s =>
    obtain ⟨body, hquoted, hread⟩ := exists_quoted style.asciiOnly s
    refine readsBack_of_succ (.str s) fun fuel rest hends _ => ?_
    rw [Json.textIn, hquoted, List.cons_append, readValue, hread]
    rfl
  | arr h ih =>
    exact readsBack_arr h fun item hitem =>
      ih item hitem (Json.itemsHaveText_iff.mp htext item hitem)
  | obj hnames h ih =>
    exact readsBack_obj hnames h fun member hmember =>
      ih member hmember (Json.membersHaveText_iff.mp htext member hmember)

theorem readText_textIn (hvalue : value.Regular depth) (htext : value.hasText = true) :
    readText depth (value.textIn style level).toList = .ok value := by
  have hopens : opens (value.textIn style level).toList = true := opens_textIn hvalue
  obtain ⟨c, more, hcs, -, -, hmark⟩ := exists_cons_of_opens hopens
  have hreads : ReadsBack style level depth value := readsBack hvalue htext
  have hread := hreads (2 * (value.textIn style level).toList.length + 2) [] nofun (by omega)
  rw [List.append_nil] at hread
  rw [readText, if_neg (by simpa [hcs] using hmark), skipSpace_of_opens hopens, hread]
  rfl

/-! ### What is read can be written -/

/-- With so much fuel the reader gives nothing but what has a text. -/
structure Writable (fuel : Nat) : Prop where
  value : ∀ {depth : Nat} {cs rest : Chars} {value : Json},
    readValue fuel depth cs = .ok (value, rest) → value.hasText = true
  items : ∀ {depth : Nat} {cs rest : Chars} {items : List Json},
    readItems fuel depth cs = .ok (items, rest) → ∀ item ∈ items, item.hasText = true
  members : ∀ {depth : Nat} {done members : Members Json} {cs rest : Chars},
    (∀ member ∈ done, member.2.hasText = true) →
      readMembers fuel depth done cs = .ok (members, rest) →
        ∀ member ∈ members, member.2.hasText = true

section

variable {cs : Chars}

theorem readValue_hasText (ih : Writable fuel)
    (h : readValue (fuel + 1) depth cs = .ok (value, rest)) : value.hasText = true := by
  unfold readValue at h
  split at h
  case h_1 => cases h
  case h_2 =>
    obtain ⟨_, -, h⟩ := Except.bind_eq_ok.mp h
    obtain ⟨rfl, -⟩ := Prod.mk.inj (Except.pure_eq_ok.mp h)
    rfl
  case h_3 =>
    split at h
    case isTrue => cases h
    case isFalse =>
      split at h
      case h_1 =>
        obtain ⟨rfl, -⟩ := Prod.mk.inj (Except.ok.inj h)
        rfl
      case h_2 =>
        obtain ⟨_, hitems, h⟩ := Except.bind_eq_ok.mp h
        obtain ⟨rfl, -⟩ := Prod.mk.inj (Except.pure_eq_ok.mp h)
        exact Json.itemsHaveText_iff.mpr (ih.items hitems)
  case h_4 =>
    split at h
    case isTrue => cases h
    case isFalse =>
      split at h
      case h_1 =>
        obtain ⟨rfl, -⟩ := Prod.mk.inj (Except.ok.inj h)
        rfl
      case h_2 =>
        obtain ⟨_, hmembers, h⟩ := Except.bind_eq_ok.mp h
        obtain ⟨rfl, -⟩ := Prod.mk.inj (Except.pure_eq_ok.mp h)
        exact Json.membersHaveText_iff.mpr (ih.members (List.forall_mem_nil _) hmembers)
  case h_5 => exact readScalar_hasText h

theorem readItems_hasText (ih : Writable fuel) {items : List Json}
    (h : readItems (fuel + 1) depth cs = .ok (items, rest)) :
    ∀ item ∈ items, item.hasText = true := by
  unfold readItems at h
  obtain ⟨⟨item, behind⟩, hitem, h⟩ := Except.bind_eq_ok.mp h
  dsimp only at h
  split at h
  case h_1 =>
    obtain ⟨rfl, -⟩ := Prod.mk.inj (Except.pure_eq_ok.mp h)
    exact List.forall_mem_singleton.mpr (ih.value hitem)
  case h_2 =>
    obtain ⟨_, hothers, h⟩ := Except.bind_eq_ok.mp h
    obtain ⟨rfl, -⟩ := Prod.mk.inj (Except.pure_eq_ok.mp h)
    exact List.forall_mem_cons.mpr ⟨ih.value hitem, ih.items hothers⟩
  case h_3 => cases h

theorem readMembers_hasText (ih : Writable fuel) {done members : Members Json}
    (hdone : ∀ member ∈ done, member.2.hasText = true)
    (h : readMembers (fuel + 1) depth done cs = .ok (members, rest)) :
    ∀ member ∈ members, member.2.hasText = true := by
  unfold readMembers at h
  split at h
  case h_1 =>
    obtain ⟨⟨name, colon⟩, -, h⟩ := Except.bind_eq_ok.mp h
    dsimp only at h
    split at h
    case h_1 =>
      obtain ⟨⟨value, behind⟩, hvalue, h⟩ := Except.bind_eq_ok.mp h
      have hput : ∀ member ∈ done.put name value, member.2.hasText = true := by
        intro member hmember
        rcases Members.mem_put hmember with hold | rfl
        · exact hdone member hold
        · exact ih.value hvalue
      dsimp only at h
      split at h
      case h_1 =>
        obtain ⟨rfl, -⟩ := Prod.mk.inj (Except.pure_eq_ok.mp h)
        exact hput
      case h_2 => exact ih.members hput h
      case h_3 => cases h
    case h_2 => cases h
  case h_2 => cases h

end

theorem writable (fuel : Nat) : Writable fuel := by
  induction fuel with
  | zero =>
    constructor
    · intro depth cs rest value h
      rw [readValue] at h
      cases h
    · intro depth cs rest items h
      rw [readItems] at h
      cases h
    · intro depth done members cs rest _ h
      rw [readMembers] at h
      cases h
  | succ fuel ih => exact ⟨readValue_hasText ih, readItems_hasText ih, readMembers_hasText ih⟩

end JsonReader

namespace Json

theorem hasText_of_read {text : String} {value : Json} (h : Json.read text = .ok value) :
    value.hasText = true := by
  rw [read, readNested, JsonReader.readText] at h
  split at h
  case isTrue => cases h
  case isFalse =>
    obtain ⟨⟨found, rest⟩, hread, h⟩ := Except.bind_eq_ok.mp h
    dsimp only at h
    split at h
    case h_1 =>
      obtain rfl := Except.pure_eq_ok.mp h
      exact (JsonReader.writable _).value hread
    case h_2 => cases h

/-- What is written reads back, in any layout, unless an integer is too long to be written out. -/
theorem read_textIn_iff {value : Json} (h : value.Regular jsonDepthLimit) (style : TextStyle)
    (level : Nat) : Json.read (value.textIn style level) = .ok value ↔ value.hasText = true :=
  ⟨hasText_of_read, JsonReader.readText_textIn h⟩

end Json

end JsonSchema
