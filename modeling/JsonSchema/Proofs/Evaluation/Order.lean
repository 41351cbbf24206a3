import JsonSchema.Proofs.Evaluation.Shown
import JsonSchema.Proofs.Schema.Order

/-!
# The order of members in an instance

Instances that differ in the order of members only have the same violations in another order, or
both have none because of a fault. Which fault that is may hang on the order, where a format has no
answer for a string or a message shows an integer without a text.
-/

namespace JsonSchema

/-! ## Violations in any order -/

/-- A violation without its message, which may show the members of a value. -/
def Violation.mark (violation : Violation) : Path × String × String :=
  (violation.path, violation.keyword, violation.schemaPath)

def Alike (vs ws : Violations) : Prop := (vs.map Violation.mark).Perm (ws.map Violation.mark)

namespace Alike

variable {vs ws us vs' ws' : Violations}

theorem refl (vs : Violations) : Alike vs vs := List.Perm.refl _

theorem trans (h : Alike vs ws) (h' : Alike ws us) : Alike vs us := List.Perm.trans h h'

theorem append (h : Alike vs ws) (h' : Alike vs' ws') : Alike (vs ++ vs') (ws ++ ws') := by
  unfold Alike
  rw [List.map_append, List.map_append]
  exact List.Perm.append h h'

theorem length_eq (h : Alike vs ws) : vs.length = ws.length := by
  simpa using List.Perm.length_eq h

theorem isEmpty_eq (h : Alike vs ws) : vs.isEmpty = ws.isEmpty := by
  have hlength := h.length_eq
  cases vs <;> cases ws <;> simp_all

end Alike

/-! ## Outcomes that agree -/

section

variable {α β γ : Type}

/-- Two results that are related, or two faults. -/
def Agree {α β : Type} (r : α → β → Prop) : Evaluated α → Evaluated β → Prop
  | .ok a, .ok b => r a b
  | .error _, .error _ => True
  | _, _ => False

theorem Agree.bind {α' β' : Type} {r : α → β → Prop} {r' : α' → β' → Prop} {x : Evaluated α}
    {y : Evaluated β} {f : α → Evaluated α'} {g : β → Evaluated β'} (h : Agree r x y)
    (hf : ∀ a b, r a b → Agree r' (f a) (g b)) : Agree r' (x >>= f) (y >>= g) := by
  cases x with
  | ok a =>
    cases y with
    | ok b => exact hf a b h
    | error => exact h.elim
  | error =>
    cases y with
    | ok => exact h.elim
    | error => trivial

theorem Agree.refl {r : α → α → Prop} (hr : ∀ a, r a a) (x : Evaluated α) : Agree r x x := by
  cases x with
  | ok a => exact hr a
  | error => trivial

theorem Agree.exists_ok {r : α → β → Prop} {x : Evaluated α} {y : Evaluated β} (h : Agree r x y) :
    (∃ a, x = .ok a) ↔ ∃ b, y = .ok b := by
  cases x <;> cases y <;> simp_all [Agree]

theorem Agree.exists_error {r : α → β → Prop} {x : Evaluated α} {y : Evaluated β}
    (h : Agree r x y) : (∃ e, x = .error e) ↔ ∃ e, y = .error e := by
  cases x <;> cases y <;> simp_all [Agree]

theorem Agree.of_ok {r : α → β → Prop} {x : Evaluated α} {y : Evaluated β} {a : α} {b : β}
    (h : Agree r x y) (hx : x = .ok a) (hy : y = .ok b) : r a b := by
  rwa [hx, hy] at h

theorem Agree.trans {x y z : Evaluated Violations} (h : Agree Alike x y) (h' : Agree Alike y z) :
    Agree Alike x z := by
  cases x with
  | ok vs =>
    cases y with
    | ok ws =>
      cases z with
      | ok us => exact Alike.trans h h'
      | error => exact h'.elim
    | error => exact h.elim
  | error =>
    cases y with
    | ok => exact h.elim
    | error =>
      cases z with
      | ok => exact h'.elim
      | error => trivial

namespace SchemaNode

theorem collect_agree {check : α → Evaluated Violations} {check' : β → Evaluated Violations}
    {as : List α} {bs : List β}
    (h : List.Forall₂ (fun a b => Agree Alike (check a) (check' b)) as bs) :
    Agree Alike (collect check as) (collect check' bs) := by
  induction h with
  | nil => exact Alike.refl []
  | cons hfirst _ ih =>
    exact hfirst.bind fun _ _ hfirst => ih.bind fun _ _ hothers => hfirst.append hothers

theorem collect_perm {check : α → Evaluated Violations} {as bs : List α} (h : as.Perm bs) :
    Agree Alike (collect check as) (collect check bs) := by
  induction h with
  | nil => exact Alike.refl []
  | cons a _ ih =>
    exact (Agree.refl Alike.refl (check a)).bind fun _ _ hfirst =>
      ih.bind fun _ _ hothers => hfirst.append hothers
  | swap a b rest =>
    simp only [collect]
    cases check a with
    | error => cases check b <;> trivial
    | ok va =>
      cases check b with
      | error => trivial
      | ok vb =>
        cases collect check rest with
        | error => trivial
        | ok others =>
          show Alike (vb ++ (va ++ others)) (va ++ (vb ++ others))
          unfold Alike
          simp only [List.map_append]
          exact List.perm_append_comm_assoc ..
  | trans _ _ ih ih' => exact ih.trans ih'

end SchemaNode

end

/-! ## Values in another order -/

namespace Json.Reordered

variable {v w a b : Json} {as bs : List Json} {ms ns : Members Json}

theorem same_iff (h : v.Reordered w) (h' : a.Reordered b) : v.same a = w.same b := by
  rw [Bool.eq_iff_iff]
  constructor
  · exact fun hsame => Json.same_trans h.symm.same (Json.same_trans hsame h'.same)
  · exact fun hsame => Json.same_trans h.same (Json.same_trans hsame h'.symm.same)

theorem same_left (h : v.Reordered w) (expected : Json) : v.same expected = w.same expected := by
  rw [Bool.eq_iff_iff]
  exact ⟨Json.same_trans h.symm.same, Json.same_trans h.same⟩

theorem hasKind_eq (h : v.Reordered w) (kind : Json.Kind) : v.hasKind kind = w.hasKind kind := by
  cases h.parts with
  | arr | obj => cases kind <;> rfl
  | _ => rfl

theorem length_members (h : (Json.obj ms).Reordered (.obj ns)) : ms.length = ns.length := by
  obtain ⟨ks, hks, hlength, -⟩ := Json.obj_same_iff.mp h.same
  cases hks
  exact hlength

theorem members (h : (Json.obj ms).Reordered (.obj ns)) : ∃ ks : Members Json,
    List.Forall₂ (fun m k => m.1 = k.1 ∧ m.2.Reordered k.2) ms ks ∧ ks.Perm ns := by
  have hnames := Json.isWellFormed_names h.left
  have hpartner : ∀ m ∈ ms, ∃ b, (m.1, b) ∈ ns ∧ Members.get? ns m.1 = some b ∧ m.2.Reordered b := by
    intro m hm
    obtain ⟨ks, b, hks, hb, hab⟩ := h.member hm
    cases hks
    exact ⟨b, hb, Members.get?_of_mem (Json.isWellFormed_names h.right) hb, hab⟩
  refine ⟨ms.map fun m => (m.1, (Members.get? ns m.1).getD .null), ?_, ?_⟩
  · rw [List.forall₂_map_right_iff, List.forall₂_same]
    intro m hm
    obtain ⟨b, -, hget, hab⟩ := hpartner m hm
    exact ⟨rfl, by rwa [hget]⟩
  · refine (List.subperm_of_subset ?_ ?_).perm_of_length_le ?_
    · refine List.Nodup.of_map (·.1) ?_
      rwa [List.map_map]
    · rintro _ hmem
      obtain ⟨m, hm, rfl⟩ := List.mem_map.mp hmem
      obtain ⟨b, hb, hget, -⟩ := hpartner m hm
      rwa [hget]
    · rw [List.length_map, h.length_members]

end Json.Reordered

/-! ## Checks of the value alone -/

section

variable {v w : Json} {as bs : List Json} {ms ns : Members Json}

theorem keyword_failLimit {α : Type} {limit : Option α} {breaks breaks' : α → Bool}
    {keyword : String} {message message' : α → String} (h : ∀ l ∈ limit, breaks l = breaks' l) :
    (failLimit limit breaks keyword message).map (·.keyword) =
      (failLimit limit breaks' keyword message').map (·.keyword) := by
  cases limit with
  | none => rfl
  | some l =>
    rw [failLimit, failLimit, failIf, failIf, h l rfl]
    cases breaks' l <;> rfl

theorem ValueKeywords.keyword_checks {keywords : ValueKeywords} (h : v.Reordered w) :
    (keywords.checkType v ++ keywords.checkOptions v).map (·.keyword) =
      (keywords.checkType w ++ keywords.checkOptions w).map (·.keyword) := by
  simp only [checkType, checkOptions, List.map_append]
  congr 1
  · refine keyword_failLimit fun types _ => ?_
    rw [funext h.hasKind_eq]
  · congr 1
    · refine keyword_failLimit fun options _ => ?_
      rw [funext h.same_left]
    · exact keyword_failLimit fun expected _ => by rw [h.same_left]

theorem findIdx?_same {a b : Json} (h : a.Reordered b) (hitems : List.Forall₂ Json.Reordered as bs) :
    as.findIdx? a.same = bs.findIdx? b.same := by
  induction hitems with
  | nil => rfl
  | cons hfirst _ ih => rw [List.findIdx?_cons, List.findIdx?_cons, h.same_iff hfirst, ih]

theorem firstEqualPair?_same {index : Nat} (h : List.Forall₂ Json.Reordered as bs) :
    firstEqualPair? index as = firstEqualPair? index bs := by
  induction h generalizing index with
  | nil => rfl
  | cons hfirst hrest ih => rw [firstEqualPair?, firstEqualPair?, findIdx?_same hfirst hrest, ih]

theorem ArrayKeywords.check_same {keywords : ArrayKeywords} (h : List.Forall₂ Json.Reordered as bs) :
    keywords.check as = keywords.check bs := by
  simp only [check, h.length_eq, firstEqualPair?_same h]

theorem ObjectKeywords.check_same {keywords : ObjectKeywords}
    (h : (Json.obj ms).Reordered (.obj ns)) : keywords.check ms = keywords.check ns := by
  simp only [check, missingDependencies, has_eq h, h.length_members]

namespace SchemaNode

variable {node : SchemaNode}

theorem keyword_failures (h : v.Reordered w) :
    (node.failures v).map (·.keyword) = (node.failures w).map (·.keyword) := by
  have hchecks := @ValueKeywords.keyword_checks v w node.value h
  simp only [failures, List.map_append] at hchecks ⊢
  rw [hchecks]
  cases h.parts with
  | arr hitems => simp only [ArrayKeywords.check_same hitems]
  | obj hmembers => simp only [ObjectKeywords.check_same hmembers]
  | _ => rfl

theorem formatFailures_same (h : v.Reordered w) (assertFormats : Bool) :
    node.formatFailures assertFormats v = node.formatFailures assertFormats w := by
  cases h.parts <;> rfl

theorem lacksDigits_same (h : v.Reordered w) : node.lacksDigits v = node.lacksDigits w := by
  cases h.parts <;> rfl

theorem shown_all_hasText (h : v.Reordered w) (keyword : String) :
    (node.shown v keyword).all Json.hasText = (node.shown w keyword).all Json.hasText := by
  simp only [shown, List.all_append]
  split
  · simp only [List.all_cons, h.hasText_eq]
  · rfl

theorem writeOut_same (h : v.Reordered w) (keywords : List String) :
    node.writeOut v keywords = node.writeOut w keywords := by
  simp only [writeOut, shown_all_hasText h]

theorem writeOwn_same (h : v.Reordered w) : node.writeOwn v = node.writeOwn w := by
  rw [writeOwn, writeOwn, lacksDigits_same h, keyword_failures h, writeOut_same h]

theorem Unshown.reordered (hunshown : node.Unshown v) (h : v.Reordered w) : node.Unshown w := by
  obtain ⟨keyword, shown, hshown, hlong⟩ := hunshown
  have hall : ¬ (node.shown w keyword).all Json.hasText = true := by
    rw [← shown_all_hasText h]
    intro hall
    rw [List.all_eq_true.mp hall shown hshown] at hlong
    cases hlong
  simp only [List.all_eq_true, not_forall, Bool.not_eq_true] at hall
  obtain ⟨shown', hshown', hlong'⟩ := hall
  exact ⟨keyword, shown', hshown', hlong'⟩

end SchemaNode

end

/-! ## One node -/

def Apply.IgnoresOrder (apply : Apply) : Prop :=
  ∀ id v w path, v.Reordered w → Agree Alike (apply id v path) (apply id w path)

namespace SchemaNode

variable {node : SchemaNode} {schema : CompiledSchema} {options : EvaluationOptions} {apply : Apply}
  {v w : Json} {as bs : List Json} {ms ns : Members Json} {path : Path}

theorem alike_failures {failures failures' : List Failure}
    (h : failures.map (·.keyword) = failures'.map (·.keyword)) :
    Alike (failures.map fun failure => node.violation path failure.keyword failure.message)
      (failures'.map fun failure => node.violation path failure.keyword failure.message) := by
  have hmarks : ∀ failures : List Failure,
      (failures.map fun failure => node.violation path failure.keyword failure.message).map
        Violation.mark =
      (failures.map (·.keyword)).map fun keyword => (path, keyword, node.keywordPath keyword) := by
    intro failures
    rw [List.map_map, List.map_map]
    rfl
  unfold Alike
  rw [hmarks, hmarks, h]

theorem alike_violation (keyword message message' : String) :
    Alike [node.violation path keyword message] [node.violation path keyword message'] :=
  List.Perm.refl _

theorem ownViolations_agree (h : v.Reordered w) :
    Agree Alike (node.ownViolations options v path) (node.ownViolations options w path) := by
  have hformat : Agree (· = ·)
      ((node.formatFailures options.assertFormats v).mapError
        (EvaluationFault.pattern (v.string?.getD "") ·))
      ((node.formatFailures options.assertFormats w).mapError
        (EvaluationFault.pattern (w.string?.getD "") ·)) := by
    rw [formatFailures_same h]
    cases node.formatFailures options.assertFormats w with
    | ok failures => exact rfl
    | error fault => trivial
  refine hformat.bind fun failures failures' heq => alike_failures ?_
  rw [heq, List.map_append, List.map_append, keyword_failures h]

variable (happly : apply.IgnoresOrder)

include happly

theorem descend_agree (applicator : Applicator) (child : NodeId) (h : v.Reordered w) :
    Agree Alike (node.descend schema apply applicator child v path)
      (node.descend schema apply applicator child w path) := by
  unfold descend
  split
  · exact Alike.refl _
  · exact happly child v w path h

/-! ### Arrays -/

theorem countMatches_agree {child : NodeId} {index : Nat} (h : List.Forall₂ Json.Reordered as bs) :
    Agree (· = ·) (countMatches apply child path index as)
      (countMatches apply child path index bs) := by
  induction h generalizing index with
  | nil => exact rfl
  | cons hfirst _ ih =>
    refine (happly child _ _ _ hfirst).bind fun found found' halike => ih.bind fun others _ heq => ?_
    show (if found.isEmpty then 1 else 0) + others = (if found'.isEmpty then 1 else 0) + _
    rw [halike.isEmpty_eq, heq]

theorem containsViolations_agree (h : List.Forall₂ Json.Reordered as bs) :
    Agree (· = ·) (node.containsViolations apply path as)
      (node.containsViolations apply path bs) := by
  unfold containsViolations
  split
  · exact rfl
  · refine (countMatches_agree happly h).bind fun found found' heq => ?_
    rw [heq]
    exact rfl

theorem itemViolations_agree (index : Nat) (h : v.Reordered w) :
    Agree Alike (node.itemViolations schema apply path index v)
      (node.itemViolations schema apply path index w) := by
  unfold itemViolations
  split
  · exact descend_agree happly _ _ h
  · exact descend_agree happly _ _ h
  · exact Alike.refl []

theorem arrayShown_agree (h : (Json.arr as).Reordered (.arr bs)) :
    Agree Alike (node.arrayShown schema apply path as) (node.arrayShown schema apply path bs) := by
  obtain ⟨_, hbs, hitems⟩ := h.arr
  cases hbs
  have hindexed : ∀ n, List.Forall₂ (fun p q => Agree Alike
      (node.itemViolations schema apply path p.2 p.1) (node.itemViolations schema apply path q.2 q.1))
      (as.zipIdx n) (bs.zipIdx n) := by
    intro n
    clear h
    induction hitems generalizing n with
    | nil => exact .nil
    | cons hfirst _ ih => exact .cons (itemViolations_agree happly n hfirst) (ih (n + 1))
  refine (collect_agree (hindexed 0)).bind fun inside inside' hinside => ?_
  refine (containsViolations_agree happly hitems).bind fun contained contained' heq => ?_
  rw [heq, writeOut_same h]
  exact (Agree.refl (fun _ => rfl) _).bind fun _ _ (_ : () = ()) => hinside.append (Alike.refl _)

/-! ### Objects -/

theorem propertyViolations_agree (name : String) (h : v.Reordered w) :
    Agree Alike (node.propertyViolations schema apply path name v)
      (node.propertyViolations schema apply path name w) := by
  have hnamed : ∀ path, Agree Alike (node.namedViolations schema apply name v path)
      (node.namedViolations schema apply name w path) := by
    intro path
    unfold namedViolations
    split
    · exact descend_agree happly _ _ h
    · exact Alike.refl []
  have hmatched : ∀ matching path, Agree Alike (node.patternViolations schema apply matching v path)
      (node.patternViolations schema apply matching w path) :=
    fun matching path => collect_agree (List.forall₂_same.mpr fun entry _ =>
      descend_agree happly _ entry.node h)
  have hadditional : ∀ covered path,
      Agree Alike (node.additionalViolations schema apply covered name v path)
        (node.additionalViolations schema apply covered name w path) := by
    intro covered path
    unfold additionalViolations
    split
    · exact descend_agree happly _ _ h
    · exact Alike.refl []
  exact (hnamed _).bind fun _ _ hnamed => (hmatched _ _).bind fun _ _ hmatched =>
    (hadditional _ _).bind fun _ _ hadditional => (hnamed.append hmatched).append hadditional

theorem objectViolations_agree (h : (Json.obj ms).Reordered (.obj ns)) :
    Agree Alike (node.objectViolations schema apply path ms)
      (node.objectViolations schema apply path ns) := by
  obtain ⟨ks, hpartners, hperm⟩ := h.members
  have hinside : Agree Alike
      (collect (fun m => node.propertyViolations schema apply path m.1 m.2) ms)
      (collect (fun m => node.propertyViolations schema apply path m.1 m.2) ns) := by
    refine (collect_agree (hpartners.imp fun m k hmk => ?_)).trans (collect_perm hperm)
    rw [hmk.1]
    exact propertyViolations_agree happly k.1 hmk.2
  have hnames : Agree Alike (collect (node.nameViolations schema apply path) ms.names)
      (collect (node.nameViolations schema apply path) ns.names) := by
    have heq : ms.names = ks.names := by
      rw [← List.forall₂_eq_eq_eq]
      exact List.forall₂_map_left_iff.mpr
        (List.forall₂_map_right_iff.mpr (hpartners.imp fun _ _ hmk => hmk.1))
    rw [heq]
    exact collect_perm (hperm.map _)
  have hdependent : Agree Alike
      (collect (fun entry => node.dependentViolations schema apply path ms entry.1 entry.2)
        node.object.dependentSchemas)
      (collect (fun entry => node.dependentViolations schema apply path ns entry.1 entry.2)
        node.object.dependentSchemas) := by
    refine collect_agree (List.forall₂_same.mpr fun entry _ => ?_)
    unfold dependentViolations
    rw [has_eq h]
    split
    · exact descend_agree happly _ _ h
    · exact Alike.refl []
  exact hinside.bind fun _ _ hinside => hnames.bind fun _ _ hnames =>
    hdependent.bind fun _ _ hdependent => (hinside.append hnames).append hdependent

/-! ### Compositions -/

theorem failedBranches_agree {branches : List NodeId} (h : v.Reordered w) :
    Agree (List.Forall₂ Alike) (failedBranches apply v path branches)
      (failedBranches apply w path branches) := by
  induction branches with
  | nil => exact .nil
  | cons branch rest ih =>
    refine (happly branch v w path h).bind fun found found' hfound => ?_
    rw [hfound.isEmpty_eq]
    split
    · exact .nil
    split
    · exact .cons hfound .nil
    · refine ih.bind fun others others' hothers => ?_
      show List.Forall₂ Alike (if others.isEmpty then [] else found :: others)
        (if others'.isEmpty then [] else found' :: others')
      cases hothers with
      | nil => exact .nil
      | cons hfirst hrest => exact .cons hfound (.cons hfirst hrest)

theorem branchOutcomes_agree {branches : List NodeId} (h : v.Reordered w) :
    Agree (List.Forall₂ Alike) (branchOutcomes apply v path branches)
      (branchOutcomes apply w path branches) := by
  induction branches with
  | nil => exact .nil
  | cons branch rest ih =>
    exact (happly branch v w path h).bind fun _ _ hfound => ih.bind fun _ _ hothers =>
      .cons hfound hothers

omit happly in
/-- Alike branches are of one length, so the closest one stands at one place. -/
theorem closest_alike {outcomes outcomes' : List Violations}
    (h : List.Forall₂ Alike outcomes outcomes') : Alike (closest outcomes) (closest outcomes') := by
  cases h with
  | nil => exact Alike.refl []
  | @cons best best' rest rest' hbest hrest =>
    simp only [closest]
    induction hrest generalizing best best' with
    | nil => exact hbest
    | @cons next next' _ _ hnext _ ih =>
      rw [List.foldl_cons, List.foldl_cons]
      refine ih ?_
      rw [hnext.length_eq, hbest.length_eq]
      split
      · exact hnext
      · exact hbest

omit happly in
theorem matchedIndices_alike {outcomes outcomes' : List Violations}
    (h : List.Forall₂ Alike outcomes outcomes') :
    matchedIndices outcomes = matchedIndices outcomes' := by
  unfold matchedIndices
  generalize 0 = n
  induction h generalizing n with
  | nil => rfl
  | cons hfirst _ ih =>
    simp only [List.zipIdx_cons, List.filter_cons, hfirst.isEmpty_eq]
    split
    · simp only [List.map_cons, ih]
    · exact ih _

theorem compositionViolations_agree (h : v.Reordered w) :
    Agree Alike (node.compositionViolations schema apply v path)
      (node.compositionViolations schema apply w path) := by
  have hall : Agree Alike
      (collect (fun child => node.descend schema apply (.plain "allOf") child v path)
        node.composition.allOf)
      (collect (fun child => node.descend schema apply (.plain "allOf") child w path)
        node.composition.allOf) :=
    collect_agree (List.forall₂_same.mpr fun child _ => descend_agree happly _ child h)
  have hany : Agree Alike (node.anyOfViolations apply v path)
      (node.anyOfViolations apply w path) := by
    refine (failedBranches_agree happly h).bind fun failed failed' hfailed => ?_
    have hclosest := closest_alike hfailed
    cases hfailed with
    | nil => exact Alike.refl []
    | cons => exact (alike_violation "anyOf" _ _).append hclosest
  have hone : Agree Alike (node.oneOfViolations apply v path)
      (node.oneOfViolations apply w path) := by
    refine (branchOutcomes_agree happly h).bind fun outcomes outcomes' houtcomes => ?_
    have hempty : outcomes.isEmpty = outcomes'.isEmpty := by cases houtcomes <;> rfl
    have hshown : Alike (if (matchedIndices outcomes').isEmpty then closest outcomes else [])
        (if (matchedIndices outcomes').isEmpty then closest outcomes' else []) := by
      split
      · exact closest_alike houtcomes
      · exact Alike.refl []
    dsimp only
    rw [matchedIndices_alike houtcomes, hempty, houtcomes.length_eq]
    split
    · exact Alike.refl []
    · exact (alike_violation "oneOf" _ _).append hshown
  have hnot : Agree Alike (node.notViolations apply v path) (node.notViolations apply w path) := by
    unfold notViolations
    split
    · exact Alike.refl []
    · refine (happly _ v w path h).bind fun found found' hfound => ?_
      rw [hfound.isEmpty_eq]
      exact Alike.refl _
  have hcondition : Agree Alike (node.conditionViolations schema apply v path)
      (node.conditionViolations schema apply w path) := by
    unfold conditionViolations
    split
    · exact Alike.refl []
    · refine (happly _ v w path h).bind fun found found' hfound => ?_
      rw [hfound.isEmpty_eq]
      dsimp only
      split
      · exact descend_agree happly _ _ h
      · exact Alike.refl []
  exact hall.bind fun _ _ hall => hany.bind fun _ _ hany => hone.bind fun _ _ hone =>
    hnot.bind fun _ _ hnot => hcondition.bind fun _ _ hcondition =>
      (((hall.append hany).append hone).append hnot).append hcondition

/-! ### Whole nodes -/

theorem shownViolations_agree (h : v.Reordered w) :
    Agree Alike (node.shownViolations schema options apply v path)
      (node.shownViolations schema options apply w path) := by
  have hreferred : Agree Alike (node.refViolations apply v path)
      (node.refViolations apply w path) := by
    unfold refViolations
    split
    · exact happly _ v w path h
    · exact Alike.refl []
  have hinner : Agree Alike (node.innerShown schema apply v path)
      (node.innerShown schema apply w path) := by
    cases h.parts with
    | arr => exact arrayShown_agree happly h
    | obj hmembers => exact objectViolations_agree happly hmembers
    | _ => exact Alike.refl []
  unfold shownViolations
  cases hboolean : node.boolean with
  | some accepts =>
    simp only [SchemaNode.violations, hboolean]
    cases accepts <;> exact Alike.refl _
  | none =>
    refine hreferred.bind fun _ _ hreferred => ?_
    rw [writeOwn_same h]
    exact (Agree.refl (fun _ => rfl) _).bind fun _ _ (_ : () = ()) =>
      (ownViolations_agree h).bind fun _ _ hown => hinner.bind fun _ _ hinner =>
        (compositionViolations_agree happly h).bind fun _ _ hcomposed =>
          ((hreferred.append hown).append hinner).append hcomposed

end SchemaNode

/-! ## Visits -/

theorem SchemaNode.Applies.reordered {node : SchemaNode} {v w value : Json} {path path' : Path}
    {child : NodeId} (happlies : node.Applies v path child value path') (h : v.Reordered w) :
    ∃ value', node.Applies w path child value' path' ∧ value.Reordered value' := by
  cases happlies with
  | inPlace hchild => exact ⟨w, .inPlace hchild, h⟩
  | item hchild hitem =>
    obtain ⟨bs, b, rfl, hb, hab⟩ := h.item hitem
    exact ⟨b, .item hchild hb, hab⟩
  | member hchild hmember =>
    obtain ⟨ns, b, rfl, hb, hab⟩ := h.member hmember
    exact ⟨b, .member hchild hb, hab⟩
  | name hchild hname =>
    obtain ⟨⟨name, a⟩, ha, rfl⟩ := List.mem_map.mp hname
    obtain ⟨ns, b, rfl, hb, -⟩ := h.member ha
    exact ⟨.str name, .name hchild (List.mem_map.mpr ⟨_, hb, rfl⟩), .refl rfl⟩

namespace CompiledSchema

variable {schema : CompiledSchema} {options : EvaluationOptions} {v w : Json}

theorem Reaches.reordered {id : NodeId} {path : Path} {there : Visit}
    (hreach : schema.Reaches ⟨id, v, path⟩ there) (h : v.Reordered w) :
    ∃ value, schema.Reaches ⟨id, w, path⟩ ⟨there.id, value, there.path⟩ ∧
      there.value.Reordered value := by
  induction hreach with
  | refl => exact ⟨w, .refl, h⟩
  | tail _ hnext ih =>
    obtain ⟨value, hreach, hvalue⟩ := ih
    obtain ⟨node, hnode, happlies⟩ := hnext
    obtain ⟨value', happlies', hvalue'⟩ := happlies.reordered hvalue
    exact ⟨value', hreach.tail ⟨node, hnode, happlies'⟩, hvalue'⟩

theorem Escapes.reordered {there : Visit} {fault : EvaluationFault} {value : Json}
    (hescapes : schema.Escapes options there fault) (h : there.value.Reordered value) :
    schema.Escapes options ⟨there.id, value, there.path⟩ fault := by
  cases hescapes with
  | expression hnode hformat hassert hvalue hread hbeyond =>
    rw [hvalue] at h
    cases h.parts
    exact .expression hnode hformat hassert rfl hread hbeyond
  | integer hnode hshown => exact .integer hnode (hshown.reordered h)

theorem NothingEscapes.reordered (hnothing : schema.NothingEscapes options v)
    (h : v.Reordered w) : schema.NothingEscapes options w := by
  intro there fault hreach hescapes
  obtain ⟨value, hreach', hvalue⟩ := hreach.reordered h.symm
  exact hnothing _ fault hreach' (hescapes.reordered hvalue)

/-! ## Whole evaluations -/

theorem evaluateShown_agree (budget : Nat) :
    Apply.IgnoresOrder (schema.evaluateShown options budget) := by
  induction budget with
  | zero => exact fun _ _ _ _ _ => trivial
  | succ budget ih =>
    intro id v w path h
    cases hnode : schema.node? id with
    | some node => simpa only [evaluateShown, hnode] using SchemaNode.shownViolations_agree ih h
    | none =>
      simp only [evaluateShown, hnode]
      exact Alike.refl []

def IsTooDeep (schema : CompiledSchema) (options : EvaluationOptions) (instance_ : Json) : Prop :=
  ∃ pointer, schema.validateShown options instance_ = .error (.tooDeep options.maxDepth pointer)

theorem NothingEscapes.isTooDeep (hnothing : schema.NothingEscapes options v)
    (h : ∃ fault, schema.validateShown options v = .error fault) : schema.IsTooDeep options v := by
  obtain ⟨fault, herror⟩ := h
  obtain ⟨pointer, rfl⟩ := hnothing.tooDeep herror
  exact ⟨pointer, herror⟩

def circleBesideFormat : Json :=
  .obj [("properties", .obj [("a", .obj [("format", .str "regex")]),
    ("b", .obj [("$ref", .str "#/properties/b")])])]

def expressionFirst : Json := .obj [("a", .str "x{4294967295}"), ("b", .null)]

def expressionLast : Json := .obj [("b", .null), ("a", .str "x{4294967295}")]

end CompiledSchema

end JsonSchema
