import JsonSchema.Proofs.Schema.Queue

/-!
# What a reference takes in

A reference may call for one registered document, which is added before its places are walked over.
Where the reference fails, the document may be missing, but nothing else was added.
-/

namespace JsonSchema

open CompileM

namespace Compilation

/--
The document that a reference makes a compilation add: the URI is not that of the document that the
reference stands in, no document goes by it yet, and one is registered under it.
-/
def addition (options : CompileOptions) (c : Compilation) (p : PendingRef) :
    Option String :=
  match Uri.locate (c.baseOf p.key) p.ref with
  | .error _ => none
  | .ok (uri, _) =>
    if isOwnUri (c.baseOf p.key) uri || (Members.get? c.aliases uri).isSome ||
      (options.registry.get? uri).isNone then none else some uri

/-- The documents with the keys in `added`, and no others, were taken in between two states. -/
structure Adds (c c' : Compilation) (added : List String) : Prop where
  documents : Members.names c'.documents = added ++ Members.names c.documents
  nodes : c'.nodes = c.nodes
  locations : c'.locations = c.locations
  pending : c'.pending = c.pending
  targets : c'.targets = c.targets

variable {options : CompileOptions} {c : Compilation} {p : PendingRef} {uri : String}

theorem addition_eq_some (h : c.addition options p = some uri) :
    uri ≠ "" ∧ Members.get? c.aliases uri = none ∧ (options.registry.get? uri).isSome := by
  unfold addition at h
  split at h
  case h_1 => cases h
  case h_2 found fragment hlocate =>
    split at h
    case isTrue => cases h
    case isFalse hcalled =>
      cases h
      simp only [Bool.or_eq_true, not_or, Bool.not_eq_true, isOwnUri, Option.isSome_eq_false_iff,
        Option.isNone_iff_eq_none, beq_iff_eq] at hcalled
      obtain ⟨⟨⟨hempty, -⟩, hnew⟩, hregistered⟩ := hcalled
      exact ⟨hempty, hnew, Option.isSome_iff_ne_none.mpr hregistered⟩

theorem Adds.refl (c : Compilation) : Adds c c [] := ⟨rfl, rfl, rfl, rfl, rfl⟩

end Compilation

namespace CompileM

open Compilation

variable {options : CompileOptions} {content : Json} {c c' : Compilation} {first : PendingRef}
  {key ref uri : String}

/-! ## Documents -/

theorem checkDraft_error {e : CompileFault}
    (h : Runs (checkDraft options key content) c (.error e) c') : c' = c := by
  unfold checkDraft at h
  dsimp only at h
  split at h
  · replace h := runs_modify_bind.mp h
    exact nomatch (runs_pure.mp h).1
  split at h
  · exact (runs_throw.mp h).2.symm
  split at h
  · exact (runs_throw.mp h).2.symm
  · rcases runs_bind_error.mp h with h | ⟨_, c₂, -, h⟩
    · replace h := runs_modify_bind.mp h
      exact nomatch (runs_modify.mp h).1
    · exact nomatch (runs_pure.mp h).1

theorem addDocument_adds (h : Runs (addDocument options key content) c (.ok ⟨⟩) c') :
    Adds c c' [key] := by
  obtain ⟨declared, warnings, log, -, -, rfl⟩ := addDocument_ok h
  exact ⟨rfl, rfl, rfl, rfl, rfl⟩

theorem addDocument_refused {e : CompileFault}
    (h : Runs (addDocument options key content) c (.error e) c') : Adds c c' [] := by
  rcases runs_bind_error.mp h with hlift | ⟨declared, c₁, hlift, h⟩
  · obtain ⟨-, rfl⟩ := runs_lift_error.mp hlift
    exact .refl c
  obtain ⟨-, rfl⟩ := runs_lift_ok.mp hlift
  replace h := runs_modify_bind.mp h
  rcases runs_bind_error.mp h with hdraft | ⟨declaration, c₂, -, h⟩
  · obtain rfl := checkDraft_error hdraft
    exact ⟨rfl, rfl, rfl, rfl, rfl⟩
  · exact nomatch (runs_modify.mp h).1

/-! ## References -/

theorem takeDocument_idle {outcome : Except CompileFault String}
    (hidle : (Members.get? c.aliases uri).isSome ∨ options.registry.get? uri = none)
    (h : Runs (takeDocument options ref key uri) c outcome c') : c' = c := by
  replace h := runs_get_bind.mp h
  split at h
  case h_1 => exact (runs_pure.mp h).2.symm
  case h_2 hnone hsome => simp [hnone, hsome] at hidle
  case h_3 => exact (runs_throw.mp h).2.symm

theorem takeDocument_eq {content : Json} (hnew : Members.get? c.aliases uri = none)
    (hcontent : options.registry.get? uri = some content) :
    result (takeDocument options ref key uri) c =
      result (do addDocument options uri content; return uri) c := by
  have hget : ∀ f : Compilation → CompileM String, result (get >>= f) c = result (f c) c :=
    fun _ => rfl
  rw [takeDocument, hget]
  simp only [hnew, hcontent]

/-- What a step that may add documents does: it adds those it is called for, or stops before. -/
def Fetches {α : Type} (called : List String) (outcome : Except CompileFault α)
    (c c' : Compilation) : Prop :=
  ∃ found c₁, found <:+ called ∧ (∀ a, outcome = .ok a → found = called) ∧ Adds c c₁ found ∧
    Grows c₁ c'

theorem Fetches.none {α : Type} {outcome : Except CompileFault α} (h : Grows c c') :
    Fetches [] outcome c c' :=
  ⟨[], c, List.suffix_rfl, fun _ _ => rfl, .refl c, h⟩

theorem Fetches.more {α β : Type} {called : List String} {a : α}
    {outcome : Except CompileFault β} {c'' : Compilation}
    (h : Fetches called (.ok a : Except CompileFault α) c c') (hgrows : Grows c' c'') :
    Fetches called outcome c c'' := by
  obtain ⟨found, c₁, hfound, hdone, hadds, hgrows₁⟩ := h
  exact ⟨found, c₁, hfound, fun _ _ => hdone a rfl, hadds, hgrows₁.trans hgrows⟩

theorem Fetches.failed {α β : Type} {called : List String} {e e' : CompileFault}
    (h : Fetches called (.error e : Except CompileFault α) c c') :
    Fetches called (.error e' : Except CompileFault β) c c' := by
  obtain ⟨found, c₁, hfound, -, hadds, hgrows⟩ := h
  exact ⟨found, c₁, hfound, nofun, hadds, hgrows⟩

theorem takeDocument_fetches {outcome : Except CompileFault String} {fragment : String}
    (hlocate : Uri.locate (c.baseOf first.key) first.ref = .ok (uri, fragment))
    (hown : isOwnUri (c.baseOf first.key) uri = false)
    (h : Runs (takeDocument options first.ref first.key uri) c outcome c') :
    Fetches (c.addition options first).toList outcome c c' := by
  unfold addition
  simp only [hlocate, hown, Bool.false_or]
  split
  case isTrue hidle =>
    obtain rfl := takeDocument_idle (by simpa using hidle) h
    exact .none (.refl _)
  case isFalse hcalled =>
    simp only [Bool.or_eq_true, not_or, Bool.not_eq_true, Option.isSome_eq_false_iff,
      Option.isNone_iff_eq_none] at hcalled
    obtain ⟨hnew, hregistered⟩ := hcalled
    obtain ⟨content, hcontent⟩ := Option.ne_none_iff_exists'.mp hregistered
    replace h := (takeDocument_eq hnew hcontent).symm.trans h
    rcases runs_bind.mp h with ⟨e, rfl, hadd⟩ | ⟨_, c₁, hadd, h⟩
    · exact ⟨[], c', List.nil_suffix, nofun, addDocument_refused hadd, .refl c'⟩
    · obtain ⟨-, rfl⟩ := runs_pure.mp h
      exact ⟨[uri], c₁, List.suffix_rfl, fun _ _ => rfl, addDocument_adds hadd, .refl c₁⟩

theorem targetDocument_fetches {outcome : Except CompileFault String} {fragment : String}
    (hlocate : Uri.locate (c.baseOf first.key) first.ref = .ok (uri, fragment))
    (h : Runs (targetDocument options first.ref first.key (c.baseOf first.key) uri) c outcome c') :
    Fetches (c.addition options first).toList outcome c c' := by
  unfold targetDocument at h
  split at h
  case isTrue hown =>
    obtain ⟨-, rfl⟩ := runs_pure.mp h
    have hnone : c.addition options first = none := by simp [addition, hlocate, hown]
    rw [hnone]
    exact .none (.refl c)
  case isFalse hown =>
    rcases runs_bind.mp h with ⟨e, rfl, htake⟩ | ⟨target, c₁, htake, h⟩
    · exact takeDocument_fetches hlocate (by simpa using hown) htake
    · refine (takeDocument_fetches hlocate (by simpa using hown) htake).more ?_
      exact ((Growing.compileRoot options target).bind fun _ => .pure target).grows h

/-- A reference adds the document that it calls for, and then only walks over places. -/
theorem resolveRef_fetches {outcome : Except CompileFault NodeId}
    (h : Runs (resolveRef options first.ref first.key) c outcome c') :
    Fetches (c.addition options first).toList outcome c c' := by
  replace h := runs_get_bind.mp h
  rcases runs_bind.mp h with ⟨e, rfl, hlift⟩ | ⟨⟨uri, fragment⟩, c₁, hlift, h⟩
  · obtain ⟨⟨fault, hlocate, -⟩, rfl⟩ := runs_lift_error.mp hlift
    have hnone : c.addition options first = none := by simp [addition, hlocate]
    rw [hnone]
    exact .none (.refl c)
  obtain ⟨hlocate, rfl⟩ := runs_lift_ok.mp hlift
  rcases runs_bind.mp h with ⟨e, rfl, htarget⟩ | ⟨target, c₁, htarget, h⟩
  · exact (targetDocument_fetches hlocate htarget).failed
  refine (targetDocument_fetches hlocate htarget).more ?_
  split at h
  · exact (Growing.anchorTarget first.ref target fragment).grows h
  · exact (Growing.pointerTarget options first.ref target fragment).grows h

end CompileM

end JsonSchema
