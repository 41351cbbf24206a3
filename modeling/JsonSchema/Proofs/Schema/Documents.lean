import JsonSchema.Proofs.Schema.Visit
import JsonSchema.Proofs.Uri.Parts

/-!
# Documents that a compilation takes in

The document that is compiled has the empty key, and every other one is registered under its key.
Each is taken in once, and is found under its key and under the URI that it declares for itself.
-/

namespace JsonSchema

def CompileOptions.source? (options : CompileOptions) (root : Json) (key : String) : Option Json :=
  if key = "" then some root else options.registry.get? key

/-- Registered documents declare no other URI for themselves than their keys. -/
def CompileOptions.Keyed (options : CompileOptions) : Prop :=
  ∀ key content declared, options.registry.get? key = some content →
    CompileM.declaredBase key content = .ok declared → CompileM.documentBase key declared = key

namespace Compilation

open CompileM

variable {options : CompileOptions} {root content : Json} {c c' : Compilation}
  {key uri declared : String} {document : SourceDocument} {warnings : List String} {log : Log}

/-- Where drafts are asked for strictly, only a supported one is accepted. -/
def Accepts (options : CompileOptions) (content : Json) : Prop :=
  let declaration := DraftDeclaration.ofJson? (content.member? "$schema")
  declaration.isSupported = true ∨ declaration.hasText = true ∧ options.strict = false

structure Source (options : CompileOptions) (root : Json) (key : String)
    (document : SourceDocument) : Prop where
  content : options.source? root key = some document.content
  hash : '#' ∉ key.toList
  base : ∃ declared, declaredBase key document.content = .ok declared ∧
    document.base = documentBase key declared
  declaration : document.declaration =
    DraftDeclaration.ofJson? (document.content.member? "$schema")
  accepts : Accepts options document.content

/-- A document with this key is found under the URI. -/
def Names (c : Compilation) (uri key : String) : Prop :=
  ∃ document, (key, document) ∈ c.documents ∧ (uri = key ∨ uri = document.base)

structure Loaded (options : CompileOptions) (root : Json) (c : Compilation) : Prop where
  sources : ∀ key document, (key, document) ∈ c.documents → Source options root key document
  once : (Members.names c.documents).Nodup
  aliases : ∀ uri key, (uri, key) ∈ c.aliases ↔ c.Names uri key

theorem Loaded.get?_iff (h : c.Loaded options root) :
    Members.get? c.documents key = some document ↔ (key, document) ∈ c.documents :=
  ⟨Members.mem_of_get?, Members.get?_of_mem h.once⟩

theorem Loaded.source (h : c.Loaded options root)
    (hdocument : Members.get? c.documents key = some document) : Source options root key document :=
  h.sources key document (Members.mem_of_get? hdocument)

def taken (c : Compilation) (key : String) (content : Json) (declared : String)
    (warnings : List String) (log : Log) : Compilation :=
  { c with
    aliases := ownAliases key declared ++ c.aliases
    documents := (key, {
      key, content
      base := documentBase key declared
      declaration := DraftDeclaration.ofJson? (content.member? "$schema") }) :: c.documents
    warnings, log }

theorem get?_taken (other : String) :
    Members.get? (c.taken key content declared warnings log).documents other =
      if other = key then some {
        key, content
        base := documentBase key declared
        declaration := DraftDeclaration.ofJson? (content.member? "$schema") }
      else Members.get? c.documents other :=
  Members.get?_cons ..

theorem mem_ownAliases {entry : String × String} :
    entry ∈ ownAliases key declared ↔
      entry.2 = key ∧ (entry.1 = key ∨ entry.1 = documentBase key declared) := by
  obtain ⟨uri, target⟩ := entry
  unfold ownAliases documentBase
  split <;> simp [Prod.ext_iff] <;> grind

theorem Loaded.taken (h : c.Loaded options root) (hnew : ¬ c.Names key key)
    (hcontent : options.source? root key = some content) (hhash : '#' ∉ key.toList)
    (hdeclared : declaredBase key content = .ok declared) (haccepts : Accepts options content) :
    (c.taken key content declared warnings log).Loaded options root := by
  have hnotMem : key ∉ Members.names c.documents := by
    intro hmem
    obtain ⟨⟨key', document⟩, hentry, rfl⟩ := List.mem_map.mp hmem
    exact hnew ⟨document, hentry, .inl rfl⟩
  constructor
  · intro key' document hmem
    rcases List.mem_cons.mp hmem with heq | hmem
    · cases heq
      exact ⟨hcontent, hhash, ⟨declared, hdeclared, rfl⟩, rfl, haccepts⟩
    · exact h.sources key' document hmem
  · exact List.nodup_cons.mpr ⟨hnotMem, h.once⟩
  · intro uri key'
    rw [Compilation.taken, List.mem_append, mem_ownAliases, h.aliases, Names, Names]
    simp only [List.mem_cons]
    constructor
    · rintro (⟨rfl, huri⟩ | ⟨document, hmem, huri⟩)
      · exact ⟨_, .inl rfl, huri⟩
      · exact ⟨document, .inr hmem, huri⟩
    · rintro ⟨document, heq | hmem, huri⟩
      · cases heq
        exact .inl ⟨rfl, huri⟩
      · exact .inr ⟨document, hmem, huri⟩

theorem extends_taken (hnew : Members.get? c.documents key = none) :
    c.Extends (c.taken key content declared warnings log) := by
  refine ⟨fun key' document hget => ?_, List.prefix_rfl⟩
  have hne : key' ≠ key := by
    rintro rfl
    rw [hnew] at hget
    cases hget
  rwa [get?_taken, if_neg hne]

end Compilation

namespace CompileM

variable {options : CompileOptions} {content : Json} {c c' : Compilation} {key : String}

theorem checkDraft_ok {declaration : DraftDeclaration}
    (h : Runs (checkDraft options key content) c (.ok declaration) c') :
    declaration = DraftDeclaration.ofJson? (content.member? "$schema") ∧
      Compilation.Accepts options content ∧ ∃ warnings log, c' = { c with warnings, log } := by
  unfold checkDraft at h
  simp only at h
  split at h
  case isTrue hsupported =>
    replace h := runs_modify_bind.mp h
    obtain ⟨hok, rfl⟩ := runs_pure.mp h
    cases hok
    exact ⟨rfl, .inl hsupported, _, _, rfl⟩
  split at h
  case isTrue => exact nomatch (runs_throw.mp h).1
  case isFalse htext =>
  split at h
  case isTrue => exact nomatch (runs_throw.mp h).1
  case isFalse hstrict =>
    obtain ⟨_, c₁, hwarn, h⟩ := runs_bind_ok.mp h
    replace hwarn := runs_modify_bind.mp hwarn
    obtain ⟨-, rfl⟩ := runs_modify.mp hwarn
    obtain ⟨hok, rfl⟩ := runs_pure.mp h
    cases hok
    exact ⟨rfl, .inr ⟨by simpa using htext, Bool.not_eq_true _ ▸ hstrict⟩, _, _, rfl⟩

theorem addDocument_ok {u : Unit} (h : Runs (addDocument options key content) c (.ok u) c') :
    ∃ declared warnings log, declaredBase key content = .ok declared ∧
      Compilation.Accepts options content ∧ c' = c.taken key content declared warnings log := by
  obtain ⟨declared, c₁, hlift, h⟩ := runs_bind_ok.mp h
  obtain ⟨hdeclared, rfl⟩ := runs_lift_ok.mp hlift
  replace h := runs_modify_bind.mp h
  obtain ⟨declaration, c₃, hdraft, h⟩ := runs_bind_ok.mp h
  obtain ⟨rfl, haccepts, warnings, log, rfl⟩ := checkDraft_ok hdraft
  obtain ⟨-, rfl⟩ := runs_modify.mp h
  exact ⟨declared, warnings, log, hdeclared, haccepts, rfl⟩

end CompileM

end JsonSchema
