import JsonSchema.Proofs.Pointer.Path
import JsonSchema.Proofs.Yaml.Assembly
import JsonSchema.Proofs.Yaml.Events
import JsonSchema.Proofs.Yaml.Places

/-!
# JSON texts with source maps

A JSON text that fits is a YAML text whose nodes are built like the document, so the walk through
them comes to every value of the document.
-/

namespace JsonSchema

namespace Yaml

open Relation (TransGen)

theorem source_ofText {text : String} (h : text.toList.all isYamlCharacter = true) :
    YamlSource.ofText text = .ok text.toList := by
  have hnone : text.toList.findIdx? (!isYamlCharacter ·) = none := by
    rw [List.findIdx?_eq_none_iff]
    intro c hc
    rw [List.all_eq_true.mp h c hc, Bool.not_true]
  unfold YamlSource.ofText YamlSource.checked
  simp only [hnone]

/-- A text that fits is composed to nodes that are built like its value. -/
theorem composed_of_fits {text : String} {limit : Nat} {raw : Json} {rest : List Char}
    (h : JsonReader.Written limit (.value raw) (JsonReader.skipSpace text.toList) rest)
    (hend : JsonReader.skipSpace rest = []) (hmark : text.toList.head? ≠ some '\uFEFF')
    (hlimit : limit ≤ yamlDepthLimit) (hfits : fits text = true) :
    ∃ g root, ComposedDocument.ofText text = .ok ⟨g, some root⟩ ∧
      g.Mirrors (fun _ _ => True) raw root ∧ ∀ id inner, g.Leads id inner → id < inner := by
  rw [fits, Bool.and_eq_true] at hfits
  obtain ⟨placed, tokens, events, htokens, hplaced, hspelled⟩ :=
    tokens_of_written h hend hmark hfits.2
  obtain ⟨all, hevents, hall⟩ := events_of_spelled hspelled hplaced
  obtain ⟨g, root, hcomposed, hmirrors, hdescends⟩ := composed_of_spelled hspelled hlimit hall
  refine ⟨g, root, ?_, hmirrors, hdescends⟩
  rw [ComposedDocument.ofText, source_ofText hfits.1, Except.ok_bind, ComposedDocument.ofChars,
    htokens, hevents, hcomposed]

theorem YamlGraph.acyclic_of_descends {g : YamlGraph}
    (h : ∀ id inner, g.Leads id inner → id < inner) (id : YamlId) : ¬ TransGen g.Leads id id := by
  intro hcycle
  have hlt : ∀ inner, TransGen g.Leads id inner → id < inner := by
    intro inner hleads
    induction hleads with
    | single hstep => exact h _ _ hstep
    | tail _ hstep ih => exact ih.trans (h _ _ hstep)
  exact Nat.lt_irrefl id (hlt id hcycle)

end Yaml

open Yaml in
/--
Every value of a JSON text that YAML can read has a place in the source map: the text fits, and its
containers nest no deeper than those of YAML may. A repeated name takes nothing away.
-/
theorem json_text_located {text : String} {document : Json}
    (hdocument : Json.readNested yamlDepthLimit text = .ok document) (hfits : fits text = true) :
    Json.read text = .ok document ∧ ∃ map, SourceMap.ofText text = .ok map ∧
      ∀ tokens value, document.Leads tokens value → ∃ line column,
        map.get? (Pointer.ofTokens tokens) = some ⟨some line, some column⟩ := by
  have hread : Json.read text = .ok document := JsonReader.readText_deepens (by decide) hdocument
  obtain ⟨hmark, raw, rest, hwritten, hend, hcovered⟩ := JsonReader.readText_ok hdocument
  obtain ⟨g, root, hcomposed, hmirrors, hdescends⟩ :=
    composed_of_fits hwritten hend hmark (Nat.le_refl _) hfits
  obtain ⟨map, hmap, hrecords⟩ :=
    YamlGraph.locates_root (YamlGraph.acyclic_of_descends hdescends) hmirrors.named "" []
  refine ⟨hread, map, ?_, fun tokens value hleads => ?_⟩
  · rw [SourceMap.ofText, hcomposed]
    exact hmap
  · obtain ⟨found, hfound⟩ := hcovered tokens value hleads
    obtain ⟨inner, hstands, -⟩ := hmirrors.exists_stands hfound
    have hrecorded : Pointer.ofTokens tokens ∈ map.names :=
      hrecords.covers _ _ ⟨tokens, inner, hstands, rfl, rfl⟩
    obtain ⟨spot, hspot⟩ := Option.ne_none_iff_exists'.mp fun hnone =>
      Members.get?_eq_none_iff.mp hnone hrecorded
    rcases hrecords.sound _ _ hspot with hold | ⟨others, other, hother, -, rfl⟩
    · cases hold
    · exact ⟨_, _, hspot⟩

def catalogue : String := "\x7b\"a b\" : [12,\r\n  \"x\\u00e9\"],\n \"a/b\": \x7b\"#\":null\x7d\x7d "

theorem catalogue_located : ∃ document map line column, Json.read catalogue = .ok document ∧
    (document.along? [.name "a/b", .name "#"]).isSome = true ∧
    SourceMap.ofText catalogue = .ok map ∧
    map.get? "/a~1b/#" = some ⟨some line, some column⟩ := by
  have hvalue : ((Json.readNested Yaml.yamlDepthLimit catalogue).toOption.bind
      (·.along? [.name "a/b", .name "#"])).isSome = true := by decide +kernel
  have hpointer : Pointer.ofTokens ["a/b", "#"] = "/a~1b/#" := by decide +kernel
  obtain ⟨value, hvalue⟩ := Option.isSome_iff_exists.mp hvalue
  obtain ⟨document, hdocument, halong⟩ := Option.bind_eq_some_iff.mp hvalue
  obtain ⟨hread, map, hmap, hplaces⟩ :=
    json_text_located (Except.toOption_eq_some.mp hdocument) (by decide +kernel)
  obtain ⟨line, column, hget⟩ := hplaces _ _ (Json.leads_of_along? halong)
  exact ⟨document, map, line, column, hread, by rw [halong]; rfl, hmap, hpointer ▸ hget⟩

end JsonSchema
