import JsonSchema.Proofs.Document.Calls
import Mathlib

/-!
# Sessions with a loader

Between two calls of a loader the files may become what they like. What a loader has kept comes
from a content that the file has had since the cache was cleared last, and the map of a path comes
from the same content as its document.
-/

namespace JsonSchema

/-! ## Sessions -/

/-- What happens in a session. -/
inductive LoaderEvent where
  | change (tree : FileTree)
  | load (path : FilePath)
  | loadLocated (path : FilePath)
  | clear

structure LoaderSession where
  tree : FileTree
  loader : DocumentLoader

namespace LoaderSession

open DocumentLoader

def start (cacheEnabled : Bool) (tree : FileTree) : LoaderSession := ⟨tree, .empty cacheEnabled⟩

def step (s : LoaderSession) : LoaderEvent → LoaderSession
  | .change tree => { s with tree }
  | .load path => { s with loader := (s.loader.load s.tree path).loader }
  | .loadLocated path => { s with loader := (s.loader.loadLocated s.tree path).loader }
  | .clear => { s with loader := s.loader.clear }

def run (s : LoaderSession) (events : List LoaderEvent) : LoaderSession := events.foldl step s

variable {s : LoaderSession} {events more : List LoaderEvent} {event : LoaderEvent}
  {path : FilePath} {document document' : Json} {map : SourceMap} {text : String}

theorem run_append : s.run (events ++ more) = (s.run events).run more := List.foldl_append

theorem run_concat : s.run (events ++ [event]) = (s.run events).step event := run_append

@[simp] theorem step_cacheEnabled :
    (s.step event).loader.cacheEnabled = s.loader.cacheEnabled := by
  cases event with
  | change | clear => rfl
  | load path => exact (load_outcome s.loader s.tree path).cacheEnabled
  | loadLocated path => exact (loadLocated_outcome s.loader s.tree path).cacheEnabled

@[simp] theorem run_cacheEnabled : (s.run events).loader.cacheEnabled = s.loader.cacheEnabled := by
  induction events generalizing s with
  | nil => rfl
  | cons event rest ih => exact ih.trans step_cacheEnabled

/-! ## Documents that stay -/

def Gives (s : LoaderSession) (event : LoaderEvent) (path : FilePath) (document : Json) : Prop :=
  match event with
  | .load asked => asked = path ∧ (s.loader.load s.tree path).result = .ok document
  | .loadLocated asked =>
    asked = path ∧ ∃ map, (s.loader.loadLocated s.tree path).result = .ok ⟨document, map⟩
  | .change _ | .clear => False

/-- Since the cache was cleared last, the document at the path was given with its map. -/
def Located (s : LoaderSession) (events : List LoaderEvent) (path : FilePath) : Prop :=
  ∃ before after located, events = before ++ .loadLocated path :: after ∧ .clear ∉ after ∧
    ((s.run before).loader.loadLocated (s.run before).tree path).result = .ok located

theorem Located.of_step (h : (s.step event).Located events path) : s.Located (event :: events) path := by
  obtain ⟨before, after, located, rfl, hclear, hok⟩ := h
  exact ⟨event :: before, after, located, rfl, hclear, hok⟩

theorem Located.of_run (h : (s.run events).Located more path) : s.Located (events ++ more) path := by
  obtain ⟨before, after, located, rfl, hclear, hok⟩ := h
  exact ⟨events ++ before, after, located, by simp, hclear, by rwa [run_append]⟩

theorem Located.after (h : s.Located events path) (hclear : .clear ∉ more) :
    s.Located (events ++ more) path := by
  obtain ⟨before, after, located, rfl, hafter, hok⟩ := h
  refine ⟨before, after ++ more, located, by simp, ?_, hok⟩
  rw [List.mem_append]
  exact fun hmem => hmem.elim hafter hclear

theorem Located.of_loadLocated {located : LocatedDocument}
    (h : (s.loader.loadLocated s.tree path).result = .ok located) :
    s.Located (.loadLocated path :: []) path :=
  ⟨[], [], located, rfl, by simp, h⟩

theorem maps_step (henabled : s.loader.cacheEnabled = true) (hclear : event ≠ .clear)
    (h : (s.loader.maps.lookup path).isSome = true) :
    ((s.step event).loader.maps.lookup path).isSome = true := by
  cases event with
  | change => exact h
  | load asked => exact (load_outcome s.loader s.tree asked).maps ▸ h
  | loadLocated asked =>
    have houtcome := loadLocated_outcome s.loader s.tree asked
    by_cases hasked : path = asked
    · subst hasked
      cases hresult : (s.loader.loadLocated s.tree path).result with
      | ok located => exact Option.isSome_iff_exists.mpr ⟨_, (houtcome.kept henabled hresult).2⟩
      | error fault =>
        rw [step, houtcome.unchanged hresult]
        exact h
    · rw [step, (houtcome.elsewhere hasked).2]
      exact h
  | clear => exact (hclear rfl).elim

theorem maps_run (henabled : s.loader.cacheEnabled = true) (hclear : .clear ∉ events)
    (h : (s.loader.maps.lookup path).isSome = true) :
    ((s.run events).loader.maps.lookup path).isSome = true := by
  induction events generalizing s with
  | nil => exact h
  | cons event rest ih =>
    rw [List.mem_cons, not_or] at hclear
    exact ih (step_cacheEnabled.trans henabled) hclear.2 (maps_step henabled (Ne.symm hclear.1) h)

theorem Located.maps (h : s.Located events path) (henabled : s.loader.cacheEnabled = true) :
    ((s.run events).loader.maps.lookup path).isSome = true := by
  obtain ⟨before, after, located, rfl, hclear, hok⟩ := h
  have henabled' : (s.run before).loader.cacheEnabled = true := run_cacheEnabled.trans henabled
  rw [run_append]
  refine maps_run (s := (s.run before).step (.loadLocated path))
    (step_cacheEnabled.trans henabled') hclear ?_
  have hkept := (loadLocated_outcome (s.run before).loader (s.run before).tree path).kept henabled' hok
  exact Option.isSome_iff_exists.mpr ⟨_, hkept.2⟩

theorem documents_step (hclear : event ≠ .clear)
    (hkept : s.loader.documents.lookup path = some document)
    (h : (s.loader.maps.lookup path).isSome = true ∨ ¬ s.Located [event] path) :
    (s.step event).loader.documents.lookup path = some document := by
  cases event with
  | change => exact hkept
  | load asked => exact (load_outcome s.loader s.tree asked).stays hkept
  | loadLocated asked =>
    have houtcome := loadLocated_outcome s.loader s.tree asked
    by_cases hasked : path = asked
    · subst hasked
      rcases h with hmap | hnot
      · obtain ⟨map, hmap⟩ := Option.isSome_iff_exists.mp hmap
        rw [step, houtcome.stays hkept hmap]
        exact hkept
      · cases hresult : (s.loader.loadLocated s.tree path).result with
        | ok located => exact (hnot (.of_loadLocated hresult)).elim
        | error fault =>
          rw [step, houtcome.unchanged hresult]
          exact hkept
    · rw [step, (houtcome.elsewhere hasked).1]
      exact hkept
  | clear => exact (hclear rfl).elim

theorem documents_run (henabled : s.loader.cacheEnabled = true) (hclear : .clear ∉ events)
    (hkept : s.loader.documents.lookup path = some document)
    (h : (s.loader.maps.lookup path).isSome = true ∨ ¬ s.Located events path) :
    (s.run events).loader.documents.lookup path = some document := by
  induction events generalizing s with
  | nil => exact hkept
  | cons event rest ih =>
    rw [List.mem_cons, not_or] at hclear
    refine ih (step_cacheEnabled.trans henabled) hclear.2 ?_ ?_
    · refine documents_step (Ne.symm hclear.1) hkept (h.imp_right fun hnot hlocated => hnot ?_)
      exact hlocated.after hclear.2
    · exact h.imp (maps_step henabled (Ne.symm hclear.1)) fun hnot hlocated => hnot hlocated.of_step

theorem Gives.ne_clear (h : s.Gives event path document) : .clear ∉ [event] := by
  rw [List.mem_singleton]
  rintro rfl
  exact h

theorem Gives.kept (h : s.Gives event path document) (henabled : s.loader.cacheEnabled = true) :
    (s.step event).loader.documents.lookup path = some document := by
  cases event with
  | load asked =>
    obtain ⟨rfl, hok⟩ := h
    exact (load_outcome ..).kept henabled hok
  | loadLocated asked =>
    obtain ⟨rfl, map, hok⟩ := h
    exact ((loadLocated_outcome ..).kept henabled hok).1
  | change | clear => exact h.elim

theorem Gives.unique (h : s.Gives event path document')
    (hkept : s.loader.documents.lookup path = some document)
    (hmap : (s.loader.maps.lookup path).isSome = true ∨ ¬ s.Located [event] path) :
    document = document' := by
  cases event with
  | load asked =>
    obtain ⟨rfl, hok⟩ := h
    rw [load_of_kept hkept] at hok
    exact Except.ok.inj hok
  | loadLocated asked =>
    obtain ⟨rfl, map, hok⟩ := h
    rcases hmap with hmap | hnot
    · obtain ⟨map, hmap⟩ := Option.isSome_iff_exists.mp hmap
      rw [loadLocated_of_kept hkept hmap] at hok
      exact congrArg LocatedDocument.document (Except.ok.inj hok)
    · exact (hnot (.of_loadLocated hok)).elim
  | change | clear => exact h.elim

/--
With a cache, all calls for a path give one document until the cache is cleared, whatever becomes
of the file. The first call that gives the map too is the exception: it reads the file again, so the
calls before it may have given another document.
-/
theorem cached_documents_stay {tree : FileTree} {before between : List LoaderEvent}
    {first second : LoaderEvent} {path : FilePath} {document document' : Json}
    (hfirst : ((start true tree).run before).Gives first path document)
    (hsecond : ((start true tree).run (before ++ first :: between)).Gives second path document')
    (hclear : .clear ∉ between)
    (hlocated : (start true tree).Located (before ++ first :: between ++ [second]) path →
      (start true tree).Located (before ++ [first]) path) : document = document' := by
  have henabled : ((start true tree).run (before ++ [first])).loader.cacheEnabled = true :=
    run_cacheEnabled
  have hkept := hfirst.kept run_cacheEnabled
  rw [← run_concat] at hkept
  have hrun : (start true tree).run (before ++ first :: between) =
      ((start true tree).run (before ++ [first])).run between := by
    rw [← run_append, List.append_assoc, List.singleton_append]
  rw [hrun] at hsecond
  have hmap : (((start true tree).run (before ++ [first])).loader.maps.lookup path).isSome = true ∨
      ¬ ((start true tree).run (before ++ [first])).Located (between ++ [second]) path := by
    by_cases h : (start true tree).Located (before ++ [first]) path
    · exact .inl (h.maps rfl)
    · refine .inr fun hlater => h (hlocated ?_)
      have := hlater.of_run
      simpa using this
  have hstays := documents_run henabled hclear hkept
    (hmap.imp_right fun h hlater => h (hlater.after hsecond.ne_clear))
  exact hsecond.unique hstays (hmap.imp (maps_run henabled hclear) fun h hlater => h hlater.of_run)

/-! A file that holds one digit, and then another one. -/

theorem sourceMap_of_scalar (tag value : String)
    (h : (Yaml.ComposedDocument.ofText text).toOption.map (fun d => (d.graph.nodes.toList, d.root)) =
      some ([⟨tag, ⟨1, 1⟩, .scalar value⟩], some 0)) :
    SourceMap.ofText text = .ok [("", ⟨some 1, some 1⟩)] := by
  simp only [Option.map_eq_some_iff, Except.toOption_eq_some, Prod.mk.injEq] at h
  obtain ⟨⟨⟨nodes⟩, root⟩, hcomposed, hnodes, rfl⟩ := h
  obtain rfl : nodes = #[⟨tag, ⟨1, 1⟩, .scalar value⟩] := Array.toList_inj.mp hnodes
  rw [SourceMap.ofText, hcomposed]
  simp [Yaml.YamlGraph.locate, Yaml.YamlGraph.node, Members.put]

def digitPath : FilePath := ⟨.root, ["n"]⟩

def digitTree (digit : UInt8) : FileTree := ⟨[], [(["n"], .file [digit])]⟩

def digitMap : SourceMap := [("", ⟨some 1, some 1⟩)]

theorem readLocated_one : readLocated (digitTree 49) digitPath = .ok ⟨.int 1, digitMap⟩ :=
  readLocated_eq_ok.mpr ⟨"1", by cbv, by cbv,
    sourceMap_of_scalar Yaml.Tag.int "1" (by decide +kernel)⟩

theorem readLocated_two : readLocated (digitTree 50) digitPath = .ok ⟨.int 2, digitMap⟩ :=
  readLocated_eq_ok.mpr ⟨"2", by cbv, by cbv,
    sourceMap_of_scalar Yaml.Tag.int "2" (by decide +kernel)⟩

/--
The document that was given with its map stays when the file changes. The document that was given
without its map is read again when the map is asked for.
-/
theorem digit_stays_once_located :
    (start true (digitTree 49)).Gives (.loadLocated digitPath) digitPath (.int 1) ∧
    (∃ document, ((start true (digitTree 49)).run
        [.loadLocated digitPath, .change (digitTree 50)]).Gives (.load digitPath) digitPath document ∧
      .int 1 = document) ∧
    (start true (digitTree 49)).Gives (.load digitPath) digitPath (.int 1) ∧
    ((start true (digitTree 49)).run [.load digitPath, .change (digitTree 50)]).Gives
      (.loadLocated digitPath) digitPath (.int 2) := by
  have hfirst : (start true (digitTree 49)).Gives (.loadLocated digitPath) digitPath (.int 1) := by
    refine ⟨rfl, digitMap, ?_⟩
    simp [start, DocumentLoader.empty, loadLocated, readLocated_one]
  have hbefore : ((start true (digitTree 49)).run []).Gives (.loadLocated digitPath) digitPath
      (.int 1) := hfirst
  have hsecond : ((start true (digitTree 49)).run
      ([] ++ .loadLocated digitPath :: [.change (digitTree 50)])).Gives (.load digitPath) digitPath
      (.int 1) := by
    refine ⟨rfl, ?_⟩
    simp [run, step, start, DocumentLoader.empty, loadLocated, readLocated_one, keepMap,
      keepDocument, load]
  have hlocated : (start true (digitTree 49)).Located [.loadLocated digitPath] digitPath := by
    obtain ⟨-, map, hok⟩ := hfirst
    exact .of_loadLocated hok
  refine ⟨hfirst, ⟨_, hsecond, ?_⟩, ⟨rfl, by cbv⟩, ⟨rfl, digitMap, ?_⟩⟩
  · exact cached_documents_stay hbefore hsecond (by simp) fun _ => hlocated
  · have hread : read (digitTree 49) digitPath = .ok (.int 1) := by cbv
    simp [run, step, start, DocumentLoader.empty, load, hread, keepDocument, loadLocated,
      readLocated_two]

/-- Since the cache was cleared last, the file at the path had this text. -/
def Held (s : LoaderSession) (events : List LoaderEvent) (path : FilePath) (text : String) : Prop :=
  ∃ before after, events = before ++ after ∧ .clear ∉ after ∧
    (s.run before).tree.readText path = .ok text

theorem Held.now (h : (s.run events).tree.readText path = .ok text) : s.Held events path text :=
  ⟨events, [], (List.append_nil _).symm, by simp, h⟩

theorem Held.after (h : s.Held events path text) (hclear : event ≠ .clear) :
    s.Held (events ++ [event]) path text := by
  obtain ⟨before, after, rfl, hafter, htext⟩ := h
  refine ⟨before, after ++ [event], List.append_assoc .., ?_, htext⟩
  rw [List.mem_append, List.mem_singleton]
  exact fun hmem => hmem.elim hafter (Ne.symm hclear)

/-- Every map that is kept stands beside the document of the same text. -/
def Coherent (s : LoaderSession) (events : List LoaderEvent) : Prop :=
  ∀ path map, (s.run events).loader.maps.lookup path = some map → ∃ document text,
    (s.run events).loader.documents.lookup path = some document ∧ s.Held events path text ∧
      LocatedDocument.IsOf ⟨document, map⟩ path text

theorem Coherent.step (h : s.Coherent events) : s.Coherent (events ++ [event]) := by
  intro path map hmap
  rw [run_concat] at hmap ⊢
  -- Where the caches say of the path what they said before, the old text will do.
  have hold : ((s.run events).step event).loader.documents.lookup path =
        (s.run events).loader.documents.lookup path →
      (s.run events).loader.maps.lookup path = some map → event ≠ .clear →
      ∃ document text, ((s.run events).step event).loader.documents.lookup path = some document ∧
        s.Held (events ++ [event]) path text ∧ LocatedDocument.IsOf ⟨document, map⟩ path text := by
    intro hdocuments hmap hclear
    obtain ⟨document, text, hkept, hheld, his⟩ := h path map hmap
    exact ⟨document, text, hdocuments.trans hkept, hheld.after hclear, his⟩
  cases event with
  | change tree => exact hold rfl hmap nofun
  | load asked =>
    have houtcome := load_outcome (s.run events).loader (s.run events).tree asked
    replace hmap : (s.run events).loader.maps.lookup path = some map := houtcome.maps ▸ hmap
    obtain ⟨document, text, hkept, -⟩ := h path map hmap
    exact hold ((houtcome.stays hkept).trans hkept.symm) hmap nofun
  | loadLocated asked =>
    have houtcome := loadLocated_outcome (s.run events).loader (s.run events).tree asked
    by_cases hasked : path = asked
    · subst hasked
      rcases houtcome.source with hsame | ⟨located, text, htext, his, hdocument, hnew⟩
      · exact hold (congrArg (·.documents.lookup path) hsame)
          ((congrArg (·.maps.lookup path) hsame).symm.trans hmap) nofun
      · obtain rfl := Option.some.inj (hnew.symm.trans hmap)
        exact ⟨located.document, text, hdocument, (Held.now htext).after nofun, his⟩
    · obtain ⟨hdocuments, hmaps⟩ := houtcome.elsewhere hasked
      exact hold hdocuments (hmaps.symm.trans hmap) nofun
  | clear => cases hmap

theorem Coherent.run (h : s.Coherent events) (more : List LoaderEvent) :
    s.Coherent (events ++ more) := by
  induction more generalizing events with
  | nil => rwa [List.append_nil]
  | cons event rest ih =>
    have hstep : s.Coherent (events ++ [event]) := h.step
    have := ih hstep
    rwa [List.append_assoc] at this

theorem coherent_start (cacheEnabled : Bool) (tree : FileTree) (events : List LoaderEvent) :
    (start cacheEnabled tree).Coherent events :=
  have hempty : (start cacheEnabled tree).Coherent [] := by
    intro path map hmap
    cases hmap
  hempty.run events

theorem run_disabled (tree : FileTree) (events : List LoaderEvent) :
    ((start false tree).run events).loader = .empty false := by
  suffices h : ∀ s : LoaderSession, s.loader = .empty false → (s.run events).loader = .empty false from
    h _ rfl
  induction events with
  | nil => exact fun _ h => h
  | cons event rest ih =>
    refine fun s h => ih _ ?_
    have hdisabled : s.loader.cacheEnabled = false := h ▸ rfl
    cases event with
    | change => exact h
    | load path => exact ((load_outcome ..).idle hdisabled).trans h
    | loadLocated path => exact ((loadLocated_outcome ..).idle hdisabled).trans h
    | clear => exact congrArg DocumentLoader.empty hdisabled

/--
A document is given together with the map of the text that it was read from. The file has had this
text since the cache was cleared last, and has it now unless both were kept. What is kept as a map
belongs to what is kept as a document, and a call that fails changes neither.
-/
theorem located_documents_belong (cacheEnabled : Bool) (tree : FileTree)
    (events : List LoaderEvent) :
    let s := (start cacheEnabled tree).run events
    (∀ path located, (s.loader.loadLocated s.tree path).result = .ok located →
      ∃ text, (start cacheEnabled tree).Held events path text ∧ located.IsOf path text ∧
        (cacheEnabled = false ∨ s.loader.documents.lookup path = none ∨
          s.loader.maps.lookup path = none → s.tree.readText path = .ok text)) ∧
    (∀ path map, s.loader.maps.lookup path = some map →
      ∃ document text, s.loader.documents.lookup path = some document ∧
        (start cacheEnabled tree).Held events path text ∧
        LocatedDocument.IsOf ⟨document, map⟩ path text) ∧
    (∀ path fault, (s.loader.load s.tree path).result = .error fault →
      (s.loader.load s.tree path).loader = s.loader) ∧
    (∀ path fault, (s.loader.loadLocated s.tree path).result = .error fault →
      (s.loader.loadLocated s.tree path).loader = s.loader) := by
  intro s
  have hcoherent := coherent_start cacheEnabled tree events
  refine ⟨fun path located hok => ?_, hcoherent, fun path fault h => (load_outcome ..).unchanged h,
    fun path fault h => (loadLocated_outcome ..).unchanged h⟩
  have houtcome := loadLocated_outcome s.loader s.tree path
  generalize s.loader.loadLocated s.tree path = loaded at hok houtcome
  cases houtcome with
  | found log hkept hmap =>
    cases hok
    obtain ⟨document, text, hkept', hheld, his⟩ := hcoherent path _ hmap
    obtain rfl := Option.some.inj (hkept.symm.trans hkept')
    refine ⟨text, hheld, his, fun hnew => ?_⟩
    rcases hnew with rfl | hnew | hnew
    · rw [show s.loader = _ from run_disabled tree events] at hmap
      cases hmap
    · rw [hkept] at hnew
      cases hnew
    · rw [hmap] at hnew
      cases hnew
  | read log hnew htext his =>
    cases hok
    exact ⟨_, .now htext, his, fun _ => htext⟩
  | failed => cases hok

end LoaderSession

end JsonSchema
