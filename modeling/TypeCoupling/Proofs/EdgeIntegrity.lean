import TypeCoupling.Proofs.FileEdges

/-!
Every edge of a report joins two types that are really there: it starts at a declared type of a
file that could be read and ends at a type of the index, and the two differ.

For direct edges this is what linking checks. A transitive edge ends at a type that a walk has
met, perhaps many hops away; there the invariant is that every type in reach is an indexed one.
-/

namespace TypeCoupling

/-- The index has this type, with this file and this name. -/
def TypeRef.Indexed (x : TypeIndex) (t : TypeRef) : Prop :=
  ∃ e, x.get? t.name = some e ∧ e.file = t.file ∧ e.typeName = t.typeName

/-- The index keeps every type under its own name. -/
def TypeIndex.OwnNames (x : TypeIndex) : Prop :=
  ∀ name e, x.get? name = some e → e.qualifiedName = name

lemma TypeIndex.OwnNames.indexed {x : TypeIndex} (hx : x.OwnNames) {name : String} {e : Entry}
    (h : x.get? name = some e) : (TypeRef.ofEntry e).Indexed x :=
  ⟨e, by rw [← hx name e h] at h; exact h, rfl, rfl⟩

namespace Graph

variable {g : Graph}

/-- The edges of the tree end at indexed types. -/
def TargetsIndexed (g : Graph) : Prop :=
  ∀ file, ∀ r ∈ g.tree.edges file, (TypeRef.target r).Indexed g.index.types

/-! ### The walk stays in the index -/

lemma returned?_indexed (hx : g.index.types.OwnNames) (ht : g.TargetsIndexed) {a : Accessor}
    {d t : TypeRef} (h : g.returned? a d = some t) : t.Indexed g.index.types := by
  unfold returned? at h
  split at h
  · simp at h
  · dsimp only at h
    split at h
    · next r hr =>
      rw [← Option.some.inj h]
      exact ht _ r (List.mem_of_find?_eq_some hr)
    · obtain ⟨e, he, rfl⟩ := Option.map_eq_some_iff.mp h
      rcases Option.or_eq_some_iff.mp he with he | ⟨-, he⟩
      · obtain ⟨_, _, hsibling⟩ := Option.bind_eq_some_iff.mp he
        exact hx.indexed hsibling
      · exact hx.indexed he

lemma supertypes_indexed (ht : g.TargetsIndexed) (t : TypeRef) :
    ∀ u ∈ g.supertypes t, u.Indexed g.index.types := by
  intro u hu
  obtain ⟨r, hr, rfl⟩ := List.mem_map.mp hu
  exact ht _ r (List.mem_filter.mp hr).1

lemma reachOf_indexed (hx : g.index.types.OwnNames) (ht : g.TargetsIndexed) (file : String) :
    ∀ u ∈ g.reachOf file, u.Indexed g.index.types := by
  intro u hu
  rcases List.mem_append.mp hu with hu | hu
  · obtain ⟨r, hr, rfl⟩ := List.mem_map.mp hu
    exact ht file r hr
  · obtain ⟨e, he, rfl⟩ := List.mem_map.mp hu
    obtain ⟨name, -, hname⟩ := List.mem_filterMap.mp he
    exact hx.indexed hname

/-- **Run**: whatever a chain leads to, at any hop, is indexed. -/
lemma derives_indexed (hx : g.index.types.OwnNames) (ht : g.TargetsIndexed) {file : String}
    {ms : List String} {t : TypeRef} (h : g.Derives (g.startsOf file) ms t) :
    t.Indexed g.index.types :=
  h.closed (fun _ _ _ _ _ _ hret => returned?_indexed hx ht hret)
    (fun t _ => supertypes_indexed ht t) (reachOf_indexed hx ht file)

/-- An edge found by following chains starts at the first type of the file and ends at another,
indexed type. -/
lemma mem_resolveFile (hx : g.index.types.OwnNames) (ht : g.TargetsIndexed) {file : String}
    {chains : List CallChain} {seen : Std.HashSet EdgeKey} {r : Relationship}
    (h : r ∈ (g.resolveFile file chains seen).1) :
    ∃ origin ∈ g.index.types.entriesOf file, ∃ t : TypeRef,
      t.Indexed g.index.types ∧ t.name ≠ origin.qualifiedName ∧ r = t.edgeFrom origin := by
  rw [resolveFile_found] at h
  obtain ⟨origin, ho, c, -, t, htour, hne, rfl⟩ :=
    mem_offered.mp ((keepNew_sublist _ _).subset h)
  exact ⟨origin, List.mem_of_head? ho, t, derives_indexed hx ht (derives_of_mem_chainTour htour),
    hne, rfl⟩

end Graph

/-! ### The edges of a run -/

/-- The edge joins a declared type of a file that was read to another type of the index. -/
structure Relationship.Sound (reader : Reader) (files : List SourceFile) (r : Relationship) :
    Prop where
  target : ∃ e, (runIndex reader files).types.get? r.toName = some e ∧
    e.file = r.toFile ∧ e.typeName = r.toType
  source : ∃ s ∈ files, s.path = r.fromFile ∧ ∃ f, s.facts reader = .ok f ∧
    ∃ e ∈ f.entries, e.qualifiedName = r.fromName ∧ e.typeName = r.fromType
  differ : r.fromName ≠ r.toName

variable {reader : Reader} {maxAncestors : Option Nat} {files : List SourceFile}

lemma runIndex_ownNames : (runIndex reader files).types.OwnNames :=
  fun _ _ h => (Index.mem_of_get h).2

/-- An edge that starts at a type of a file that was read is sound if its target is. -/
lemma sound_of_source {f : FileFacts} (hf : f ∈ readFacts reader files) {source : Entry}
    (hs : source ∈ f.entries) {t : TypeRef} (ht : t.Indexed (runIndex reader files).types)
    (hne : source.qualifiedName ≠ t.name) (kind : UsageKind) :
    Relationship.Sound reader files
      ⟨source.qualifiedName, source.file, source.typeName, t.name, t.file, t.typeName, kind⟩ := by
  obtain ⟨s, hsf, hok, hpath, hfile⟩ := mem_readFacts_path hf
  refine ⟨ht, ⟨s, hsf, ?_, f, hok, source, hs, rfl, rfl⟩, hne⟩
  rw [hpath]; exact (hfile source hs).symm

lemma sound_of_mem_direct {f : LinkedFile} (hf : f ∈ runLinked reader maxAncestors files)
    {r : Relationship} (hr : r ∈ f.direct) : r.Sound reader files := by
  obtain ⟨facts, hfacts, rfl⟩ := List.mem_map.mp hf
  obtain ⟨c, -, hc⟩ := TypeIndex.mem_link hr
  obtain ⟨target, source, ht, -, hs, hne, rfl⟩ := TypeIndex.confirm?_eq_some.mp hc
  have hsource : source ∈ facts.entries := List.mem_of_find?_eq_some hs
  exact sound_of_source hfacts hsource (runIndex_ownNames.indexed ht) hne c.kind

lemma runGraph_targetsIndexed : (runGraph reader maxAncestors files).TargetsIndexed := by
  intro file r hr
  obtain ⟨f, hf, -, hd⟩ := LinkedFile.mem_edges_tree hr
  exact (sound_of_mem_direct hf hd).target

lemma sound_of_mem_transitive {f : LinkedFile} {r : Relationship}
    (hr : r ∈ f.transitive (runGraph reader maxAncestors files)) : r.Sound reader files := by
  unfold LinkedFile.transitive at hr
  split at hr
  · simp at hr
  · have hx : (runGraph reader maxAncestors files).index.types.OwnNames := runIndex_ownNames
    obtain ⟨origin, ho, t, ht, hne, rfl⟩ := Graph.mem_resolveFile hx runGraph_targetsIndexed hr
    obtain ⟨facts, hfacts, horigin, -⟩ := mem_entriesOf_runIndex ho
    exact sound_of_source hfacts horigin ht hne.symm .usage

/-- **Edge integrity.** Every edge of a report, direct or found along a chain, starts at a
declared type of a file that was read and ends at another type of the index. -/
theorem relationships_sound (reader : Reader) (maxAncestors : Option Nat)
    (files : List SourceFile) :
    ∀ r ∈ (resolve reader maxAncestors files).relationships, r.Sound reader files := by
  intro r hr
  obtain ⟨f, hf, hd | ht⟩ := mem_relationships hr
  · exact sound_of_mem_direct hf hd
  · exact sound_of_mem_transitive ht

theorem relationships_sound_rivals :
    (resolve Source.read none rivals).relationships = rivalEdges ∧
      ∀ r ∈ rivalEdges, r.Sound Source.read rivals := by
  refine ⟨relationships_rivals, ?_⟩
  rw [← relationships_rivals]
  exact relationships_sound Source.read none rivals

end TypeCoupling
