import TypeCoupling.Proofs.Declaration
import TypeCoupling.Proofs.Index
import TypeCoupling.Proofs.Relationship
import TypeCoupling.Resolution

/-!
The stages of a run by name, and where the edges of its report come from: from the linking of a
file that could be read, or from following its chains.
-/

namespace TypeCoupling

section Stages

variable (reader : Reader) (maxAncestors : Option Nat) (files : List SourceFile)

/-- The facts of the files that could be read, in the order of their paths. -/
def readFacts : List FileFacts := (partitionFacts ((sortByPath files).map (·.facts reader))).1

/-- The index that a run builds. -/
def runIndex : Index := .ofEntries ((readFacts reader files).flatMap (·.entries))

/-- The files with their direct relationships. -/
def runLinked : List LinkedFile :=
  (readFacts reader files).map (·.link (runIndex reader files).types maxAncestors)

/-- What the chains of a run are followed through. -/
def runGraph : Graph :=
  ⟨runIndex reader files, LinkedFile.tree (runLinked reader maxAncestors files)⟩

lemma resolve_relationships :
    (resolve reader maxAncestors files).relationships =
      (((runLinked reader maxAncestors files).map fun f =>
        (f.path, f.transitive (runGraph reader maxAncestors files))).foldl
          (fun t f => Tree.extend t f.1 f.2) (runGraph reader maxAncestors files).tree).flatten :=
  rfl

end Stages

variable {reader : Reader} {maxAncestors : Option Nat} {files : List SourceFile}

/-! ### Reading -/

lemma partitionFacts_cons_ok (f : FileFacts) (rs : List (Except FileError FileFacts)) :
    partitionFacts (.ok f :: rs) = (f :: (partitionFacts rs).1, (partitionFacts rs).2) := rfl

lemma partitionFacts_cons_error (e : FileError) (rs : List (Except FileError FileFacts)) :
    partitionFacts (.error e :: rs) = ((partitionFacts rs).1, e :: (partitionFacts rs).2) := rfl

lemma SourceFile.facts_ok {s : SourceFile} {f : FileFacts} (h : s.facts reader = .ok f) :
    ∃ language captures, Path.language? s.path = some language ∧
      reader language s.content = some captures ∧
      f = .ofCaptures s.path language.profile captures := by
  unfold SourceFile.facts at h
  split at h
  · simp at h
  · next language hl =>
    split at h
    · simp at h
    · next captures hc => exact ⟨language, captures, hl, hc, (Except.ok.inj h).symm⟩

lemma mem_readFacts {f : FileFacts} :
    f ∈ readFacts reader files ↔ ∃ s ∈ files, s.facts reader = .ok f := by
  unfold readFacts partitionFacts sortByPath
  simp only [List.mem_filterMap, List.mem_map, List.mem_mergeSort]
  constructor
  · rintro ⟨_, ⟨s, hs, rfl⟩, hf⟩
    refine ⟨s, hs, ?_⟩
    split at hf
    · next h => rw [h, Option.some.inj hf]
    · simp at hf
  · rintro ⟨s, hs, hf⟩
    exact ⟨_, ⟨s, hs, rfl⟩, by rw [hf]⟩

lemma mem_readFacts_path {f : FileFacts} (h : f ∈ readFacts reader files) :
    ∃ s ∈ files, s.facts reader = .ok f ∧ s.path = f.path ∧ ∀ e ∈ f.entries, e.file = f.path := by
  obtain ⟨s, hs, hf⟩ := mem_readFacts.mp h
  obtain ⟨language, captures, -, -, rfl⟩ := SourceFile.facts_ok hf
  exact ⟨s, hs, hf, rfl, fun e he => declaredTypes_file he⟩

/-- The index gives a file only types that it declares itself. -/
lemma mem_entriesOf_runIndex {path : String} {e : Entry}
    (h : e ∈ (runIndex reader files).types.entriesOf path) :
    ∃ f ∈ readFacts reader files, e ∈ f.entries ∧ f.path = path := by
  unfold runIndex at h
  rw [(Index.ofEntries_holds _).entriesOf, List.mem_filter] at h
  obtain ⟨hkept, hpath⟩ := h
  obtain ⟨f, hf, he⟩ := List.mem_flatMap.mp (mem_of_mem_firstDeclarations hkept)
  obtain ⟨-, -, -, -, hfile⟩ := mem_readFacts_path hf
  exact ⟨f, hf, he, by rw [← hfile e he]; exact eq_of_beq hpath⟩

/-! ### Edges of the report -/

lemma LinkedFile.mem_edges_tree {linked : List LinkedFile} {path : String} {r : Relationship}
    (h : r ∈ (LinkedFile.tree linked).edges path) :
    ∃ f ∈ linked, f.path = path ∧ r ∈ f.direct := by
  -- the file that wrote the path last is the one whose edges are there
  suffices hgen : ∀ t : Tree, r ∈ Tree.edges (linked.foldl (fun t f => t.insert f.path f.direct) t)
      path → r ∈ t.edges path ∨ ∃ f ∈ linked, f.path = path ∧ r ∈ f.direct by
    rcases hgen ∅ h with h1 | h1
    · simp [Tree.edges] at h1
    · exact h1
  clear h
  induction linked with
  | nil => exact fun t h => Or.inl h
  | cons f linked ih =>
    intro t h
    rcases ih _ h with h1 | ⟨f', hf', h1⟩
    · rw [Tree.edges_insert] at h1
      split at h1
      · next hp => exact Or.inr ⟨f, List.mem_cons_self, hp, h1⟩
      · exact Or.inl h1
    · exact Or.inr ⟨f', List.mem_cons_of_mem _ hf', h1⟩

/-- **Where an edge of the report comes from.** -/
lemma mem_relationships {r : Relationship}
    (h : r ∈ (resolve reader maxAncestors files).relationships) :
    ∃ f ∈ runLinked reader maxAncestors files,
      r ∈ f.direct ∨ r ∈ f.transitive (runGraph reader maxAncestors files) := by
  rw [resolve_relationships, Tree.mem_flatten] at h
  obtain ⟨file, hr⟩ := h
  rw [Tree.edges_foldl_extend, List.mem_append] at hr
  rcases hr with hr | hr
  · obtain ⟨f, hf, -, hd⟩ := LinkedFile.mem_edges_tree hr
    exact ⟨f, hf, Or.inl hd⟩
  · obtain ⟨p, hp, hr⟩ := List.mem_flatMap.mp hr
    obtain ⟨f, hf, rfl⟩ := List.mem_map.mp hp
    split at hr
    · exact ⟨f, hf, Or.inr hr⟩
    · simp at hr

end TypeCoupling
