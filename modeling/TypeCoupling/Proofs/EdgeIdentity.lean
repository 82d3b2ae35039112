import TypeCoupling.Proofs.EdgeIntegrity
import TypeCoupling.Proofs.FileEdges

/-!
What tells the edges of a report apart.

A key names the two types of an edge and its kind. Within one file no key is there twice. Of a
type that several files declare, the index keeps the first declaration, but every one of these
files links its own. So a key is there once for each file that has it, and all edges of a key but
one start at a declaration that was dropped.
-/

namespace TypeCoupling

/-- The edge starts at a declaration that is not in the index: another file has the name. -/
def Relationship.StartsDropped (x : TypeIndex) (r : Relationship) : Prop :=
  ∃ e, x.get? r.fromName = some e ∧ e.file ≠ r.fromFile

section Run

variable {reader : Reader} {maxAncestors : Option Nat} {files : List SourceFile}

/-- The index knows the type that an edge starts at, perhaps from another file. -/
lemma Relationship.Sound.exists_source {r : Relationship} (h : r.Sound reader files) :
    ∃ e, (runIndex reader files).types.get? r.fromName = some e := by
  obtain ⟨s, hs, -, f, hok, e, he, hname, -⟩ := h.source
  have hmem : e ∈ (readFacts reader files).flatMap (·.entries) :=
    List.mem_flatMap.mpr ⟨f, mem_readFacts.mpr ⟨s, hs, hok⟩, he⟩
  rw [← hname]
  exact Index.exists_get_of_mem hmem

/-- Chains are followed from indexed types only. -/
lemma mem_direct_of_startsDropped {f : LinkedFile} {r : Relationship}
    (hr : r ∈ f.edges (runGraph reader maxAncestors files))
    (hdropped : r.StartsDropped (runIndex reader files).types) : r ∈ f.direct := by
  rcases List.mem_append.mp hr with hd | ht
  · exact hd
  · obtain ⟨origin, hget, hfile, hfrom⟩ := transitive_origin ht
    obtain ⟨e, he, hne⟩ := hdropped
    rw [hget, Option.some.injEq] at he
    exact absurd (by rw [← he, hfile, hfrom]) hne

lemma sound_of_mem_edges {f : LinkedFile} (hf : f ∈ runLinked reader maxAncestors files)
    {r : Relationship} (hr : r ∈ f.edges (runGraph reader maxAncestors files)) :
    r.Sound reader files := by
  rcases List.mem_append.mp hr with hd | ht
  · exact sound_of_mem_direct hf hd
  · exact sound_of_mem_transitive ht

/-- Edges of one key end at the same declaration, the indexed one. -/
lemma target_eq_of_key_eq {r r' : Relationship} (hr : r.Sound reader files)
    (hr' : r'.Sound reader files) (hk : r.key = r'.key) :
    r.toFile = r'.toFile ∧ r.toType = r'.toType := by
  obtain ⟨e, he, hfile, htype⟩ := hr.target
  obtain ⟨e', he', hfile', htype'⟩ := hr'.target
  have hto : r.toName = r'.toName := congrArg EdgeKey.toName hk
  rw [hto, he', Option.some.injEq] at he
  subst he
  exact ⟨hfile.symm.trans hfile', htype.symm.trans htype'⟩

/-- Two edges of one key start in different files, and the index has the type they start at from
one of these at most. -/
lemma startsDropped_of_key_eq (hpaths : (files.map (·.path)).Nodup) {f f' : LinkedFile}
    (hf : f ∈ runLinked reader maxAncestors files) (hf' : f' ∈ runLinked reader maxAncestors files)
    {r r' : Relationship} (hr : r ∈ f.edges (runGraph reader maxAncestors files))
    (hr' : r' ∈ f'.edges (runGraph reader maxAncestors files)) (hk : r.key = r'.key)
    (hne : r ≠ r') :
    f.path ≠ f'.path ∧ (r.StartsDropped (runIndex reader files).types ∨
      r'.StartsDropped (runIndex reader files).types) := by
  have hpath : f.path ≠ f'.path := by
    intro hpath
    obtain rfl : f = f' := List.inj_on_of_nodup_map (runLinked_paths_nodup hpaths) hf hf' hpath
    exact hne (List.inj_on_of_nodup_map (edges_keys_nodup hpaths hf) hr hr' hk)
  refine ⟨hpath, ?_⟩
  obtain ⟨e, he⟩ := (sound_of_mem_edges hf hr).exists_source
  have hfrom : r.fromName = r'.fromName := congrArg EdgeKey.fromName hk
  by_cases hfile : e.file = r.fromFile
  · refine Or.inr ⟨e, hfrom ▸ he, fun hfile' => hpath ?_⟩
    rw [← edges_fromFile hf hr, ← edges_fromFile hf' hr', ← hfile, hfile']
  · exact Or.inl ⟨e, he, hfile⟩

end Run

/-- **Edges with one key.** They end at the same declaration; if they differ, they start in
different files, and one of them at a declaration that was dropped for an earlier one. The keys of
a report are therefore unique exactly if no other file has the key of a direct edge that starts at
a dropped declaration. -/
theorem keys_unique_iff_not_dropped (reader : Reader) (maxAncestors : Option Nat)
    (files : List SourceFile) (hpaths : (files.map (·.path)).Nodup) :
    (∀ r ∈ (resolve reader maxAncestors files).relationships,
      ∀ r' ∈ (resolve reader maxAncestors files).relationships, r.key = r'.key →
        (r.toFile = r'.toFile ∧ r.toType = r'.toType) ∧
          (r ≠ r' → r.fromFile ≠ r'.fromFile ∧
            (r.StartsDropped (runIndex reader files).types ∨
              r'.StartsDropped (runIndex reader files).types))) ∧
    ((∀ r ∈ (resolve reader maxAncestors files).relationships,
      ∀ r' ∈ (resolve reader maxAncestors files).relationships, r.key = r'.key → r = r') ↔
      ∀ f ∈ runLinked reader maxAncestors files, ∀ r ∈ f.direct,
        r.StartsDropped (runIndex reader files).types →
          ∀ f' ∈ runLinked reader maxAncestors files, f'.path ≠ f.path →
            ∀ r' ∈ f'.edges (runGraph reader maxAncestors files), r'.key ≠ r.key) := by
  simp only [mem_relationships_iff hpaths]
  refine ⟨?_, ?_, ?_⟩
  · rintro r ⟨f, hf, hr⟩ r' ⟨f', hf', hr'⟩ hk
    refine ⟨target_eq_of_key_eq (sound_of_mem_edges hf hr) (sound_of_mem_edges hf' hr') hk, ?_⟩
    intro hne
    rw [edges_fromFile hf hr, edges_fromFile hf' hr']
    exact startsDropped_of_key_eq hpaths hf hf' hr hr' hk hne
  · intro hunique f hf r hr _ f' hf' hpath r' hr' hk
    have hedge : r ∈ f.edges (runGraph reader maxAncestors files) := List.mem_append_left _ hr
    have heq : r' = r := hunique r' ⟨f', hf', hr'⟩ r ⟨f, hf, hedge⟩ hk
    refine hpath ?_
    rw [← edges_fromFile hf' hr', ← edges_fromFile hf hedge, heq]
  · rintro hdropped r ⟨f, hf, hr⟩ r' ⟨f', hf', hr'⟩ hk
    by_contra hne
    obtain ⟨hpath, hd | hd⟩ := startsDropped_of_key_eq hpaths hf hf' hr hr' hk hne
    · exact hdropped f hf r (mem_direct_of_startsDropped hr hd) hd f' hf' hpath.symm r' hr' hk.symm
    · exact hdropped f' hf' r' (mem_direct_of_startsDropped hr' hd) hd f hf hpath r hr hk

/-! ### Two files that declare the same types -/

def twinFiles : List SourceFile :=
  [⟨"a.cs", "class T { U u; } class U { }"⟩, ⟨"b.cs", "class T { U u; } class U { }"⟩]

/-- What is captured in each of these files. -/
def twinReader : Reader := fun _ _ =>
  some
    ⟨[⟨.typeBlock, "class T { U u; }", 0, 16, 1⟩, ⟨.typeName, "T", 6, 7, 1⟩,
        ⟨.typeBlock, "class U { }", 17, 28, 1⟩, ⟨.typeName, "U", 23, 24, 1⟩],
      [], [], [⟨.qualifiedName, "U", 10, 11, 1⟩]⟩

def twinLinked : List LinkedFile :=
  [⟨"a.cs", 1, [⟨"T", "a.cs", "T", "U", "a.cs", "U", .usage⟩], []⟩,
    ⟨"b.cs", 1, [⟨"T", "b.cs", "T", "U", "a.cs", "U", .usage⟩], []⟩]

lemma runLinked_twin : runLinked twinReader none twinFiles = twinLinked := by cbv

lemma mem_relationships_twin {f : LinkedFile} (hf : f ∈ twinLinked) {r : Relationship}
    (hr : r ∈ f.direct) : r ∈ (resolve twinReader none twinFiles).relationships :=
  (mem_relationships_iff (by decide)).mpr
    ⟨f, by rw [runLinked_twin]; exact hf, List.mem_append_left _ hr⟩

/-- The second declaration of `T` is dropped, and its edge is in the report beside that of the
first, with the same key. -/
theorem twin_edges_share_key :
    ∃ r ∈ (resolve twinReader none twinFiles).relationships,
      ∃ r' ∈ (resolve twinReader none twinFiles).relationships, r ≠ r' ∧ r.key = r'.key :=
  ⟨_, mem_relationships_twin List.mem_cons_self List.mem_cons_self,
    _, mem_relationships_twin (List.mem_cons_of_mem _ List.mem_cons_self) List.mem_cons_self,
    by decide, by decide⟩

theorem keys_unique_iff_not_dropped_twin :
    (twinFiles.map (·.path)).Nodup ∧
      ((⟨"T", "a.cs", "T", "U", "a.cs", "U", .usage⟩ : Relationship).StartsDropped
          (runIndex twinReader twinFiles).types ∨
        (⟨"T", "b.cs", "T", "U", "a.cs", "U", .usage⟩ : Relationship).StartsDropped
          (runIndex twinReader twinFiles).types) := by
  have hpaths : (twinFiles.map (·.path)).Nodup := by decide
  have hshared := (keys_unique_iff_not_dropped twinReader none twinFiles hpaths).1
    _ (mem_relationships_twin List.mem_cons_self List.mem_cons_self)
    _ (mem_relationships_twin (List.mem_cons_of_mem _ List.mem_cons_self) List.mem_cons_self)
    (by decide)
  exact ⟨hpaths, (hshared.2 (by decide)).2⟩

end TypeCoupling
