import TypeCoupling.Facts
import TypeCoupling.Proofs.FileEdges
import TypeCoupling.Proofs.InputOrder

/-!
One set of known edges for all files, or one for each.

The chains of several files can be followed one after another over a set of known keys that grows
on the way, or each file can be given a set of its own. Every key that the chains of a file come
upon names the file's first type, and no type is the first of two files, so what one file adds to
a shared set is never asked for by another. Two ways of knowing keys in advance find the same
edges as soon as they agree on the keys of each file.
-/

namespace TypeCoupling

namespace Graph

/-- The chains of different files come upon different keys. -/
def KeysApart (g : Graph) : Prop :=
  ∀ file file' chains chains', ∀ r ∈ g.offered file chains, ∀ r' ∈ g.offered file' chains',
    r.key = r'.key → file = file'

lemma keysApart_ofEntries (es : List Entry) (tree : Tree) :
    KeysApart ⟨.ofEntries es, tree⟩ := by
  intro file file' chains chains' r hr r' hr' hk
  obtain ⟨origin, ho, -, -, t, -, -, rfl⟩ := mem_offered.mp hr
  obtain ⟨origin', ho', -, -, t', -, -, rfl⟩ := mem_offered.mp hr'
  obtain ⟨hget, hfile⟩ := Index.mem_entriesOf.mp (List.mem_of_head? ho)
  obtain ⟨hget', hfile'⟩ := Index.mem_entriesOf.mp (List.mem_of_head? ho')
  have hname : origin.qualifiedName = origin'.qualifiedName := congrArg EdgeKey.fromName hk
  have horigin : origin = origin' := by
    rw [hname, hget'] at hget
    exact (Option.some.inj hget).symm
  rw [← hfile, horigin, hfile']

lemma resolveAll_cons (g : Graph) (p : String × List CallChain)
    (l : List (String × List CallChain)) (known : Std.HashSet EdgeKey) :
    g.resolveAll (p :: l) known =
      ((g.resolveFile p.1 p.2 known).1 ++
          (g.resolveAll l (g.resolveFile p.1 p.2 known).2).1,
        (g.resolveAll l (g.resolveFile p.1 p.2 known).2).2) := rfl

/-- What is known in the end. -/
lemma resolveAll_seen (g : Graph) (l : List (String × List CallChain))
    (known : Std.HashSet EdgeKey) (k : EdgeKey) :
    k ∈ (g.resolveAll l known).2 ↔
      k ∈ known ∨ ∃ p ∈ l, ∃ r ∈ g.offered p.1 p.2, r.key = k := by
  induction l generalizing known with
  | nil => simp [resolveAll]
  | cons p l ih =>
    rw [resolveAll_cons, ih, resolveFile_seen, List.exists_mem_cons_iff, or_assoc]

/-- **A shared set finds what a set for each file finds**, if in the beginning the two know the
same of the keys of each file. -/
lemma resolveAll_eq_flatMap {g : Graph} (hg : g.KeysApart) {l : List (String × List CallChain)}
    (hfiles : (l.map (·.1)).Nodup) {known : Std.HashSet EdgeKey}
    (seeds : String → Std.HashSet EdgeKey)
    (hseeds : ∀ p ∈ l, ∀ r ∈ g.offered p.1 p.2, r.key ∈ known ↔ r.key ∈ seeds p.1) :
    (g.resolveAll l known).1 = l.flatMap fun p => (g.resolveFile p.1 p.2 (seeds p.1)).1 := by
  induction l generalizing known with
  | nil => rfl
  | cons p l ih =>
    obtain ⟨hfirst, hlater⟩ := List.nodup_cons.mp hfiles
    have hhead : (g.resolveFile p.1 p.2 known).1 = (g.resolveFile p.1 p.2 (seeds p.1)).1 := by
      rw [resolveFile_found, resolveFile_found]
      exact keepNew_congr (hseeds p List.mem_cons_self)
    -- the keys that the first file adds are none of those that the others ask for
    have hrest : ∀ q ∈ l, ∀ r ∈ g.offered q.1 q.2,
        r.key ∈ (g.resolveFile p.1 p.2 known).2 ↔ r.key ∈ seeds q.1 := by
      intro q hq r hr
      have hforeign : ¬∃ r' ∈ g.offered p.1 p.2, r'.key = r.key := by
        rintro ⟨r', hr', hk⟩
        have hfile : p.1 = q.1 := hg _ _ _ _ r' hr' r hr hk
        exact hfirst (List.mem_map.mpr ⟨q, hq, hfile.symm⟩)
      rw [resolveFile_seen, ← hseeds q (List.mem_cons_of_mem _ hq) r hr]
      simp only [hforeign, or_false]
    rw [resolveAll_cons, hhead, ih hlater hrest, List.flatMap_cons]

/-- **Files do not suppress one another.** Over an index made from declarations, following the
chains of all files over one set of known keys finds, in the order of the paths, what each file
finds by itself from the set as it was in the beginning. What is known in the end is what was
known and what each of these runs has come to know; with a file at least, the latter is all of
it. -/
theorem resolveAll_eq_independent (es : List Entry) (tree : Tree)
    (chains : Std.TreeMap String (List CallChain)) (seen : Std.HashSet EdgeKey) :
    let g : Graph := ⟨.ofEntries es, tree⟩
    (chains.toList.map (·.1)).Pairwise (· < ·) ∧
    (g.resolveAll chains.toList seen).1 =
      chains.toList.flatMap (fun p => (g.resolveFile p.1 p.2 seen).1) ∧
    (∀ k, k ∈ (g.resolveAll chains.toList seen).2 ↔
      k ∈ seen ∨ ∃ p ∈ chains.toList, k ∈ (g.resolveFile p.1 p.2 seen).2) ∧
    (chains.isEmpty = false → ∀ k, k ∈ (g.resolveAll chains.toList seen).2 ↔
      ∃ p ∈ chains.toList, k ∈ (g.resolveFile p.1 p.2 seen).2) := by
  intro g
  have hkeys : chains.toList.map (·.1) = chains.keys := Std.TreeMap.map_fst_toList_eq_keys
  have hnodup : (chains.toList.map (·.1)).Nodup := by
    rw [hkeys]
    exact Std.TreeMap.nodup_keys
  have hunion : ∀ k, k ∈ (g.resolveAll chains.toList seen).2 ↔
      k ∈ seen ∨ ∃ p ∈ chains.toList, k ∈ (g.resolveFile p.1 p.2 seen).2 := by
    intro k
    simp only [resolveAll_seen, resolveFile_seen]
    constructor
    · rintro (hk | ⟨p, hp, hr⟩)
      · exact Or.inl hk
      · exact Or.inr ⟨p, hp, Or.inr hr⟩
    · rintro (hk | ⟨p, hp, hk | hr⟩)
      · exact Or.inl hk
      · exact Or.inl hk
      · exact Or.inr ⟨p, hp, hr⟩
  refine ⟨hkeys ▸ keys_pairwise_lt chains, ?_, hunion, fun hsome k => ?_⟩
  · exact resolveAll_eq_flatMap (keysApart_ofEntries es tree) hnodup (fun _ => seen)
      fun _ _ _ _ => Iff.rfl
  · rw [hunion]
    refine ⟨?_, Or.inr⟩
    rintro (hk | hk)
    · -- the first file has it as known, like every other
      obtain ⟨p, hp⟩ : ∃ p, p ∈ chains.toList := by
        rw [← List.isEmpty_eq_false_iff_exists_mem, Std.TreeMap.isEmpty_toList]
        exact hsome
      exact ⟨p, hp, (resolveFile_seen ..).mpr (Or.inl hk)⟩
    · exact hk

/-- `A` and `B` use `C`, which leads to `D` by `Next`. -/
def forkEntries : List Entry :=
  [Entry.plain "" "A" "." "a.cs" .csharp, Entry.plain "" "B" "." "b.cs" .csharp,
    (Entry.plain "" "C" "." "c.cs" .csharp).addAccessor "Next" "D",
    Entry.plain "" "D" "." "d.cs" .csharp]

def forkTree : Tree :=
  ((∅ : Tree).insert "a.cs" [⟨"A", "a.cs", "A", "C", "c.cs", "C", .usage⟩]).insert "b.cs"
    [⟨"B", "b.cs", "B", "C", "c.cs", "C", .usage⟩]

def forkChains : Std.TreeMap String (List CallChain) :=
  ((∅ : Std.TreeMap String (List CallChain)).insert "b.cs" [⟨"c.Next", ".", true⟩]).insert "a.cs"
    [⟨"c.Next", ".", true⟩]

theorem resolveAll_eq_independent_fork :
    let g : Graph := ⟨.ofEntries forkEntries, forkTree⟩
    forkChains.isEmpty = false ∧
      (g.resolveAll forkChains.toList ∅).1.map (·.key) =
        [⟨"A", "C", .usage⟩, ⟨"A", "D", .usage⟩, ⟨"B", "C", .usage⟩, ⟨"B", "D", .usage⟩] ∧
      ⟨"A", "D", .usage⟩ ∈ (g.resolveAll forkChains.toList ∅).2 := by
  intro g
  have hsome : forkChains.isEmpty = false := by cbv
  have hlist : forkChains.toList =
      [("a.cs", [⟨"c.Next", ".", true⟩]), ("b.cs", [⟨"c.Next", ".", true⟩])] := by cbv
  have ha : g.offered "a.cs" [⟨"c.Next", ".", true⟩] =
      [⟨"A", "a.cs", "A", "C", "c.cs", "C", .usage⟩,
        ⟨"A", "a.cs", "A", "D", "d.cs", "D", .usage⟩] := by cbv
  have hb : g.offered "b.cs" [⟨"c.Next", ".", true⟩] =
      [⟨"B", "b.cs", "B", "C", "c.cs", "C", .usage⟩,
        ⟨"B", "b.cs", "B", "D", "d.cs", "D", .usage⟩] := by cbv
  obtain ⟨-, hfound, -, hunion⟩ := resolveAll_eq_independent forkEntries forkTree forkChains ∅
  refine ⟨hsome, ?_, ?_⟩
  · rw [hfound, hlist]
    simp [resolveFile_found, g, ha, hb, keepNew, Relationship.key]
  · rw [hunion hsome, hlist]
    exact ⟨_, List.mem_cons_self, (resolveFile_seen ..).mpr (Or.inr ⟨_, by
      rw [ha]; exact List.mem_cons_of_mem _ List.mem_cons_self, rfl⟩)⟩

end Graph

/-! ### The stages with shared keys -/

/-- A map that is filled in the order of its keys lists what was put in. -/
lemma toList_foldl_insert {β : Type} {l : List (String × β)}
    (h : (l.map (·.1)).Pairwise fun a b => compare a b = .lt) :
    (l.foldl (fun t p => t.insert p.1 p.2) (∅ : Std.TreeMap String β)).toList = l := by
  induction l using List.reverseRecOn with
  | nil => rfl
  | append_singleton l p ih =>
    rw [List.map_append, List.pairwise_append] at h
    obtain ⟨hl, -, hlast⟩ := h
    have hbefore : ∀ q ∈ l, compare q.1 p.1 = .lt :=
      fun q hq => hlast _ (List.mem_map_of_mem hq) _ (by simp)
    have hother : l.filter (fun q => decide ¬(p.1 == q.1) = true) = l := by
      rw [List.filter_eq_self]
      intro q hq
      have hlt : q.1 < p.1 := compareOfLessAndEq_eq_lt.mp (hbefore q hq)
      have hne : p.1 ≠ q.1 := fun heq => String.lt_irrefl q.1 (heq ▸ hlt)
      simpa using hne
    rw [List.foldl_append, List.foldl_cons, List.foldl_nil]
    -- both sides are in order and hold the same pairs
    have hperm := Std.TreeMap.toList_insert_perm (k := p.1) (v := p.2)
      (t := l.foldl (fun t p => t.insert p.1 p.2) (∅ : Std.TreeMap String β))
    rw [ih hl, hother] at hperm
    have hsorted : (l ++ [p]).Pairwise fun a b => compare a.1 b.1 = .lt := by
      rw [List.pairwise_append]
      refine ⟨List.pairwise_map.mp hl, List.pairwise_singleton _ _, fun q hq q' hq' => ?_⟩
      rw [List.mem_singleton.mp hq']
      exact hbefore q hq
    refine List.Perm.eq_of_pairwise (fun a b _ _ hab hba => ?_)
      Std.TreeMap.ordered_keys_toList hsorted (hperm.trans (List.perm_append_singleton p l).symm)
    exact absurd hba (Std.OrientedCmp.not_lt_of_lt hab)

lemma Tree.edges_extendEach (t : Tree) (rs : List Relationship) (file : String) :
    (t.extendEach rs).edges file = t.edges file ++ rs.filter (·.fromFile == file) := by
  unfold Tree.extendEach
  induction rs generalizing t with
  | nil => simp
  | cons r rs ih =>
    rw [List.foldl_cons, ih, edges_extend, List.filter_cons]
    by_cases hr : r.fromFile = file
    · simp [hr]
    · simp [hr]

lemma Tree.mem_values_flatten {t : Tree} {r : Relationship} :
    r ∈ t.values.flatten ↔ ∃ file, r ∈ t.edges file := by
  rw [← mem_flatten, Tree.flatten, mem_sortDistinct]

/-- No qualified name is declared in two files. -/
def DeclaredApart (reader : Reader) (files : List SourceFile) : Prop :=
  ∀ f ∈ readFacts reader files, ∀ f' ∈ readFacts reader files, ∀ e ∈ f.entries,
    ∀ e' ∈ f'.entries, e.qualifiedName = e'.qualifiedName → f.path = f'.path

section Run

variable {reader : Reader} {maxAncestors : Option Nat} {files : List SourceFile}

lemma readFacts_paths_lt (hpaths : (files.map (·.path)).Nodup) :
    ((readFacts reader files).map (·.path)).Pairwise fun a b => compare a b = .lt := by
  have hsorted : ((sortByPath files).map (·.path)).Pairwise fun a b => compare a b = .lt :=
    List.pairwise_map.mpr (sortByPath_strict hpaths)
  exact hsorted.sublist (partitionFacts_paths_sublist (sortByPath files))

/-- The keys of all edges of a tree. -/
def sharedSeed (t : Tree) : Std.HashSet EdgeKey := .ofList (t.values.flatten.map (·.key))

/-- **What the stages with shared keys do**: they follow the chains of the linked files in the
order of the paths over the keys of all direct edges. -/
lemma resolveStaged_transitive (hpaths : (files.map (·.path)).Nodup) :
    (resolveStaged (readFacts reader files) maxAncestors).transitive =
      ((runGraph reader maxAncestors files).resolveAll
        ((runLinked reader maxAncestors files).map fun f => (f.path, f.deferred))
        (sharedSeed (runGraph reader maxAncestors files).tree)).1 ∧
    (resolveStaged (readFacts reader files) maxAncestors).relationships =
      ((runGraph reader maxAncestors files).tree.extendEach
        (resolveStaged (readFacts reader files) maxAncestors).transitive).flatten := by
  have hlt : ((readFacts reader files).map (·.path)).Pairwise fun a b => compare a b = .lt :=
    readFacts_paths_lt hpaths
  have hsort : (readFacts reader files).mergeSort (fun a b => (compare a.path b.path).isLE) =
      readFacts reader files := by
    refine List.mergeSort_of_pairwise ((List.pairwise_map.mp hlt).imp fun h => ?_)
    rw [h]
    rfl
  have hchains : (((runLinked reader maxAncestors files).map fun f => (f.path, f.deferred)).map
      (·.1)).Pairwise fun a b => compare a b = .lt := by
    unfold runLinked
    rw [List.map_map, List.map_map]
    exact hlt
  have hlist := toList_foldl_insert hchains
  have hgraph : Graph.mk (runIndex reader files) ((readFacts reader files).foldl (fun t f =>
      t.insert f.path ((runIndex reader files).types.link f.entries f.profile.language
        (f.usages maxAncestors).candidates)) ∅) = runGraph reader maxAncestors files := by
    simp only [runGraph, LinkedFile.tree, runLinked, List.foldl_map]
    rfl
  unfold resolveStaged
  rw [hsort]
  simp only [runLinked, List.foldl_map, List.map_map] at hlist ⊢
  exact ⟨by rw [← hlist, ← hgraph]; rfl, by rw [← hgraph]; rfl⟩

/-- A direct edge of the key of an edge along the chains of a file is one of that file. -/
lemma path_eq_of_key_eq (happart : DeclaredApart reader files) {f : LinkedFile}
    (hf : f ∈ runLinked reader maxAncestors files) {r : Relationship} (hr : r ∈ f.direct)
    {file : String} {chains : List CallChain} {r' : Relationship}
    (hr' : r' ∈ (runGraph reader maxAncestors files).offered file chains)
    (hk : r.key = r'.key) : f.path = file := by
  obtain ⟨facts, hfacts, rfl⟩ := List.mem_map.mp hf
  obtain ⟨c, -, hc⟩ := TypeIndex.mem_link hr
  obtain ⟨target, source, -, -, hs, -, rfl⟩ := TypeIndex.confirm?_eq_some.mp hc
  obtain ⟨origin, ho, -, -, t, -, -, rfl⟩ := Graph.mem_offered.mp hr'
  obtain ⟨facts', hfacts', horigin, hpath⟩ := mem_entriesOf_runIndex (List.mem_of_head? ho)
  have hname : source.qualifiedName = origin.qualifiedName := congrArg EdgeKey.fromName hk
  rw [← hpath]
  exact happart facts hfacts facts' hfacts' source (List.mem_of_find?_eq_some hs) origin horigin
    hname

/-- The two ways to begin know the same of the keys of each file. -/
lemma mem_sharedSeed_iff (happart : DeclaredApart reader files) {file : String}
    {chains : List CallChain} {r : Relationship}
    (hr : r ∈ (runGraph reader maxAncestors files).offered file chains) :
    r.key ∈ sharedSeed (runGraph reader maxAncestors files).tree ↔
      r.key ∈ Std.HashSet.ofList
        (((runGraph reader maxAncestors files).tree.edges file).map (·.key)) := by
  simp only [sharedSeed, Std.HashSet.mem_ofList, List.contains_iff_mem, List.mem_map,
    Tree.mem_values_flatten]
  constructor
  · rintro ⟨d, ⟨file', hd⟩, hk⟩
    obtain ⟨f, hf, hpath, hdirect⟩ := LinkedFile.mem_edges_tree hd
    have hfile : f.path = file := path_eq_of_key_eq happart hf hdirect hr hk
    exact ⟨d, by rw [← hfile, hpath]; exact hd, hk⟩
  · rintro ⟨d, hd, hk⟩
    exact ⟨d, ⟨file, hd⟩, hk⟩

lemma staged_transitive_eq_flatMap (hpaths : (files.map (·.path)).Nodup)
    (happart : DeclaredApart reader files) :
    (resolveStaged (readFacts reader files) maxAncestors).transitive =
      (runLinked reader maxAncestors files).flatMap
        (·.transitive (runGraph reader maxAncestors files)) := by
  have hnodup : (((runLinked reader maxAncestors files).map fun f => (f.path, f.deferred)).map
      (·.1)).Nodup := by
    rw [List.map_map]
    exact runLinked_paths_nodup hpaths
  have hkeys : (runGraph reader maxAncestors files).KeysApart := Graph.keysApart_ofEntries _ _
  rw [(resolveStaged_transitive hpaths).1, Graph.resolveAll_eq_flatMap hkeys hnodup
    (fun file => .ofList (((runGraph reader maxAncestors files).tree.edges file).map (·.key)))
    fun p _ r hr => ?_, List.flatMap_map]
  · refine List.flatMap_congr fun f hf => ?_
    have htree : (runGraph reader maxAncestors files).tree.edges f.path = f.direct :=
      LinkedFile.edges_tree_of_mem (runLinked_paths_nodup hpaths) hf
    rw [transitive_eq_found hpaths hf, htree]
  · exact mem_sharedSeed_iff happart hr

/-- Of the edges along chains, those that start in a file are those of its chains. -/
lemma filter_flatMap_transitive (file : String) :
    ((runLinked reader maxAncestors files).flatMap
        (·.transitive (runGraph reader maxAncestors files))).filter (·.fromFile == file) =
      (runLinked reader maxAncestors files).flatMap fun f =>
        if f.path = file then f.transitive (runGraph reader maxAncestors files) else [] := by
  rw [List.filter_flatMap]
  refine List.flatMap_congr fun f _ => ?_
  have hfrom : ∀ r ∈ f.transitive (runGraph reader maxAncestors files), r.fromFile = f.path := by
    intro r hr
    obtain ⟨-, -, -, hfile⟩ := transitive_origin hr
    exact hfile
  split
  · next hfile =>
    rw [List.filter_eq_self]
    intro r hr
    simpa [hfile] using hfrom r hr
  · next hfile =>
    rw [List.filter_eq_nil_iff]
    intro r hr
    simpa [hfrom r hr] using hfile

end Run

/-- **Keys known for each file or for all files.** If no name is declared in two files, following
the chains of each file over the keys of its own direct edges, as a run does, finds file by file
what following all chains over the keys of all direct edges finds. The edges in order and the
coupling are then the same. -/
theorem seeding_per_file_eq_shared (reader : Reader) (maxAncestors : Option Nat)
    (files : List SourceFile) (hpaths : (files.map (·.path)).Nodup)
    (happart : DeclaredApart reader files) :
    let g := runGraph reader maxAncestors files
    let linked := runLinked reader maxAncestors files
    let staged := resolveStaged (readFacts reader files) maxAncestors
    staged.transitive =
        (g.resolveAll (linked.map fun f => (f.path, f.deferred)) (sharedSeed g.tree)).1 ∧
      staged.transitive = linked.flatMap (·.transitive g) ∧
      (∀ f ∈ linked, f.transitive g = staged.transitive.filter (·.fromFile == f.path)) ∧
      staged.relationships = (resolve reader maxAncestors files).relationships ∧
      coupling staged.relationships = (resolve reader maxAncestors files).coupling := by
  intro g linked staged
  have hfound : staged.transitive = linked.flatMap (·.transitive g) :=
    staged_transitive_eq_flatMap hpaths happart
  have hrelationships :
      staged.relationships = (resolve reader maxAncestors files).relationships := by
    rw [(resolveStaged_transitive hpaths).2, resolve_relationships]
    refine Tree.flatten_congr fun file => ?_
    rw [Tree.edges_extendEach, Tree.edges_foldl_extend, staged_transitive_eq_flatMap hpaths happart,
      filter_flatMap_transitive, List.flatMap_map]
  refine ⟨(resolveStaged_transitive hpaths).1, hfound, fun f hf => ?_, hrelationships, ?_⟩
  · rw [hfound, filter_flatMap_transitive,
      LinkedFile.flatMap_at_of_mem _ (runLinked_paths_nodup hpaths) hf]
  · rw [hrelationships]
    rfl

lemma declaredApart_mixed : DeclaredApart mixedReader mixedFiles := by
  unfold DeclaredApart
  rw [readFacts_mixed]
  decide

theorem seeding_per_file_eq_shared_mixed :
    (mixedFiles.map (·.path)).Nodup ∧ DeclaredApart mixedReader mixedFiles ∧
      (resolveStaged (readFacts mixedReader mixedFiles) none).transitive =
        [⟨"A", "a.cs", "A", "P", "p.php", "P", .usage⟩] := by
  have hpaths : (mixedFiles.map (·.path)).Nodup := by decide
  obtain ⟨-, hfound, -⟩ :=
    seeding_per_file_eq_shared mixedReader none mixedFiles hpaths declaredApart_mixed
  refine ⟨hpaths, declaredApart_mixed, ?_⟩
  have htransitive := congrArg (List.flatMap (·.2)) transitive_mixed
  rw [List.flatMap_map] at htransitive
  rw [hfound, runGraph_mixed, runLinked_mixed.2, htransitive]
  rfl

end TypeCoupling
