import TypeCoupling.Proofs.EdgeOrder
import TypeCoupling.Proofs.Run
import TypeCoupling.Proofs.Walk
import TypeCoupling.Source.Reader

/-!
The edges that each file adds to a report.

A file has its direct edges and those found along its chains. Their keys differ, because following
chains starts with the direct ones as known. And they all start in the file, so files with
different paths have no edge in common. What the report lists is therefore what the files have,
no edge more, none less, and none twice.
-/

namespace TypeCoupling

/-! ### Files with different paths -/

section Paths

variable {reader : Reader}

lemma partitionFacts_paths_sublist (ss : List SourceFile) :
    ((partitionFacts (ss.map (·.facts reader))).1.map (·.path)).Sublist (ss.map (·.path)) := by
  induction ss with
  | nil => exact List.Sublist.refl _
  | cons s ss ih =>
    rw [List.map_cons]
    rcases hs : s.facts reader with e | f
    · rw [partitionFacts_cons_error]
      exact ih.cons s.path
    · obtain ⟨_, _, -, -, rfl⟩ := SourceFile.facts_ok hs
      rw [partitionFacts_cons_ok]
      exact ih.cons_cons s.path

variable {maxAncestors : Option Nat} {files : List SourceFile}

lemma readFacts_paths_nodup (hpaths : (files.map (·.path)).Nodup) :
    ((readFacts reader files).map (·.path)).Nodup := by
  have hsorted : ((sortByPath files).map (·.path)).Nodup :=
    ((List.mergeSort_perm files _).map _).nodup_iff.mpr hpaths
  exact (partitionFacts_paths_sublist (sortByPath files)).nodup hsorted

lemma runLinked_paths_nodup (hpaths : (files.map (·.path)).Nodup) :
    ((runLinked reader maxAncestors files).map (·.path)).Nodup := by
  unfold runLinked
  rw [List.map_map]
  exact readFacts_paths_nodup hpaths

end Paths

namespace LinkedFile

variable {β : Type} (part : LinkedFile → List β) {linked : List LinkedFile}

lemma flatMap_at_eq_nil {file : String} (h : file ∉ linked.map (·.path)) :
    (linked.flatMap fun f => if f.path = file then part f else []) = [] := by
  rw [List.flatMap_eq_nil_iff]
  intro f hf
  refine if_neg fun hp => h ?_
  rw [← hp]
  exact List.mem_map_of_mem hf

/-- What the files with one path have is what the one file has. -/
lemma flatMap_at_of_mem (h : (linked.map (·.path)).Nodup) {f : LinkedFile} (hf : f ∈ linked) :
    (linked.flatMap fun f' => if f'.path = f.path then part f' else []) = part f := by
  obtain ⟨before, after, rfl⟩ := List.append_of_mem hf
  rw [List.map_append, List.map_cons, List.nodup_middle, List.nodup_cons, List.mem_append,
    not_or] at h
  obtain ⟨⟨hbefore, hafter⟩, -⟩ := h
  rw [List.flatMap_append, List.flatMap_cons, flatMap_at_eq_nil part hbefore,
    flatMap_at_eq_nil part hafter]
  simp

/-- The tree holds the direct edges of every file, if no file overwrites another's. -/
lemma edges_tree (h : (linked.map (·.path)).Nodup) (file : String) :
    (tree linked).edges file = linked.flatMap fun f => if f.path = file then f.direct else [] := by
  induction linked using List.reverseRecOn with
  | nil => simp [tree, Tree.edges]
  | append_singleton linked f ih =>
    rw [List.map_append, List.map_singleton, List.nodup_append_comm, List.singleton_append,
      List.nodup_cons] at h
    obtain ⟨hnew, hlinked⟩ := h
    have htree : tree (linked ++ [f]) = (tree linked).insert f.path f.direct := by simp [tree]
    rw [htree, Tree.edges_insert, List.flatMap_append, ih hlinked]
    by_cases hf : f.path = file
    · rw [flatMap_at_eq_nil _ (hf ▸ hnew)]
      simp [hf]
    · simp [hf]

lemma edges_tree_of_mem (h : (linked.map (·.path)).Nodup) {f : LinkedFile} (hf : f ∈ linked) :
    (tree linked).edges f.path = f.direct := by
  rw [edges_tree h, flatMap_at_of_mem _ h hf]

/-- All edges of a file. -/
def edges (g : Graph) (f : LinkedFile) : List Relationship := f.direct ++ f.transitive g

end LinkedFile

section Run

variable {reader : Reader} {maxAncestors : Option Nat} {files : List SourceFile}

/-- **What following the chains of a file finds** is all of its edges that are not direct. -/
lemma transitive_eq_found (hpaths : (files.map (·.path)).Nodup) {f : LinkedFile}
    (hf : f ∈ runLinked reader maxAncestors files) :
    f.transitive (runGraph reader maxAncestors files) =
      ((runGraph reader maxAncestors files).resolveFile f.path f.deferred
        (.ofList (f.direct.map (·.key)))).1 := by
  have htree : (runGraph reader maxAncestors files).tree.edges f.path = f.direct :=
    LinkedFile.edges_tree_of_mem (runLinked_paths_nodup hpaths) hf
  unfold LinkedFile.transitive
  rw [htree]
  split
  · next hnone =>
    rw [List.isEmpty_iff] at hnone
    rw [hnone, Graph.resolveFile_found, Graph.offered_nil]
    rfl
  · rfl

/-! ### Where the edges of a file start -/

lemma direct_fromFile {f : LinkedFile} (hf : f ∈ runLinked reader maxAncestors files)
    {r : Relationship} (hr : r ∈ f.direct) : r.fromFile = f.path := by
  obtain ⟨facts, hfacts, rfl⟩ := List.mem_map.mp hf
  obtain ⟨-, -, -, -, hfile⟩ := mem_readFacts_path hfacts
  obtain ⟨c, -, hc⟩ := TypeIndex.mem_link hr
  obtain ⟨target, source, -, -, hs, -, rfl⟩ := TypeIndex.confirm?_eq_some.mp hc
  exact hfile source (List.mem_of_find?_eq_some hs)

/-- An edge found along a chain starts at a type that the index has from the file. -/
lemma transitive_origin {f : LinkedFile} {r : Relationship}
    (hr : r ∈ f.transitive (runGraph reader maxAncestors files)) :
    ∃ origin, (runIndex reader files).types.get? r.fromName = some origin ∧
      origin.file = f.path ∧ r.fromFile = f.path := by
  unfold LinkedFile.transitive at hr
  split at hr
  · simp at hr
  · rw [Graph.resolveFile_found] at hr
    obtain ⟨origin, ho, -, -, -, -, -, rfl⟩ :=
      Graph.mem_offered.mp ((keepNew_sublist _ _).subset hr)
    obtain ⟨hget, hfile⟩ := Index.mem_entriesOf.mp (List.mem_of_head? ho)
    exact ⟨origin, hget, hfile, hfile⟩

lemma edges_fromFile {f : LinkedFile} (hf : f ∈ runLinked reader maxAncestors files)
    {r : Relationship} (hr : r ∈ f.edges (runGraph reader maxAncestors files)) :
    r.fromFile = f.path := by
  rcases List.mem_append.mp hr with hd | ht
  · exact direct_fromFile hf hd
  · obtain ⟨-, -, -, hfile⟩ := transitive_origin ht
    exact hfile

/-- **One key, one edge** in each file: linking keeps each key once, and following chains starts
with those keys as known. -/
lemma edges_keys_nodup (hpaths : (files.map (·.path)).Nodup) {f : LinkedFile}
    (hf : f ∈ runLinked reader maxAncestors files) :
    ((f.edges (runGraph reader maxAncestors files)).map (·.key)).Nodup := by
  unfold LinkedFile.edges
  rw [transitive_eq_found hpaths hf, Graph.resolveFile_found, List.map_append, List.nodup_append]
  refine ⟨?_, keepNew_keys_nodup _ _, ?_⟩
  · obtain ⟨facts, -, rfl⟩ := List.mem_map.mp hf
    exact keepNew_keys_nodup _ _
  · rintro k hk _ hk' rfl
    obtain ⟨r, hr, rfl⟩ := List.mem_map.mp hk'
    exact keepNew_notMem hr (by simpa using hk)

/-! ### The report -/

/-- **The report has the edges of its files.** -/
lemma mem_relationships_iff (hpaths : (files.map (·.path)).Nodup) {r : Relationship} :
    r ∈ (resolve reader maxAncestors files).relationships ↔
      ∃ f ∈ runLinked reader maxAncestors files,
        r ∈ f.edges (runGraph reader maxAncestors files) := by
  constructor
  · intro h
    obtain ⟨f, hf, hr⟩ := mem_relationships h
    exact ⟨f, hf, List.mem_append.mpr hr⟩
  · rintro ⟨f, hf, hr⟩
    rw [resolve_relationships, Tree.mem_flatten]
    refine ⟨f.path, ?_⟩
    rw [Tree.edges_foldl_extend, List.mem_append]
    rcases List.mem_append.mp hr with hd | ht
    · have htree := LinkedFile.edges_tree_of_mem (runLinked_paths_nodup hpaths) hf
      exact Or.inl (htree ▸ hd)
    · exact Or.inr (List.mem_flatMap.mpr ⟨_, List.mem_map_of_mem hf, by rw [if_pos rfl]; exact ht⟩)

/-- The edges of all files, file after file, hold none twice. -/
lemma flatMap_edges_nodup (hpaths : (files.map (·.path)).Nodup) :
    ((runLinked reader maxAncestors files).flatMap
      (·.edges (runGraph reader maxAncestors files))).Nodup := by
  rw [List.nodup_flatMap]
  refine ⟨fun f hf => (edges_keys_nodup hpaths hf).of_map _, ?_⟩
  have hdiff : (runLinked reader maxAncestors files).Pairwise fun f f' => f.path ≠ f'.path :=
    List.pairwise_map.mp (runLinked_paths_nodup hpaths)
  refine hdiff.imp_of_mem fun hf hf' hne r hr hr' => hne ?_
  rw [← edges_fromFile hf hr, edges_fromFile hf' hr']

lemma relationships_perm (hpaths : (files.map (·.path)).Nodup) :
    (resolve reader maxAncestors files).relationships.Perm
      ((runLinked reader maxAncestors files).flatMap
        (·.edges (runGraph reader maxAncestors files))) := by
  have hnodup : (resolve reader maxAncestors files).relationships.Nodup := Tree.flatten_nodup _
  rw [List.perm_ext_iff_of_nodup hnodup (flatMap_edges_nodup hpaths)]
  intro r
  rw [mem_relationships_iff hpaths, List.mem_flatMap]

end Run

/-! ### Counting -/

lemma length_flatMap_edges (g : Graph) (linked : List LinkedFile) :
    (linked.flatMap (·.edges g)).length =
      total (·.direct.length) linked +
        total (·.2.length) (linked.map fun f => (f.path, f.transitive g)) := by
  induction linked with
  | nil => rfl
  | cons f linked ih =>
    rw [List.flatMap_cons, List.length_append, ih]
    simp only [LinkedFile.edges, List.length_append, total, List.map_cons, List.foldr_cons]
    omega

/-- **No edge is lost or counted twice.** The report has as many edges as its two counters say
together, no edge twice, and just those that linking keeps for a file or that following the chains
of the file finds when the linked ones are known. -/
theorem relationships_counted (reader : Reader) (maxAncestors : Option Nat)
    (files : List SourceFile) (hpaths : (files.map (·.path)).Nodup) :
    (resolve reader maxAncestors files).relationships.length =
        (resolve reader maxAncestors files).stats.direct +
          (resolve reader maxAncestors files).stats.transitive ∧
      (resolve reader maxAncestors files).relationships.Nodup ∧
      ∀ r, r ∈ (resolve reader maxAncestors files).relationships ↔
        ∃ f ∈ runLinked reader maxAncestors files,
          r ∈ f.direct ∨
            r ∈ ((runGraph reader maxAncestors files).resolveFile f.path f.deferred
              (.ofList (f.direct.map (·.key)))).1 := by
  refine ⟨?_, Tree.flatten_nodup _, fun r => ?_⟩
  · rw [(relationships_perm hpaths).length_eq, length_flatMap_edges]
    rfl
  · rw [mem_relationships_iff hpaths]
    refine exists_congr fun f => and_congr_right fun hf => ?_
    rw [LinkedFile.edges, List.mem_append, transitive_eq_found hpaths hf]

/-! ### A run with a direct edge and one along a chain

`A` uses `B` and has a member that returns `P`, a type of another language. -/

def mixedFiles : List SourceFile :=
  [⟨"a.cs", "class A { B b; public P G() { return a.G(); } } class B { }"⟩,
    ⟨"p.php", "<?php class P { }"⟩]

/-- What is captured in these files. -/
def mixedReader : Reader
  | .csharp, _ =>
    some
      ⟨[⟨.typeBlock, "class A { B b; public P G() { return a.G(); } }", 0, 47, 1⟩,
          ⟨.typeName, "A", 6, 7, 1⟩,
          ⟨.accessorBlock, "public P G() { return a.G(); }", 15, 45, 1⟩,
          ⟨.accessorModifier, "public", 15, 21, 1⟩, ⟨.returnType, "P", 22, 23, 1⟩,
          ⟨.accessorName, "G", 24, 25, 1⟩, ⟨.typeBlock, "class B { }", 48, 59, 1⟩,
          ⟨.typeName, "B", 54, 55, 1⟩],
        [], [],
        [⟨.qualifiedName, "B", 10, 11, 1⟩, ⟨.qualifiedName, "P", 22, 23, 1⟩,
          ⟨.callExpression, "a.G", 37, 40, 1⟩]⟩
  | .php, _ =>
    some ⟨[⟨.typeBlock, "class P { }", 6, 17, 1⟩, ⟨.typeName, "P", 12, 13, 1⟩], [], [], []⟩

def mixedEntries : List Entry :=
  [(Entry.plain "" "A" "." "a.cs" .csharp).addAccessor "G" "P",
    Entry.plain "" "B" "." "a.cs" .csharp, Entry.plain "" "P" "\\" "p.php" .php]

def mixedLinked : List LinkedFile :=
  [⟨"a.cs", 3, [⟨"A", "a.cs", "A", "B", "a.cs", "B", .usage⟩], [⟨"a.G", ".", true⟩]⟩,
    ⟨"p.php", 0, [], []⟩]

def mixedGraph : Graph := ⟨.ofEntries mixedEntries, LinkedFile.tree mixedLinked⟩

lemma readFacts_mixed : readFacts mixedReader mixedFiles =
    [⟨"a.cs", Language.csharp.profile, mixedEntries.take 2, .empty,
        [⟨.qualifiedName, "B", 10, 11, 1⟩, ⟨.qualifiedName, "P", 22, 23, 1⟩,
          ⟨.callExpression, "a.G", 37, 40, 1⟩]⟩,
      ⟨"p.php", Language.php.profile, mixedEntries.drop 2, .empty, []⟩] := by cbv

lemma runLinked_mixed :
    runIndex mixedReader mixedFiles = .ofEntries mixedEntries ∧
      runLinked mixedReader none mixedFiles = mixedLinked := by
  constructor
  · rw [runIndex, readFacts_mixed]
    rfl
  · rw [runLinked, runIndex, readFacts_mixed]
    cbv

lemma runGraph_mixed : runGraph mixedReader none mixedFiles = mixedGraph := by
  rw [runGraph, runLinked_mixed.1, runLinked_mixed.2, mixedGraph]

lemma transitive_mixed : mixedLinked.map (fun f => (f.path, f.transitive mixedGraph)) =
    [("a.cs", [⟨"A", "a.cs", "A", "P", "p.php", "P", .usage⟩]), ("p.php", [])] := by
  have hoffered : mixedGraph.offered "a.cs" [⟨"a.G", ".", true⟩] =
      [⟨"A", "a.cs", "A", "P", "p.php", "P", .usage⟩] := by cbv
  have hedges : mixedGraph.tree.edges "a.cs" =
      [⟨"A", "a.cs", "A", "B", "a.cs", "B", .usage⟩] := by cbv
  simp [mixedLinked, LinkedFile.transitive, Graph.resolveFile_found, hoffered, hedges, keepNew,
    Relationship.key]

theorem relationships_counted_mixed :
    (mixedFiles.map (·.path)).Nodup ∧
      (resolve mixedReader none mixedFiles).stats.direct = 1 ∧
      (resolve mixedReader none mixedFiles).stats.transitive = 1 ∧
      (resolve mixedReader none mixedFiles).relationships.length = 2 := by
  have hpaths : (mixedFiles.map (·.path)).Nodup := by decide
  have hdirect : (resolve mixedReader none mixedFiles).stats.direct = 1 := by
    change total (·.direct.length) (runLinked mixedReader none mixedFiles) = 1
    rw [runLinked_mixed.2]
    rfl
  have htransitive : (resolve mixedReader none mixedFiles).stats.transitive = 1 := by
    change total (·.2.length) ((runLinked mixedReader none mixedFiles).map fun f =>
      (f.path, f.transitive (runGraph mixedReader none mixedFiles))) = 1
    rw [runGraph_mixed, runLinked_mixed.2, transitive_mixed]
    rfl
  refine ⟨hpaths, hdirect, htransitive, ?_⟩
  rw [(relationships_counted mixedReader none mixedFiles hpaths).1, hdirect, htransitive]

/-! ### A run with two files that declare one type

`A` has a `B` and reads its `Next`, a `C`. Both `b.cs` and `c.cs` declare a `C`, and the last file
has no language. The texts are read by the reader of this library: what it marks in them is
evaluated by the kernel, the stages after it one by one. -/

lemma SourceFile.facts_of_marks {f : SourceFile} {fuel : Nat} {marks : List Source.Mark}
    {facts : FileFacts} (hlanguage : Path.language? f.path = some .csharp)
    (hfuel : 4 * (Source.tokens Source.CSharp.lexer f.content.toList).length + 16 = fuel)
    (hmarks : Source.CSharp.declarations fuel
      (Source.forest (Source.tokens Source.CSharp.lexer f.content.toList)) = marks)
    (hfacts : .ofCaptures f.path Language.csharp.profile
      (Source.fileCaptures f.content.toList marks []) = facts) :
    f.facts Source.read = .ok facts := by
  subst hfuel hmarks hfacts
  rw [SourceFile.facts, hlanguage]
  rfl

def userFile : SourceFile := ⟨"a.cs", "class A { B b; int F() { return b.Next; } }"⟩

def ownerFile : SourceFile := ⟨"b.cs", "class B { public C Next { get; } } class C { }"⟩

def rivalFile : SourceFile := ⟨"c.cs", "class C { }"⟩

def rivals : List SourceFile := [userFile, ownerFile, rivalFile, ⟨"notes", ""⟩]

def userFacts : FileFacts :=
  ⟨"a.cs", Language.csharp.profile, [Entry.plain "" "A" "." "a.cs" .csharp], .empty,
    [⟨.qualifiedName, "B", 10, 11, 1⟩, ⟨.qualifiedName, "int", 15, 18, 1⟩,
      ⟨.callExpression, "b.Next", 32, 38, 1⟩]⟩

def ownerFacts : FileFacts :=
  ⟨"b.cs", Language.csharp.profile,
    [(Entry.plain "" "B" "." "b.cs" .csharp).addAccessor "Next" "C",
      Entry.plain "" "C" "." "b.cs" .csharp], .empty, [⟨.qualifiedName, "C", 17, 18, 1⟩]⟩

def rivalFacts : FileFacts :=
  ⟨"c.cs", Language.csharp.profile, [Entry.plain "" "C" "." "c.cs" .csharp], .empty, []⟩

lemma userFile_facts : userFile.facts Source.read = .ok userFacts := by
  have hmarks : Source.CSharp.declarations 88
      (Source.forest (Source.tokens Source.CSharp.lexer userFile.content.toList)) =
      [⟨.typeBlock, 0, 43⟩, ⟨.typeName, 6, 7⟩, ⟨.qualifiedName, 10, 11⟩, ⟨.qualifiedName, 15, 18⟩,
        ⟨.callExpression, 32, 38⟩] := by decide +kernel
  exact SourceFile.facts_of_marks (by cbv) (by decide +kernel) hmarks (by cbv)

lemma ownerFile_facts : ownerFile.facts Source.read = .ok ownerFacts := by
  have hmarks : Source.CSharp.declarations 76
      (Source.forest (Source.tokens Source.CSharp.lexer ownerFile.content.toList)) =
      [⟨.typeBlock, 0, 34⟩, ⟨.typeName, 6, 7⟩, ⟨.qualifiedName, 17, 18⟩, ⟨.accessorBlock, 10, 32⟩,
        ⟨.accessorModifier, 10, 16⟩, ⟨.returnType, 17, 18⟩, ⟨.accessorName, 19, 23⟩,
        ⟨.typeBlock, 35, 46⟩, ⟨.typeName, 41, 42⟩] := by decide +kernel
  exact SourceFile.facts_of_marks (by cbv) (by decide +kernel) hmarks (by cbv)

lemma rivalFile_facts : rivalFile.facts Source.read = .ok rivalFacts := by
  have hmarks : Source.CSharp.declarations 32
      (Source.forest (Source.tokens Source.CSharp.lexer rivalFile.content.toList)) =
      [⟨.typeBlock, 0, 11⟩, ⟨.typeName, 6, 7⟩] := by decide +kernel
  exact SourceFile.facts_of_marks (by cbv) (by decide +kernel) hmarks (by cbv)

lemma SourceFile.facts_of_no_language {reader : Reader} {f : SourceFile}
    (h : Path.language? f.path = none) :
    f.facts reader = .error ⟨f.path, (Error.unsupportedLanguage f.path).message⟩ := by
  rw [facts, h]

lemma partitionFacts_rivals :
    partitionFacts ((sortByPath rivals).map (·.facts Source.read)) =
      ([userFacts, ownerFacts, rivalFacts],
        [⟨"notes", (Error.unsupportedLanguage "notes").message⟩]) := by
  have hsorted : sortByPath rivals = rivals := List.mergeSort_of_pairwise (by decide)
  have hnotes : (⟨"notes", ""⟩ : SourceFile).facts Source.read =
      .error ⟨"notes", (Error.unsupportedLanguage "notes").message⟩ :=
    SourceFile.facts_of_no_language (by cbv)
  rw [hsorted, rivals]
  simp only [List.map_cons, List.map_nil, userFile_facts, ownerFile_facts, rivalFile_facts, hnotes]
  rfl

lemma readFacts_rivals :
    readFacts Source.read rivals = [userFacts, ownerFacts, rivalFacts] := by
  rw [readFacts, partitionFacts_rivals]

lemma errors_rivals : (resolve Source.read none rivals).errors =
    [⟨"notes", (Error.unsupportedLanguage "notes").message⟩] :=
  congrArg Prod.snd partitionFacts_rivals

def rivalLinked : List LinkedFile :=
  [⟨"a.cs", 3, [⟨"A", "a.cs", "A", "B", "b.cs", "B", .usage⟩], [⟨"b.Next", ".", true⟩]⟩,
    ⟨"b.cs", 1, [⟨"B", "b.cs", "B", "C", "b.cs", "C", .usage⟩], []⟩,
    ⟨"c.cs", 0, [], []⟩]

lemma runLinked_rivals : runLinked Source.read none rivals = rivalLinked := by
  rw [runLinked, runIndex, readFacts_rivals]
  cbv

lemma runGraph_rivals : runGraph Source.read none rivals =
    ⟨.ofEntries ([userFacts, ownerFacts, rivalFacts].flatMap (·.entries)),
      LinkedFile.tree rivalLinked⟩ := by
  rw [runGraph, runLinked_rivals, runIndex, readFacts_rivals]

lemma transitive_rivals :
    rivalLinked.map (fun f => (f.path, f.transitive (runGraph Source.read none rivals))) =
      [("a.cs", [⟨"A", "a.cs", "A", "C", "b.cs", "C", .usage⟩]), ("b.cs", []), ("c.cs", [])] := by
  have hoffered : (runGraph Source.read none rivals).offered "a.cs" [⟨"b.Next", ".", true⟩] =
      [⟨"A", "a.cs", "A", "B", "b.cs", "B", .usage⟩,
        ⟨"A", "a.cs", "A", "C", "b.cs", "C", .usage⟩] := by
    rw [runGraph_rivals]
    cbv
  have hedges : (runGraph Source.read none rivals).tree.edges "a.cs" =
      [⟨"A", "a.cs", "A", "B", "b.cs", "B", .usage⟩] := by
    rw [runGraph_rivals]
    cbv
  simp [rivalLinked, LinkedFile.transitive, Graph.resolveFile_found, hoffered, hedges, keepNew,
    Relationship.key]

/-- Two direct edges, and between them the one that `A` has along its chain. -/
def rivalEdges : List Relationship :=
  [⟨"A", "a.cs", "A", "B", "b.cs", "B", .usage⟩, ⟨"A", "a.cs", "A", "C", "b.cs", "C", .usage⟩,
    ⟨"B", "b.cs", "B", "C", "b.cs", "C", .usage⟩]

lemma relationships_rivals : (resolve Source.read none rivals).relationships = rivalEdges := by
  rw [resolve_relationships, runLinked_rivals, transitive_rivals, runGraph_rivals]
  cbv

end TypeCoupling
