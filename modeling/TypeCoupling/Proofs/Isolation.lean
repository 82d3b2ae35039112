import TypeCoupling.Proofs.FileEdges
import TypeCoupling.Proofs.InputOrder

/-!
A file that cannot be read, or that declares no type, changes nothing for the others.

Sorting puts it at its place among the files. If it cannot be read, its error comes at that place
among the errors, and no later stage sees it. If it can be read, it takes part in every stage with
nothing to give: it adds no type to the index, no edge to the tree and no chain. Every look into
the index or the tree then has the same answer as without it.
-/

namespace TypeCoupling

/-! ### A file at its place -/

/-- Sorting puts one more file at its place and leaves the order of the others as it is. -/
lemma sortByPath_insert {before after : List SourceFile} {b : SourceFile}
    (hpaths : ((before ++ b :: after).map (·.path)).Nodup) :
    ∃ earlier later, sortByPath (before ++ b :: after) = earlier ++ b :: later ∧
      sortByPath (before ++ after) = earlier ++ later ∧
      (∀ s ∈ earlier, compare s.path b.path = .lt) ∧
      ∀ s ∈ later, compare b.path s.path = .lt := by
  have hperm : (sortByPath (before ++ b :: after)).Perm (before ++ b :: after) :=
    List.mergeSort_perm _ _
  have hstrict := sortByPath_strict hpaths
  have hsorted := sortByPath_pairwise (before ++ b :: after)
  obtain ⟨earlier, later, hsort⟩ : ∃ earlier later,
      sortByPath (before ++ b :: after) = earlier ++ b :: later :=
    List.append_of_mem (hperm.mem_iff.mpr (by simp))
  rw [hsort] at hperm hstrict hsorted
  have hothers : (before ++ after).Perm (earlier ++ later) :=
    (List.perm_middle.symm.trans (hperm.trans List.perm_middle)).cons_inv.symm
  have hpaths' : ((before ++ after).map (·.path)).Nodup :=
    (((List.sublist_cons_self b after).append_left before).map _).nodup hpaths
  have hdropped : (earlier ++ later).Pairwise fun a b => a.before b = true :=
    hsorted.sublist ((List.sublist_cons_self b later).append_left earlier)
  obtain ⟨-, hlater, hcross⟩ := List.pairwise_append.mp hstrict
  refine ⟨earlier, later, hsort, ?_, fun s hs => hcross s hs b List.mem_cons_self,
    (List.pairwise_cons.mp hlater).1⟩
  rw [sortByPath_eq_of_perm hothers hpaths']
  exact List.mergeSort_of_pairwise hdropped

lemma partitionFacts_append (rs rs' : List (Except FileError FileFacts)) :
    partitionFacts (rs ++ rs') =
      ((partitionFacts rs).1 ++ (partitionFacts rs').1,
        (partitionFacts rs).2 ++ (partitionFacts rs').2) := by
  simp only [partitionFacts, List.filterMap_append]

lemma SourceFile.facts_error {reader : Reader} {s : SourceFile} {e : FileError}
    (h : s.facts reader = .error e) : e.path = s.path := by
  unfold SourceFile.facts at h
  split at h
  · rw [← Except.error.inj h]
  · split at h
    · rw [← Except.error.inj h]
    · simp at h

/-- An error is one of a file that was to be read. -/
lemma mem_partitionFacts_errors {reader : Reader} {ss : List SourceFile} {e : FileError}
    (h : e ∈ (partitionFacts (ss.map (·.facts reader))).2) : ∃ s ∈ ss, e.path = s.path := by
  obtain ⟨r, hr, he⟩ := List.mem_filterMap.mp h
  obtain ⟨s, hs, rfl⟩ := List.mem_map.mp hr
  have herror : s.facts reader = .error e := by
    split at he
    · simp at he
    · next hfacts => rw [hfacts, Option.some.inj he]
  exact ⟨s, hs, SourceFile.facts_error herror⟩

/-! ### Graphs with the same answers -/

namespace Graph

/-- The graphs have one index, and the same edges for every file. -/
structure SameAnswers (g g' : Graph) : Prop where
  index : g.index = g'.index
  edges : ∀ file, g.tree.edges file = g'.tree.edges file

variable {g g' : Graph}

lemma SameAnswers.returned? (h : g.SameAnswers g') (a : Accessor) (d : TypeRef) :
    g.returned? a d = g'.returned? a d := by
  unfold Graph.returned?
  rw [h.index, h.edges]

lemma SameAnswers.supertypes (h : g.SameAnswers g') (t : TypeRef) :
    g.supertypes t = g'.supertypes t := by
  unfold Graph.supertypes
  rw [h.edges]

lemma SameAnswers.hops (h : g.SameAnswers g') (reach : List TypeRef) (member : String) :
    g.hops reach member = g'.hops reach member := by
  unfold Graph.hops
  rw [h.index]

/-- **Run**: a walk asks for accessors, returned types and supertypes, and for nothing else. -/
lemma SameAnswers.follow (h : g.SameAnswers g') (origin : Entry) (ms : List String)
    (file : String) (reach : List TypeRef) (w : Walk) :
    g.follow origin ms file reach w = g'.follow origin ms file reach w := by
  induction ms generalizing file reach w with
  | nil => rfl
  | cons member rest ih =>
    unfold Graph.follow
    simp only [h.hops, h.returned?, h.supertypes, ih]

lemma SameAnswers.resolveFile (h : g.SameAnswers g') (file : String) (chains : List CallChain)
    (seen : Std.HashSet EdgeKey) :
    g.resolveFile file chains seen = g'.resolveFile file chains seen := by
  have hreach : g.reachOf file = g'.reachOf file := by
    unfold reachOf
    rw [h.index, h.edges]
  have hchain : ∀ origin, g.followChain origin file = g'.followChain origin file := by
    intro origin
    funext w c
    unfold followChain
    rw [h.follow, hreach]
  unfold Graph.resolveFile
  simp only [h.index, hchain]

lemma SameAnswers.transitive (h : g.SameAnswers g') (f : LinkedFile) :
    f.transitive g = f.transitive g' := by
  unfold LinkedFile.transitive
  rw [h.edges, h.resolveFile]

end Graph

/-! ### A file that gives nothing -/

/-- The report of linked files. -/
def reportOf (g : Graph) (linked : List LinkedFile) (errors : List FileError) (fileCount : Nat) :
    Report :=
  let transitive := linked.map fun f => (f.path, f.transitive g)
  let relationships := (transitive.foldl (fun t f => Tree.extend t f.1 f.2) g.tree).flatten
  { relationships
    coupling := coupling relationships
    errors
    stats :=
      { files := fileCount
        failedFiles := errors.length
        declarations := g.index.types.size
        candidates := total (·.candidates) linked
        direct := total (·.direct.length) linked
        callExpressions := total (·.deferred.length) linked
        transitive := total (·.2.length) transitive } }

lemma resolveFacts_eq_reportOf (facts : List FileFacts) (errors : List FileError)
    (fileCount : Nat) (maxAncestors : Option Nat) :
    resolveFacts facts errors fileCount maxAncestors =
      reportOf
        ⟨.ofEntries (facts.flatMap (·.entries)), LinkedFile.tree (facts.map
          (·.link (Index.ofEntries (facts.flatMap (·.entries))).types maxAncestors))⟩
        (facts.map (·.link (Index.ofEntries (facts.flatMap (·.entries))).types maxAncestors))
        errors fileCount :=
  rfl

lemma total_append {α : Type} (count : α → Nat) (xs ys : List α) :
    total count (xs ++ ys) = total count xs + total count ys := by
  induction xs with
  | nil => simp [total]
  | cons x xs ih =>
    change count x + total count (xs ++ ys) = count x + total count xs + total count ys
    rw [ih]; omega

/-- A value that counts for nothing. -/
lemma total_insert {α : Type} (count : α → Nat) (xs ys : List α) {a : α} (h : count a = 0) :
    total count (xs ++ a :: ys) = total count (xs ++ ys) := by
  have hcons : total count (a :: ys) = count a + total count ys := rfl
  rw [total_append, total_append, hcons, h, Nat.zero_add]

/-- A file that declares no type gives nothing to link. -/
lemma FileFacts.link_of_entries_nil {f : FileFacts} (h : f.entries = []) (types : TypeIndex)
    (maxAncestors : Option Nat) : f.link types maxAncestors = ⟨f.path, 0, [], []⟩ := by
  have husages : f.usages maxAncestors = ⟨[], []⟩ := by
    unfold FileFacts.usages UsageContext.usages
    simp only [h]
  unfold FileFacts.link
  rw [husages]
  rfl

/-- **A file with nothing to give leaves the report of the others as it is.** -/
lemma reportOf_insert {g g' : Graph} (hg : g.SameAnswers g') (before after : List LinkedFile)
    (path : String) (errors : List FileError) (fileCount : Nat) :
    reportOf g (before ++ ⟨path, 0, [], []⟩ :: after) errors fileCount =
      reportOf g' (before ++ after) errors fileCount := by
  have hfound : ((before ++ ⟨path, 0, [], []⟩ :: after).map fun f => (f.path, f.transitive g)) =
      (before.map fun f => (f.path, f.transitive g')) ++
        (path, []) :: after.map fun f => (f.path, f.transitive g') := by
    simp only [hg.transitive, List.map_append, List.map_cons]
    rfl
  have hrelationships : (((before ++ ⟨path, 0, [], []⟩ :: after).map fun f =>
        (f.path, f.transitive g)).foldl (fun t f => Tree.extend t f.1 f.2) g.tree).flatten =
      (((before ++ after).map fun f =>
        (f.path, f.transitive g')).foldl (fun t f => Tree.extend t f.1 f.2) g'.tree).flatten := by
    refine Tree.flatten_congr fun file => ?_
    rw [Tree.edges_foldl_extend, Tree.edges_foldl_extend, hg.edges, hfound, List.map_append,
      List.flatMap_append, List.flatMap_append, List.flatMap_cons, ite_self, List.nil_append]
  have hcounted : total (·.2.length) ((before ++ ⟨path, 0, [], []⟩ :: after).map fun f =>
        (f.path, f.transitive g)) =
      total (·.2.length) ((before ++ after).map fun f => (f.path, f.transitive g')) := by
    rw [hfound, List.map_append]
    exact total_insert _ _ _ rfl
  unfold reportOf
  dsimp only
  rw [hrelationships, hcounted, hg.index, total_insert (·.candidates) before after rfl,
    total_insert (·.direct.length) before after rfl,
    total_insert (·.deferred.length) before after rfl]

lemma LinkedFile.edges_tree_insert {before after : List LinkedFile} {path : String}
    (hpaths : ((before ++ ⟨path, 0, [], []⟩ :: after).map (·.path)).Nodup) (file : String) :
    (tree (before ++ ⟨path, 0, [], []⟩ :: after)).edges file =
      (tree (before ++ after)).edges file := by
  have hpaths' : ((before ++ after).map (·.path)).Nodup :=
    (((List.sublist_cons_self _ after).append_left before).map _).nodup hpaths
  rw [edges_tree hpaths, edges_tree hpaths', List.flatMap_append, List.flatMap_append,
    List.flatMap_cons, ite_self, List.nil_append]

/-- The facts of a file without types among the facts of the others. -/
lemma resolveFacts_insert {before after : List FileFacts} {f : FileFacts} (hf : f.entries = [])
    (hpaths : ((before ++ f :: after).map (·.path)).Nodup) (errors : List FileError)
    (fileCount : Nat) (maxAncestors : Option Nat) :
    resolveFacts (before ++ f :: after) errors fileCount maxAncestors =
      resolveFacts (before ++ after) errors fileCount maxAncestors := by
  have hentries : (before ++ f :: after).flatMap (·.entries) =
      (before ++ after).flatMap (·.entries) := by
    rw [List.flatMap_append, List.flatMap_append, List.flatMap_cons, hf, List.nil_append]
  rw [resolveFacts_eq_reportOf, resolveFacts_eq_reportOf, hentries]
  set types := (Index.ofEntries ((before ++ after).flatMap (·.entries))).types
  have hlinked : (before ++ f :: after).map (·.link types maxAncestors) =
      before.map (·.link types maxAncestors) ++
        ⟨f.path, 0, [], []⟩ :: after.map (·.link types maxAncestors) := by
    rw [List.map_append, List.map_cons, FileFacts.link_of_entries_nil hf]
  have hnodup : ((before.map (·.link types maxAncestors) ++
      ⟨f.path, 0, [], []⟩ :: after.map (·.link types maxAncestors)).map (·.path)).Nodup := by
    rw [← hlinked, List.map_map]
    exact hpaths
  rw [hlinked, List.map_append]
  apply reportOf_insert
  exact ⟨rfl, LinkedFile.edges_tree_insert hnodup⟩

lemma resolve_eq_resolveFacts (reader : Reader) (maxAncestors : Option Nat)
    (files : List SourceFile) :
    resolve reader maxAncestors files =
      resolveFacts (readFacts reader files)
        (partitionFacts ((sortByPath files).map (·.facts reader))).2 files.length maxAncestors :=
  rfl

/-- **Failure isolation.** One more file, at any position. If it can be read and declares no type,
the report is the same but for the number of files. If it cannot be read, the report is the same
but for the number of files and the number of failed ones, which grow by one, and for its error,
which comes at its place in the order of the paths. -/
theorem resolve_insert_isolated (reader : Reader) (maxAncestors : Option Nat)
    (before after : List SourceFile) (b : SourceFile)
    (hpaths : ((before ++ b :: after).map (·.path)).Nodup) :
    (∀ f, b.facts reader = .ok f → f.entries = [] →
      resolve reader maxAncestors (before ++ b :: after) =
        { resolve reader maxAncestors (before ++ after) with
          stats.files := (resolve reader maxAncestors (before ++ after)).stats.files + 1 }) ∧
    ∀ e, b.facts reader = .error e → e.path = b.path ∧ ∃ earlier later,
      (resolve reader maxAncestors (before ++ after)).errors = earlier ++ later ∧
      (∀ d ∈ earlier, compare d.path b.path = .lt) ∧
      (∀ d ∈ later, compare b.path d.path = .lt) ∧
      resolve reader maxAncestors (before ++ b :: after) =
        { resolve reader maxAncestors (before ++ after) with
          errors := earlier ++ e :: later
          stats.files := (resolve reader maxAncestors (before ++ after)).stats.files + 1
          stats.failedFiles :=
            (resolve reader maxAncestors (before ++ after)).stats.failedFiles + 1 } := by
  obtain ⟨earlier, later, hsort, hsort', hearlier, hlater⟩ := sortByPath_insert hpaths
  have hcount : (before ++ b :: after).length = (before ++ after).length + 1 :=
    List.perm_middle.length_eq
  rcases hread : partitionFacts (earlier.map (·.facts reader)) with ⟨facts, errors⟩
  rcases hread' : partitionFacts (later.map (·.facts reader)) with ⟨facts', errors'⟩
  have hothers : partitionFacts ((sortByPath (before ++ after)).map (·.facts reader)) =
      (facts ++ facts', errors ++ errors') := by
    rw [hsort', List.map_append, partitionFacts_append, hread, hread']
  constructor
  · intro f hf hnone
    have hall : partitionFacts ((sortByPath (before ++ b :: after)).map (·.facts reader)) =
        (facts ++ f :: facts', errors ++ errors') := by
      rw [hsort, List.map_append, List.map_cons, hf, partitionFacts_append, partitionFacts_cons_ok,
        hread, hread']
    have hnodup : ((readFacts reader (before ++ b :: after)).map (·.path)).Nodup :=
      readFacts_paths_nodup hpaths
    unfold readFacts at hnodup
    rw [hall] at hnodup
    simp only [resolve_eq_resolveFacts, readFacts, hall, hothers, hcount]
    rw [resolveFacts_insert hnone hnodup]
    rfl
  · intro e he
    have hall : partitionFacts ((sortByPath (before ++ b :: after)).map (·.facts reader)) =
        (facts ++ facts', errors ++ e :: errors') := by
      rw [hsort, List.map_append, List.map_cons, he, partitionFacts_append,
        partitionFacts_cons_error, hread, hread']
    refine ⟨SourceFile.facts_error he, errors, errors', ?_, fun d hd => ?_, fun d hd => ?_, ?_⟩
    · rw [resolve_eq_resolveFacts, hothers]
      rfl
    · obtain ⟨s, hs, hpath⟩ := mem_partitionFacts_errors (by rw [hread]; exact hd)
      rw [hpath]
      exact hearlier s hs
    · obtain ⟨s, hs, hpath⟩ := mem_partitionFacts_errors (by rw [hread']; exact hd)
      rw [hpath]
      exact hlater s hs
    · simp only [resolve_eq_resolveFacts, readFacts, hall, hothers, hcount]
      unfold resolveFacts
      dsimp only
      rw [List.perm_middle.length_eq, List.length_cons]

/-- A script, which uses a type and declares none. -/
def scriptFile : SourceFile := ⟨"m.php", "<?php new U();"⟩

lemma read_scriptFile :
    (Source.Php.read scriptFile.content).declarations = [] ∧
      (Source.Php.read scriptFile.content).usages = [⟨.qualifiedName, "U", 10, 11, 1⟩] := by
  constructor <;> decide +kernel

lemma scriptFile_facts :
    ∃ f, scriptFile.facts Source.read = .ok f ∧ f.entries = [] := by
  have hlanguage : Path.language? scriptFile.path = some .php := by cbv
  refine ⟨.ofCaptures "m.php" Language.php.profile (Source.Php.read scriptFile.content), ?_, ?_⟩
  · rw [SourceFile.facts, hlanguage]
    rfl
  · rw [FileFacts.ofCaptures, read_scriptFile.1]
    rfl

/-- A script and a file without a language, put among files of which the last has no language
either. -/
theorem resolve_insert_isolated_rivals :
    (([userFile, scriptFile, ownerFile, ⟨"makefile", ""⟩, rivalFile, ⟨"notes", ""⟩] :
        List SourceFile).map (·.path)).Nodup ∧
      (Source.Php.read scriptFile.content).usages = [⟨.qualifiedName, "U", 10, 11, 1⟩] ∧
      resolve Source.read none
          [userFile, scriptFile, ownerFile, ⟨"makefile", ""⟩, rivalFile, ⟨"notes", ""⟩] =
        { resolve Source.read none rivals with
          errors := [⟨"makefile", (Error.unsupportedLanguage "makefile").message⟩,
            ⟨"notes", (Error.unsupportedLanguage "notes").message⟩]
          stats.files := 6
          stats.failedFiles := 2 } ∧
      (resolve Source.read none rivals).relationships = rivalEdges := by
  refine ⟨by decide, read_scriptFile.2, ?_, relationships_rivals⟩
  obtain ⟨f, hscript, hnone⟩ := scriptFile_facts
  have hmakefile : (⟨"makefile", ""⟩ : SourceFile).facts Source.read =
      .error ⟨"makefile", (Error.unsupportedLanguage "makefile").message⟩ :=
    SourceFile.facts_of_no_language (by cbv)
  have hscripted := (resolve_insert_isolated Source.read none [userFile]
    [ownerFile, ⟨"makefile", ""⟩, rivalFile, ⟨"notes", ""⟩] scriptFile (by decide)).1 f hscript
    hnone
  obtain ⟨-, earlier, later, herrors, hearlier, -, hfailed⟩ :=
    (resolve_insert_isolated Source.read none [userFile, ownerFile] [rivalFile, ⟨"notes", ""⟩]
      ⟨"makefile", ""⟩ (by decide)).2 _ hmakefile
  have hlater :
      earlier = [] ∧ later = [⟨"notes", (Error.unsupportedLanguage "notes").message⟩] := by
    rcases List.append_eq_singleton_iff.mp (herrors.symm.trans errors_rivals) with h | h
    · exact h
    · rw [h.1] at hearlier
      exact absurd (hearlier _ List.mem_cons_self) (by decide)
  have hfiles : (resolve Source.read none rivals).stats.files = 4 := rfl
  have hcount : (resolve Source.read none rivals).stats.failedFiles = 1 :=
    congrArg List.length errors_rivals
  simp only [List.cons_append, List.nil_append, hlater.1, hlater.2] at hscripted hfailed
  rw [hscripted, hfailed, ← rivals, hfiles, hcount]

end TypeCoupling
