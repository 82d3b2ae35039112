import Mathlib
import TypeCoupling.Analysis
import TypeCoupling.Proofs.FileEdges
import TypeCoupling.Proofs.PathNames

/-!
When two files are reported under one key.

A report shows a path with slashes for backslashes. So what its key tells of a file below the root
is the list of its names, each cut at its backslashes: as long as no name holds a backslash,
different files have different keys, but a file `a\b` has the key of a file `b` in a directory `a`.
Files with different keys keep their edges in the tree of a run; of two files with one key the
later one overwrites the edges of the other.
-/

namespace TypeCoupling

namespace Path

/-- The text with slashes for backslashes. -/
def slashed (text : String) : String :=
  .ofList (text.toList.map fun c => if c == '\\' then '/' else c)

/-- The names, each cut at its backslashes. -/
def keyParts (names : List String) : List String := names.flatMap (Text.split "\\")

/-! ### Slashes for backslashes -/

lemma toList_slash : "/".toList = ['/'] := rfl

lemma toList_backslash : "\\".toList = ['\\'] := rfl

lemma slashed_append (a b : String) : slashed (a ++ b) = slashed a ++ slashed b := by
  simp [slashed]

/-- Backslashes cut the pieces between the slashes further. -/
lemma cut_slashes (cs : List Char) :
    Text.cut ['/'] (cs.map fun c => if c == '\\' then '/' else c) 0 =
      (Text.cut ['/'] cs 0).flatMap fun p => Text.cut ['\\'] p 0 := by
  induction cs with
  | nil => rfl
  | cons c cs ih =>
    obtain ⟨p, ps, hcut⟩ := List.exists_cons_of_ne_nil (Text.cut_ne_nil ['/'] cs 0)
    rw [hcut, List.flatMap_cons] at ih
    rw [List.map_cons]
    rcases eq_or_ne '/' c with rfl | hslash
    · rw [if_neg (by decide), Text.cut_cons_self, Text.cut_cons_self, hcut, ih]
      rfl
    · rw [Text.cut_cons_of_ne hslash, hcut, Text.consPiece, List.flatMap_cons]
      rcases eq_or_ne '\\' c with rfl | hback
      · rw [if_pos (by decide), Text.cut_cons_self, Text.cut_cons_self, ih, List.cons_append]
      · rw [if_neg (by simpa using hback.symm), Text.cut_cons_of_ne hslash,
          Text.cut_cons_of_ne hback, ih, Text.consPiece_append c (Text.cut_ne_nil _ _ _)]

/-- **The pieces of the text with slashes for backslashes are the parts of its pieces.** -/
lemma pieces_slashed (text : String) : pieces (slashed text) = keyParts (pieces text) := by
  rw [pieces, pieces, keyParts, Text.split_eq_map_cut toList_slash,
    Text.split_eq_map_cut toList_slash, slashed, String.toList_ofList, cut_slashes,
    List.map_flatMap, List.flatMap_map]
  refine List.flatMap_congr fun p _ => ?_
  rw [Text.split_eq_map_cut toList_backslash, String.toList_ofList]

lemma keyParts_append (ps qs : List String) : keyParts (ps ++ qs) = keyParts ps ++ keyParts qs :=
  List.flatMap_append

lemma keyParts_cons (p : String) (ps : List String) :
    keyParts (p :: ps) = Text.split "\\" p ++ keyParts ps :=
  List.flatMap_cons

lemma keyParts_eq_self {names : List String} (h : ∀ n ∈ names, '\\' ∉ n.toList) :
    keyParts names = names := by
  induction names with
  | nil => rfl
  | cons n names ih =>
    have hname : Text.split "\\" n = [n] :=
      @Text.split_join _ _ toList_backslash n [] (by simpa using h n List.mem_cons_self)
    rw [keyParts_cons, hname, ih fun m hm => h m (List.mem_cons_of_mem _ hm)]
    rfl

/-- Void pieces have void parts only. -/
lemma solid_keyParts_solid (ps : List String) :
    solid (keyParts (solid ps)) = solid (keyParts ps) := by
  induction ps with
  | nil => rfl
  | cons p ps ih =>
    cases hp : isVoid p with
    | false =>
      rw [solid_cons_of_not_void hp, keyParts_cons, keyParts_cons, solid_append, solid_append, ih]
    | true =>
      have hvoid : solid (Text.split "\\" p) = [] := by
        rcases Bool.or_eq_true_iff.mp hp with hp | hp
        · rw [eq_of_beq hp]; decide
        · rw [eq_of_beq hp]; decide
      rw [solid_cons_of_void hp, keyParts_cons, solid_append, hvoid, ih, List.nil_append]

/-! ### Keys -/

variable {root path : String} {names : List String}

lemma display_of_below {shown : String} (h : below? root path = some shown) (hne : shown ≠ "") :
    display path root true = slashed shown := by
  have hempty : shown.isEmpty = false := by simpa using hne
  simp [display, h, hempty, slashed]

/-- **What the key of a path below the root tells**: the parts of its names, behind those of the
root if the whole path is shown. -/
lemma solid_display (h : IsBelow root path names) (relative : Bool) :
    solid (pieces (display path root relative)) =
      (if relative then [] else solid (keyParts (pieces root))) ++ solid (keyParts names) := by
  cases relative with
  | false =>
    have hdisplay : display path root false = slashed path := rfl
    rw [hdisplay, pieces_slashed, ← solid_keyParts_solid, h.solid_pieces, keyParts_append,
      solid_append, solid_keyParts_solid]
    rfl
  | true =>
    obtain ⟨shown, hshown, hpieces⟩ := exists_below? h.through
    rw [filterMap_names] at hpieces
    have hne : shown ≠ "" := by
      rintro rfl
      exact h.strict hpieces.symm
    rw [display_of_below hshown hne, pieces_slashed, ← solid_keyParts_solid, hpieces]
    rfl

lemma solid_keyParts_of_display_eq {path' : String} {names' : List String} {relative : Bool}
    (h : IsBelow root path names) (h' : IsBelow root path' names')
    (hkeys : display path root relative = display path' root relative) :
    solid (keyParts names) = solid (keyParts names') := by
  have hsolid := congrArg (fun key => solid (pieces key)) hkeys
  rw [solid_display h, solid_display h'] at hsolid
  exact List.append_cancel_left hsolid

/-- Paths whose names hold no backslash are told apart by their keys. -/
lemma names_eq_of_display_eq {path' : String} {names' : List String} {relative : Bool}
    (h : IsBelow root path names) (h' : IsBelow root path' names')
    (hback : ∀ n ∈ names ++ names', '\\' ∉ n.toList)
    (hkeys : display path root relative = display path' root relative) : names = names' := by
  have hsolid := solid_keyParts_of_display_eq h h' hkeys
  rwa [keyParts_eq_self fun n hn => hback n (List.mem_append_left _ hn),
    keyParts_eq_self fun n hn => hback n (List.mem_append_right _ hn),
    solid_eq_self fun n hn => h.not_void hn, solid_eq_self fun n hn => h'.not_void hn] at hsolid

/-- The key of a path put together from the root and names. -/
lemma display_append (hroot : root ≠ "") (hne : names ≠ []) (hnames : ∀ n ∈ names, IsName n)
    (relative : Bool) :
    display (append root (Text.join "/" names)) root relative =
      (if relative then "" else slashed (append root "")) ++ slashed (Text.join "/" names) := by
  cases relative with
  | false =>
    have hjoined : append root (Text.join "/" names) = append root "" ++ Text.join "/" names := by
      unfold append
      split <;> simp
    have hdisplay : display (append root (Text.join "/" names)) root false =
        slashed (append root (Text.join "/" names)) := rfl
    rw [hdisplay, hjoined, slashed_append]
    rfl
  | true =>
    have hshown : Text.join "/" names ≠ "" := by
      obtain ⟨n, names, rfl⟩ := List.exists_cons_of_ne_nil hne
      have hsolid := (hnames n List.mem_cons_self).solid
      exact Text.join_cons_ne_empty (by rintro rfl; simp [isVoid] at hsolid) names
    rw [display_of_below (below_append hroot hne hnames).2 hshown]
    simp

/-- **Files below a root share a key exactly if their names have the same parts.** -/
lemma display_append_eq_iff {names' : List String} (hroot : root ≠ "") (hne : names ≠ [])
    (hne' : names' ≠ []) (hnames : ∀ n ∈ names ++ names', IsName n) (relative : Bool) :
    display (append root (Text.join "/" names)) root relative =
        display (append root (Text.join "/" names')) root relative ↔
      keyParts names = keyParts names' := by
  have hleft : ∀ n ∈ names, IsName n := fun n hn => hnames n (List.mem_append_left _ hn)
  have hright : ∀ n ∈ names', IsName n := fun n hn => hnames n (List.mem_append_right _ hn)
  have hparts : ∀ {ns : List String}, ns ≠ [] → (∀ n ∈ ns, IsName n) →
      pieces (slashed (Text.join "/" ns)) = keyParts ns := fun hns h => by
    rw [pieces_slashed, pieces_join hns fun n hn => (h n hn).slash]
  rw [display_append hroot hne hleft, display_append hroot hne' hright, String.append_right_inj]
  constructor
  · intro hkeys
    rw [← hparts hne hleft, hkeys, hparts hne' hright]
  · intro hsame
    rw [← Text.join_split "/" (slashed (Text.join "/" names)), ← pieces, hparts hne hleft, hsame,
      ← hparts hne' hright, pieces, Text.join_split]

end Path

/-! ### Files of a tree -/

namespace FileTree

/-- The places of the tree have proper names, and no two of them have the same parts. -/
structure TellsApart (t : FileTree) : Prop where
  names : ∀ place ∈ t.nodes, ∀ n ∈ place, Path.IsName n
  parts : ∀ place ∈ t.nodes, ∀ place' ∈ t.nodes,
    Path.keyParts place = Path.keyParts place' → place = place'

lemma relativeTo?_eq_some {dir place names : Place} (h : relativeTo? dir place = some names) :
    place = dir ++ names := by
  fun_induction relativeTo? dir place with
  | case1 place => simpa using h
  | case2 d dir n place hd ih => rw [ih h, eq_of_beq hd, List.cons_append]
  | case3 => simp at h
  | case4 => simp at h

lemma mem_nodes_of_mem_filesBelow {t : FileTree} {dir names : Place}
    (h : names ∈ t.filesBelow dir) : dir ++ names ∈ t.nodes := by
  obtain ⟨⟨place, node⟩, hnode, hnames⟩ := List.mem_filterMap.mp h
  cases node with
  | directory => simp at hnames
  | file content =>
    have hfound := Std.HashMap.mem_toList_iff_getElem?_eq_some.mp hnode
    rw [← relativeTo?_eq_some hnames, Std.HashMap.mem_iff_isSome_getElem?, hfound]
    rfl

lemma filesBelow_nodup (t : FileTree) (dir : Place) : (t.filesBelow dir).Nodup := by
  refine List.Pairwise.filterMap _ ?_ Std.HashMap.distinct_keys_toList
  rintro ⟨place, node⟩ ⟨place', node'⟩ hplaces names hnames names' hnames' rfl
  cases node with
  | directory => simp at hnames
  | file content =>
    cases node' with
    | directory => simp at hnames'
    | file content' =>
      have hsame : place = place' :=
        (relativeTo?_eq_some hnames).trans (relativeTo?_eq_some hnames').symm
      simp [hsame] at hplaces

lemma ne_empty_of_locate? {t : FileTree} {path : String} {place : Place}
    (h : t.locate? path = some place) : path ≠ "" := by
  rintro rfl
  have hnone : t.locate? "" = none := rfl
  simp [hnone] at h

/-- A directory can be searched for sources. -/
lemma exists_loadSources {t : FileTree} {root : String} {dir : Place}
    (hdir : t.locate? root = some dir) (hnode : t.get? root = some .directory) (c : Config) :
    ∃ files, loadSources t root c = .ok files := by
  unfold loadSources discover
  rw [hdir, hnode]
  exact ⟨_, rfl⟩

end FileTree

namespace FileTree.TellsApart

variable {t : FileTree} {root : String}

/-- Files below one directory have different keys. -/
lemma names_eq {dir names names' : Place} (ht : t.TellsApart) (hroot : root ≠ "")
    (hnames : names ∈ t.filesBelow dir) (hnames' : names' ∈ t.filesBelow dir) (hne : names ≠ [])
    (hne' : names' ≠ []) {relative : Bool}
    (hkeys : Path.display (Path.append root (Text.join "/" names)) root relative =
      Path.display (Path.append root (Text.join "/" names')) root relative) : names = names' := by
  have hplace := FileTree.mem_nodes_of_mem_filesBelow hnames
  have hplace' := FileTree.mem_nodes_of_mem_filesBelow hnames'
  have hproper : ∀ n ∈ names ++ names', Path.IsName n := by
    intro n hn
    rcases List.mem_append.mp hn with hn | hn
    · exact ht.names _ hplace n (List.mem_append_right _ hn)
    · exact ht.names _ hplace' n (List.mem_append_right _ hn)
  have hparts := (Path.display_append_eq_iff hroot hne hne' hproper relative).mp hkeys
  refine List.append_cancel_left (ht.parts _ hplace _ hplace' ?_)
  rw [Path.keyParts_append, Path.keyParts_append, hparts]

/-- **The sources that are found have different keys.** -/
lemma discover_keys_nodup {exclusions paths : List String} (ht : t.TellsApart)
    (h : discover t root exclusions = .ok paths) (relative : Bool) :
    (paths.map (Path.display · root relative)).Nodup := by
  unfold discover at h
  split at h
  · -- a root that is a file is its own only source
    obtain rfl := Except.ok.inj h
    split <;> simp
  · next dir hdir _ =>
    obtain rfl := Except.ok.inj h
    refine ((List.mergeSort_perm _ _).map _).nodup_iff.mpr ?_
    rw [List.map_map]
    refine List.Nodup.map_on ?_ ((t.filesBelow_nodup dir).filter _)
    intro names hnames names' hnames' hkeys
    obtain ⟨hbelow, hsource⟩ := List.mem_filter.mp hnames
    obtain ⟨hbelow', hsource'⟩ := List.mem_filter.mp hnames'
    exact ht.names_eq (FileTree.ne_empty_of_locate? hdir) hbelow hbelow'
      (by rintro rfl; simp at hsource) (by rintro rfl; simp at hsource') hkeys
  · simp at h

lemma loadSources_keys_nodup {c : Config} {files : List SourceFile} (ht : t.TellsApart)
    (h : loadSources t root c = .ok files) : (files.map (·.path)).Nodup := by
  unfold loadSources at h
  rcases hfound : discover t root c.exclusions with e | paths
  · simp [hfound] at h
  · rw [hfound] at h
    obtain rfl := Except.ok.inj h
    have hkeys := List.pairwise_map.mp (ht.discover_keys_nodup hfound c.relativePaths)
    refine List.pairwise_map.mpr (hkeys.filterMap _ ?_)
    intro path path' hne f hf f' hf'
    obtain ⟨bytes, -, rfl⟩ := Option.map_eq_some_iff.mp hf
    obtain ⟨bytes', -, rfl⟩ := Option.map_eq_some_iff.mp hf'
    exact hne

end FileTree.TellsApart

/-- **When files share a key.** Take two paths strictly below a root, in whatever way they are
written, and a report of whole or of relative paths. If they have the same key, their names have
the same parts once they are cut at backslashes; so different paths have different keys if no name
below the root holds a backslash. For paths put together from the root and names, as those of found
files are, this is exact: they have the same key if and only if their names have the same parts. And
if the places of a file tree differ in their parts, the sources found in it have different keys, and
every file keeps its own edges in the tree of the run. -/
theorem keys_equal_iff_same_parts (root : String) (relative : Bool) :
    (∀ path path' names names', Path.IsBelow root path names → Path.IsBelow root path' names' →
      Path.display path root relative = Path.display path' root relative →
      Path.solid (Path.keyParts names) = Path.solid (Path.keyParts names')) ∧
    (∀ path path' names names', Path.IsBelow root path names → Path.IsBelow root path' names' →
      (∀ n ∈ names ++ names', '\\' ∉ n.toList) → Path.components path ≠ Path.components path' →
      Path.display path root relative ≠ Path.display path' root relative) ∧
    (root ≠ "" → ∀ names names', names ≠ [] → names' ≠ [] →
      (∀ n ∈ names ++ names', Path.IsName n) →
      (Path.display (Path.append root (Text.join "/" names)) root relative =
          Path.display (Path.append root (Text.join "/" names')) root relative ↔
        Path.keyParts names = Path.keyParts names')) ∧
    ∀ (t : FileTree) (c : Config) (files : List SourceFile), t.TellsApart →
      loadSources t root c = .ok files →
      (files.map (·.path)).Nodup ∧
        ∀ reader, ∀ f ∈ runLinked reader c.maxAncestorDepth files,
          (runGraph reader c.maxAncestorDepth files).tree.edges f.path = f.direct := by
  refine ⟨?_, ?_, ?_, ?_⟩
  · intro path path' names names' h h' hkeys
    exact Path.solid_keyParts_of_display_eq h h' hkeys
  · intro path path' names names' h h' hback hne hkeys
    have hnames := Path.names_eq_of_display_eq h h' hback hkeys
    exact hne (by rw [h.through, h'.through, hnames])
  · intro hroot names names' hne hne' hnames
    exact Path.display_append_eq_iff hroot hne hne' hnames relative
  · intro t c files ht hload
    have hkeys := ht.loadSources_keys_nodup hload
    exact ⟨hkeys, fun reader f hf => LinkedFile.edges_tree_of_mem (runLinked_paths_nodup hkeys) hf⟩

/-! ### A file and a directory -/

/-- A file in the directory `a`, and one whose name holds a backslash, under their keys. -/
def clashingFiles : List SourceFile :=
  [⟨Path.display "s/a/b.cs" "s" true, "class A { T t; } class T { }"⟩,
    ⟨Path.display "s/a\\b.cs" "s" true, "class B { T t; }"⟩]

/-- What is captured in these files. -/
def clashingReader : Reader := fun _ content =>
  bif content == "class B { T t; }" then
    some
      ⟨[⟨.typeBlock, "class B { T t; }", 0, 16, 1⟩, ⟨.typeName, "B", 6, 7, 1⟩], [], [],
        [⟨.qualifiedName, "T", 10, 11, 1⟩]⟩
  else
    some
      ⟨[⟨.typeBlock, "class A { T t; }", 0, 16, 1⟩, ⟨.typeName, "A", 6, 7, 1⟩,
          ⟨.typeBlock, "class T { }", 17, 28, 1⟩, ⟨.typeName, "T", 23, 24, 1⟩],
        [], [], [⟨.qualifiedName, "T", 10, 11, 1⟩]⟩

def clashingLinked : List LinkedFile :=
  [⟨"a/b.cs", 1, [⟨"A", "a/b.cs", "A", "T", "a/b.cs", "T", .usage⟩], []⟩,
    ⟨"a/b.cs", 1, [⟨"B", "a/b.cs", "B", "T", "a/b.cs", "T", .usage⟩], []⟩]

lemma display_clashing (relative : Bool) :
    Path.display "s/a\\b.cs" "s" relative = Path.display "s/a/b.cs" "s" relative := by
  cases relative with
  | false => decide
  | true => decide

lemma key_clashing : Path.display "s/a/b.cs" "s" true = "a/b.cs" := by decide

lemma readFacts_clashing : readFacts clashingReader clashingFiles =
    [⟨"a/b.cs", Language.csharp.profile,
        [Entry.plain "" "A" "." "a/b.cs" .csharp, Entry.plain "" "T" "." "a/b.cs" .csharp], .empty,
        [⟨.qualifiedName, "T", 10, 11, 1⟩]⟩,
      ⟨"a/b.cs", Language.csharp.profile, [Entry.plain "" "B" "." "a/b.cs" .csharp], .empty,
        [⟨.qualifiedName, "T", 10, 11, 1⟩]⟩] := by
  rw [clashingFiles, display_clashing, key_clashing]
  cbv

lemma runLinked_clashing : runLinked clashingReader none clashingFiles = clashingLinked := by
  rw [runLinked, runIndex, readFacts_clashing]
  cbv

/-- The edges of the second file have overwritten those of the first. -/
lemma eq_of_mem_relationships_clashing {r : Relationship}
    (h : r ∈ (resolve clashingReader none clashingFiles).relationships) :
    r = ⟨"B", "a/b.cs", "B", "T", "a/b.cs", "T", .usage⟩ := by
  have hchains : clashingLinked.map (fun f =>
      (f.path, f.transitive (runGraph clashingReader none clashingFiles))) =
        [("a/b.cs", []), ("a/b.cs", [])] := rfl
  have htree : (runGraph clashingReader none clashingFiles).tree =
      LinkedFile.tree clashingLinked := by rw [runGraph, runLinked_clashing]
  rw [resolve_relationships, runLinked_clashing, hchains, Tree.mem_flatten] at h
  obtain ⟨file, h⟩ := h
  rw [Tree.edges_foldl_extend, htree, LinkedFile.tree, clashingLinked, List.foldl_cons,
    List.foldl_cons, List.foldl_nil, Tree.edges_insert, Tree.edges_insert] at h
  by_cases hfile : "a/b.cs" = file
  · simpa [hfile] using h
  · simp [hfile, Tree.edges] at h

/-- The file `a\b.cs` and the file `b.cs` of the directory `a` are different files below the root.
They have one key, for whole and for relative paths, and an edge of one of them is lost. -/
theorem backslash_shares_key_with_directory :
    Path.IsBelow "s" "s/a/b.cs" ["a", "b.cs"] ∧ Path.IsBelow "s" "s/a\\b.cs" ["a\\b.cs"] ∧
      Path.components "s/a\\b.cs" ≠ Path.components "s/a/b.cs" ∧
      (∀ relative, Path.display "s/a\\b.cs" "s" relative = Path.display "s/a/b.cs" "s" relative) ∧
      ∃ f ∈ runLinked clashingReader none clashingFiles, ∃ r ∈ f.direct,
        r ∉ (resolve clashingReader none clashingFiles).relationships := by
  refine ⟨by decide, by decide, by decide, display_clashing, ?_⟩
  rw [runLinked_clashing]
  refine ⟨_, List.mem_cons_self, _, List.mem_cons_self, fun h => ?_⟩
  exact absurd (eq_of_mem_relationships_clashing h) (by decide)

/-- Two sources, one of them in a directory. -/
def plainTree : FileTree :=
  ((FileTree.empty ["w"]).addFile ["w", "s", "x.cs"] "class X { }".toUTF8).addFile
    ["w", "s", "a", "y.cs"] "class Y { }".toUTF8

def plainPlaces : List Place :=
  [[], ["w"], ["w", "s"], ["w", "s", "x.cs"], ["w", "s", "a"], ["w", "s", "a", "y.cs"]]

lemma mem_nodes_plainTree {place : Place} (h : place ∈ plainTree.nodes) : place ∈ plainPlaces := by
  simp only [plainTree, FileTree.addFile, FileTree.addDirectory, FileTree.empty, FileTree.pathTo,
    FileTree.put, List.dropLast, List.map, List.foldl, Std.HashMap.mem_insert, beq_iff_eq,
    Std.HashMap.not_mem_empty, or_false] at h
  simp only [plainPlaces, List.mem_cons, List.not_mem_nil, or_false]
  tauto

lemma plainTree_tellsApart : plainTree.TellsApart := by
  have hplain : ∀ place ∈ plainPlaces, ∀ n ∈ place, Path.IsName n ∧ '\\' ∉ n.toList := by decide
  have hparts : ∀ place ∈ plainTree.nodes, Path.keyParts place = place := fun place hplace =>
    Path.keyParts_eq_self fun n hn => (hplain place (mem_nodes_plainTree hplace) n hn).2
  refine ⟨fun place hplace n hn => ?_, fun place hplace place' hplace' h => ?_⟩
  · exact (hplain place (mem_nodes_plainTree hplace) n hn).1
  · rwa [hparts place hplace, hparts place' hplace'] at h

/-- Void pieces do not matter to a key and backslashes do, and the sources of a tree without
backslashes have different keys. -/
theorem keys_equal_iff_same_parts_mixed :
    Path.display "s//a/./b.cs" "s" true ≠ Path.display "s/a/c.cs" "s" true ∧
      Path.solid (Path.keyParts ["a", "b.cs"]) = Path.solid (Path.keyParts ["a\\b.cs"]) ∧
      Path.display (Path.append "s" (Text.join "/" ["a", "b.cs"])) "s" true =
        Path.display (Path.append "s" (Text.join "/" ["a\\b.cs"])) "s" true ∧
      ∃ files, loadSources plainTree "s" .default = .ok files ∧ (files.map (·.path)).Nodup := by
  obtain ⟨hparts, happart, hiff, htree⟩ := keys_equal_iff_same_parts "s" true
  refine ⟨?_, ?_, ?_, ?_⟩
  · exact happart _ _ ["a", "b.cs"] ["a", "c.cs"] (by decide) (by decide) (by decide) (by decide)
  · exact hparts _ _ _ _ (by decide : Path.IsBelow "s" "s/a/b.cs" ["a", "b.cs"])
      (by decide : Path.IsBelow "s" "s/a\\b.cs" ["a\\b.cs"]) (display_clashing true).symm
  · exact (hiff (by decide) _ _ (by decide) (by decide) (by decide)).mpr (by decide)
  · have hplace : plainTree.locate? "s" = some ["w", "s"] := by cbv
    obtain ⟨files, hfiles⟩ := FileTree.exists_loadSources hplace (by cbv) .default
    exact ⟨files, hfiles, (htree plainTree .default files plainTree_tellsApart hfiles).1⟩

end TypeCoupling
