import TypeCoupling.Proofs.EdgeIntegrity
import TypeCoupling.Proofs.FileEdges

/-!
When an edge of a report joins types of two languages.

Linking compares languages, so a direct edge stays in the language of its file. Following a chain
does not: a return type that the file of the accessor does not use is looked up in the index by
name alone, and the type found there may be one of another language. Such a hop leaks. The edges
of a file leave its language exactly if one of the hops that its chains take leaks.
-/

namespace TypeCoupling

/-- The edge ends at a type of another language than the file it starts in. -/
def Relationship.CrossesLanguages (x : TypeIndex) (r : Relationship) : Prop :=
  (x.get? r.toName).map (·.language) ≠ Path.language? r.fromFile

namespace Graph

/-! ### The hops that a walk takes -/

/-- One hop of a walk, then the hops of the rest of the chain from the returned type. -/
def takeHop (g : Graph)
    (onward : TypeRef → Std.HashSet (String × String) →
      Std.HashSet (String × String) × List (Accessor × TypeRef))
    (s : Std.HashSet (String × String) × List (Accessor × TypeRef)) (hop : Accessor × TypeRef) :
    Std.HashSet (String × String) × List (Accessor × TypeRef) :=
  match g.returned? hop.1 hop.2 with
  | none => (s.1, s.2 ++ [hop])
  | some t => ((onward t s.1).1, s.2 ++ hop :: (onward t s.1).2)

/-- The places a walk has been at by then, and the hops it takes: an accessor and its declaring
type each. -/
def taken (g : Graph) : List String → (file : String) → (reach : List TypeRef) →
    Std.HashSet (String × String) → Std.HashSet (String × String) × List (Accessor × TypeRef)
  | [], _, _, v => (v, [])
  | member :: rest, file, reach, v =>
    if v.contains (file, member) then (v, [])
    else
      (g.hops reach member).foldl
        (g.takeHop fun t v => g.taken rest t.file (t :: g.supertypes t) v)
        (v.insert (file, member), [])

/-- The types that a hop meets: the declaring type, and the returned one if there is one. -/
def typesOf (g : Graph) (hop : Accessor × TypeRef) : List TypeRef :=
  hop.2 :: (g.returned? hop.1 hop.2).toList

/-- A tour meets the types of the hops it takes, and no others. -/
lemma tour_eq_taken (g : Graph) (ms : List String) (file : String) (reach : List TypeRef)
    (v : Std.HashSet (String × String)) :
    g.tour ms file reach v =
      ((g.taken ms file reach v).1, (g.taken ms file reach v).2.flatMap g.typesOf) := by
  induction ms generalizing file reach v with
  | nil => rfl
  | cons member rest ih =>
    unfold tour taken
    split
    · rfl
    · -- both folds go over the same hops; `view` forgets which hops met the types
      let view (s : Std.HashSet (String × String) × List (Accessor × TypeRef)) :
          Std.HashSet (String × String) × List TypeRef := (s.1, s.2.flatMap g.typesOf)
      change _ = view (List.foldl _ _ _)
      rw [← List.foldl_hom view]
      · rfl
      · intro s hop
        unfold tourHop takeHop
        rcases hret : g.returned? hop.1 hop.2 with _ | t
        · simp [view, typesOf, hret]
        · simp [view, typesOf, hret, ih]

section Hops

variable (g : Graph)
  (onward : TypeRef → Std.HashSet (String × String) →
    Std.HashSet (String × String) × List (Accessor × TypeRef))

lemma subset_foldl_takeHop (hs : List (Accessor × TypeRef))
    (s : Std.HashSet (String × String) × List (Accessor × TypeRef)) :
    s.2 ⊆ (hs.foldl (g.takeHop onward) s).2 := by
  induction hs generalizing s with
  | nil => exact List.Subset.refl _
  | cons hop hs ih =>
    refine List.Subset.trans ?_ (ih _)
    unfold takeHop
    split
    · exact List.subset_append_left _ _
    · exact List.subset_append_left _ _

variable {g onward} in
/-- Where a hop comes from: it is one of the first member, or it is taken further on, from the
type that such a hop returns. -/
lemma mem_foldl_takeHop {hs : List (Accessor × TypeRef)}
    {s : Std.HashSet (String × String) × List (Accessor × TypeRef)} {h : Accessor × TypeRef}
    (hm : h ∈ (hs.foldl (g.takeHop onward) s).2) :
    h ∈ s.2 ∨ h ∈ hs ∨ ∃ hop ∈ hs, ∃ t v, g.returned? hop.1 hop.2 = some t ∧
      h ∈ (onward t v).2 ∧ hop :: (onward t v).2 ⊆ (hs.foldl (g.takeHop onward) s).2 := by
  induction hs generalizing s with
  | nil => exact Or.inl hm
  | cons hop hs ih =>
    rcases ih hm with hs1 | hs1 | ⟨hop', hmem, hrest⟩
    · have hall := subset_foldl_takeHop g onward hs (g.takeHop onward s hop)
      rcases hret : g.returned? hop.1 hop.2 with _ | t
      · have hstep : g.takeHop onward s hop = (s.1, s.2 ++ [hop]) := by simp [takeHop, hret]
        rw [hstep, List.mem_append, List.mem_singleton] at hs1
        rcases hs1 with hs1 | rfl
        · exact Or.inl hs1
        · exact Or.inr (Or.inl List.mem_cons_self)
      · have hstep : g.takeHop onward s hop =
            ((onward t s.1).1, s.2 ++ hop :: (onward t s.1).2) := by simp [takeHop, hret]
        rw [hstep] at hs1 hall
        rcases List.mem_append.mp hs1 with hs1 | hs1
        · exact Or.inl hs1
        · rcases List.mem_cons.mp hs1 with rfl | hs1
          · exact Or.inr (Or.inl List.mem_cons_self)
          · refine Or.inr (Or.inr ⟨hop, List.mem_cons_self, t, s.1, hret, hs1, ?_⟩)
            rw [List.foldl_cons, hstep]
            exact List.Subset.trans (List.subset_append_right _ _) hall
    · exact Or.inr (Or.inl (List.mem_cons_of_mem _ hs1))
    · exact Or.inr (Or.inr ⟨hop', List.mem_cons_of_mem _ hmem, hrest⟩)

end Hops

/-- An accessor of the index together with a type that declares it. -/
def IsHop (g : Graph) (hop : Accessor × TypeRef) : Prop :=
  (∃ member, hop.1 ∈ g.index.accessors.get member) ∧ hop.2.name ∈ hop.1.declaringTypes

/-- **Run**: what holds of the types in reach, is kept by every hop taken and goes over to
supertypes, holds of every declaring type of a hop. -/
lemma taken_closed {g : Graph} {P : TypeRef → Prop}
    (hsup : ∀ t, P t → ∀ u ∈ g.supertypes t, P u) {ms : List String} {file : String}
    {reach : List TypeRef} {v : Std.HashSet (String × String)} (hreach : ∀ u ∈ reach, P u)
    (hret : ∀ hop ∈ (g.taken ms file reach v).2, g.IsHop hop → P hop.2 →
      ∀ t, g.returned? hop.1 hop.2 = some t → P t) :
    ∀ hop ∈ (g.taken ms file reach v).2, g.IsHop hop ∧ P hop.2 := by
  induction ms generalizing file reach v with
  | nil => exact fun hop hm => absurd hm List.not_mem_nil
  | cons member rest ih =>
    -- the hops of the first member stand on types in reach
    have hfirst : ∀ hop ∈ g.hops reach member, g.IsHop hop ∧ P hop.2 := by
      intro hop hm
      obtain ⟨ha, name, hn, hd⟩ := mem_hops.mp hm
      have hname : hop.2.name = name := by simpa using List.find?_some hd
      exact ⟨⟨⟨member, ha⟩, hname ▸ hn⟩, hreach _ (List.mem_of_find?_eq_some hd)⟩
    unfold taken at hret ⊢
    split at hret
    · next hv => rw [if_pos hv]; exact fun hop hm => absurd hm List.not_mem_nil
    · next hv =>
      rw [if_neg hv]
      intro hop hm
      rcases mem_foldl_takeHop hm with h0 | h0 | ⟨hop', hhop', t, v', hret', hon, hsub⟩
      · exact absurd h0 List.not_mem_nil
      · exact hfirst hop h0
      · obtain ⟨hishop, hP⟩ := hfirst hop' hhop'
        have ht : P t := hret hop' (hsub List.mem_cons_self) hishop hP t hret'
        refine ih (fun u hu => ?_) (fun k hk => hret k (hsub (List.mem_cons_of_mem _ hk))) hop hon
        rcases List.mem_cons.mp hu with rfl | hu
        · exact ht
        · exact hsup t ht u hu

/-- The hops that a chain of a file takes. It starts with nothing visited. -/
def chainHops (g : Graph) (file : String) (c : CallChain) : List (Accessor × TypeRef) :=
  (g.taken c.members file (g.reachOf file) ∅).2

lemma chainTour_eq_flatMap (g : Graph) (file : String) (c : CallChain) :
    g.chainTour file c = (g.chainHops file c).flatMap g.typesOf := by
  unfold chainTour chainHops
  rw [tour_eq_taken]

/-! ### Languages along a chain -/

/-- The language of the indexed type of a name. -/
def languageOf (g : Graph) (name : String) : Option Language :=
  (g.index.types.get? name).map (·.language)

/-- The hop leaves the language: the file of the accessor uses no type of the returned name, and
the index has one of another language. -/
def Leaks (g : Graph) (hop : Accessor × TypeRef) : Prop :=
  (∀ r ∈ g.tree.edges hop.1.file, r.toType ≠ hop.1.returnType ∧ r.toName ≠ hop.1.returnType) ∧
    ∃ t, g.returned? hop.1 hop.2 = some t ∧ g.languageOf t.name ≠ g.languageOf hop.2.name

/-- What the graph of a run knows of languages: the path of a file tells the language of its
types, and what linking has found stays in it. -/
structure LanguageByFile (g : Graph) : Prop where
  own : ∀ file, ∀ e ∈ g.index.types.entriesOf file,
    g.index.types.get? e.qualifiedName = some e ∧ e.file = file
  names : g.index.types.OwnNames
  entry : ∀ name e, g.index.types.get? name = some e → Path.language? e.file = some e.language
  accessor : ∀ member, ∀ a ∈ g.index.accessors.get member, ∀ name ∈ a.declaringTypes,
    ∃ e, g.index.types.get? name = some e ∧ e.file = a.file
  targets : g.TargetsIndexed
  direct : ∀ file, ∀ r ∈ g.tree.edges file, g.languageOf r.toName = Path.language? file

section Languages

variable {g : Graph}

lemma LanguageByFile.languageOf_indexed (hg : g.LanguageByFile) {t : TypeRef}
    (ht : t.Indexed g.index.types) : g.languageOf t.name = Path.language? t.file := by
  obtain ⟨e, he, hfile, -⟩ := ht
  rw [languageOf, he, ← hfile, hg.entry _ _ he]
  rfl

lemma LanguageByFile.languageOf_supertype (hg : g.LanguageByFile) {t : TypeRef}
    (ht : t.Indexed g.index.types) {u : TypeRef} (hu : u ∈ g.supertypes t) :
    g.languageOf u.name = g.languageOf t.name := by
  obtain ⟨r, hr, rfl⟩ := List.mem_map.mp hu
  rw [hg.languageOf_indexed ht]
  exact hg.direct t.file r (List.mem_filter.mp hr).1

/-- A hop that does not leak returns a type of the language of the declaring type. -/
lemma LanguageByFile.languageOf_returned (hg : g.LanguageByFile) {hop : Accessor × TypeRef}
    (hhop : g.IsHop hop) (hleak : ¬g.Leaks hop) {t : TypeRef}
    (ht : g.returned? hop.1 hop.2 = some t) :
    g.languageOf t.name = g.languageOf hop.2.name := by
  obtain ⟨⟨member, ha⟩, hn⟩ := hhop
  by_contra hne
  refine hleak ⟨fun r hr => not_or.mp fun hnamed => hne ?_, t, ht, hne⟩
  -- the file of the accessor uses a type of that name, so the hop returns one it uses
  obtain ⟨e, he, hfile⟩ := hg.accessor member hop.1 ha _ hn
  obtain ⟨used, hused⟩ : ∃ used, (g.tree.edges hop.1.file).find? (fun r =>
      r.toType == hop.1.returnType || r.toName == hop.1.returnType) = some used := by
    rw [← Option.isSome_iff_exists, List.find?_isSome]
    exact ⟨r, hr, by simpa using hnamed⟩
  have htarget : t = .target used := by
    unfold returned? at ht
    split at ht
    · simp at ht
    · simp only [hused, Option.some.injEq] at ht
      exact ht.symm
  have hlang : g.languageOf hop.2.name = Path.language? e.file := by
    rw [languageOf, he, hg.entry _ _ he]
    rfl
  rw [htarget, hlang, hfile]
  exact hg.direct _ used (List.mem_of_find?_eq_some hused)

lemma LanguageByFile.reachOf (hg : g.LanguageByFile) {file : String} :
    ∀ u ∈ g.reachOf file,
      u.Indexed g.index.types ∧ g.languageOf u.name = Path.language? file := by
  intro u hu
  refine ⟨reachOf_indexed hg.names hg.targets file u hu, ?_⟩
  rcases List.mem_append.mp hu with hu | hu
  · obtain ⟨r, hr, rfl⟩ := List.mem_map.mp hu
    exact hg.direct file r hr
  · obtain ⟨e, he, rfl⟩ := List.mem_map.mp hu
    obtain ⟨hget, hfile⟩ := hg.own file e he
    rw [← hfile]
    exact hg.languageOf_indexed (hg.names.indexed hget)

/-- **A chain without a leak stays in the language of its file.** -/
lemma LanguageByFile.languageOf_chainTour (hg : g.LanguageByFile) {file : String} {c : CallChain}
    (hleak : ∀ hop ∈ g.chainHops file c, ¬g.Leaks hop) :
    ∀ t ∈ g.chainTour file c, g.languageOf t.name = Path.language? file := by
  have hret : ∀ hop ∈ g.chainHops file c, g.IsHop hop →
      (hop.2.Indexed g.index.types ∧ g.languageOf hop.2.name = Path.language? file) →
      ∀ t, g.returned? hop.1 hop.2 = some t →
        t.Indexed g.index.types ∧ g.languageOf t.name = Path.language? file := by
    rintro hop hm hhop ⟨-, hlang⟩ t ht
    refine ⟨returned?_indexed hg.names hg.targets ht, ?_⟩
    rw [hg.languageOf_returned hhop (hleak hop hm) ht, hlang]
  have hclosed := taken_closed (fun t ht u hu =>
    ⟨supertypes_indexed hg.targets t u hu, (hg.languageOf_supertype ht.1 hu).trans ht.2⟩)
    hg.reachOf hret
  intro t ht
  rw [chainTour_eq_flatMap] at ht
  obtain ⟨hop, hm, ht⟩ := List.mem_flatMap.mp ht
  obtain ⟨hhop, hd⟩ := hclosed hop hm
  rcases List.mem_cons.mp ht with rfl | ht
  · exact hd.2
  · exact (hret hop hm hhop hd t (Option.mem_toList.mp ht)).2

/-- A hop that leaks meets a type outside the language of the file. -/
lemma exists_foreign_of_leak {file : String} {c : CallChain} {hop : Accessor × TypeRef}
    (hm : hop ∈ g.chainHops file c) (hleak : g.Leaks hop) :
    ∃ t ∈ g.chainTour file c, g.languageOf t.name ≠ Path.language? file := by
  obtain ⟨-, t, ht, hne⟩ := hleak
  have hmem : ∀ u ∈ g.typesOf hop, u ∈ g.chainTour file c := by
    intro u hu
    rw [chainTour_eq_flatMap]
    exact List.mem_flatMap.mpr ⟨hop, hm, hu⟩
  by_cases hd : g.languageOf hop.2.name = Path.language? file
  · exact ⟨t, hmem t (List.mem_cons_of_mem _ (by simp [ht])), fun h => hne (h.trans hd.symm)⟩
  · exact ⟨hop.2, hmem _ List.mem_cons_self, hd⟩

end Languages

end Graph

/-! ### The languages of a run -/

section Run

variable {reader : Reader} {maxAncestors : Option Nat} {files : List SourceFile}

lemma mem_readFacts_language {f : FileFacts} (h : f ∈ readFacts reader files) :
    Path.language? f.path = some f.profile.language ∧
      ∀ e ∈ f.entries, e.language = f.profile.language ∧ e.file = f.path ∧ e.OwnsAccessors := by
  obtain ⟨s, -, hok⟩ := mem_readFacts.mp h
  obtain ⟨language, captures, hl, -, rfl⟩ := SourceFile.facts_ok hok
  have hprofile : language.profile.language = language := by cases language <;> rfl
  refine ⟨by rw [← hprofile] at hl; exact hl, fun e he => ?_⟩
  obtain ⟨hlang, hown⟩ := declaredTypes_own he
  exact ⟨hlang, declaredTypes_file he, hown⟩

lemma runIndex_language {name : String} {e : Entry}
    (h : (runIndex reader files).types.get? name = some e) :
    Path.language? e.file = some e.language := by
  obtain ⟨f, hf, he⟩ := List.mem_flatMap.mp (Index.mem_of_get h).1
  obtain ⟨hpath, hentries⟩ := mem_readFacts_language hf
  obtain ⟨hlang, hfile, -⟩ := hentries e he
  rw [hfile, hlang, hpath]

lemma direct_language {f : LinkedFile} (hf : f ∈ runLinked reader maxAncestors files)
    {r : Relationship} (hr : r ∈ f.direct) :
    (runGraph reader maxAncestors files).languageOf r.toName = Path.language? f.path := by
  obtain ⟨facts, hfacts, rfl⟩ := List.mem_map.mp hf
  obtain ⟨c, -, hc⟩ := TypeIndex.mem_link hr
  obtain ⟨target, source, ht, hl, -, -, rfl⟩ := TypeIndex.confirm?_eq_some.mp hc
  have hname : target.qualifiedName = c.target := runIndex_ownNames _ _ ht
  change ((runIndex reader files).types.get? target.qualifiedName).map _ = Path.language? facts.path
  rw [hname, ht, (mem_readFacts_language hfacts).1, ← hl]
  rfl

lemma runGraph_languageByFile : (runGraph reader maxAncestors files).LanguageByFile where
  own _ _ he := Index.mem_entriesOf.mp he
  names := runIndex_ownNames
  entry _ _ h := runIndex_language h
  accessor := by
    intro member a ha name hn
    obtain ⟨e, he, hget, hae⟩ := Index.mem_accessors ha
    obtain ⟨f, hf, hef⟩ := List.mem_flatMap.mp he
    obtain ⟨-, hentries⟩ := mem_readFacts_language hf
    obtain ⟨hdeclaring, hfile⟩ := (hentries e hef).2.2 a hae
    rw [hdeclaring, List.mem_singleton] at hn
    exact ⟨e, hn ▸ hget, hfile.symm⟩
  targets := runGraph_targetsIndexed
  direct := by
    intro file r hr
    obtain ⟨f, hf, rfl, hd⟩ := LinkedFile.mem_edges_tree hr
    exact direct_language hf hd

lemma direct_not_crosses {f : LinkedFile} (hf : f ∈ runLinked reader maxAncestors files)
    {r : Relationship} (hr : r ∈ f.direct) :
    ¬r.CrossesLanguages (runIndex reader files).types := by
  unfold Relationship.CrossesLanguages
  rw [not_not, direct_fromFile hf hr]
  exact direct_language hf hr

/-- The types that the chains of a file meet outside its language are those that its crossing
edges end at: no other edge of the file can hold their keys. -/
lemma crosses_of_foreign (hpaths : (files.map (·.path)).Nodup) {f : LinkedFile}
    (hf : f ∈ runLinked reader maxAncestors files) {origin : Entry}
    (ho : ((runIndex reader files).types.entriesOf f.path).head? = some origin) {c : CallChain}
    (hc : c ∈ f.deferred) {t : TypeRef}
    (ht : t ∈ (runGraph reader maxAncestors files).chainTour f.path c)
    (hne : (runGraph reader maxAncestors files).languageOf t.name ≠ Path.language? f.path) :
    ∃ r ∈ (resolve reader maxAncestors files).relationships,
      r.fromFile = f.path ∧ r.CrossesLanguages (runIndex reader files).types := by
  have hg : (runGraph reader maxAncestors files).LanguageByFile := runGraph_languageByFile
  obtain ⟨hget, hfile⟩ := hg.own f.path origin (List.mem_of_head? ho)
  have horigin : t.name ≠ origin.qualifiedName := by
    intro hname
    refine hne ?_
    rw [hname, ← hfile]
    exact hg.languageOf_indexed (hg.names.indexed hget)
  have hoffered : t.edgeFrom origin ∈
      (runGraph reader maxAncestors files).offered f.path f.deferred :=
    Graph.mem_offered.mpr ⟨origin, ho, c, hc, t, ht, horigin, rfl⟩
  rcases keepNew_complete (.ofList (f.direct.map (·.key))) hoffered with hseen | ⟨r, hr, hk⟩
  · -- a direct edge with this key would end at the same type, but linking keeps the language
    obtain ⟨r, hr, hk⟩ : ∃ r ∈ f.direct, r.key = (t.edgeFrom origin).key := by simpa using hseen
    have hto : r.toName = t.name := congrArg EdgeKey.toName hk
    exact absurd (hto ▸ direct_language hf hr) hne
  · rw [← Graph.resolveFile_found, ← transitive_eq_found hpaths hf] at hr
    have hedge : r ∈ f.edges (runGraph reader maxAncestors files) := List.mem_append_right _ hr
    have hto : r.toName = t.name := congrArg EdgeKey.toName hk
    have hfrom := edges_fromFile hf hedge
    refine ⟨r, (mem_relationships_iff hpaths).mpr ⟨f, hf, hedge⟩, hfrom, ?_⟩
    unfold Relationship.CrossesLanguages
    rw [hto, hfrom]
    exact hne

end Run

/-- **When a report crosses languages.** A direct edge never does. The edges of a file do exactly
if the index has a type of the file, for edges along chains to start at, and one of the hops that
the chains of the file take leaks. -/
theorem crosses_languages_iff_leak (reader : Reader) (maxAncestors : Option Nat)
    (files : List SourceFile) (hpaths : (files.map (·.path)).Nodup) :
    (∀ f ∈ runLinked reader maxAncestors files, ∀ r ∈ f.direct,
      ¬r.CrossesLanguages (runIndex reader files).types) ∧
    ∀ f ∈ runLinked reader maxAncestors files,
      (∃ r ∈ (resolve reader maxAncestors files).relationships,
        r.fromFile = f.path ∧ r.CrossesLanguages (runIndex reader files).types) ↔
      (runIndex reader files).types.entriesOf f.path ≠ [] ∧
        ∃ c ∈ f.deferred, ∃ hop ∈ (runGraph reader maxAncestors files).chainHops f.path c,
          (runGraph reader maxAncestors files).Leaks hop := by
  refine ⟨fun f hf r hr => direct_not_crosses hf hr, fun f hf => ⟨?_, ?_⟩⟩
  · rintro ⟨r, hr, hfrom, hcross⟩
    obtain ⟨f', hf', hedge⟩ := (mem_relationships_iff hpaths).mp hr
    obtain rfl : f' = f := List.inj_on_of_nodup_map (runLinked_paths_nodup hpaths) hf' hf
      ((edges_fromFile hf' hedge).symm.trans hfrom)
    rcases List.mem_append.mp hedge with hd | ht
    · exact absurd hcross (direct_not_crosses hf hd)
    · rw [transitive_eq_found hpaths hf, Graph.resolveFile_found] at ht
      obtain ⟨origin, ho, c, hc, t, htour, -, rfl⟩ :=
        Graph.mem_offered.mp ((keepNew_sublist _ _).subset ht)
      refine ⟨fun hnil => by simp [runGraph, hnil] at ho, c, hc, ?_⟩
      by_contra hnone
      refine hcross ?_
      rw [hfrom]
      exact runGraph_languageByFile.languageOf_chainTour
        (fun hop hm hleak => hnone ⟨hop, hm, hleak⟩) t htour
  · rintro ⟨hentries, c, hc, hop, hm, hleak⟩
    obtain ⟨origin, rest, ho⟩ := List.exists_cons_of_ne_nil hentries
    obtain ⟨t, ht, hne⟩ := Graph.exists_foreign_of_leak hm hleak
    exact crosses_of_foreign hpaths hf (by rw [ho]; rfl) hc ht hne

/-- A return type is found in the other language, and the edge to it is in the report. -/
theorem mixed_relationship_crosses :
    ∃ r ∈ (resolve mixedReader none mixedFiles).relationships,
      r.CrossesLanguages (runIndex mixedReader mixedFiles).types := by
  have hpaths : (mixedFiles.map (·.path)).Nodup := by decide
  have hfound : ("a.cs", [(⟨"A", "a.cs", "A", "P", "p.php", "P", .usage⟩ : Relationship)]) ∈
      mixedLinked.map fun f => (f.path, f.transitive mixedGraph) := by
    rw [transitive_mixed]; exact List.mem_cons_self
  obtain ⟨f, hf, hft⟩ := List.mem_map.mp hfound
  refine ⟨⟨"A", "a.cs", "A", "P", "p.php", "P", .usage⟩, (mem_relationships_iff hpaths).mpr ?_, ?_⟩
  · rw [runLinked_mixed.2, runGraph_mixed]
    refine ⟨f, hf, List.mem_append_right _ ?_⟩
    rw [(Prod.mk.inj hft).2]
    exact List.mem_cons_self
  · have hget : (Index.ofEntries mixedEntries).types.get? "P" =
        some (Entry.plain "" "P" "\\" "p.php" .php) := by cbv
    have hpath : Path.language? "a.cs" = some .csharp := by decide +kernel
    rw [Relationship.CrossesLanguages, runLinked_mixed.1, hget, hpath]
    decide

/-- The member `G` of `A` leaks, so the report has an edge that crosses. -/
theorem crosses_languages_iff_leak_mixed :
    (mixedFiles.map (·.path)).Nodup ∧
      (∃ hop ∈ mixedGraph.chainHops "a.cs" ⟨"a.G", ".", true⟩, mixedGraph.Leaks hop) ∧
      ∃ r ∈ (resolve mixedReader none mixedFiles).relationships, r.fromFile = "a.cs" ∧
        r.CrossesLanguages (runIndex mixedReader mixedFiles).types := by
  have hpaths : (mixedFiles.map (·.path)).Nodup := by decide
  have hhops : mixedGraph.chainHops "a.cs" ⟨"a.G", ".", true⟩ =
      [(⟨"G", ["A"], "P", "a.cs"⟩, ⟨"A", "a.cs", "A"⟩)] := by cbv
  have hleak : mixedGraph.Leaks (⟨"G", ["A"], "P", "a.cs"⟩, ⟨"A", "a.cs", "A"⟩) := by
    have hedges : mixedGraph.tree.edges "a.cs" =
        [⟨"A", "a.cs", "A", "B", "a.cs", "B", .usage⟩] := by cbv
    have hreturned : mixedGraph.returned? ⟨"G", ["A"], "P", "a.cs"⟩ ⟨"A", "a.cs", "A"⟩ =
        some ⟨"P", "p.php", "P"⟩ := by cbv
    have hP : mixedGraph.languageOf "P" = some .php := by cbv
    have hA : mixedGraph.languageOf "A" = some .csharp := by cbv
    refine ⟨?_, _, hreturned, ?_⟩
    · rw [hedges]; simp
    · rw [hP, hA]; decide
  have hwitness : ∃ hop ∈ mixedGraph.chainHops "a.cs" ⟨"a.G", ".", true⟩,
      mixedGraph.Leaks hop := ⟨_, by rw [hhops]; exact List.mem_cons_self, hleak⟩
  refine ⟨hpaths, hwitness, ?_⟩
  have hiff := (crosses_languages_iff_leak mixedReader none mixedFiles hpaths).2
  rw [runLinked_mixed.1, runLinked_mixed.2, runGraph_mixed] at hiff
  rw [runLinked_mixed.1]
  refine (hiff _ List.mem_cons_self).mpr ⟨?_, _, List.mem_cons_self, hwitness⟩
  have hentries : (Index.ofEntries mixedEntries).types.entriesOf "a.cs" = mixedEntries.take 2 := by
    cbv
  rw [hentries]; decide

end TypeCoupling
