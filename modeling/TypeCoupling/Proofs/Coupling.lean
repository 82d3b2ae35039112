import Mathlib
import TypeCoupling.Coupling
import TypeCoupling.Resolution
import TypeCoupling.Proofs.EdgeOrder

/-!
Coupling is the relation between files.

A file depends on another one if a relationship leads from it to the other (`DependsOn`). Going over
the relationships fills two maps of sets, and the invariant is that both keep this relation, each
from its side (`Keeps`). The coupling says what the relation is: it lists the files that have a part
in it, and for each of them both sides of the relation in order (`Describes`). A list that does so
is determined by the relation, so nothing else about the relationships shows in their coupling.
Every pair of the relation is counted once at each of its ends, so the totals of both counts are
the number of pairs.
-/

namespace TypeCoupling

/-- The files that a relationship leads from and to. -/
def Relationship.ends (r : Relationship) : String × String := (r.fromFile, r.toFile)

/-- A relationship leads from the first file to the second, another one. -/
def DependsOn (rs : List Relationship) (f g : String) : Prop :=
  f ≠ g ∧ ∃ r ∈ rs, r.fromFile = f ∧ r.toFile = g

lemma dependsOn_iff {rs : List Relationship} {f g : String} :
    DependsOn rs f g ↔ f ≠ g ∧ (f, g) ∈ rs.map (·.ends) := by
  simp only [DependsOn, List.mem_map, Relationship.ends, Prod.mk.injEq]

/-- One more relationship adds its pair, unless it stays in a file. -/
lemma dependsOn_append_singleton {rs : List Relationship} {r : Relationship} {f g : String} :
    DependsOn (rs ++ [r]) f g ↔
      DependsOn rs f g ∨ r.fromFile ≠ r.toFile ∧ f = r.fromFile ∧ g = r.toFile := by
  simp only [DependsOn, List.mem_append, List.mem_singleton]
  constructor
  · rintro ⟨hne, d, hd | rfl, rfl, rfl⟩
    · exact Or.inl ⟨hne, d, hd, rfl, rfl⟩
    · exact Or.inr ⟨hne, rfl, rfl⟩
  · rintro (⟨hne, d, hd, hends⟩ | ⟨hne, rfl, rfl⟩)
    · exact ⟨hne, d, Or.inl hd, hends⟩
    · exact ⟨hne, r, Or.inr rfl, rfl, rfl⟩

/-! ### Filling the sets -/

/-- The sets say what a relation is: a file with partners has a set, and its partners are in it. -/
structure FileSets.Keeps (m : FileSets) (rel : String → String → Prop) : Prop where
  mem_keys : ∀ f, f ∈ m.keys ↔ ∃ g, rel f g
  mem_filesOf : ∀ f g, g ∈ m.filesOf f ↔ rel f g

lemma FileSets.keeps_empty : Keeps ∅ fun _ _ => False where
  mem_keys f := by simp
  mem_filesOf f g := by simp [filesOf, Std.TreeMap.getD_emptyc]

/-- **Step**: noting a partner adds one pair to the relation. -/
lemma FileSets.Keeps.add {m : FileSets} {rel : String → String → Prop} (h : m.Keeps rel)
    (file other : String) :
    (m.add file other).Keeps fun f g => rel f g ∨ f = file ∧ g = other where
  mem_keys f := by
    have hkey := h.mem_keys f
    rw [Std.TreeMap.mem_keys] at hkey
    rw [Std.TreeMap.mem_keys, FileSets.add, Std.TreeMap.mem_insert, hkey,
      Std.LawfulEqCmp.compare_eq_iff_eq]
    constructor
    · rintro (rfl | ⟨g, hg⟩)
      · exact ⟨other, Or.inr ⟨rfl, rfl⟩⟩
      · exact ⟨g, Or.inl hg⟩
    · rintro ⟨g, hg | ⟨rfl, -⟩⟩
      · exact Or.inr ⟨g, hg⟩
      · exact Or.inl rfl
  mem_filesOf f g := by
    have hfiles := h.mem_filesOf f g
    rw [FileSets.filesOf, Std.TreeSet.mem_toList] at hfiles ⊢
    rw [FileSets.add, Std.TreeMap.getD_insert]
    split
    · next hfile =>
      obtain rfl := Std.LawfulEqCmp.compare_eq_iff_eq.mp hfile
      rw [Std.TreeSet.mem_insert, hfiles, Std.LawfulEqCmp.compare_eq_iff_eq]
      simp only [true_and, eq_comm, or_comm]
    · next hfile =>
      have hne : ¬f = file := fun heq => hfile (heq ▸ Std.ReflCmp.compare_self)
      rw [hfiles]
      simp [hne]

/-- Both sides of the links say what a relation is. -/
structure FileLinks.Keeps (l : FileLinks) (depends : String → String → Prop) : Prop where
  dependents : l.dependents.Keeps fun f g => depends g f
  dependencies : l.dependencies.Keeps depends

/-- **Run**: the links of a list of relationships say which files depend on which. -/
lemma foldl_step_keeps (rs : List Relationship) :
    (rs.foldl FileLinks.step .empty).Keeps (DependsOn rs) := by
  induction rs using List.reverseRecOn with
  | nil =>
    have hnone : DependsOn [] = fun _ _ => False := by
      funext f g
      simp [DependsOn]
    rw [hnone]
    exact ⟨FileSets.keeps_empty, FileSets.keeps_empty⟩
  | append_singleton rs r ih =>
    rw [List.foldl_append, List.foldl_cons, List.foldl_nil, FileLinks.step]
    have hstep : DependsOn (rs ++ [r]) = fun f g =>
        DependsOn rs f g ∨ r.fromFile ≠ r.toFile ∧ f = r.fromFile ∧ g = r.toFile :=
      funext fun f => funext fun g => propext dependsOn_append_singleton
    rw [hstep]
    by_cases hcross : r.fromFile = r.toFile
    · simpa [Relationship.isCrossFile, hcross] using ih
    · rw [if_pos (by simpa [Relationship.isCrossFile] using hcross)]
      refine ⟨?_, ?_⟩
      · have hadd := ih.dependents.add r.toFile r.fromFile
        simpa [hcross, and_comm] using hadd
      · have hadd := ih.dependencies.add r.fromFile r.toFile
        simpa [hcross] using hadd

lemma FileLinks.Keeps.mem_files {l : FileLinks} {depends : String → String → Prop}
    (h : l.Keeps depends) (f : String) : f ∈ l.files ↔ ∃ g, depends f g ∨ depends g f := by
  rw [FileLinks.files, Std.TreeSet.mem_toList, Std.TreeSet.mem_ofList, List.contains_iff_mem,
    List.mem_append, h.dependents.mem_keys, h.dependencies.mem_keys, ← exists_or]
  simp only [or_comm]

/-! ### What a coupling says -/

/-- The files of a relation in order, each with both of its sides in order. -/
structure Describes (depends : String → String → Prop) (cs : List FileCoupling) : Prop where
  files_lt : (cs.map (·.file)).Pairwise (· < ·)
  mem_files : ∀ f, f ∈ cs.map (·.file) ↔ ∃ g, depends f g ∨ depends g f
  dependencies_lt : ∀ c ∈ cs, c.dependencies.Pairwise (· < ·)
  mem_dependencies : ∀ c ∈ cs, ∀ g, g ∈ c.dependencies ↔ depends c.file g
  dependents_lt : ∀ c ∈ cs, c.dependents.Pairwise (· < ·)
  mem_dependents : ∀ c ∈ cs, ∀ g, g ∈ c.dependents ↔ depends g c.file

lemma pairwise_lt_toList (s : Std.TreeSet String) : s.toList.Pairwise (· < ·) := by
  have hordered : s.toList.Pairwise fun a b => compare a b = .lt := Std.TreeSet.ordered_toList
  exact hordered.imp fun h => compareOfLessAndEq_eq_lt.mp h

lemma coupling_map_file (rs : List Relationship) :
    (coupling rs).map (·.file) = (rs.foldl FileLinks.step .empty).files := by
  rw [coupling, List.map_map]
  exact List.map_id' _

/-- **Coupling describes the relation between files.** -/
lemma coupling_describes (rs : List Relationship) :
    Describes (DependsOn rs) (coupling rs) := by
  have hkeeps := foldl_step_keeps rs
  refine ⟨?_, fun f => ?_, fun c hc => ?_, fun c hc g => ?_, fun c hc => ?_, fun c hc g => ?_⟩
  · rw [coupling_map_file]
    exact pairwise_lt_toList _
  · rw [coupling_map_file]
    exact hkeeps.mem_files f
  all_goals obtain ⟨f, -, rfl⟩ := List.mem_map.mp hc
  · exact pairwise_lt_toList _
  · exact hkeeps.dependencies.mem_filesOf f g
  · exact pairwise_lt_toList _
  · exact hkeeps.dependents.mem_filesOf f g

/-- Every file is counted by its two sides. -/
def Counted (cs : List FileCoupling) : Prop :=
  ∀ c ∈ cs, c = .ofSides c.file c.dependents c.dependencies

lemma coupling_counted (rs : List Relationship) : Counted (coupling rs) := by
  intro c hc
  obtain ⟨f, -, rfl⟩ := List.mem_map.mp hc
  rfl

namespace Counted

variable {cs : List FileCoupling} {c : FileCoupling}

lemma afferent (h : Counted cs) (hc : c ∈ cs) : c.afferent = c.dependents.length :=
  congrArg FileCoupling.afferent (h c hc)

lemma efferent (h : Counted cs) (hc : c ∈ cs) : c.efferent = c.dependencies.length :=
  congrArg FileCoupling.efferent (h c hc)

end Counted

namespace Describes

variable {depends depends' : String → String → Prop} {cs cs' : List FileCoupling}

/-- A pair of the relation is met at its first file. -/
lemma exists_dependencies_iff (h : Describes depends cs) {f g : String} :
    (∃ c ∈ cs, c.file = f ∧ g ∈ c.dependencies) ↔ depends f g := by
  constructor
  · rintro ⟨c, hc, rfl, hg⟩
    exact (h.mem_dependencies c hc g).mp hg
  · intro hdepends
    obtain ⟨c, hc, rfl⟩ := List.mem_map.mp ((h.mem_files f).mpr ⟨g, Or.inl hdepends⟩)
    exact ⟨c, hc, rfl, (h.mem_dependencies c hc g).mpr hdepends⟩

/-- And at its second file. -/
lemma exists_dependents_iff (h : Describes depends cs) {f g : String} :
    (∃ c ∈ cs, c.file = g ∧ f ∈ c.dependents) ↔ depends f g := by
  constructor
  · rintro ⟨c, hc, rfl, hf⟩
    exact (h.mem_dependents c hc f).mp hf
  · intro hdepends
    obtain ⟨c, hc, rfl⟩ := List.mem_map.mp ((h.mem_files g).mpr ⟨f, Or.inr hdepends⟩)
    exact ⟨c, hc, rfl, (h.mem_dependents c hc f).mpr hdepends⟩

/-- **The relation determines the list.** -/
lemma unique (h : Describes depends cs) (h' : Describes depends cs') (hcounted : Counted cs)
    (hcounted' : Counted cs') : cs = cs' := by
  have hfiles : cs.map (·.file) = cs'.map (·.file) :=
    h.files_lt.eq_of_mem_iff h'.files_lt fun f => by rw [h.mem_files, h'.mem_files]
  have hsides : ∀ c ∈ cs, ∀ c' ∈ cs', c.file = c'.file → c = c' := by
    intro c hc c' hc' hfile
    have hdependents : c.dependents = c'.dependents :=
      (h.dependents_lt c hc).eq_of_mem_iff (h'.dependents_lt c' hc') fun g => by
        rw [h.mem_dependents c hc, h'.mem_dependents c' hc', hfile]
    have hdependencies : c.dependencies = c'.dependencies :=
      (h.dependencies_lt c hc).eq_of_mem_iff (h'.dependencies_lt c' hc') fun g => by
        rw [h.mem_dependencies c hc, h'.mem_dependencies c' hc', hfile]
    rw [hcounted c hc, hcounted' c' hc', hfile, hdependents, hdependencies]
  have hlength : cs.length = cs'.length := by
    rw [← List.length_map (·.file), hfiles, List.length_map]
  refine List.ext_getElem hlength fun i hi hi' => ?_
  refine hsides _ (List.getElem_mem hi) _ (List.getElem_mem hi') ?_
  have hi'' := List.getElem_of_eq hfiles (by rwa [List.length_map])
  rwa [List.getElem_map, List.getElem_map] at hi''

end Describes

/-- **Coupling is the relation and nothing else.** -/
lemma coupling_eq_iff {rs rs' : List Relationship} :
    coupling rs = coupling rs' ↔ ∀ f g, DependsOn rs f g ↔ DependsOn rs' f g := by
  have h := coupling_describes rs
  have h' := coupling_describes rs'
  constructor
  · intro heq f g
    rw [← h.exists_dependencies_iff, heq, h'.exists_dependencies_iff]
  · intro hiff
    have hrel : DependsOn rs = DependsOn rs' := funext fun f => funext fun g => propext (hiff f g)
    rw [hrel] at h
    exact h.unique h' (coupling_counted rs) (coupling_counted rs')

/-- **Coupling is exactly the relation between files.** It describes the relation, its two sides
agree, and it is the same for all lists of relationships with one relation: whatever their order
and repetitions, with other kinds and type names, and with relationships inside a file added. -/
theorem coupling_is_file_relation (rs : List Relationship) :
    Describes (DependsOn rs) (coupling rs) ∧
      (∀ c ∈ coupling rs,
        c.efferent = c.dependencies.length ∧ c.afferent = c.dependents.length) ∧
      (∀ f g, (∃ c ∈ coupling rs, c.file = f ∧ g ∈ c.dependencies) ↔
        ∃ c ∈ coupling rs, c.file = g ∧ f ∈ c.dependents) ∧
      (∀ rs', coupling rs' = coupling rs ↔ ∀ f g, DependsOn rs' f g ↔ DependsOn rs f g) ∧
      (∀ rs', (∀ r, r ∈ rs' ↔ r ∈ rs) → coupling rs' = coupling rs) ∧
      (∀ rs', rs'.map (·.ends) = rs.map (·.ends) → coupling rs' = coupling rs) ∧
      ∀ inner, (∀ r ∈ inner, r.fromFile = r.toFile) → coupling (rs ++ inner) = coupling rs := by
  have hdescribes := coupling_describes rs
  have hcounted := coupling_counted rs
  refine ⟨hdescribes, fun c hc => ⟨hcounted.efferent hc, hcounted.afferent hc⟩, fun f g => ?_,
    fun rs' => coupling_eq_iff, fun rs' hsame => ?_, fun rs' hends => ?_, fun inner hinner => ?_⟩
  · rw [hdescribes.exists_dependencies_iff, hdescribes.exists_dependents_iff]
  · refine coupling_eq_iff.mpr fun f g => ?_
    simp only [DependsOn, hsame]
  · refine coupling_eq_iff.mpr fun f g => ?_
    rw [dependsOn_iff, dependsOn_iff, hends]
  · refine coupling_eq_iff.mpr fun f g => and_congr_right fun hne => ?_
    -- a relationship between different files is none of those inside a file
    constructor
    · rintro ⟨r, hr, rfl, rfl⟩
      rcases List.mem_append.mp hr with hr | hr
      · exact ⟨r, hr, rfl, rfl⟩
      · exact absurd (hinner r hr) hne
    · rintro ⟨r, hr, hfiles⟩
      exact ⟨r, List.mem_append_left inner hr, hfiles⟩

/-- Two types of one file that use another file, which uses a third one. -/
def fanRelationships : List Relationship :=
  [⟨"A", "A.cs", "A", "B", "B.cs", "B", .usage⟩, ⟨"A2", "A.cs", "A2", "B", "B.cs", "B", .extension⟩,
    ⟨"A", "A.cs", "A", "C", "C.cs", "C", .usage⟩, ⟨"B", "B.cs", "B", "C", "C.cs", "C", .usage⟩]

theorem coupling_is_file_relation_fan :
    let inner : Relationship := ⟨"A", "A.cs", "A", "A2", "A.cs", "A2", .usage⟩
    inner.fromFile = inner.toFile ∧
      coupling (fanRelationships ++ [inner]) =
        [.ofSides "A.cs" [] ["B.cs", "C.cs"], .ofSides "B.cs" ["A.cs"] ["C.cs"],
          .ofSides "C.cs" ["A.cs", "B.cs"] []] := by
  obtain ⟨-, -, -, -, -, -, hinner⟩ := coupling_is_file_relation fanRelationships
  refine ⟨rfl, ?_⟩
  rw [hinner _ (by simp)]
  cbv

/-! ### Totals -/

/-- The pairs of different files that relationships lead from and to. -/
def dependencyPairs (rs : List Relationship) : Finset (String × String) :=
  (rs.map (·.ends)).toFinset.filter fun p => p.1 ≠ p.2

lemma mem_dependencyPairs {rs : List Relationship} {p : String × String} :
    p ∈ dependencyPairs rs ↔ DependsOn rs p.1 p.2 := by
  rw [dependencyPairs, Finset.mem_filter, List.mem_toFinset, dependsOn_iff, and_comm]

lemma total_eq_sum {α : Type} (count : α → Nat) (xs : List α) :
    total count xs = (xs.map count).sum := by
  induction xs with
  | nil => rfl
  | cons x xs ih => rw [List.map_cons, List.sum_cons, ← ih]; rfl

/-- **Every pair is counted once**, at the end that the counts look from: if every file has the far
ends of its pairs and counts them, the counts add up to the number of pairs. -/
lemma total_eq_card {cs : List FileCoupling} {pairs : Finset (String × String)}
    {count : FileCoupling → Nat} (side : FileCoupling → List String)
    (near far : String × String → String) (hcount : ∀ c ∈ cs, count c = (side c).length)
    (hfiles : (cs.map (·.file)).Nodup) (hcovered : ∀ p ∈ pairs, near p ∈ cs.map (·.file))
    (hends : ∀ p q, near p = near q → far p = far q → p = q)
    (hnodup : ∀ c ∈ cs, (side c).Nodup)
    (hside : ∀ c ∈ cs, ∀ g, g ∈ side c ↔ ∃ p ∈ pairs, near p = c.file ∧ far p = g) :
    total count cs = pairs.card := by
  have hlength : ∀ c ∈ cs, count c = (pairs.filter (near · = c.file)).card := by
    intro c hc
    have himage : (side c).toFinset = (pairs.filter (near · = c.file)).image far := by
      ext g
      rw [List.mem_toFinset, hside c hc, Finset.mem_image]
      simp only [Finset.mem_filter, and_assoc]
    rw [hcount c hc, ← List.toFinset_card_of_nodup (hnodup c hc), himage]
    refine Finset.card_image_of_injOn fun p hp q hq hfar => hends p q ?_ hfar
    have hp' := (Finset.mem_filter.mp hp).2
    have hq' := (Finset.mem_filter.mp hq).2
    rw [hp', hq']
  have hmaps : Set.MapsTo near pairs ((cs.map (·.file)).toFinset : Set String) :=
    fun p hp => List.mem_toFinset.mpr (hcovered p hp)
  calc total count cs
      = (cs.map fun c => (pairs.filter (near · = c.file)).card).sum := by
        rw [total_eq_sum, List.map_congr_left hlength]
    _ = ∑ f ∈ (cs.map (·.file)).toFinset, (pairs.filter (near · = f)).card := by
        rw [List.sum_toFinset _ hfiles, List.map_map]
        rfl
    _ = pairs.card := (Finset.card_eq_sum_card_fiberwise hmaps).symm

section Describes

variable {depends : String → String → Prop} {cs : List FileCoupling}
  {pairs : Finset (String × String)}

lemma Describes.total_afferent (h : Describes depends cs) (hcounted : Counted cs)
    (hpairs : ∀ p, p ∈ pairs ↔ depends p.1 p.2) : total (·.afferent) cs = pairs.card := by
  refine total_eq_card (·.dependents) Prod.snd Prod.fst (fun c hc => hcounted.afferent hc)
    (h.files_lt.imp ne_of_lt) ?_
    (fun p q hsnd hfst => Prod.ext hfst hsnd) (fun c hc => (h.dependents_lt c hc).imp ne_of_lt) ?_
  · intro p hp
    exact (h.mem_files p.2).mpr ⟨p.1, Or.inr ((hpairs p).mp hp)⟩
  · intro c hc g
    rw [h.mem_dependents c hc]
    constructor
    · intro hg
      exact ⟨(g, c.file), (hpairs _).mpr hg, rfl, rfl⟩
    · rintro ⟨p, hp, hfile, rfl⟩
      rw [← hfile]
      exact (hpairs p).mp hp

lemma Describes.total_efferent (h : Describes depends cs) (hcounted : Counted cs)
    (hpairs : ∀ p, p ∈ pairs ↔ depends p.1 p.2) : total (·.efferent) cs = pairs.card := by
  refine total_eq_card (·.dependencies) Prod.fst Prod.snd (fun c hc => hcounted.efferent hc)
    (h.files_lt.imp ne_of_lt) ?_
    (fun p q hfst hsnd => Prod.ext hfst hsnd)
    (fun c hc => (h.dependencies_lt c hc).imp ne_of_lt) ?_
  · intro p hp
    exact (h.mem_files p.1).mpr ⟨p.2, Or.inl ((hpairs p).mp hp)⟩
  · intro c hc g
    rw [h.mem_dependencies c hc]
    constructor
    · intro hg
      exact ⟨(c.file, g), (hpairs _).mpr hg, rfl, rfl⟩
    · rintro ⟨p, hp, hfile, rfl⟩
      rw [← hfile]
      exact (hpairs p).mp hp

/-- A file that has a part in the relation has something on one of its sides. -/
lemma Describes.one_le_afferent_add_efferent (h : Describes depends cs) (hcounted : Counted cs)
    {c : FileCoupling} (hc : c ∈ cs) : 1 ≤ c.afferent + c.efferent := by
  rw [hcounted.afferent hc, hcounted.efferent hc]
  obtain ⟨g, hg | hg⟩ := (h.mem_files c.file).mp (List.mem_map_of_mem hc)
  · have hpos := List.length_pos_of_mem ((h.mem_dependencies c hc g).mpr hg)
    omega
  · have hpos := List.length_pos_of_mem ((h.mem_dependents c hc g).mpr hg)
    omega

end Describes

/-- **Totals balance.** Over all files the counts of dependents and the counts of dependencies add
up to the number of pairs of different files with a relationship from one to the other. No file is
listed without a count, so its instability is a share of a positive number. -/
theorem coupling_totals_balance (rs : List Relationship) :
    total (·.afferent) (coupling rs) = (dependencyPairs rs).card ∧
      total (·.efferent) (coupling rs) = (dependencyPairs rs).card ∧
      ∀ c ∈ coupling rs, 1 ≤ c.afferent + c.efferent ∧
        c.instability = (Binary64.ofNat c.efferent).div (.ofNat (c.afferent + c.efferent)) := by
  have h := coupling_describes rs
  have hcounted := coupling_counted rs
  refine ⟨h.total_afferent hcounted fun p => mem_dependencyPairs,
    h.total_efferent hcounted fun p => mem_dependencyPairs, fun c hc => ?_⟩
  have hcount := h.one_le_afferent_add_efferent hcounted hc
  refine ⟨hcount, ?_⟩
  rw [FileCoupling.instability, instability, if_neg (by omega)]

theorem coupling_totals_balance_fan :
    total (·.afferent) (coupling fanRelationships) = 3 ∧
      total (·.efferent) (coupling fanRelationships) = 3 := by
  have hcard : (dependencyPairs fanRelationships).card = 3 := by decide
  obtain ⟨hafferent, hefferent, -⟩ := coupling_totals_balance fanRelationships
  exact ⟨hafferent.trans hcard, hefferent.trans hcard⟩

end TypeCoupling
