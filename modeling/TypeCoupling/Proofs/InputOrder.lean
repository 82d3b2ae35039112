import TypeCoupling.Proofs.FileEdges

/-!
A run does not depend on the order of its files. Files with different paths have one order by
path, and every stage after the sorting sees the sorted files only.
-/

namespace TypeCoupling

namespace SourceFile

/-- The order in which files are read. -/
def before (a b : SourceFile) : Bool := (compare a.path b.path).isLE

lemma before_trans (a b c : SourceFile) (hab : a.before b = true) (hbc : b.before c = true) :
    a.before c = true :=
  Std.TransCmp.isLE_trans hab hbc

lemma before_total (a b : SourceFile) : (a.before b || b.before a) = true :=
  isLE_total compare a.path b.path

lemma path_eq_of_before {a b : SourceFile} (hab : a.before b = true) (hba : b.before a = true) :
    a.path = b.path :=
  Std.LawfulEqCmp.eq_of_compare (Std.OrientedCmp.isLE_antisymm hab hba)

end SourceFile

lemma sortByPath_pairwise (files : List SourceFile) :
    (sortByPath files).Pairwise fun a b => a.before b = true :=
  List.pairwise_mergeSort SourceFile.before_trans SourceFile.before_total files

lemma sortByPath_strict {files : List SourceFile} (hpaths : (files.map (·.path)).Nodup) :
    (sortByPath files).Pairwise fun a b => compare a.path b.path = .lt := by
  have hsorted := sortByPath_pairwise files
  have hdiff : (sortByPath files).Pairwise fun a b => a.path ≠ b.path :=
    List.pairwise_map.mp (((List.mergeSort_perm files _).map _).nodup_iff.mpr hpaths)
  refine (hsorted.and hdiff).imp fun {a b} h => ?_
  rcases Ordering.isLE_iff_eq_lt_or_eq_eq.mp h.1 with hlt | heq
  · exact hlt
  · exact absurd (Std.LawfulEqCmp.eq_of_compare heq) h.2

/-- **One order by path**: files with different paths are sorted into the same list, in whatever
order they come. -/
lemma sortByPath_eq_of_perm {files files' : List SourceFile} (hperm : files.Perm files')
    (hpaths : (files.map (·.path)).Nodup) : sortByPath files = sortByPath files' := by
  have hsort : (sortByPath files).Perm files := List.mergeSort_perm _ _
  have hsort' : (sortByPath files').Perm files' := List.mergeSort_perm _ _
  refine List.Perm.eq_of_pairwise (fun a b ha hb hab hba => ?_) (sortByPath_pairwise files)
    (sortByPath_pairwise files') (hsort.trans (hperm.trans hsort'.symm))
  have ha' : a ∈ files := hsort.mem_iff.mp ha
  have hb' : b ∈ files := hperm.mem_iff.mpr (hsort'.mem_iff.mp hb)
  exact List.inj_on_of_nodup_map hpaths ha' hb' (SourceFile.path_eq_of_before hab hba)

/-- **The order of the files does not matter**: the report, with its relationships, coupling,
errors and counts, is the same for every order. -/
theorem resolve_eq_of_perm (reader : Reader) (maxAncestors : Option Nat)
    {files files' : List SourceFile} (hperm : files.Perm files')
    (hpaths : (files.map (·.path)).Nodup) :
    resolve reader maxAncestors files = resolve reader maxAncestors files' := by
  unfold resolve
  rw [sortByPath_eq_of_perm hperm hpaths, hperm.length_eq]

/-- Reversed, the file without a language comes first, and `c.cs` before `b.cs`: both declare a
`C`. -/
theorem resolve_eq_of_perm_rivals :
    rivals.Perm rivals.reverse ∧ (rivals.map (·.path)).Nodup ∧
      resolve Source.read none rivals = resolve Source.read none rivals.reverse ∧
      (resolve Source.read none rivals.reverse).relationships = rivalEdges := by
  have hperm : rivals.Perm rivals.reverse := (List.reverse_perm rivals).symm
  have hpaths : (rivals.map (·.path)).Nodup := by decide
  have heq := resolve_eq_of_perm Source.read none hperm hpaths
  exact ⟨hperm, hpaths, heq, heq ▸ relationships_rivals⟩

end TypeCoupling
