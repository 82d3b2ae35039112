import Mathlib.Tactic.Lemma
import TypeCoupling.Relationship

/-!
What a tree of relationships holds: the edges of its files, which putting all of them in order
neither adds to nor takes from.
-/

namespace TypeCoupling

lemma mem_dropRepeats {α : Type} [DecidableEq α] {l : List α} {a : α} :
    a ∈ dropRepeats l ↔ a ∈ l := by
  fun_induction dropRepeats l with
  | case1 => rfl
  | case2 => rfl
  | case3 b l ih => rw [ih]; simp
  | case4 b c l _ ih => rw [List.mem_cons, ih, List.mem_cons (l := c :: l)]

lemma mem_sortDistinct {α : Type} [DecidableEq α] {order : α → α → Ordering} {l : List α} {a : α} :
    a ∈ sortDistinct order l ↔ a ∈ l := by
  rw [sortDistinct, mem_dropRepeats, List.mem_mergeSort]

namespace Tree

lemma values_eq (t : Tree) : t.values = t.toList.map (·.2) := by
  change t.foldr (fun _ rs l => rs :: l) [] = _
  rw [Std.TreeMap.foldr_eq_foldr_toList, List.map_eq_foldr]

lemma mem_flatten {t : Tree} {r : Relationship} : r ∈ t.flatten ↔ ∃ file, r ∈ t.edges file := by
  unfold flatten edges
  rw [mem_sortDistinct, values_eq, List.mem_flatten]
  constructor
  · rintro ⟨rs, hrs, hr⟩
    obtain ⟨⟨file, rs⟩, hmem, rfl⟩ := List.mem_map.mp hrs
    refine ⟨file, ?_⟩
    rw [Std.TreeMap.getD_eq_getD_getElem?, Std.TreeMap.mem_toList_iff_getElem?_eq_some.mp hmem]
    exact hr
  · rintro ⟨file, hr⟩
    rw [Std.TreeMap.getD_eq_getD_getElem?] at hr
    rcases hget : t[file]? with _ | rs
    · simp [hget] at hr
    · rw [hget] at hr
      exact ⟨rs, List.mem_map.mpr ⟨(file, rs),
        Std.TreeMap.mem_toList_iff_getElem?_eq_some.mpr hget, rfl⟩, hr⟩

lemma edges_insert (t : Tree) (path file : String) (rs : List Relationship) :
    edges (t.insert path rs) file = if path = file then rs else t.edges file := by
  unfold edges
  rw [Std.TreeMap.getD_insert]
  simp only [Std.LawfulEqCmp.compare_eq_iff_eq]

lemma edges_extend (t : Tree) (path file : String) (rs : List Relationship) :
    (t.extend path rs).edges file = t.edges file ++ if path = file then rs else [] := by
  unfold extend
  rw [edges_insert]
  by_cases h : path = file
  · subst h; simp
  · simp [h]

/-- The edges of a file after some files have been given more. -/
lemma edges_foldl_extend (l : List (String × List Relationship)) (t : Tree) (file : String) :
    (l.foldl (fun t f => t.extend f.1 f.2) t).edges file =
      t.edges file ++ l.flatMap fun f => if f.1 = file then f.2 else [] := by
  induction l generalizing t with
  | nil => simp
  | cons f l ih => rw [List.foldl_cons, ih, edges_extend, List.flatMap_cons, List.append_assoc]

end Tree

end TypeCoupling
