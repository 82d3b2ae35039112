import Mathlib.Data.List.Nodup
import TypeCoupling.Proofs.Relationship

/-!
Lists in order and without repetition. Such a list is determined by its elements, so all that can
be said of the edges of a tree in order is which edges these are: the way they came into the tree
leaves no trace.
-/

namespace TypeCoupling

/-! ### Sorting and dropping repetitions -/

section SortDistinct

variable {α : Type} (order : α → α → Ordering) [Std.TransCmp order]

lemma isLE_total (a b : α) : ((order a b).isLE || (order b a).isLE) = true := by
  rw [Bool.or_eq_true]
  by_cases h : (order a b).isLE = true
  · exact Or.inl h
  · exact Or.inr (by rw [Std.OrientedCmp.lt_of_not_isLE h]; rfl)

lemma mergeSort_pairwise (l : List α) :
    (l.mergeSort fun a b => (order a b).isLE).Pairwise fun a b => (order a b).isLE = true :=
  List.pairwise_mergeSort (fun a b c => @Std.TransCmp.isLE_trans α order _ a b c)
    (isLE_total order) l

variable {order} in
lemma nodup_of_pairwise_lt {l : List α} (h : l.Pairwise fun a b => order a b = .lt) :
    l.Nodup := by
  refine h.imp ?_
  rintro a b hlt rfl
  have hself : order a a = .eq := Std.ReflCmp.compare_self
  rw [hself] at hlt
  exact absurd hlt (by decide)

variable {order} in
/-- Lists in strict order with the same elements are equal. -/
lemma eq_of_pairwise_lt {l l' : List α} (h : l.Pairwise fun a b => order a b = .lt)
    (h' : l'.Pairwise fun a b => order a b = .lt) (hmem : ∀ a, a ∈ l ↔ a ∈ l') : l = l' := by
  have hperm : l.Perm l' :=
    (List.perm_ext_iff_of_nodup (nodup_of_pairwise_lt h) (nodup_of_pairwise_lt h')).mpr hmem
  refine hperm.eq_of_pairwise (fun a b _ _ hab hba => ?_) h h'
  exact absurd hba (Std.OrientedCmp.not_lt_of_lt hab)

variable [DecidableEq α] [Std.LawfulEqCmp order]

variable {order} in
/-- In a sorted list equal elements are neighbours, so dropping repetitions leaves each element
below all later ones. -/
lemma dropRepeats_pairwise {l : List α} (h : l.Pairwise fun a b => (order a b).isLE = true) :
    (dropRepeats l).Pairwise fun a b => order a b = .lt := by
  fun_induction dropRepeats l with
  | case1 => exact List.Pairwise.nil
  | case2 a => exact List.pairwise_singleton _ a
  | case3 b l ih => exact ih (List.pairwise_cons.mp h).2
  | case4 a b l hne ih =>
    obtain ⟨ha, hl⟩ := List.pairwise_cons.mp h
    refine List.pairwise_cons.mpr ⟨fun c hc => ?_, ih hl⟩
    have hab : order a b = .lt := by
      rcases Ordering.isLE_iff_eq_lt_or_eq_eq.mp (ha b List.mem_cons_self) with hlt | heq
      · exact hlt
      · exact absurd (Std.LawfulEqCmp.eq_of_compare heq) hne
    rcases List.mem_cons.mp (mem_dropRepeats.mp hc) with rfl | hc
    · exact hab
    · exact Std.TransCmp.lt_of_lt_of_isLE hab ((List.pairwise_cons.mp hl).1 c hc)

lemma sortDistinct_pairwise (l : List α) :
    (sortDistinct order l).Pairwise fun a b => order a b = .lt :=
  dropRepeats_pairwise (mergeSort_pairwise order l)

lemma sortDistinct_nodup (l : List α) : (sortDistinct order l).Nodup :=
  nodup_of_pairwise_lt (sortDistinct_pairwise order l)

/-- **Only the elements matter**: lists with the same elements have one sorted form. -/
lemma sortDistinct_congr {l l' : List α} (h : ∀ a, a ∈ l ↔ a ∈ l') :
    sortDistinct order l = sortDistinct order l' := by
  refine eq_of_pairwise_lt (sortDistinct_pairwise order l) (sortDistinct_pairwise order l') ?_
  intro a
  rw [mem_sortDistinct, mem_sortDistinct, h a]

end SortDistinct

/-- The keys of a map come in order, none of them twice. -/
lemma keys_pairwise_lt {β : Type} (t : Std.TreeMap String β) : t.keys.Pairwise (· < ·) := by
  have hkeys := Std.TreeMap.ordered_keys (t := t)
  exact hkeys.imp fun h => compareOfLessAndEq_eq_lt.mp h

/-! ### The order of edges -/

instance : Std.TransOrd UsageKind where
  eq_swap := by rintro (_ | _ | _) (_ | _ | _) <;> rfl
  isLE_trans := by rintro (_ | _ | _) (_ | _ | _) (_ | _ | _) <;> decide

instance : Std.LawfulEqOrd UsageKind where
  compare_self := by rintro (_ | _ | _) <;> rfl
  eq_of_compare := by rintro (_ | _ | _) (_ | _ | _) <;> decide

namespace Relationship

/-- Edges are compared field by field. -/
lemma order_eq_compareLex : order =
    compareLex (compareOn fromName) (compareLex (compareOn fromFile) (compareLex
      (compareOn fromType) (compareLex (compareOn toName) (compareLex (compareOn toFile)
        (compareLex (compareOn toType) (compareOn kind)))))) := rfl

instance : Std.TransCmp order := by
  rw [order_eq_compareLex]; infer_instance

instance : Std.LawfulEqCmp order where
  eq_of_compare {a b} h := by
    simp only [order, Ordering.then_eq_eq, Std.LawfulEqCmp.compare_eq_iff_eq] at h
    obtain ⟨h1, h2, h3, h4, h5, h6, h7⟩ := h
    cases a; cases b; simp_all

end Relationship

/-! ### The edges of a tree in order -/

namespace Tree

lemma flatten_nodup (t : Tree) : t.flatten.Nodup := sortDistinct_nodup _ _

/-- Trees that hold the same edges for every file give one list of edges; a file without edges
may be known to one of them only. -/
lemma flatten_congr {t t' : Tree} (h : ∀ file, t.edges file = t'.edges file) :
    t.flatten = t'.flatten := by
  refine sortDistinct_congr _ fun r => ?_
  have hmem : r ∈ t.flatten ↔ r ∈ t'.flatten := by
    simp only [mem_flatten, h]
  unfold flatten at hmem
  rwa [mem_sortDistinct, mem_sortDistinct] at hmem

end Tree

end TypeCoupling
