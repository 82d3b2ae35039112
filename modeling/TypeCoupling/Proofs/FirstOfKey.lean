import Mathlib.Data.List.Induction

/-!
The first element of every key of a list, in order: the elements that have no earlier one with
their key. A list that grows at its end gains one more of them exactly if the key is new, so a
loop that skips the keys it has met keeps just these.
-/

namespace TypeCoupling

variable {α κ : Type} [DecidableEq κ]

/-- The elements that no earlier element shares the key with, in order. -/
def firstsBy (key : α → κ) (l : List α) : List α :=
  (l.zipIdx.filter fun a => !(l.take a.2).any fun b => key b == key a.1).map (·.1)

@[simp] lemma firstsBy_nil (key : α → κ) : firstsBy key [] = [] := rfl

/-- **Step**: an element at the end is one of the firsts if its key is new. -/
lemma firstsBy_concat (key : α → κ) (l : List α) (a : α) :
    firstsBy key (l ++ [a]) =
      firstsBy key l ++ if l.any (fun b => key b == key a) then [] else [a] := by
  unfold firstsBy
  -- an element of `l` has the same elements before it in the longer list
  have hold : ∀ b ∈ l.zipIdx,
      (!((l ++ [a]).take b.2).any fun c => key c == key b.1) =
        !(l.take b.2).any fun c => key c == key b.1 := by
    intro b hb
    have hlt : b.2 < l.length := by
      have := (List.mem_zipIdx' hb).1
      omega
    rw [List.take_append_of_le_length (by omega)]
  have hnew : (l ++ [a]).take l.length = l := List.take_left
  rw [List.zipIdx_append, List.filter_append, List.map_append, List.filter_congr hold]
  rw [List.zipIdx_singleton, List.filter_cons, List.filter_nil, Nat.zero_add, hnew]
  by_cases h : l.any (fun b => key b == key a) = true
  · simp [h]
  · simp [h]

lemma mem_of_mem_firstsBy {key : α → κ} {l : List α} {a : α} (h : a ∈ firstsBy key l) :
    a ∈ l := by
  obtain ⟨b, hb, rfl⟩ := List.mem_map.mp h
  exact List.fst_mem_of_mem_zipIdx (List.mem_filter.mp hb).1

/-- No key is lost. -/
lemma any_firstsBy (key : α → κ) (l : List α) (k : κ) :
    (firstsBy key l).any (fun b => key b == k) = l.any fun b => key b == k := by
  induction l using List.reverseRecOn with
  | nil => rfl
  | append_singleton l a ih =>
    rw [firstsBy_concat, List.any_append, List.any_append, ih]
    by_cases h : l.any (fun b => key b == key a) = true
    · rw [if_pos h]
      by_cases hk : key a = k
      · subst hk
        simp [h]
      · simp [hk]
    · rw [if_neg h]

/-- Keys may be read off before or after a list is mapped: the firsts among the images are the
images of the firsts. -/
lemma firstsBy_filterMap {β : Type} {f : α → Option β} {key : α → κ} {key' : β → κ}
    (hkey : ∀ a b, f a = some b → key' b = key a) (l : List α) :
    firstsBy key' (l.filterMap f) = (firstsBy key (l.filter (f · |>.isSome))).filterMap f := by
  induction l using List.reverseRecOn with
  | nil => rfl
  | append_singleton l a ih =>
    rw [List.filterMap_append, List.filter_append]
    rcases hf : f a with _ | b
    · simp [hf, ih]
    · have hany : (l.filterMap f).any (fun c => key' c == key' b) =
          (l.filter (f · |>.isSome)).any fun c => key c == key a := by
        rw [Bool.eq_iff_iff]
        simp only [List.any_eq_true, List.mem_filterMap, List.mem_filter, beq_iff_eq, hkey a b hf,
          Option.isSome_iff_exists]
        constructor
        · rintro ⟨d, ⟨c, hc, hd⟩, hk⟩
          exact ⟨c, ⟨hc, d, hd⟩, (hkey c d hd).symm.trans hk⟩
        · rintro ⟨c, ⟨hc, d, hd⟩, hk⟩
          exact ⟨d, ⟨c, hc, hd⟩, (hkey c d hd).trans hk⟩
      simp only [List.filterMap_cons, List.filterMap_nil, List.filter_cons, List.filter_nil, hf,
        Option.isSome_some, if_true, firstsBy_concat, hany, ih]
      split
      · simp
      · simp [hf]

/-- Keys that tell the same elements apart have the same firsts. -/
lemma firstsBy_congr {κ' : Type} [DecidableEq κ'] {key : α → κ} {key' : α → κ'}
    (h : ∀ a b, key a = key b ↔ key' a = key' b) (l : List α) :
    firstsBy key l = firstsBy key' l := by
  induction l using List.reverseRecOn with
  | nil => rfl
  | append_singleton l a ih => simp only [firstsBy_concat, ih, beq_eq_decide, h]

/-- Erasing repetitions leaves the first of every element. -/
lemma eraseDups_eq_firstsBy [DecidableEq α] (l : List α) : l.eraseDups = firstsBy id l := by
  induction l using List.reverseRecOn with
  | nil => rfl
  | append_singleton l a ih =>
    rw [List.eraseDups_append, firstsBy_concat, ih]
    congr 1
    by_cases h : a ∈ l
    · simp [List.removeAll, h]
    · simp [List.removeAll, h, List.eraseDups_cons]

lemma firstsBy_map {β : Type} (f : α → β) (key : β → κ) (l : List α) :
    firstsBy key (l.map f) = (firstsBy (fun a => key (f a)) l).map f := by
  induction l using List.reverseRecOn with
  | nil => rfl
  | append_singleton l a ih =>
    rw [List.map_append, List.map_singleton, firstsBy_concat, firstsBy_concat, List.any_map, ih,
      List.map_append, apply_ite (List.map f)]
    rfl

/-- Under an injective map the images without repetitions are the images of the firsts. -/
lemma eraseDups_map_of_injective {β : Type} [DecidableEq α] [DecidableEq β] {f : α → β}
    (hf : Function.Injective f) (l : List α) : (l.map f).eraseDups = (firstsBy id l).map f := by
  rw [eraseDups_eq_firstsBy, firstsBy_map]
  exact congrArg (List.map f) (firstsBy_congr (fun a b => hf.eq_iff) l)

end TypeCoupling
