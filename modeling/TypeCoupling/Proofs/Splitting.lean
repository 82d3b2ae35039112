import Mathlib.Data.List.DropRight
import TypeCoupling.Declaration

/-!
Splitting takes joined parts apart again.

A delimiter of one character cuts a text at every copy of it, so parts that do not hold the
character come back as they were. Decorations are taken off an ending only, so a part without one
stays as it is. Blanks and copies of a delimiter are taken off the ends, and what is left is an end
or a start of the text.
-/

namespace TypeCoupling

namespace Text

/-! ### Characters of joined parts -/

lemma toList_join_cons (d p : String) (parts : List String) :
    (join d (p :: parts)).toList =
      p.toList ++ parts.flatMap fun q => d.toList ++ q.toList := by
  induction parts generalizing p with
  | nil => simp
  | cons q parts ih =>
    rw [join, String.toList_append, String.toList_append, ih, List.flatMap_cons]
    simp

lemma join_cons_ne_empty {d p : String} (h : p ≠ "") (parts : List String) :
    join d (p :: parts) ≠ "" := by
  intro hempty
  have htext := congrArg String.toList hempty
  rw [toList_join_cons] at htext
  exact h (String.toList_eq_nil_iff.mp (List.append_eq_nil_iff.mp htext).1)

/-- In front of the same parts, different first parts are told apart. -/
lemma join_cons_inj {d p q : String} {parts : List String} :
    join d (p :: parts) = join d (q :: parts) ↔ p = q := by
  rw [← String.toList_inj, toList_join_cons, toList_join_cons, List.append_left_inj,
    String.toList_inj]

/-- A character of joined parts comes from the delimiter or from a part. -/
lemma mem_join {d : String} {parts : List String} {c : Char} (h : c ∈ (join d parts).toList) :
    c ∈ d.toList ∨ ∃ p ∈ parts, c ∈ p.toList := by
  rcases parts with _ | ⟨p, parts⟩
  · simp at h
  · rw [toList_join_cons, List.mem_append, List.mem_flatMap] at h
    rcases h with h | ⟨q, hq, h⟩
    · exact Or.inr ⟨p, List.mem_cons_self, h⟩
    · rcases List.mem_append.mp h with h | h
      · exact Or.inl h
      · exact Or.inr ⟨q, List.mem_cons_of_mem _ hq, h⟩

lemma mem_join_of_mem_drop {d : String} {parts : List String} {c : Char}
    (h : c ∈ (join d (parts.drop 1)).toList) : c ∈ (join d parts).toList := by
  match parts, h with
  | _ :: q :: qs, h =>
    rw [join, String.toList_append]
    exact List.mem_append_right _ h

/-! ### A delimiter of one character -/

lemma cut_cons_self (a : Char) (s : List Char) : cut [a] (a :: s) 0 = [] :: cut [a] s 0 := by
  have hstart : [a].isPrefixOf (a :: s) = true := by simp [List.isPrefixOf]
  rw [cut, if_pos hstart]
  rfl

lemma cut_cons_of_ne {a c : Char} (h : a ≠ c) (s : List Char) :
    cut [a] (c :: s) 0 = consPiece c (cut [a] s 0) := by
  have hstart : [a].isPrefixOf (c :: s) = false := by simp [List.isPrefixOf, h]
  rw [cut, if_neg (by simp [hstart])]

lemma cut_of_notMem {a : Char} {p : List Char} (h : a ∉ p) : cut [a] p 0 = [p] := by
  induction p with
  | nil => rfl
  | cons c p ih =>
    obtain ⟨hc, hp⟩ : a ≠ c ∧ a ∉ p := by simpa using h
    rw [cut_cons_of_ne hc, ih hp]
    rfl

lemma consPiece_append (c : Char) {ps : List (List Char)} (h : ps ≠ []) (qs : List (List Char)) :
    consPiece c (ps ++ qs) = consPiece c ps ++ qs := by
  obtain ⟨p, ps, rfl⟩ := List.exists_cons_of_ne_nil h
  rfl

/-- At a copy of the delimiter a text falls apart. -/
lemma cut_append_delimiter (a : Char) (s t : List Char) :
    cut [a] (s ++ a :: t) 0 = cut [a] s 0 ++ cut [a] t 0 := by
  induction s with
  | nil => exact cut_cons_self a t
  | cons c s ih =>
    rw [List.cons_append]
    rcases eq_or_ne a c with rfl | hc
    · rw [cut_cons_self, cut_cons_self, ih, List.cons_append]
    · rw [cut_cons_of_ne hc, cut_cons_of_ne hc, ih, consPiece_append c (cut_ne_nil _ _ _)]

lemma cut_append_cons {a : Char} {p : List Char} (h : a ∉ p) (s : List Char) :
    cut [a] (p ++ a :: s) 0 = p :: cut [a] s 0 := by
  rw [cut_append_delimiter, cut_of_notMem h, List.singleton_append]

lemma notMem_of_mem_cut {a : Char} {s p : List Char} (h : p ∈ cut [a] s 0) : a ∉ p := by
  induction s generalizing p with
  | nil =>
    obtain rfl : p = [] := by simpa [cut] using h
    exact List.not_mem_nil
  | cons c s ih =>
    rcases eq_or_ne a c with rfl | hc
    · rw [cut_cons_self] at h
      rcases List.mem_cons.mp h with rfl | h
      · exact List.not_mem_nil
      · exact ih h
    · obtain ⟨q, qs, hcut⟩ := List.exists_cons_of_ne_nil (cut_ne_nil [a] s 0)
      rw [cut_cons_of_ne hc, hcut] at h
      rw [hcut] at ih
      rcases List.mem_cons.mp h with rfl | h
      · exact List.not_mem_cons_of_ne_of_not_mem hc (ih List.mem_cons_self)
      · exact ih (List.mem_cons_of_mem _ h)

lemma split_eq_map_cut {d : String} {a : Char} (hd : d.toList = [a]) (s : String) :
    split d s = (cut [a] s.toList 0).map String.ofList := by
  rw [split, hd]
  rfl

lemma split_append_delimiter {d : String} {a : Char} (hd : d.toList = [a]) (s t : String) :
    split d (s ++ d ++ t) = split d s ++ split d t := by
  have htext : (s ++ d ++ t).toList = s.toList ++ a :: t.toList := by simp [hd]
  rw [split_eq_map_cut hd, htext, cut_append_delimiter, List.map_append, split_eq_map_cut hd,
    split_eq_map_cut hd]

lemma notMem_of_mem_split {d : String} {a : Char} (hd : d.toList = [a]) {s p : String}
    (h : p ∈ split d s) : a ∉ p.toList := by
  rw [split_eq_map_cut hd] at h
  obtain ⟨q, hq, rfl⟩ := List.mem_map.mp h
  rw [String.toList_ofList]
  exact notMem_of_mem_cut hq

/-- **Parts that do not hold the delimiter come back.** -/
lemma split_join {d : String} {a : Char} (hd : d.toList = [a]) {p : String} {parts : List String}
    (h : ∀ q ∈ p :: parts, a ∉ q.toList) : split d (join d (p :: parts)) = p :: parts := by
  have hcut : cut [a] (join d (p :: parts)).toList 0 = (p :: parts).map String.toList := by
    induction parts generalizing p with
    | nil => simpa using cut_of_notMem (h p List.mem_cons_self)
    | cons q parts ih =>
      have htext : (join d (p :: q :: parts)).toList =
          p.toList ++ a :: (join d (q :: parts)).toList := by
        rw [join, String.toList_append, String.toList_append, hd]
        simp
      rw [htext, cut_append_cons (h p List.mem_cons_self),
        ih fun r hr => h r (List.mem_cons_of_mem _ hr)]
      rfl
  rw [split, hd, pieces, hcut, List.map_map]
  simp

/-- A first part without the delimiter separates from a tail that is empty or starts with it. -/
lemma split_append {d : String} {a : Char} (hd : d.toList = [a]) {p t : String}
    (hp : a ∉ p.toList) (ht : t = "" ∨ d.toList <+: t.toList) :
    split d (p ++ t) = p :: (split d t).drop 1 := by
  rcases ht with rfl | ⟨rest, hrest⟩
  · simp [split, hd, pieces, cut_of_notMem hp, cut]
  · have hbare : a ∉ ([] : List Char) := by simp
    rw [hd] at hrest
    simp only [split, hd, pieces, String.toList_append, ← hrest, List.singleton_append,
      cut_append_cons hp]
    rw [← List.nil_append (a :: rest), cut_append_cons hbare]
    simp

/-! ### Starts and ends -/

lemma dropStart?_eq_none {d s : String} (h : ¬d.toList <+: s.toList) : dropStart? d s = none := by
  have hstart : d.toList.isPrefixOf s.toList = false := by
    rwa [← Bool.not_eq_true, List.isPrefixOf_iff_prefix]
  simp [dropStart?, afterStart?, hstart]

/-- A first part without the delimiter is no start to drop. -/
lemma dropStart?_append_eq_none {d : String} {a : Char} (hd : d.toList = [a]) {p : String}
    (hne : p ≠ "") (hp : a ∉ p.toList) (t : String) : dropStart? d (p ++ t) = none := by
  refine dropStart?_eq_none ?_
  obtain ⟨b, bs, hchars⟩ := List.exists_cons_of_ne_nil (mt String.toList_eq_nil_iff.mp hne)
  rintro ⟨rest, hrest⟩
  rw [hd, String.toList_append, hchars] at hrest
  obtain rfl : a = b := (List.cons.inj hrest).1
  exact hp (by simp [hchars])

@[simp] lemma dropStart?_append (d s : String) : dropStart? d (d ++ s) = some s := by
  have hstart : d.toList.isPrefixOf (d.toList ++ s.toList) = true :=
    List.isPrefixOf_iff_prefix.mpr (List.prefix_append _ _)
  simp [dropStart?, afterStart?, hstart]

lemma dropEnd?_eq_none {d s : String} (h : ¬d.toList <:+ s.toList) : dropEnd? d s = none := by
  have hend : d.toList.reverse.isPrefixOf s.toList.reverse = false := by
    rwa [← Bool.not_eq_true, List.isPrefixOf_iff_prefix, List.reverse_prefix]
  simp [dropEnd?, afterStart?, hend]

/-! ### Blanks at the ends -/

/-- The text has no blank at either end. -/
structure Trimmed (s : List Char) : Prop where
  head : ∀ c ∈ s.head?, isBlank c = false
  last : ∀ c ∈ s.getLast?, isBlank c = false

lemma mem_head?_of_isPrefix {a b : List Char} (h : a <+: b) {c : Char} (hc : c ∈ a.head?) :
    c ∈ b.head? := by
  obtain ⟨rest, rfl⟩ := h
  rw [Option.mem_def] at hc ⊢
  rw [List.head?_append, hc, Option.some_or]

lemma mem_getLast?_of_isSuffix {a b : List Char} (h : a <:+ b) {c : Char} (hc : c ∈ a.getLast?) :
    c ∈ b.getLast? := by
  obtain ⟨rest, rfl⟩ := h
  rw [Option.mem_def] at hc ⊢
  rw [List.getLast?_append, hc, Option.some_or]

lemma head_dropWhile_not_blank (s : List Char) :
    ∀ c ∈ (s.dropWhile isBlank).head?, isBlank c = false := by
  intro c hc
  have hhead := List.head?_dropWhile_not isBlank s
  rw [Option.mem_def.mp hc] at hhead
  simpa using hhead

lemma last_dropEndWhile_not_blank (s : List Char) :
    ∀ c ∈ (dropEndWhile isBlank s).getLast?, isBlank c = false := by
  intro c hc
  rw [dropEndWhile, List.getLast?_reverse] at hc
  exact head_dropWhile_not_blank _ c hc

lemma dropWhile_eq_self_of_head {p : Char → Bool} {s : List Char}
    (h : ∀ c ∈ s.head?, p c = false) : s.dropWhile p = s := by
  rcases s with _ | ⟨c, s⟩
  · rfl
  · exact List.dropWhile_cons_of_neg (by simp [h c rfl])

/-- A text without blanks at its ends stays as it is. -/
lemma trim_eq_self {s : String} (h : Trimmed s.toList) : trim s = s := by
  have hend : s.toList.reverse.dropWhile isBlank = s.toList.reverse :=
    dropWhile_eq_self_of_head (by simpa using h.last)
  rw [trim, dropWhile_eq_self_of_head h.head, dropEndWhile, hend, List.reverse_reverse,
    String.ofList_toList]

lemma trimmed_trim (s : String) : Trimmed (trim s).toList := by
  rw [trim, String.toList_ofList]
  refine ⟨fun c hc => ?_, fun c hc => ?_⟩
  · -- what is left at the end starts as before
    have hstart : dropEndWhile isBlank (s.toList.dropWhile isBlank) <+:
        s.toList.dropWhile isBlank := List.rdropWhile_prefix isBlank _
    exact head_dropWhile_not_blank _ c (mem_head?_of_isPrefix hstart hc)
  · exact last_dropEndWhile_not_blank _ c hc

/-- Behind a character that stays, the blanks at the end are those of the tail. -/
lemma dropEndWhile_append {p : Char → Bool} {s : List Char} (hs : ∀ c ∈ s.getLast?, p c = false)
    (t : List Char) : dropEndWhile p (s ++ t) = s ++ dropEndWhile p t := by
  have hstay : s.reverse.dropWhile p = s.reverse := dropWhile_eq_self_of_head (by simpa using hs)
  rw [dropEndWhile, List.reverse_append, List.dropWhile_append, hstay]
  split
  · next hnil => simp [dropEndWhile, List.isEmpty_iff.mp hnil]
  · simp [dropEndWhile]

lemma trim_append {s : String} (hne : s ≠ "") (hs : ∀ c ∈ s.toList, isBlank c = false)
    (t : String) : trim (s ++ t) = s ++ trimEnd t := by
  have hhead : ∀ c ∈ (s ++ t).toList.head?, isBlank c = false := by
    obtain ⟨b, bs, hchars⟩ := List.exists_cons_of_ne_nil (mt String.toList_eq_nil_iff.mp hne)
    simpa [hchars] using hs b (by simp [hchars])
  rw [trim, dropWhile_eq_self_of_head hhead, String.toList_append,
    dropEndWhile_append fun c hc => hs c (List.mem_of_getLast? hc)]
  simp [trimEnd]

/-! ### Copies at the ends -/

lemma dropCopies_isSuffix (d s : List Char) : dropCopies d s <:+ s := by
  fun_induction dropCopies d s with
  | case1 s h ih => exact ih.trans (List.drop_suffix _ _)
  | case2 s h => exact List.suffix_refl _

lemma dropCopies_nil (s : List Char) : dropCopies [] s = s := by
  rw [dropCopies, dif_neg (by simp)]

lemma dropStartCopies_isSuffix (d s : String) : (dropStartCopies d s).toList <:+ s.toList := by
  rw [dropStartCopies, String.toList_ofList]
  exact dropCopies_isSuffix _ _

lemma dropEndCopies_isPrefix (d s : String) : (dropEndCopies d s).toList <+: s.toList := by
  rw [dropEndCopies, String.toList_ofList, ← List.reverse_suffix, List.reverse_reverse]
  exact dropCopies_isSuffix _ _

lemma dropStartCopies_empty (s : String) : dropStartCopies "" s = s := by
  rw [dropStartCopies, String.toList_empty, dropCopies_nil, String.ofList_toList]

lemma dropEndCopies_empty (s : String) : dropEndCopies "" s = s := by
  rw [dropEndCopies, String.toList_empty, List.reverse_nil, dropCopies_nil,
    List.reverse_reverse, String.ofList_toList]

end Text

/-- A name that ends with no decoration stays as it is. -/
lemma undecorate_eq_self {decorations : List String} {name : String}
    (h : ∀ d ∈ decorations, ¬d.toList <:+ name.toList) : undecorate decorations name = name := by
  have hnone : decorations.findSome? (Text.dropEnd? · name) = none := by
    rw [List.findSome?_eq_none_iff]
    exact fun d hd => Text.dropEnd?_eq_none (h d hd)
  rw [undecorate, hnone]
  rfl

end TypeCoupling
