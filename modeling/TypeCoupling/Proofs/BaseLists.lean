import Mathlib.Data.List.Basic
import TypeCoupling.Proofs.Declaration

/-!
Base lists that do not tell a base class from interfaces.

The members of the base lists of a file come as captures of one role, those of nested and of
neighbouring types mixed, and each belongs to the innermost type around it. A list is meant to be
divided by the look of its names: the first name that looks like no interface is the base class
(`divideBases`). What a type gets is this, except when the list starts with the name of an
interface and a class name stands behind it: only the first member is ever taken as a class.
-/

namespace TypeCoupling

/-! ### The innermost block -/

/-- The smallest element that is found stands before all others of its measure. -/
lemma exists_split_of_minOn? {α : Type} {f : α → Nat} {l : List α} {a : α}
    (h : l.minOn? f = some a) :
    ∃ before after, l = before ++ a :: after ∧ (∀ b ∈ before, f a < f b) ∧
      ∀ b ∈ after, f a ≤ f b := by
  induction l generalizing a with
  | nil => simp at h
  | cons x l ih =>
    rw [List.minOn?_cons, Option.some_inj] at h
    rcases hm : l.minOn? f with _ | m
    · have hl : l = [] := by
        cases l with
        | nil => rfl
        | cons y l => simp [List.minOn?_cons] at hm
      rw [hm, Option.elim_none] at h
      exact ⟨[], [], by rw [hl, h]; rfl, by simp, by simp⟩
    · obtain ⟨before, after, hl, hbefore, hafter⟩ := ih hm
      rw [hm, Option.elim_some, minOn] at h
      split at h
      · next hle =>
        subst h
        refine ⟨[], l, rfl, by simp, fun b hb => ?_⟩
        rw [hl, List.mem_append, List.mem_cons] at hb
        rcases hb with hb | rfl | hb
        · exact Nat.le_trans hle (Nat.le_of_lt (hbefore b hb))
        · exact hle
        · exact Nat.le_trans hle (hafter b hb)
      · next hlt =>
        subst h
        refine ⟨x :: before, after, by rw [hl]; rfl, fun b hb => ?_, hafter⟩
        rcases List.mem_cons.mp hb with rfl | hb
        · omega
        · exact hbefore b hb

lemma zipIdx_pairwise_lt {α : Type} (l : List α) : l.zipIdx.Pairwise fun a b => a.2 < b.2 := by
  have h : (l.zipIdx.map (·.2)).Pairwise (· < ·) := by
    rw [List.zipIdx_map_snd]
    exact List.pairwise_lt_range'
  exact List.pairwise_map.mp h

namespace Named

variable {blocks : List Named} {byte i j : Nat}

/-- The block at a position is the smallest around a byte, and the first of that size. -/
def IsInnermost (blocks : List Named) (byte position : Nat) : Prop :=
  ∃ b ∈ blocks[position]?, b.block.encloses byte ∧
    ∀ c ∈ blocks.zipIdx, c.1.block.encloses byte →
      b.block.width < c.1.block.width ∨ b.block.width = c.1.block.width ∧ position ≤ c.2

instance (blocks : List Named) (byte position : Nat) :
    Decidable (IsInnermost blocks byte position) :=
  inferInstanceAs (Decidable (∃ b ∈ blocks[position]?, _ ∧ _))

lemma IsInnermost.unique (hi : IsInnermost blocks byte i) (hj : IsInnermost blocks byte j) :
    i = j := by
  obtain ⟨b, hb, hbyte, hmin⟩ := hi
  obtain ⟨c, hc, hcbyte, hmin'⟩ := hj
  have h := hmin (c, j) (List.mem_zipIdx_iff_getElem?.mpr hc) hcbyte
  have h' := hmin' (b, i) (List.mem_zipIdx_iff_getElem?.mpr hb) hbyte
  simp only at h h'
  omega

lemma isInnermost_of_innermost? (h : innermost? blocks byte = some i) :
    IsInnermost blocks byte i := by
  obtain ⟨⟨b, j⟩, hmin, rfl⟩ := Option.map_eq_some_iff.mp h
  obtain ⟨hb, hbyte⟩ := List.mem_filter.mp (List.minOn?_mem hmin)
  refine ⟨b, List.mem_zipIdx_iff_getElem?.mp hb, hbyte, fun c hc hcbyte => ?_⟩
  -- blocks before the one found are larger, those behind it have later positions
  obtain ⟨before, after, hl, hbefore, hafter⟩ := exists_split_of_minOn? hmin
  have hsorted := (zipIdx_pairwise_lt blocks).filter fun b => b.1.block.encloses byte
  have hmem : c ∈ blocks.zipIdx.filter fun b => b.1.block.encloses byte :=
    List.mem_filter.mpr ⟨hc, hcbyte⟩
  rw [hl] at hsorted hmem
  rcases List.mem_append.mp hmem with hmem | hmem
  · exact Or.inl (hbefore c hmem)
  · rcases List.mem_cons.mp hmem with rfl | hmem
    · exact Or.inr ⟨rfl, Nat.le_refl _⟩
    · have hlater := (List.pairwise_cons.mp (List.pairwise_append.mp hsorted).2.1).1 c hmem
      rcases Nat.lt_or_eq_of_le (hafter c hmem) with hlt | heq
      · exact Or.inl hlt
      · exact Or.inr ⟨heq, Nat.le_of_lt hlater⟩

/-- **What the search finds** is the innermost block. -/
lemma innermost?_eq_some_iff : innermost? blocks byte = some i ↔ IsInnermost blocks byte i := by
  refine ⟨isInnermost_of_innermost?, fun h => ?_⟩
  have hmem : ∃ b, (b, i) ∈ blocks.zipIdx.filter fun b => b.1.block.encloses byte := by
    obtain ⟨b, hb, hbyte, -⟩ := h
    exact ⟨b, List.mem_filter.mpr ⟨List.mem_zipIdx_iff_getElem?.mpr hb, hbyte⟩⟩
  obtain ⟨b, hmem⟩ := hmem
  obtain ⟨m, hm⟩ := Option.isSome_iff_exists.mp
    (List.isSome_minOn?_of_mem (f := fun b : Named × Nat => b.1.block.width) hmem)
  have hfound : innermost? blocks byte = some m.2 := by rw [innermost?, hm, Option.map_some]
  rw [hfound, (isInnermost_of_innermost? hfound).unique h]

end Named

/-! ### Runs over a base list -/

namespace Bases

/-- **Step**: a member of a base list is an interface once another one has been met. -/
lemma add_of_listed {b : Bases} (hb : b.listed = true) {c : Capture} (hc : c.role = .baseType) :
    b.add c = { b with implemented := b.implemented ++ [Text.trim c.text] } := by
  obtain ⟨extended, implemented, listed⟩ := b
  subst hb
  simp [add, hc]

/-- **Run**: all members behind another one are interfaces. -/
lemma foldl_add_of_listed {l : List Capture} (hl : ∀ c ∈ l, c.role = .baseType) {b : Bases}
    (hb : b.listed = true) :
    l.foldl add b = { b with implemented := b.implemented ++ l.map (Text.trim ·.text) } := by
  induction l generalizing b with
  | nil => simp
  | cons c l ih =>
    obtain ⟨hc, hrest⟩ := List.forall_mem_cons.mp hl
    have hadd := add_of_listed hb hc
    have hlisted : (b.add c).listed = true := by rw [hadd]; exact hb
    rw [List.foldl_cons, ih hrest hlisted, hadd]
    simp

/-- What the members of a base list give: the first decides whether there is a base class. -/
def ofNames : List String → Bases
  | [] => none
  | b :: bs => if looksLikeInterface b then ⟨.none, b :: bs, true⟩ else ⟨some b, bs, true⟩

lemma foldl_add_eq_ofNames {l : List Capture} (hl : ∀ c ∈ l, c.role = .baseType) :
    l.foldl add none = ofNames (l.map (Text.trim ·.text)) := by
  cases l with
  | nil => rfl
  | cons c l =>
    obtain ⟨hc, hrest⟩ := List.forall_mem_cons.mp hl
    rw [List.foldl_cons, List.map_cons, ofNames]
    by_cases hname : looksLikeInterface (Text.trim c.text) = true
    · have hadd : none.add c = ⟨.none, [Text.trim c.text], true⟩ := by simp [add, none, hc, hname]
      rw [hadd, foldl_add_of_listed hrest rfl, if_pos hname]
      rfl
    · have hadd : none.add c = ⟨some (Text.trim c.text), [], true⟩ := by
        simp [add, none, hc, hname]
      rw [hadd, foldl_add_of_listed hrest rfl, if_neg hname]
      rfl

end Bases

/-! ### The bases of a type -/

/-- The texts of the members of base lists whose innermost type stands at a position. -/
def Outline.baseList (o : Outline) (position : Nat) : List String :=
  ((ofRole .baseType o.captures).filter fun c =>
    Named.IsInnermost o.types c.start position).map (Text.trim ·.text)

lemma Outline.basesOf_eq_ofNames {o : Outline}
    (hroles : ∀ c ∈ o.captures, c.role ≠ .extendedType ∧ c.role ≠ .implementedType) (i : Nat) :
    o.basesOf i = Bases.ofNames (o.baseList i) := by
  have hfilter : (o.captures.filter fun c =>
      [.extendedType, .implementedType, .baseType].contains c.role
        && Named.innermost? o.types c.start == some i) =
      (ofRole .baseType o.captures).filter fun c => Named.IsInnermost o.types c.start i := by
    rw [ofRole, List.filter_filter]
    refine List.filter_congr fun c hc => ?_
    obtain ⟨hextended, himplemented⟩ := hroles c hc
    rw [Bool.eq_iff_iff]
    simp [hextended, himplemented, Named.innermost?_eq_some_iff, and_comm]
  rw [basesOf, hfilter, Bases.foldl_add_eq_ofNames, baseList]
  intro c hc
  exact eq_of_beq (List.mem_filter.mp (List.mem_filter.mp hc).1).2

lemma Outline.entry_bases (o : Outline) (p : Profile) (file : String) (t : Named) (i : Nat) :
    (o.entry p file t i).extended = (o.basesOf i).extended ∧
      (o.entry p file t i).implemented = (o.basesOf i).implemented := by
  obtain ⟨as, h⟩ := o.entry_frame p file t i
  rw [h]
  exact ⟨rfl, rfl⟩

lemma exists_of_getElem?_declaredTypes {p : Profile} {file : String} {captures : List Capture}
    {i : Nat} {e : Entry} (h : (declaredTypes p file captures)[i]? = some e) :
    ∃ t, (Outline.ofCaptures captures).types[i]? = some t ∧
      e = (Outline.ofCaptures captures).entry p file t i := by
  rw [declaredTypes, List.getElem?_map, List.getElem?_zipIdx, Option.map_map,
    Option.map_eq_some_iff] at h
  obtain ⟨t, ht, rfl⟩ := h
  exact ⟨t, ht, by simp⟩

/-- A base list divided by the look of its names: the first that looks like no interface is the
base class, and all others are interfaces. -/
def divideBases (bs : List String) : Option String × List String :=
  (bs.find? (!looksLikeInterface ·), bs.eraseP (!looksLikeInterface ·))

/-- A base list that starts with the name of an interface and has a class name behind it. -/
def ClassBehindInterface (bs : List String) : Prop :=
  (∃ b ∈ bs.head?, looksLikeInterface b) ∧ ∃ b ∈ bs, ¬looksLikeInterface b

instance (bs : List String) : Decidable (ClassBehindInterface bs) :=
  inferInstanceAs (Decidable (_ ∧ _))

lemma Bases.ofNames_eq_divideBases {bs : List String} (h : ¬ClassBehindInterface bs) :
    ((ofNames bs).extended, (ofNames bs).implemented) = divideBases bs := by
  cases bs with
  | nil => rfl
  | cons b bs =>
    by_cases hb : looksLikeInterface b = true
    · have hall : ∀ c ∈ b :: bs, looksLikeInterface c = true := by
        intro c hc
        by_contra hclass
        exact h ⟨⟨b, rfl, hb⟩, c, hc, hclass⟩
      have hfind : (b :: bs).find? (!looksLikeInterface ·) = Option.none :=
        List.find?_eq_none.mpr fun c hc => by simp [hall c hc]
      have herase : (b :: bs).eraseP (!looksLikeInterface ·) = b :: bs :=
        List.eraseP_of_forall_not fun c hc => by simp [hall c hc]
      rw [divideBases, hfind, herase, ofNames, if_pos hb]
    · simp [divideBases, ofNames, hb]

lemma Bases.ofNames_of_classBehindInterface {bs : List String} (h : ClassBehindInterface bs) :
    (ofNames bs).extended = .none ∧ (ofNames bs).implemented = bs := by
  obtain ⟨⟨b, hb, hinterface⟩, -⟩ := h
  obtain ⟨rest, rfl⟩ := List.head?_eq_some_iff.mp hb
  rw [ofNames, if_pos hinterface]
  exact ⟨rfl, rfl⟩

/-- **When a base list is divided as its names look.** A type of a file with undivided base lists
has the bases that the look of the names gives, unless its list starts with an interface and has a
class behind it; then it has no base class, and all members of the list count as interfaces. -/
theorem base_list_divided_iff (p : Profile) (file : String) {captures : List Capture}
    (hroles : ∀ c ∈ captures, c.role ≠ .extendedType ∧ c.role ≠ .implementedType) {i : Nat}
    {e : Entry} (he : (declaredTypes p file captures)[i]? = some e) :
    ((e.extended, e.implemented) = divideBases ((Outline.ofCaptures captures).baseList i) ↔
        ¬ClassBehindInterface ((Outline.ofCaptures captures).baseList i)) ∧
      (ClassBehindInterface ((Outline.ofCaptures captures).baseList i) →
        e.extended = none ∧ e.implemented = (Outline.ofCaptures captures).baseList i) := by
  obtain ⟨t, -, rfl⟩ := exists_of_getElem?_declaredTypes he
  obtain ⟨hextended, himplemented⟩ := (Outline.ofCaptures captures).entry_bases p file t i
  rw [hextended, himplemented, Outline.basesOf_eq_ofNames hroles]
  refine ⟨⟨fun heq hbehind => ?_, Bases.ofNames_eq_divideBases⟩,
    Bases.ofNames_of_classBehindInterface⟩
  -- the class behind the interface would have been found
  obtain ⟨b, hb, hclass⟩ := hbehind.2
  have hnone := (Prod.ext_iff.mp heq).1
  rw [(Bases.ofNames_of_classBehindInterface hbehind).1] at hnone
  exact List.find?_eq_none.mp hnone.symm b hb (by simpa using hclass)

/-- A type with a base class, and one inside it with interfaces only. -/
def nestedBaseLists : List Capture :=
  [⟨.typeBlock, "...", 0, 100, 1⟩, ⟨.typeName, "Shelf", 6, 11, 1⟩, ⟨.baseType, " Box ", 14, 19, 1⟩,
    ⟨.baseType, "IShelf", 21, 27, 1⟩, ⟨.typeBlock, "...", 40, 90, 2⟩,
    ⟨.typeName, "Slot", 46, 50, 2⟩, ⟨.baseType, "System.IDisposable", 53, 71, 2⟩,
    ⟨.baseType, "ISlot", 73, 78, 2⟩]

theorem base_list_divided_iff_nested :
    (∀ c ∈ nestedBaseLists, c.role ≠ .extendedType ∧ c.role ≠ .implementedType) ∧
      ∃ shelf slot, declaredTypes Language.csharp.profile "a.cs" nestedBaseLists = [shelf, slot] ∧
        (shelf.extended, shelf.implemented) = (some "Box", ["IShelf"]) ∧
        (slot.extended, slot.implemented) = (none, ["System.IDisposable", "ISlot"]) := by
  have hroles : ∀ c ∈ nestedBaseLists, c.role ≠ .extendedType ∧ c.role ≠ .implementedType := by
    decide
  have htypes : ∃ shelf slot,
      declaredTypes Language.csharp.profile "a.cs" nestedBaseLists = [shelf, slot] := ⟨_, _, rfl⟩
  have hshelf : (Outline.ofCaptures nestedBaseLists).baseList 0 = ["Box", "IShelf"] := rfl
  have hslot : (Outline.ofCaptures nestedBaseLists).baseList 1 =
      ["System.IDisposable", "ISlot"] := rfl
  obtain ⟨shelf, slot, htypes⟩ := htypes
  refine ⟨hroles, shelf, slot, htypes, ?_, ?_⟩
  · have hdivided := base_list_divided_iff Language.csharp.profile "a.cs" hroles (i := 0)
      (by rw [htypes]; rfl)
    rw [hshelf] at hdivided
    exact hdivided.1.mpr (by decide)
  · have hdivided := base_list_divided_iff Language.csharp.profile "a.cs" hroles (i := 1)
      (by rw [htypes]; rfl)
    rw [hslot] at hdivided
    exact hdivided.1.mpr (by decide)

/-- A type with the name of an interface before its base class. -/
def interfaceFirst : List Capture :=
  [⟨.typeBlock, "...", 0, 60, 1⟩, ⟨.typeName, "Repo", 6, 10, 1⟩, ⟨.baseType, "IRepo", 13, 18, 1⟩,
    ⟨.baseType, "Base", 20, 24, 1⟩]

/-- A base class is missed behind an interface. -/
theorem base_class_missed_behind_interface :
    (∀ c ∈ interfaceFirst, c.role ≠ .extendedType ∧ c.role ≠ .implementedType) ∧
      divideBases ((Outline.ofCaptures interfaceFirst).baseList 0) = (some "Base", ["IRepo"]) ∧
      ∃ repo, declaredTypes Language.csharp.profile "a.cs" interfaceFirst = [repo] ∧
        (repo.extended, repo.implemented) = (none, ["IRepo", "Base"]) ∧
        (repo.extended, repo.implemented) ≠
          divideBases ((Outline.ofCaptures interfaceFirst).baseList 0) := by
  refine ⟨by decide, rfl, _, rfl, rfl, ?_⟩
  decide

end TypeCoupling
