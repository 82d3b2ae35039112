import Mathlib.Data.List.Nodup
import TypeCoupling.Capture

/-!
Blocks that stand in one another.

The namespaces, types and accessors of a source text are a forest: a block has a span, which holds
its name and the blocks inside it. Siblings do not overlap, so the blocks around a byte are a path
from a root downwards (`around`), each of them narrower than the one before. Where a block stands
(`placed`) and what is around a byte are two readings of one forest, and `append_around` ties them
together: the path to a byte of a block goes through the blocks that the block stands in.
-/

namespace TypeCoupling

lemma Capture.encloses_iff {c : Capture} {byte : Nat} :
    c.encloses byte = true ↔ c.start ≤ byte ∧ byte < c.stop := by
  simp [Capture.encloses]

/-! ### Blocks -/

/-- The kinds of blocks that stand in one another. -/
inductive BlockKind where
  | scope
  | type
  | accessor
  deriving DecidableEq, Repr

namespace BlockKind

def blockRole : BlockKind → Role
  | scope => .namespaceBlock
  | type => .typeBlock
  | accessor => .accessorBlock

def nameRole : BlockKind → Role
  | scope => .namespaceName
  | type => .typeName
  | accessor => .accessorName

end BlockKind

/-- A block with its name and, for an accessor, perhaps its return type. Both start inside the
block; where they end does not matter. -/
structure Block where
  kind : BlockKind
  block : Capture
  name : Capture
  returned : Option Capture
  block_role : block.role = kind.blockRole
  name_role : name.role = kind.nameRole
  returned_role : ∀ c ∈ returned, c.role = .returnType ∧ kind = .accessor
  name_inside : block.encloses name.start = true
  returned_inside : ∀ c ∈ returned, block.encloses c.start = true
  deriving DecidableEq

namespace Block

/-- What is written in the block itself. -/
def own (b : Block) : List Capture := b.name :: b.returned.toList

def captures (b : Block) : List Capture := b.block :: b.own

lemma own_inside {b : Block} {c : Capture} (h : c ∈ b.own) : b.block.encloses c.start = true := by
  rcases List.mem_cons.mp h with rfl | h
  · exact b.name_inside
  · exact b.returned_inside c (Option.mem_toList.mp h)

lemma start_lt_stop (b : Block) : b.block.start < b.block.stop := by
  have := Capture.encloses_iff.mp b.name_inside
  omega

lemma captures_inside {b : Block} {c : Capture} (h : c ∈ b.captures) :
    b.block.encloses c.start = true := by
  rcases List.mem_cons.mp h with rfl | h
  · exact Capture.encloses_iff.mpr ⟨Nat.le_refl _, b.start_lt_stop⟩
  · exact own_inside h

/-- The innermost block of a kind on a path from the outside. -/
def nearest (kind : BlockKind) (path : List Block) : Option Block :=
  (path.filter (·.kind == kind)).getLast?

end Block

/-! ### Forests -/

/-- Blocks side by side: the first, what is inside it, and those after it. -/
inductive Forest where
  | nil
  | node (b : Block) (inside after : Forest)

namespace Forest

/-- The outermost blocks. -/
def roots : Forest → List Block
  | nil => []
  | node b _ after => b :: after.roots

/-- All blocks in the order they start. -/
def blocks : Forest → List Block
  | nil => []
  | node b inside after => b :: (inside.blocks ++ after.blocks)

def captures (f : Forest) : List Capture := f.blocks.flatMap Block.captures

/-- A block starts before the blocks inside it and holds them, what is written in it is in none of
them, and the blocks after it start where it has ended. -/
def WellNested : Forest → Prop
  | nil => True
  | node b inside after =>
    (∀ c ∈ inside.roots, b.block.start < c.block.start ∧ c.block.stop ≤ b.block.stop ∧
      ∀ x ∈ b.own, c.block.encloses x.start = false) ∧
    (∀ c ∈ after.roots, b.block.stop ≤ c.block.start) ∧ inside.WellNested ∧ after.WellNested

instance decidableWellNested : (f : Forest) → Decidable f.WellNested
  | nil => isTrue trivial
  | node _ inside after =>
    have := decidableWellNested inside
    have := decidableWellNested after
    inferInstanceAs (Decidable (_ ∧ _ ∧ _ ∧ _))

/-- The blocks around a byte, from the outermost to the innermost. -/
def around (x : Nat) : Forest → List Block
  | nil => []
  | node b inside after => if b.block.encloses x then b :: inside.around x else after.around x

section Spans

variable {b c : Block} {inside after f : Forest}

lemma WellNested.down (h : (node b inside after).WellNested) : inside.WellNested := h.2.2.1

lemma WellNested.next (h : (node b inside after).WellNested) : after.WellNested := h.2.2.2

/-- Every block is in one of the outermost. -/
lemma exists_root (h : f.WellNested) (hc : c ∈ f.blocks) :
    ∃ r ∈ f.roots, r.block.start ≤ c.block.start ∧ c.block.stop ≤ r.block.stop := by
  induction f with
  | nil => simp [blocks] at hc
  | node b inside after ihi iha =>
    obtain ⟨hin, -, hinside, hafter⟩ := h
    rcases List.mem_cons.mp hc with rfl | hc
    · exact ⟨c, List.mem_cons_self, Nat.le_refl _, Nat.le_refl _⟩
    · rcases List.mem_append.mp hc with hc | hc
      · obtain ⟨r, hr, hstart, hstop⟩ := ihi hinside hc
        obtain ⟨hs, he, -⟩ := hin r hr
        exact ⟨b, List.mem_cons_self, by omega, by omega⟩
      · obtain ⟨r, hr, hspan⟩ := iha hafter hc
        exact ⟨r, List.mem_cons_of_mem _ hr, hspan⟩

lemma WellNested.span_of_mem_inside (h : (node b inside after).WellNested)
    (hc : c ∈ inside.blocks) :
    b.block.start < c.block.start ∧ c.block.stop ≤ b.block.stop := by
  obtain ⟨hin, -, hinside, -⟩ := h
  obtain ⟨r, hr, hstart, hstop⟩ := exists_root hinside hc
  obtain ⟨hs, he, -⟩ := hin r hr
  exact ⟨by omega, by omega⟩

lemma WellNested.start_of_mem_after (h : (node b inside after).WellNested) (hc : c ∈ after.blocks) :
    b.block.stop ≤ c.block.start := by
  obtain ⟨-, haf, -, hafter⟩ := h
  obtain ⟨r, hr, hstart, -⟩ := exists_root hafter hc
  have := haf r hr
  omega

/-- What a block itself has is in no block inside it. -/
lemma WellNested.captures_outside (h : (node b inside after).WellNested) {x : Capture}
    (hx : x ∈ b.captures) (hc : c ∈ inside.blocks) : c.block.encloses x.start = false := by
  rw [← Bool.not_eq_true, Capture.encloses_iff]
  rintro ⟨hle, hlt⟩
  rcases List.mem_cons.mp hx with rfl | hx
  · have := (h.span_of_mem_inside hc).1
    omega
  · obtain ⟨hin, -, hinside, -⟩ := h
    obtain ⟨r, hr, hstart, hstop⟩ := exists_root hinside hc
    have hout := (hin r hr).2.2 x hx
    have henc : r.block.encloses x.start = true :=
      Capture.encloses_iff.mpr ⟨by omega, by omega⟩
    rw [henc] at hout
    exact absurd hout (by decide)

/-- Blocks start one after another, and no two names start at one place. -/
lemma blocks_pairwise (h : f.WellNested) :
    f.blocks.Pairwise fun b c => b.block.start < c.block.start ∧ b.name.start ≠ c.name.start := by
  induction f with
  | nil => exact List.Pairwise.nil
  | node b inside after ihi iha =>
    have hspan : ∀ c : Block, c.block.start ≤ c.name.start ∧ c.name.start < c.block.stop :=
      fun c => Capture.encloses_iff.mp c.name_inside
    have hb := hspan b
    refine List.pairwise_cons.mpr ⟨fun c hc => ?_, List.pairwise_append.mpr
      ⟨ihi h.down, iha h.next, fun c hc d hd => ?_⟩⟩
    · have hcn := hspan c
      rcases List.mem_append.mp hc with hc | hc
      · have hname : b.name ∈ b.captures := by simp [Block.captures, Block.own]
        have hout := h.captures_outside hname hc
        refine ⟨(h.span_of_mem_inside hc).1, fun heq => ?_⟩
        rw [heq, c.name_inside] at hout
        exact absurd hout (by decide)
      · have := h.start_of_mem_after hc
        exact ⟨by omega, by omega⟩
    · have h1 := h.span_of_mem_inside hc
      have h2 := h.start_of_mem_after hd
      have h3 := hspan c
      have h4 := hspan d
      exact ⟨by omega, by omega⟩

/-! ### The blocks around a byte -/

/-- **The blocks around a byte** are those whose span has it. -/
lemma filter_blocks_encloses (h : f.WellNested) (x : Nat) :
    f.blocks.filter (·.block.encloses x) = f.around x := by
  induction f with
  | nil => rfl
  | node b inside after ihi iha =>
    rw [blocks, around, List.filter_cons, List.filter_append]
    by_cases hb : b.block.encloses x = true
    · -- the byte is before all blocks that come after this one
      have hnone : after.blocks.filter (·.block.encloses x) = [] := by
        rw [List.filter_eq_nil_iff]
        intro c hc henc
        have h1 := h.start_of_mem_after hc
        have h2 := Capture.encloses_iff.mp hb
        have h3 := Capture.encloses_iff.mp henc
        omega
      rw [if_pos hb, if_pos hb, ihi h.down, hnone, List.append_nil]
    · have hnone : inside.blocks.filter (·.block.encloses x) = [] := by
        rw [List.filter_eq_nil_iff]
        intro c hc henc
        obtain ⟨h1, h2⟩ := h.span_of_mem_inside hc
        have h3 := Capture.encloses_iff.mp henc
        exact hb (Capture.encloses_iff.mpr ⟨by omega, by omega⟩)
      rw [if_neg hb, if_neg hb, hnone, List.nil_append, iha h.next]

lemma mem_around (h : f.WellNested) {x : Nat} :
    c ∈ f.around x ↔ c ∈ f.blocks ∧ c.block.encloses x = true := by
  rw [← filter_blocks_encloses h, List.mem_filter]

/-- Of the blocks around a byte each is wider than the next. -/
lemma around_pairwise (h : f.WellNested) (x : Nat) :
    (f.around x).Pairwise fun b c =>
      b.block.start < c.block.start ∧ c.block.width < b.block.width := by
  induction f with
  | nil => exact List.Pairwise.nil
  | node b inside after ihi iha =>
    rw [around]
    split
    · refine List.pairwise_cons.mpr ⟨fun c hc => ?_, ihi h.down⟩
      obtain ⟨h1, h2⟩ := h.span_of_mem_inside ((mem_around h.down).mp hc).1
      have h3 := c.start_lt_stop
      simp only [Capture.width]
      exact ⟨h1, by omega⟩
    · exact iha h.next

end Spans

/-! ### Where blocks stand -/

end Forest

/-- A block, the blocks it stands in from the outermost, and what is inside it. -/
structure Placed where
  outer : List Block
  block : Block
  inside : Forest

namespace Forest

/-- All blocks in the order they start, each with where it stands and what is inside it. -/
def placed (outer : List Block) : Forest → List Placed
  | nil => []
  | node b inside after =>
    ⟨outer, b, inside⟩ :: (inside.placed (outer ++ [b]) ++ after.placed outer)

lemma placed_map_block (outer : List Block) (f : Forest) :
    (f.placed outer).map (·.block) = f.blocks := by
  induction f generalizing outer with
  | nil => rfl
  | node b inside after ihi iha =>
    simp only [placed, blocks, List.map_cons, List.map_append, ihi, iha]

lemma mem_blocks_of_mem_placed {outer : List Block} {f : Forest} {t : Placed}
    (ht : t ∈ f.placed outer) : t.block ∈ f.blocks :=
  placed_map_block outer f ▸ List.mem_map_of_mem ht

/-- **Two readings of a forest**: the path to a byte of a block goes through the blocks that the
block stands in, the block itself, and on into what is inside it. -/
lemma append_around {f : Forest} (h : f.WellNested) {outer : List Block} {t : Placed}
    (ht : t ∈ f.placed outer) {x : Nat} (hx : t.block.block.encloses x = true) :
    outer ++ f.around x = t.outer ++ t.block :: t.inside.around x := by
  induction f generalizing outer with
  | nil => simp [placed] at ht
  | node b inside after ihi iha =>
    rcases List.mem_cons.mp ht with rfl | ht
    · rw [around, if_pos hx]
    · have hspan := Capture.encloses_iff.mp hx
      rcases List.mem_append.mp ht with ht | ht
      · obtain ⟨h1, h2⟩ := h.span_of_mem_inside (mem_blocks_of_mem_placed ht)
        have hb : b.block.encloses x = true := Capture.encloses_iff.mpr ⟨by omega, by omega⟩
        rw [around, if_pos hb, ← ihi h.down ht, List.append_assoc, List.singleton_append]
      · have h1 := h.start_of_mem_after (mem_blocks_of_mem_placed ht)
        have hb : ¬b.block.encloses x = true := by
          rw [Capture.encloses_iff]
          omega
        rw [around, if_neg hb, iha h.next ht]

/-- A block with what is inside it is nested as the whole is. -/
lemma wellNested_of_mem_placed {f : Forest} (h : f.WellNested) {outer : List Block} {t : Placed}
    (ht : t ∈ f.placed outer) : (node t.block t.inside nil).WellNested := by
  induction f generalizing outer with
  | nil => simp [placed] at ht
  | node b inside after ihi iha =>
    rcases List.mem_cons.mp ht with rfl | ht
    · obtain ⟨hin, -, hinside, -⟩ := h
      exact ⟨hin, by simp [roots], hinside, trivial⟩
    · rcases List.mem_append.mp ht with ht | ht
      · exact ihi h.down ht
      · exact iha h.next ht

/-- The blocks around what a block has are those it stands in and itself. -/
lemma around_capture {f : Forest} (h : f.WellNested) {t : Placed} (ht : t ∈ f.placed [])
    {x : Capture} (hx : x ∈ t.block.captures) : f.around x.start = t.outer ++ [t.block] := by
  have hin := wellNested_of_mem_placed h ht
  have hnone : t.inside.around x.start = [] := by
    rw [← filter_blocks_encloses hin.down, List.filter_eq_nil_iff]
    intro c hc
    simp [hin.captures_outside hx hc]
  have hpath := append_around h ht (Block.captures_inside hx)
  rwa [hnone, List.nil_append] at hpath

/-! ### The nearest block of a kind -/

/-- **The nearest is the smallest**: of the blocks of a kind around a byte, all others are
wider. -/
lemma nearest_around {f : Forest} (h : f.WellNested) {kind : BlockKind} {x : Nat} {b : Block}
    (hb : Block.nearest kind (f.around x) = some b) :
    (b ∈ f.blocks ∧ b.kind = kind ∧ b.block.encloses x = true) ∧
      ∀ c ∈ f.blocks, c.kind = kind → c.block.encloses x = true →
        c = b ∨ b.block.width < c.block.width := by
  obtain ⟨wider, hpath⟩ := List.getLast?_eq_some_iff.mp hb
  have hmem : ∀ c, c ∈ wider ++ [b] ↔
      c ∈ f.blocks ∧ c.kind = kind ∧ c.block.encloses x = true := by
    intro c
    rw [← hpath, List.mem_filter, mem_around h, beq_iff_eq]
    tauto
  have hsorted : (wider ++ [b]).Pairwise fun c d => d.block.width < c.block.width := by
    rw [← hpath]
    exact ((around_pairwise h x).filter _).imp fun h => h.2
  refine ⟨(hmem b).mp (by simp), fun c hc hkind henc => ?_⟩
  rcases List.mem_append.mp ((hmem c).mpr ⟨hc, hkind, henc⟩) with hc | hc
  · exact Or.inr ((List.pairwise_append.mp hsorted).2.2 c hc b (by simp))
  · exact Or.inl (List.mem_singleton.mp hc)

/-- A byte with a block of a kind around it has a nearest one. -/
lemma exists_nearest_around {f : Forest} (h : f.WellNested) {x : Nat} {c : Block}
    (hc : c ∈ f.blocks) (henc : c.block.encloses x = true) :
    ∃ b, Block.nearest c.kind (f.around x) = some b := by
  have hmem : c ∈ (f.around x).filter (·.kind == c.kind) :=
    List.mem_filter.mpr ⟨(mem_around h).mpr ⟨hc, henc⟩, by simp⟩
  exact ⟨_, List.getLast?_eq_some_getLast (List.ne_nil_of_mem hmem)⟩

/-- To what a block has, the block itself is the nearest of its kind. -/
lemma nearest_capture {f : Forest} (h : f.WellNested) {t : Placed} (ht : t ∈ f.placed [])
    {x : Capture} (hx : x ∈ t.block.captures) :
    Block.nearest t.block.kind (f.around x.start) = some t.block := by
  rw [around_capture h ht hx, Block.nearest, List.filter_append]
  simp

/-- When a block is the nearest of its kind to a byte. -/
lemma nearest_eq_block_iff {f : Forest} (h : f.WellNested) {t : Placed} (ht : t ∈ f.placed [])
    {x : Nat} :
    Block.nearest t.block.kind (f.around x) = some t.block ↔
      t.block.block.encloses x = true ∧
        ∀ c ∈ t.inside.blocks, c.kind = t.block.kind → c.block.encloses x = false := by
  have hin := wellNested_of_mem_placed h ht
  constructor
  · intro hb
    obtain ⟨⟨-, -, henc⟩, hwider⟩ := nearest_around h hb
    refine ⟨henc, fun c hc hkind => ?_⟩
    by_contra hcx
    rw [Bool.not_eq_false] at hcx
    -- a block inside that has the byte is on the path, and it is narrower
    have hmem : c ∈ f.around x := by
      have hpath := append_around h ht henc
      rw [List.nil_append] at hpath
      rw [hpath]
      simp [(mem_around hin.down).mpr ⟨hc, hcx⟩]
    obtain ⟨hstart, hstop⟩ := hin.span_of_mem_inside hc
    rcases hwider c ((mem_around h).mp hmem).1 hkind hcx with heq | hlt
    · rw [heq] at hstart
      omega
    · simp only [Capture.width] at hlt
      omega
  · rintro ⟨henc, hnone⟩
    have hpath := append_around h ht henc
    have hrest : (t.inside.around x).filter (·.kind == t.block.kind) = [] := by
      rw [List.filter_eq_nil_iff]
      intro c hc hkind
      obtain ⟨hcb, hcx⟩ := (mem_around hin.down).mp hc
      rw [hnone c hcb (eq_of_beq hkind)] at hcx
      exact absurd hcx (by decide)
    rw [List.nil_append] at hpath
    rw [Block.nearest, hpath, List.filter_append, List.filter_cons, hrest]
    simp

end Forest

end TypeCoupling
