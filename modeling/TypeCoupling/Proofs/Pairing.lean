import TypeCoupling.Declaration
import TypeCoupling.Proofs.Nesting

/-!
Blocks found again by their spans.

Captures are a flat list, and every relation between them is found by looking for the smallest
span around a byte. For the captures of a forest of blocks this gives what the forest says: a name
is paired with the block it stands in (`pairs_eq`), and the innermost block around a byte is the
nearest on the path to it (`innermost?_eq_some_iff`). Blocks come in the order of their names.
-/

namespace TypeCoupling

/-- An element with a smaller measure than all others is the one that is found. -/
lemma minOn?_eq_some_of_lt {α : Type} {f : α → Nat} {l : List α} {a : α} (ha : a ∈ l)
    (hlt : ∀ b ∈ l, b = a ∨ f a < f b) : l.minOn? f = some a := by
  obtain ⟨m, hm⟩ := Option.isSome_iff_exists.mp (List.isSome_minOn?_of_mem (f := f) ha)
  have hle : f m ≤ f a := by
    have := List.apply_get_minOn?_le_of_mem (f := f) ha
    simpa only [hm, Option.get_some] using this
  rcases hlt m (List.minOn?_mem hm) with rfl | h
  · exact hm
  · omega

section Sorting

variable {α : Type} (key : α → Nat)

lemma mergeSort_key_pairwise (l : List α) :
    (l.mergeSort fun a b => key a ≤ key b).Pairwise fun a b => key a ≤ key b := by
  refine (List.pairwise_mergeSort ?_ ?_ _).imp fun h => of_decide_eq_true h
  · intro a b c hab hbc
    have := of_decide_eq_true hab
    have := of_decide_eq_true hbc
    exact decide_eq_true (by omega)
  · intro a b
    rw [Bool.or_eq_true, decide_eq_true_iff, decide_eq_true_iff]
    omega

/-- Elements with different keys have one sorted order. -/
lemma eq_of_perm_of_sorted {l l' : List α} (hperm : l.Perm l')
    (hl : l.Pairwise fun a b => key a ≤ key b) (hl' : l'.Pairwise fun a b => key a ≤ key b)
    (hkeys : (l'.map key).Nodup) : l = l' := by
  refine List.Perm.eq_of_pairwise (fun a b ha hb hle hge => ?_) hl hl' hperm
  exact List.inj_on_of_nodup_map hkeys (hperm.mem_iff.mp ha) hb (Nat.le_antisymm hle hge)

end Sorting

/-! ### The captures of a forest -/

def Block.named (b : Block) : Named := ⟨b.block, b.name⟩

namespace Forest

/-- The blocks of a kind in the order of their names. -/
def inOrder (f : Forest) (kind : BlockKind) : List Placed :=
  ((f.placed []).filter (·.block.kind == kind)).mergeSort fun s t =>
    s.block.name.start ≤ t.block.name.start

/-- The roles of which a text has only the captures of its blocks, and those that it has not at
all. -/
def blockRoles : List Role :=
  [.namespaceBlock, .namespaceName, .typeBlock, .typeName, .accessorBlock, .accessorName,
    .returnType, .fileNamespace, .baseType]

/-- The captures of a forest in document order, with captures of other roles anywhere among
them. -/
structure Captured (f : Forest) (others cs : List Capture) : Prop where
  nested : f.WellNested
  free : ∀ c ∈ others, c.role ∉ blockRoles
  perm : cs.Perm (f.captures ++ others)
  order : cs.Pairwise fun a b => a.start ≤ b.start

end Forest

/-- Captures in the order they start. -/
def inDocumentOrder (cs : List Capture) : List Capture :=
  cs.mergeSort fun a b => a.start ≤ b.start

lemma Forest.captured_inDocumentOrder {f : Forest} {others : List Capture} (h : f.WellNested)
    (hfree : ∀ c ∈ others, c.role ∉ blockRoles) :
    f.Captured others (inDocumentOrder (f.captures ++ others)) where
  nested := h
  free := hfree
  perm := List.mergeSort_perm _ _
  order := mergeSort_key_pairwise (fun c : Capture => c.start) _

namespace Forest

/-! ### Blocks in the order of their names -/

section Order

variable {f : Forest}

lemma mem_inOrder {kind : BlockKind} {t : Placed} :
    t ∈ f.inOrder kind ↔ t ∈ f.placed [] ∧ t.block.kind = kind := by
  simp [inOrder, List.mem_mergeSort, List.mem_filter]

lemma inOrder_map_block_perm (f : Forest) (kind : BlockKind) :
    ((f.inOrder kind).map (·.block)).Perm (f.blocks.filter (·.kind == kind)) := by
  have hperm := (List.mergeSort_perm ((f.placed []).filter (·.block.kind == kind))
    fun s t => decide (s.block.name.start ≤ t.block.name.start)).map (·.block)
  have hblocks : ((f.placed []).filter (·.block.kind == kind)).map (·.block) =
      f.blocks.filter (·.kind == kind) := by
    rw [← placed_map_block [] f, List.filter_map]
    rfl
  rw [hblocks] at hperm
  exact hperm

lemma inOrder_pairwise (f : Forest) (kind : BlockKind) :
    (f.inOrder kind).Pairwise fun s t => s.block.name.start ≤ t.block.name.start :=
  mergeSort_key_pairwise (fun t : Placed => t.block.name.start) _

lemma blocks_nodup (h : f.WellNested) : f.blocks.Nodup :=
  (blocks_pairwise h).imp fun {b c} hlt heq => by
    rw [heq] at hlt
    exact absurd hlt.1 (Nat.lt_irrefl _)

lemma inOrder_map_block_nodup (h : f.WellNested) (kind : BlockKind) :
    ((f.inOrder kind).map (·.block)).Nodup :=
  (inOrder_map_block_perm f kind).nodup_iff.mpr ((blocks_nodup h).filter _)

lemma inOrder_name_start_nodup (h : f.WellNested) (kind : BlockKind) :
    (((f.inOrder kind).map (·.block.name)).map (·.start)).Nodup := by
  have hperm := (inOrder_map_block_perm f kind).map (·.name.start)
  rw [List.map_map] at hperm
  rw [List.map_map]
  refine hperm.nodup_iff.mpr (List.pairwise_map.mpr ?_)
  exact ((blocks_pairwise h).filter _).imp fun h => h.2

end Order

end Forest

/-! ### The captures of a role -/

namespace Block

variable (b : Block)

/-- What a block has of a role. -/
lemma ofRole_captures (role : Role) :
    ofRole role b.captures = (if b.kind.blockRole == role then [b.block] else []) ++
      ((if b.kind.nameRole == role then [b.name] else []) ++
        if Role.returnType == role then b.returned.toList else []) := by
  have hreturned : b.returned.toList.filter (·.role == role) =
      if Role.returnType == role then b.returned.toList else [] := by
    rcases hr : b.returned with _ | c
    · simp
    · simp [(b.returned_role c hr).1, List.filter_cons]
  simp only [ofRole, captures, own, List.filter_cons, b.block_role, b.name_role, hreturned]
  cases b.kind.blockRole == role <;> cases b.kind.nameRole == role <;> rfl

lemma ofRole_blockRole (kind : BlockKind) :
    ofRole kind.blockRole b.captures = if b.kind == kind then [b.block] else [] := by
  rw [ofRole_captures]
  cases b.kind <;> cases kind <;> rfl

lemma ofRole_nameRole (kind : BlockKind) :
    ofRole kind.nameRole b.captures = if b.kind == kind then [b.name] else [] := by
  rw [ofRole_captures]
  cases b.kind <;> cases kind <;> rfl

lemma ofRole_returnType : ofRole .returnType b.captures = b.returned.toList := by
  rw [ofRole_captures]
  cases b.kind <;> rfl

end Block

lemma flatMap_ite_singleton {α β : Type} (p : α → Bool) (g : α → β) (l : List α) :
    (l.flatMap fun a => if p a then [g a] else []) = (l.filter p).map g := by
  induction l with
  | nil => rfl
  | cons a l ih =>
    rw [List.flatMap_cons, ih, List.filter_cons]
    split <;> rfl

namespace Forest

lemma ofRole_captures (f : Forest) (role : Role) :
    ofRole role f.captures = f.blocks.flatMap fun b => ofRole role b.captures :=
  List.filter_flatMap

section Captured

variable {f : Forest} {others cs : List Capture}

lemma Captured.ofRole_perm (h : f.Captured others cs) (role : Role) (hrole : role ∈ blockRoles) :
    (ofRole role cs).Perm (ofRole role f.captures) := by
  have hothers : ofRole role others = [] := by
    unfold ofRole
    rw [List.filter_eq_nil_iff]
    intro c hc heq
    exact h.free c hc (eq_of_beq heq ▸ hrole)
  have hperm : (ofRole role cs).Perm (ofRole role (f.captures ++ others)) :=
    h.perm.filter _
  unfold ofRole at hperm hothers ⊢
  rwa [List.filter_append, hothers, List.append_nil] at hperm

lemma Captured.blocks_perm (h : f.Captured others cs) (kind : BlockKind) :
    (ofRole kind.blockRole cs).Perm ((f.blocks.filter (·.kind == kind)).map (·.block)) := by
  have hperm := h.ofRole_perm kind.blockRole (by cases kind <;> decide)
  simp only [ofRole_captures, Block.ofRole_blockRole, flatMap_ite_singleton] at hperm
  exact hperm

lemma Captured.names_perm (h : f.Captured others cs) (kind : BlockKind) :
    (ofRole kind.nameRole cs).Perm ((f.blocks.filter (·.kind == kind)).map (·.name)) := by
  have hperm := h.ofRole_perm kind.nameRole (by cases kind <;> decide)
  simp only [ofRole_captures, Block.ofRole_nameRole, flatMap_ite_singleton] at hperm
  exact hperm

/-- Names are met in the order of their starts. -/
lemma Captured.names_eq (h : f.Captured others cs) (kind : BlockKind) :
    ofRole kind.nameRole cs = (f.inOrder kind).map (·.block.name) := by
  have hperm : (ofRole kind.nameRole cs).Perm ((f.inOrder kind).map (·.block.name)) := by
    have hblocks := (inOrder_map_block_perm f kind).map (·.name)
    rw [List.map_map] at hblocks
    exact (h.names_perm kind).trans hblocks.symm
  exact eq_of_perm_of_sorted (·.start) hperm (h.order.filter _)
    (List.pairwise_map.mpr (inOrder_pairwise f kind)) (inOrder_name_start_nodup h.nested kind)

/-- **A name is that of the block it stands in.** -/
lemma Captured.pairs_eq (h : f.Captured others cs) (kind : BlockKind) :
    Named.pairs kind.blockRole kind.nameRole cs = (f.inOrder kind).map (·.block.named) := by
  unfold Named.pairs
  rw [h.names_eq, List.filterMap_map, ← List.filterMap_eq_map]
  refine List.filterMap_congr fun t ht => ?_
  obtain ⟨hplaced, hkind⟩ := mem_inOrder.mp ht
  have hname : t.block.name ∈ t.block.captures := by simp [Block.captures, Block.own]
  have hnearest := nearest_capture h.nested hplaced hname
  rw [hkind] at hnearest
  obtain ⟨⟨hblock, -, henc⟩, hwider⟩ := nearest_around h.nested hnearest
  have hmem : ∀ c, c ∈ (ofRole kind.blockRole cs).filter (·.encloses t.block.name.start) ↔
      ∃ b ∈ f.blocks, b.kind = kind ∧ b.block.encloses t.block.name.start = true ∧
        b.block = c := by
    intro c
    rw [List.mem_filter, (h.blocks_perm kind).mem_iff]
    simp only [List.mem_map, List.mem_filter, beq_iff_eq]
    constructor
    · rintro ⟨⟨b, ⟨hb, hk⟩, rfl⟩, hc⟩
      exact ⟨b, hb, hk, hc, rfl⟩
    · rintro ⟨b, hb, hk, hc, rfl⟩
      exact ⟨⟨b, ⟨hb, hk⟩, rfl⟩, hc⟩
  have hmin : ((ofRole kind.blockRole cs).filter
      (·.encloses t.block.name.start)).minOn? Capture.width = some t.block.block := by
    refine minOn?_eq_some_of_lt ((hmem _).mpr ⟨t.block, hblock, hkind, henc, rfl⟩) fun c hc => ?_
    obtain ⟨b, hb, hk, hbenc, rfl⟩ := (hmem c).mp hc
    exact (hwider b hb hk hbenc).imp_left fun heq => by rw [heq]
  simp [hmin, Block.named]

/-! ### The nearest block -/

/-- The position that is found when the nearest block is the one there. -/
lemma innermost?_of_nearest (h : f.WellNested) {kind : BlockKind} {x i : Nat} {t : Placed}
    (hi : (f.inOrder kind)[i]? = some t)
    (ht : Block.nearest kind (f.around x) = some t.block) :
    Named.innermost? ((f.inOrder kind).map (·.block.named)) x = some i := by
  obtain ⟨⟨-, -, henc⟩, hwider⟩ := nearest_around h ht
  have hmem : ∀ n j, (n, j) ∈ ((f.inOrder kind).map (·.block.named)).zipIdx.filter
      (fun b => b.1.block.encloses x) ↔
      ∃ s, (f.inOrder kind)[j]? = some s ∧ s.block.block.encloses x = true ∧
        s.block.named = n := by
    intro n j
    rw [List.mem_filter, List.mem_zipIdx_iff_getElem?, List.getElem?_map, Option.map_eq_some_iff]
    constructor
    · rintro ⟨⟨s, hs, rfl⟩, hx⟩
      exact ⟨s, hs, hx, rfl⟩
    · rintro ⟨s, hs, hx, rfl⟩
      exact ⟨⟨s, hs, rfl⟩, hx⟩
  have hmin : (((f.inOrder kind).map (·.block.named)).zipIdx.filter
      (fun b => b.1.block.encloses x)).minOn? (fun b => b.1.block.width) =
      some (t.block.named, i) := by
    refine minOn?_eq_some_of_lt ((hmem _ _).mpr ⟨t, hi, henc, rfl⟩) fun b hb => ?_
    obtain ⟨s, hj, hx, hs⟩ := (hmem b.1 b.2).mp hb
    obtain ⟨hplaced, hkind⟩ := mem_inOrder.mp (List.mem_of_getElem? hj)
    rcases hwider s.block (mem_blocks_of_mem_placed hplaced) hkind hx with heq | hlt
    · -- the same block stands at one position only
      have hpos : b.2 = i := by
        have hlt : b.2 < ((f.inOrder kind).map (·.block)).length := by
          rw [List.length_map]
          exact (List.getElem?_eq_some_iff.mp hj).1
        refine (List.getElem?_inj hlt (inOrder_map_block_nodup h kind)).mp ?_
        rw [List.getElem?_map, List.getElem?_map, hj, hi, Option.map_some, Option.map_some, heq]
      exact Or.inl (Prod.ext (by rw [← hs, heq]) hpos)
    · exact Or.inr (by rw [← hs]; exact hlt)
  rw [Named.innermost?, hmin, Option.map_some]

/-- **The innermost block that is found is the nearest in the forest.** -/
lemma innermost?_eq_some_iff (h : f.WellNested) {kind : BlockKind} {x i : Nat} {t : Placed}
    (hi : (f.inOrder kind)[i]? = some t) :
    Named.innermost? ((f.inOrder kind).map (·.block.named)) x = some i ↔
      Block.nearest kind (f.around x) = some t.block := by
  refine ⟨fun hfound => ?_, innermost?_of_nearest h hi⟩
  obtain ⟨⟨n, j⟩, hmin, hj⟩ := Option.map_eq_some_iff.mp hfound
  obtain ⟨hn, hx⟩ := List.mem_filter.mp (List.minOn?_mem hmin)
  -- some block has the byte, so there is a nearest one, and it would have been found
  rw [List.mem_zipIdx_iff_getElem?, List.getElem?_map, Option.map_eq_some_iff] at hn
  obtain ⟨s, hs, rfl⟩ := hn
  obtain ⟨hplaced, hkind⟩ := mem_inOrder.mp (List.mem_of_getElem? hs)
  obtain ⟨b, hb⟩ := exists_nearest_around h (mem_blocks_of_mem_placed hplaced) hx
  rw [hkind] at hb
  obtain ⟨⟨hblock, hbkind, -⟩, -⟩ := nearest_around h hb
  have hmem : b ∈ (f.inOrder kind).map (·.block) :=
    (inOrder_map_block_perm f kind).mem_iff.mpr (List.mem_filter.mpr ⟨hblock, by simp [hbkind]⟩)
  obtain ⟨u, hu, rfl⟩ := List.mem_map.mp hmem
  obtain ⟨k, hk⟩ := List.mem_iff_getElem?.mp hu
  have hki : k = i := by
    have := (innermost?_of_nearest h hk hb).symm.trans hfound
    exact Option.some.inj this
  rw [hki, hi] at hk
  rw [hb, Option.some.inj hk]

end Captured

end Forest

end TypeCoupling
