import Mathlib
import TypeCoupling.Proofs.FirstOfKey
import TypeCoupling.Proofs.Pairing

/-!
The declared types of a file read back the nesting of its blocks: a type is in the namespaces
around it, and an accessor or a base belongs to the nearest type around it (`Forest.entry`). One
lemma says what is found for each part of a declared type; `declaredTypes_eq_of_nesting` puts them
together.
-/

namespace TypeCoupling

lemma find?_eq_of_iff {α : Type} {p : α → Bool} {l : List α} {r : Option α}
    (hp : ∀ a ∈ l, p a = true ↔ r = some a) (hr : ∀ a, r = some a → a ∈ l) : l.find? p = r := by
  cases hfind : l.find? p with
  | some a => exact ((hp a (List.mem_of_find?_eq_some hfind)).mp (List.find?_some hfind)).symm
  | none =>
    have hnone := List.find?_eq_none.mp hfind
    refine (Option.eq_none_iff_forall_ne_some.mpr fun a ha => ?_).symm
    exact hnone a (hr a ha) ((hp a (hr a ha)).mpr ha)

/-- A selection by position that the elements decide. -/
lemma filter_map_zipIdx {α β : Type} {l : List α} {p : α × Nat → Bool} {q : α → Bool}
    {g : α × Nat → β} {r : α → β} (hp : ∀ a i, l[i]? = some a → p (a, i) = q a)
    (hg : ∀ a i, l[i]? = some a → g (a, i) = r a) :
    (l.zipIdx.filter p).map g = (l.filter q).map r := by
  have hp' : l.zipIdx.filter p = l.zipIdx.filter (q ·.1) :=
    List.filter_congr fun a ha => hp a.1 a.2 (List.mem_zipIdx_iff_getElem?.mp ha)
  have hq : l.filter q = (l.zipIdx.filter (q ·.1)).map (·.1) := by
    conv_lhs => rw [← List.zipIdx_map_fst 0 l, List.filter_map]
    rfl
  rw [hp', hq, List.map_map]
  refine List.map_congr_left fun a ha => ?_
  exact hg a.1 a.2 (List.mem_zipIdx_iff_getElem?.mp (List.mem_filter.mp ha).1)

/-! ### Runs over bases and members -/

/-- **What a run over divided bases gives**: the last base class and all interfaces, in order. -/
lemma Bases.foldl_add {l : List Capture}
    (hl : ∀ c ∈ l, c.role = .extendedType ∨ c.role = .implementedType) (b : Bases) :
    l.foldl Bases.add b =
      { extended := ((ofRole .extendedType l).map (Text.trim ·.text)).getLast?.or b.extended
        implemented := b.implemented ++ (ofRole .implementedType l).map (Text.trim ·.text)
        listed := b.listed } := by
  induction l generalizing b with
  | nil => simp [ofRole]
  | cons c l ih =>
    have hrest := ih (fun d hd => hl d (List.mem_cons_of_mem _ hd)) (b.add c)
    rw [List.foldl_cons, hrest]
    unfold ofRole
    rcases hl c List.mem_cons_self with hc | hc
    · have hadd : b.add c = { b with extended := some (Text.trim c.text) } := by
        simp [Bases.add, hc]
      rcases hlast : ((l.filter (·.role == .extendedType)).map (Text.trim ·.text)).getLast? <;>
        simp [hadd, hc, List.getLast?_cons, hlast]
    · have hadd : b.add c = { b with implemented := b.implemented ++ [Text.trim c.text] } := by
        simp [Bases.add, hc]
      simp [hadd, hc]

/-- Members are added in order, the first of each name. -/
lemma Entry.foldl_addMember_eq (e : Entry) (he : e.accessors = [])
    (members : List (String × String)) :
    members.foldl Entry.addMember e =
      { e with accessors := (firstsBy (·.1) members).map fun m =>
          ⟨m.1, [e.qualifiedName], m.2, e.file⟩ } := by
  induction members using List.reverseRecOn with
  | nil =>
    rw [List.foldl_nil, firstsBy_nil, List.map_nil, ← he]
  | append_singleton members m ih =>
    have hany : ((firstsBy (·.1) members).map fun m : String × String =>
        (⟨m.1, [e.qualifiedName], m.2, e.file⟩ : Accessor)).any (·.name == m.1) =
          members.any fun b => b.1 == m.1 := by
      rw [List.any_map, ← any_firstsBy]
      rfl
    rw [List.foldl_append, List.foldl_cons, List.foldl_nil, ih, firstsBy_concat, Entry.addMember]
    simp only [hany]
    split
    · rw [List.append_nil]
    · rw [List.map_append]
      rfl

/-! ### What the forest says -/

/-- The return type that an accessor leads to, empty if it has none. -/
def Block.returnType (decorations : List String) (b : Block) : String :=
  (b.returned.map (cleanReturnType decorations ·.text)).getD ""

/-- The texts of the captures of a role that lie in a block and in no type inside it. -/
def Placed.bases (t : Placed) (role : Role) (cs : List Capture) : List String :=
  ((ofRole role cs).filter fun c => t.block.block.encloses c.start &&
    !t.inside.blocks.any fun b => b.kind == .type && b.block.encloses c.start).map
      (Text.trim ·.text)

namespace Forest

/-- The names and return types of the accessors that have a type as the nearest around them. -/
def members (f : Forest) (decorations : List String) (t : Placed) : List (String × String) :=
  ((f.inOrder .accessor).filter fun a => Block.nearest .type a.outer == some t.block).map fun a =>
    (Text.trim a.block.name.text, a.block.returnType decorations)

/-- The declared type that a type block stands for. Its namespace is made of the namespaces around
it, from the outside; of members with one name the first counts. -/
def entry (f : Forest) (p : Profile) (file : String) (cs : List Capture) (t : Placed) : Entry :=
  let scopes := t.outer.filter (·.kind == .scope)
  let scope := Text.join p.delimiter (scopes.map (Text.trim ·.name.text))
  let name := qualify scope p.delimiter (Text.trim t.block.name.text)
  { qualifiedName := name
    scope
    typeName := Text.trim t.block.name.text
    delimiter := p.delimiter
    extended := (t.bases .extendedType cs).getLast?
    implemented := t.bases .implementedType cs
    accessors := (firstsBy (·.1) (f.members p.decorations t)).map fun m =>
      ⟨m.1, [name], m.2, file⟩
    file
    language := p.language }

section Captured

variable {f : Forest} {others cs : List Capture}

lemma Captured.types_eq (h : f.Captured others cs) :
    (Outline.ofCaptures cs).types = (f.inOrder .type).map (·.block.named) := h.pairs_eq .type

lemma Captured.accessors_eq (h : f.Captured others cs) :
    (Outline.ofCaptures cs).accessors = (f.inOrder .accessor).map (·.block.named) :=
  h.pairs_eq .accessor

lemma Captured.ofRole_eq_nil (h : f.Captured others cs) {role : Role}
    (hrole : role ∈ [Role.fileNamespace, .baseType]) : ofRole role cs = [] := by
  have hroles : role ∈ blockRoles := by
    simp only [List.mem_cons, List.not_mem_nil, or_false] at hrole
    rcases hrole with rfl | rfl <;> decide
  have hnil : ofRole role f.captures = [] := by
    rw [ofRole_captures, List.flatMap_eq_nil_iff]
    intro b _
    rw [Block.ofRole_captures]
    simp only [List.mem_cons, List.not_mem_nil, or_false] at hrole
    rcases hrole with rfl | rfl <;> cases b.kind <;> rfl
  have hperm := h.ofRole_perm role hroles
  rw [hnil] at hperm
  exact hperm.eq_nil

/-! ### Namespaces -/

/-- Of the blocks a block of another kind stands in, those of a kind, found by their spans. -/
lemma filter_around_start (h : f.WellNested) {t : Placed} (ht : t ∈ f.placed []) {kind : BlockKind}
    (hkind : t.block.kind ≠ kind) :
    (f.around t.block.block.start).filter (·.kind == kind) =
      t.outer.filter (·.kind == kind) := by
  have hblock : t.block.block ∈ t.block.captures := by simp [Block.captures]
  rw [around_capture h ht hblock, List.filter_append]
  simp [hkind]

/-- **The namespaces around a type** are met from the outside. -/
lemma Captured.scopeAt_eq (h : f.Captured others cs) (delimiter : String) {t : Placed}
    (ht : t ∈ f.inOrder .type) :
    (Outline.ofCaptures cs).scopeAt delimiter t.block.block.start =
      Text.join delimiter
        ((t.outer.filter (·.kind == .scope)).map (Text.trim ·.name.text)) := by
  obtain ⟨hplaced, hkind⟩ := mem_inOrder.mp ht
  have hfile : ofRole .fileNamespace (Outline.ofCaptures cs).captures = [] :=
    h.ofRole_eq_nil (by simp)
  have hpairs : (Outline.ofCaptures cs).namespaces = (f.inOrder .scope).map (·.block.named) :=
    h.pairs_eq .scope
  -- the namespaces that have the byte are those on the path to it
  have hperm : (((f.inOrder .scope).map (·.block.named)).filter
      (·.block.encloses t.block.block.start)).Perm
        ((t.outer.filter (·.kind == .scope)).map Block.named) := by
    rw [← filter_around_start h.nested hplaced (by simp [hkind]), ← filter_blocks_encloses h.nested,
      List.filter_comm]
    have := ((inOrder_map_block_perm f .scope).filter
      (·.block.encloses t.block.block.start)).map Block.named
    rw [List.filter_map, List.map_map] at this
    rw [List.filter_map]
    exact this
  have hsorted : ((t.outer.filter (·.kind == .scope)).map Block.named).Pairwise
      fun a b => a.block.start < b.block.start := by
    rw [← filter_around_start h.nested hplaced (by simp [hkind])]
    exact List.pairwise_map.mpr (((around_pairwise h.nested _).filter _).imp fun h => h.1)
  have hblocks : (((f.inOrder .scope).map (·.block.named)).filter
      (·.block.encloses t.block.block.start)).mergeSort
        (fun a b => a.block.start ≤ b.block.start) =
      (t.outer.filter (·.kind == .scope)).map Block.named :=
    eq_of_perm_of_sorted (fun n : Named => n.block.start) ((List.mergeSort_perm _ _).trans hperm)
      (mergeSort_key_pairwise (fun n : Named => n.block.start) _) (hsorted.imp Nat.le_of_lt)
      (List.pairwise_map.mpr (hsorted.imp Nat.ne_of_lt))
  simp only [Outline.scopeAt, hfile, hpairs, hblocks, List.map_map]
  rfl

/-! ### Bases -/

/-- What has a type as its innermost is in the type and in no type inside it. -/
lemma Captured.innermost_type_eq (h : f.Captured others cs) {i : Nat} {t : Placed}
    (hi : (f.inOrder .type)[i]? = some t) (x : Nat) :
    (Named.innermost? (Outline.ofCaptures cs).types x == some i) =
      (t.block.block.encloses x &&
        !t.inside.blocks.any fun b => b.kind == .type && b.block.encloses x) := by
  obtain ⟨hplaced, hkind⟩ := mem_inOrder.mp (List.mem_of_getElem? hi)
  have hnearest := nearest_eq_block_iff h.nested hplaced (x := x)
  rw [hkind] at hnearest
  rw [h.types_eq, Bool.eq_iff_iff, beq_iff_eq, innermost?_eq_some_iff h.nested hi, hnearest]
  simp

/-- **The bases of a type** are the captures in it and in no type inside it. -/
lemma Captured.basesOf_eq (h : f.Captured others cs) {i : Nat} {t : Placed}
    (hi : (f.inOrder .type)[i]? = some t) :
    (Outline.ofCaptures cs).basesOf i =
      { extended := (t.bases .extendedType cs).getLast?
        implemented := t.bases .implementedType cs
        listed := false } := by
  have hbases : ∀ role ∈ [Role.extendedType, .implementedType, .baseType],
      (ofRole role (cs.filter fun c => [.extendedType, .implementedType, .baseType].contains c.role
        && Named.innermost? (Outline.ofCaptures cs).types c.start == some i)).map
          (Text.trim ·.text) = t.bases role cs := by
    intro role hrole
    unfold Placed.bases ofRole
    rw [List.filter_filter, List.filter_filter]
    refine congrArg _ (List.filter_congr fun c _ => ?_)
    rw [h.innermost_type_eq hi]
    cases hc : c.role == role with
    | false => rw [Bool.false_and, Bool.and_false]
    | true =>
      have hcontains : [Role.extendedType, .implementedType, .baseType].contains c.role = true := by
        rw [eq_of_beq hc]
        exact List.contains_iff_mem.mpr hrole
      rw [hcontains, Bool.true_and, Bool.true_and, Bool.and_true]
  unfold Outline.basesOf
  rw [Bases.foldl_add]
  · have hcaptures : (Outline.ofCaptures cs).captures = cs := rfl
    rw [hcaptures, hbases _ (by simp), hbases _ (by simp)]
    simp [Bases.none]
  · intro c hc
    obtain ⟨hcs, hrole⟩ := List.mem_filter.mp hc
    have hnot : c.role ≠ .baseType := by
      intro heq
      have hmem : c ∈ ofRole .baseType cs := List.mem_filter.mpr ⟨hcs, by simp [heq]⟩
      rw [h.ofRole_eq_nil (by simp)] at hmem
      exact absurd hmem List.not_mem_nil
    have hmem := List.contains_iff_mem.mp (Bool.and_eq_true_iff.mp hrole).1
    simpa [hnot] using hmem

/-! ### Accessors -/

/-- Return types are those of the accessors. -/
lemma Captured.mem_returnTypes (h : f.Captured others cs) {c : Capture} :
    c ∈ ofRole .returnType cs ↔ ∃ t ∈ f.placed [], t.block.returned = some c := by
  rw [(h.ofRole_perm .returnType (by decide)).mem_iff, ofRole_captures, List.mem_flatMap,
    ← placed_map_block [] f]
  simp only [Block.ofRole_returnType, Option.mem_toList, List.mem_map]
  constructor
  · rintro ⟨b, ⟨t, ht, rfl⟩, hc⟩
    exact ⟨t, ht, hc⟩
  · rintro ⟨t, ht, hc⟩
    exact ⟨t.block, ⟨t, ht, rfl⟩, hc⟩

/-- **An accessor has its own return type.** -/
lemma Captured.returnTypeOf_eq (h : f.Captured others cs) (decorations : List String) {j : Nat}
    {a : Placed} (hj : (f.inOrder .accessor)[j]? = some a) :
    (Outline.ofCaptures cs).returnTypeOf decorations j = a.block.returnType decorations := by
  obtain ⟨hplaced, hkind⟩ := mem_inOrder.mp (List.mem_of_getElem? hj)
  have hnearest : ∀ t ∈ f.placed [], ∀ c, t.block.returned = some c →
      Block.nearest .accessor (f.around c.start) = some t.block := by
    intro t ht c hc
    have hcap : c ∈ t.block.captures := by simp [Block.captures, Block.own, hc]
    have hnear := nearest_capture h.nested ht hcap
    rwa [(t.block.returned_role c hc).2] at hnear
  have howner : ∀ c ∈ ofRole .returnType cs,
      (Named.innermost? (Outline.ofCaptures cs).accessors c.start == some j) = true ↔
        a.block.returned = some c := by
    intro c hc
    rw [h.accessors_eq, beq_iff_eq, innermost?_eq_some_iff h.nested hj]
    refine ⟨fun hnear => ?_, hnearest a hplaced c⟩
    obtain ⟨t, ht, htc⟩ := h.mem_returnTypes.mp hc
    rw [hnearest t ht c htc] at hnear
    rw [← Option.some.inj hnear, htc]
  have hfound : (ofRole .returnType cs).find? (fun c =>
      Named.innermost? (Outline.ofCaptures cs).accessors c.start == some j) =
        a.block.returned :=
    find?_eq_of_iff howner fun c hc => h.mem_returnTypes.mpr ⟨a, hplaced, hc⟩
  have hcaptures : (Outline.ofCaptures cs).captures = cs := rfl
  rw [Outline.returnTypeOf, hcaptures, hfound, Block.returnType]

/-- **The members of a type** are the accessors that have it as the nearest type around them. -/
lemma Captured.membersOf_eq (h : f.Captured others cs) (decorations : List String) {i : Nat}
    {t : Placed} (hi : (f.inOrder .type)[i]? = some t) :
    (Outline.ofCaptures cs).membersOf decorations i = f.members decorations t := by
  have howner : ∀ a ∈ f.inOrder .accessor,
      (Named.innermost? (Outline.ofCaptures cs).types a.block.block.start == some i) =
        (Block.nearest .type a.outer == some t.block) := by
    intro a ha
    obtain ⟨hplaced, hkind⟩ := mem_inOrder.mp ha
    rw [h.types_eq, Bool.eq_iff_iff, beq_iff_eq, beq_iff_eq, innermost?_eq_some_iff h.nested hi,
      Block.nearest, filter_around_start h.nested hplaced (by simp [hkind]), Block.nearest]
  rw [Outline.membersOf, h.accessors_eq, List.zipIdx_map, List.filter_map, List.map_map]
  refine filter_map_zipIdx (fun a j hj => howner a (List.mem_of_getElem? hj)) fun a j hj => ?_
  exact Prod.ext rfl (h.returnTypeOf_eq decorations hj)

lemma Captured.entry_eq (h : f.Captured others cs) (p : Profile) (file : String) {i : Nat}
    {t : Placed} (hi : (f.inOrder .type)[i]? = some t) :
    (Outline.ofCaptures cs).entry p file t.block.named i = f.entry p file cs t := by
  have hscope := h.scopeAt_eq p.delimiter (List.mem_of_getElem? hi)
  have hbases := h.basesOf_eq hi
  have hmembers := h.membersOf_eq p.decorations hi
  simp only [Outline.entry, Block.named, hscope, hbases, hmembers]
  rw [Entry.foldl_addMember_eq _ rfl]
  rfl

end Captured

/-! ### Names before what is inside -/

/-- The name of a block stands before the blocks inside it. -/
def NamesFirst : Forest → Prop
  | nil => True
  | node b inside after =>
    (∀ c ∈ inside.roots, b.name.start < c.block.start) ∧ inside.NamesFirst ∧ after.NamesFirst

lemma NamesFirst.blocks_pairwise {f : Forest} (hf : f.NamesFirst) (h : f.WellNested) :
    f.blocks.Pairwise fun b c => b.name.start < c.name.start := by
  induction f with
  | nil => exact List.Pairwise.nil
  | node b inside after ihi iha =>
    have hspan : ∀ c : Block, c.block.start ≤ c.name.start ∧ c.name.start < c.block.stop :=
      fun c => Capture.encloses_iff.mp c.name_inside
    obtain ⟨hroots, hinside, hafter⟩ := hf
    refine List.pairwise_cons.mpr ⟨fun c hc => ?_, List.pairwise_append.mpr
      ⟨ihi hinside h.down, iha hafter h.next, fun c hc d hd => ?_⟩⟩
    · have hb := hspan b
      have hcn := hspan c
      rcases List.mem_append.mp hc with hc | hc
      · obtain ⟨r, hr, hstart, -⟩ := exists_root h.down hc
        have := hroots r hr
        omega
      · have := h.start_of_mem_after hc
        omega
    · have h1 := h.span_of_mem_inside hc
      have h2 := h.start_of_mem_after hd
      have h3 := hspan c
      have h4 := hspan d
      omega

/-- Then the order of the names is the order of the blocks. -/
lemma NamesFirst.inOrder_eq {f : Forest} (hf : f.NamesFirst) (h : f.WellNested)
    (kind : BlockKind) : f.inOrder kind = (f.placed []).filter (·.block.kind == kind) := by
  have hnames : (f.placed []).Pairwise fun s t => s.block.name.start < t.block.name.start := by
    have := hf.blocks_pairwise h
    rwa [← placed_map_block [] f, List.pairwise_map] at this
  refine List.mergeSort_of_pairwise ((hnames.filter _).imp fun hlt => ?_)
  exact decide_eq_true (Nat.le_of_lt hlt)

end Forest

/-- **The declared types of a file read back the nesting.** There is one for each type block, in
the order of the types' names, and `Forest.entry` says what it is; where names stand before the
blocks inside, this is the order in which the types start. -/
theorem declaredTypes_eq_of_nesting (p : Profile) (file : String) {f : Forest}
    {others cs : List Capture} (h : f.Captured others cs) :
    declaredTypes p file cs = (f.inOrder .type).map (f.entry p file cs) ∧
      (f.NamesFirst →
        ∀ kind, f.inOrder kind = (f.placed []).filter (·.block.kind == kind)) := by
  refine ⟨?_, fun hf => hf.inOrder_eq h.nested⟩
  have hentry : ∀ t ∈ (f.inOrder .type).zipIdx,
      (Outline.ofCaptures cs).entry p file t.1.block.named t.2 = f.entry p file cs t.1 :=
    fun t ht => h.entry_eq p file (List.mem_zipIdx_iff_getElem?.mp ht)
  calc declaredTypes p file cs
      = (f.inOrder .type).zipIdx.map fun t =>
          (Outline.ofCaptures cs).entry p file t.1.block.named t.2 := by
        rw [declaredTypes, h.types_eq, List.zipIdx_map, List.map_map]
        rfl
    _ = ((f.inOrder .type).zipIdx.map (·.1)).map (f.entry p file cs) := by
        rw [List.map_map]
        exact List.map_congr_left hentry
    _ = (f.inOrder .type).map (f.entry p file cs) := by
        rw [List.zipIdx_map_fst]

/-- A type in two namespaces, with two accessors of one name around a type inside it. -/
def libraryForest : Forest :=
  .node ⟨.scope, ⟨.namespaceBlock, "", 0, 200, 1⟩, ⟨.namespaceName, "App", 10, 13, 1⟩, none,
      rfl, rfl, by simp, by decide, by simp⟩
    (.node ⟨.scope, ⟨.namespaceBlock, "", 16, 190, 2⟩, ⟨.namespaceName, " Core ", 26, 32, 2⟩, none,
        rfl, rfl, by simp, by decide, by simp⟩
      (.node ⟨.type, ⟨.typeBlock, "", 34, 180, 3⟩, ⟨.typeName, "Shelf", 40, 45, 3⟩, none,
          rfl, rfl, by simp, by decide, by simp⟩
        (.node ⟨.accessor, ⟨.accessorBlock, "", 60, 80, 4⟩, ⟨.accessorName, "First", 73, 78, 4⟩,
            some ⟨.returnType, "Book?", 67, 72, 4⟩, rfl, rfl, by simp, by decide, by simp; decide⟩
          .nil
          (.node ⟨.type, ⟨.typeBlock, "", 85, 140, 5⟩, ⟨.typeName, "Slot", 91, 95, 5⟩, none,
              rfl, rfl, by simp, by decide, by simp⟩
            (.node ⟨.accessor, ⟨.accessorBlock, "", 110, 130, 6⟩,
                ⟨.accessorName, "Clear", 122, 127, 6⟩, some ⟨.returnType, "void", 117, 121, 6⟩,
                rfl, rfl, by simp, by decide, by simp; decide⟩
              .nil .nil)
            (.node ⟨.accessor, ⟨.accessorBlock, "", 145, 170, 8⟩,
                ⟨.accessorName, "First", 156, 161, 8⟩, none, rfl, rfl, by simp, by decide, by simp⟩
              .nil .nil)))
        .nil)
      .nil)
    .nil

/-- The bases of both types. -/
def libraryBases : List Capture :=
  [⟨.implementedType, "IShelf", 48, 54, 3⟩, ⟨.implementedType, "ISlot", 98, 103, 5⟩,
    ⟨.extendedType, "Box", 104, 107, 5⟩, ⟨.accessorModifier, "public", 60, 66, 4⟩]

theorem declaredTypes_eq_of_nesting_library :
    libraryForest.Captured libraryBases (inDocumentOrder (libraryForest.captures ++ libraryBases)) ∧
      libraryForest.NamesFirst ∧
      declaredTypes Language.csharp.profile "a.cs"
          (inDocumentOrder (libraryForest.captures ++ libraryBases)) =
        [⟨"App.Core.Shelf", "App.Core", "Shelf", ".", none, ["IShelf"],
            [⟨"First", ["App.Core.Shelf"], "Book", "a.cs"⟩], "a.cs", .csharp⟩,
          ⟨"App.Core.Slot", "App.Core", "Slot", ".", some "Box", ["ISlot"],
            [⟨"Clear", ["App.Core.Slot"], "", "a.cs"⟩], "a.cs", .csharp⟩] := by
  have hcaptured : libraryForest.Captured libraryBases
      (inDocumentOrder (libraryForest.captures ++ libraryBases)) :=
    Forest.captured_inDocumentOrder (by decide) (by decide)
  have hnames : libraryForest.NamesFirst := by
    simp [libraryForest, Forest.NamesFirst, Forest.roots]
  obtain ⟨hentries, horder⟩ :=
    declaredTypes_eq_of_nesting Language.csharp.profile "a.cs" hcaptured
  refine ⟨hcaptured, hnames, ?_⟩
  rw [hentries, horder hnames]
  cbv

/-- A type whose name stands behind a type inside it. -/
def lateNameForest : Forest :=
  .node ⟨.type, ⟨.typeBlock, "...", 0, 40, 1⟩, ⟨.typeName, "Outer", 30, 35, 1⟩, none,
      rfl, rfl, by simp, by decide, by simp⟩
    (.node ⟨.type, ⟨.typeBlock, "...", 5, 20, 1⟩, ⟨.typeName, "Inner", 11, 16, 1⟩, none,
        rfl, rfl, by simp, by decide, by simp⟩
      .nil .nil)
    .nil

/-- Types come in the order of their names, not of their blocks. -/
theorem late_name_comes_last :
    lateNameForest.Captured [] (inDocumentOrder lateNameForest.captures) ∧
      ((lateNameForest.placed []).filter (·.block.kind == .type)).map
          (lateNameForest.entry Language.csharp.profile "a.cs"
            (inDocumentOrder lateNameForest.captures)) =
        [Entry.plain "" "Outer" "." "a.cs" .csharp, Entry.plain "" "Inner" "." "a.cs" .csharp] ∧
      declaredTypes Language.csharp.profile "a.cs"
          (inDocumentOrder lateNameForest.captures) =
        [Entry.plain "" "Inner" "." "a.cs" .csharp, Entry.plain "" "Outer" "." "a.cs" .csharp] := by
  have hcaptured := Forest.captured_inDocumentOrder (f := lateNameForest) (by decide)
    (fun c hc => absurd hc List.not_mem_nil)
  rw [List.append_nil] at hcaptured
  refine ⟨hcaptured, ?_, ?_⟩
  · cbv
  · cbv

end TypeCoupling
