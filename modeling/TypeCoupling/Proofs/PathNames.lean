import Mathlib.Data.List.DropRight
import TypeCoupling.Path
import TypeCoupling.Proofs.Splitting

/-!
The names that a path goes through.

Void pieces say nothing, so the components of a path are its solid pieces, behind a start that a
path may have. What a path shows below a root has the solid pieces that follow those of the root,
however many void ones stand between them. A path that is put together from a root and names goes
through the root's components and then through the names, and shows just these names below it.
-/

namespace TypeCoupling.Path

/-- A name that an entry of a directory can have. -/
structure IsName (name : String) : Prop where
  slash : '/' ∉ name.toList
  solid : isVoid name = false
  down : name ≠ ".."

/-- The path goes through the components of the root and then, strictly below it, through the
names. -/
structure IsBelow (root path : String) (names : List String) : Prop where
  through : components path = components root ++ names.map .name
  strict : names ≠ []

instance (name : String) : Decidable (IsName name) :=
  decidable_of_iff ('/' ∉ name.toList ∧ isVoid name = false ∧ name ≠ "..")
    ⟨fun h => ⟨h.1, h.2.1, h.2.2⟩, fun h => ⟨h.slash, h.solid, h.down⟩⟩

instance (root path : String) (names : List String) : Decidable (IsBelow root path names) :=
  decidable_of_iff (components path = components root ++ names.map .name ∧ names ≠ [])
    ⟨fun h => ⟨h.1, h.2⟩, fun h => ⟨h.through, h.strict⟩⟩

/-- The pieces that stand for a component. -/
def solid (ps : List String) : List String := ps.filter (!isVoid ·)

/-- The piece that a component is written as; none for the start of a path. -/
def Component.piece? : Component → Option String
  | root => none
  | here => none
  | up => some ".."
  | name n => some n

/-- The component that a solid piece stands for. -/
def Component.ofPiece (p : String) : Component := if p == ".." then up else name p

/-! ### Solid pieces -/

lemma solid_append (ps qs : List String) : solid (ps ++ qs) = solid ps ++ solid qs :=
  List.filter_append _ _

lemma solid_cons_of_void {p : String} (h : isVoid p = true) (ps : List String) :
    solid (p :: ps) = solid ps :=
  List.filter_cons_of_neg (by simp [h])

lemma solid_cons_of_not_void {p : String} (h : isVoid p = false) (ps : List String) :
    solid (p :: ps) = p :: solid ps :=
  List.filter_cons_of_pos (by simp [h])

lemma solid_eq_self {ps : List String} (h : ∀ p ∈ ps, isVoid p = false) : solid ps = ps :=
  List.filter_eq_self.mpr fun p hp => by simp [h p hp]

lemma solid_dropWhile (ps : List String) : solid (ps.dropWhile isVoid) = solid ps := by
  induction ps with
  | nil => rfl
  | cons p ps ih =>
    cases hp : isVoid p with
    | true => rw [List.dropWhile_cons_of_pos hp, ih, solid_cons_of_void hp]
    | false => rw [List.dropWhile_cons_of_neg (by simp [hp])]

lemma solid_dropVoidEnd (ps : List String) : solid (dropVoidEnd ps) = solid ps := by
  have hback := solid_dropWhile ps.reverse
  simp only [solid, dropVoidEnd, List.filter_reverse] at hback ⊢
  rw [hback, List.reverse_reverse]

lemma solid_dropComponents (n : Nat) (ps : List String) :
    solid (dropComponents n ps) = (solid ps).drop n := by
  fun_induction dropComponents n ps with
  | case1 => rfl
  | case2 => simp [solid]
  | case3 n p ps hp ih => rw [ih, solid_cons_of_void hp]
  | case4 n p ps hp ih =>
    rw [ih, solid_cons_of_not_void (Bool.eq_false_iff.mpr hp), List.drop_succ_cons]

lemma dropComponents_isSuffix (n : Nat) (ps : List String) : dropComponents n ps <:+ ps := by
  fun_induction dropComponents n ps with
  | case1 => exact List.suffix_refl _
  | case2 => exact List.suffix_refl _
  | case3 n p ps _ ih => exact ih.trans (List.suffix_cons p ps)
  | case4 n p ps _ ih => exact ih.trans (List.suffix_cons p ps)

lemma dropVoidEnd_isPrefix (ps : List String) : dropVoidEnd ps <+: ps :=
  List.rdropWhile_prefix isVoid _

lemma dropWhile_of_solid {ps : List String} (h : ∀ p ∈ ps, isVoid p = false) :
    ps.dropWhile isVoid = ps := by
  rcases ps with _ | ⟨p, ps⟩
  · rfl
  · exact List.dropWhile_cons_of_neg (by simp [h p List.mem_cons_self])

lemma dropVoidEnd_of_solid {ps : List String} (h : ∀ p ∈ ps, isVoid p = false) :
    dropVoidEnd ps = ps := by
  rw [dropVoidEnd, dropWhile_of_solid fun p hp => h p (List.mem_reverse.mp hp),
    List.reverse_reverse]

/-- Past as many components as some pieces have, void pieces apart, the rest follows. -/
lemma dropWhile_dropComponents (ps qs : List String) :
    (dropComponents (solid ps).length (ps ++ qs)).dropWhile isVoid = qs.dropWhile isVoid := by
  induction ps with
  | nil => simp [solid, dropComponents]
  | cons p ps ih =>
    cases hp : isVoid p with
    | false => simpa [solid_cons_of_not_void hp, dropComponents, hp] using ih
    | true =>
      rw [solid_cons_of_void hp]
      cases hn : (solid ps).length with
      | zero =>
        rw [hn] at ih
        simpa [dropComponents, hp] using ih
      | succ n =>
        rw [hn] at ih
        simpa [dropComponents, hp] using ih

/-! ### Pieces and components -/

lemma notMem_of_mem_pieces {path p : String} (h : p ∈ pieces path) : '/' ∉ p.toList :=
  Text.notMem_of_mem_split rfl h

lemma pieces_append (path rest : String) :
    pieces (path ++ "/" ++ rest) = pieces path ++ pieces rest :=
  Text.split_append_delimiter rfl _ _

lemma pieces_join {ps : List String} (hne : ps ≠ []) (h : ∀ p ∈ ps, '/' ∉ p.toList) :
    pieces (Text.join "/" ps) = ps := by
  obtain ⟨p, ps, rfl⟩ := List.exists_cons_of_ne_nil hne
  exact Text.split_join rfl h

lemma solid_pieces_join {ps : List String} (h : ∀ p ∈ ps, '/' ∉ p.toList) :
    solid (pieces (Text.join "/" ps)) = solid ps := by
  rcases eq_or_ne ps [] with rfl | hne
  · rfl
  · rw [pieces_join hne h]

lemma body_eq (ps : List String) : body ps = (solid ps).map .ofPiece := rfl

@[simp] lemma Component.piece?_ofPiece (p : String) : (ofPiece p).piece? = some p := by
  by_cases hup : p = ".."
  · simp [hup, ofPiece, piece?]
  · simp [hup, ofPiece, piece?]

lemma filterMap_ofPiece (ps : List String) :
    (ps.map Component.ofPiece).filterMap Component.piece? = ps := by
  simp [List.filterMap_map]

lemma body_append (ps qs : List String) : body (ps ++ qs) = body ps ++ body qs := by
  rw [body_eq, solid_append, List.map_append, body_eq, body_eq]

lemma body_of_names {names : List String} (h : ∀ n ∈ names, IsName n) :
    body names = names.map .name := by
  rw [body_eq, solid_eq_self fun n hn => (h n hn).solid]
  refine List.map_congr_left fun n hn => ?_
  simp [Component.ofPiece, (h n hn).down]

/-- The start of a path takes no solid piece. -/
lemma solid_start (ps : List String) :
    (start ps).1.toList.filterMap Component.piece? = [] ∧ solid (start ps).2 = solid ps ∧
      (start ps).2 <:+ ps := by
  unfold start
  split
  · exact ⟨rfl, (solid_cons_of_void rfl _).symm, List.suffix_cons _ _⟩
  · exact ⟨rfl, (solid_cons_of_void rfl _).symm, List.suffix_cons _ _⟩
  · exact ⟨rfl, rfl, List.suffix_refl _⟩

lemma components_eq (path : String) :
    components path = (start (pieces path)).1.toList ++ body (start (pieces path)).2 := rfl

/-- **The components of a path, written as pieces, are its solid pieces.** -/
lemma filterMap_components (path : String) :
    (components path).filterMap Component.piece? = solid (pieces path) := by
  obtain ⟨hfirst, hrest, -⟩ := solid_start (pieces path)
  rw [components_eq, List.filterMap_append, hfirst, body_eq, filterMap_ofPiece, hrest,
    List.nil_append]

lemma filterMap_names (names : List String) :
    (names.map Component.name).filterMap Component.piece? = names := by
  rw [List.filterMap_map]
  exact List.filterMap_some

namespace IsBelow

variable {root path : String} {names : List String}

lemma solid_pieces (h : IsBelow root path names) :
    solid (pieces path) = solid (pieces root) ++ names := by
  rw [← filterMap_components, h.through, List.filterMap_append, filterMap_components,
    filterMap_names]

lemma not_void (h : IsBelow root path names) {n : String} (hn : n ∈ names) :
    isVoid n = false := by
  have hsolid : n ∈ solid (pieces path) := by
    rw [h.solid_pieces]
    exact List.mem_append_right _ hn
  simpa using (List.mem_filter.mp hsolid).2

end IsBelow

/-! ### What is shown below a root -/

/-- **What a path shows below a root has the solid pieces of the components that follow.** -/
lemma exists_below? {root path : String} {rest : List Component}
    (h : components path = components root ++ rest) :
    ∃ shown, below? root path = some shown ∧
      solid (pieces shown) = rest.filterMap Component.piece? := by
  have hprefix : (components root).isPrefixOf (components path) = true :=
    List.isPrefixOf_iff_prefix.mpr ⟨rest, h.symm⟩
  obtain ⟨-, hsolid, hsuffix⟩ := solid_start (pieces path)
  have hpieces := filterMap_components path
  have hthrough := components_eq path
  rcases hstart : start (pieces path) with ⟨first, ps⟩
  simp only [hstart] at hsolid hsuffix hthrough
  have hplain : ∀ p ∈ ps, '/' ∉ p.toList := fun p hp => notMem_of_mem_pieces (hsuffix.subset hp)
  rw [below?, if_pos hprefix]
  simp only [hstart]
  rcases hroot : components root with _ | ⟨c, cs⟩
  · -- all components follow, and only void pieces at the end are cut
    have hend : ∀ p ∈ dropVoidEnd ps, '/' ∉ p.toList :=
      fun p hp => hplain p ((dropVoidEnd_isPrefix ps).subset hp)
    have hrest : solid (dropVoidEnd ps) = rest.filterMap Component.piece? := by
      rw [solid_dropVoidEnd, hsolid, ← hpieces, h, hroot, List.nil_append]
    rcases first with _ | _ | _ | _ | _
    case none => exact ⟨_, rfl, by rw [solid_pieces_join hend, hrest]⟩
    case some.root =>
      have hslash : "/" ++ Text.join "/" (dropVoidEnd ps) =
          "" ++ "/" ++ Text.join "/" (dropVoidEnd ps) := by simp
      refine ⟨_, rfl, ?_⟩
      rw [hslash, pieces_append, solid_append]
      exact (solid_pieces_join hend).trans hrest
    all_goals
      refine ⟨_, rfl, ?_⟩
      rw [solid_pieces_join (by simpa using hend), solid_cons_of_void rfl, hrest]
  · -- the pieces of the root's components are cut, and void ones around the rest
    have hlength : first.toList.length ≤ (c :: cs).length := by cases first <;> simp
    have hrest : rest = (body ps).drop ((c :: cs).length - first.toList.length) :=
      calc rest = ((c :: cs) ++ rest).drop (c :: cs).length := List.drop_left.symm
        _ = (first.toList ++ body ps).drop (c :: cs).length := by rw [← hroot, ← h, hthrough]
        _ = (body ps).drop ((c :: cs).length - first.toList.length) := by
          rw [List.drop_append, List.drop_eq_nil_of_le hlength, List.nil_append]
    have hplain' : ∀ p ∈ dropVoidEnd ((dropComponents ((c :: cs).length - first.toList.length)
        ps).dropWhile isVoid), '/' ∉ p.toList := fun p hp =>
      hplain p ((dropComponents_isSuffix _ ps).subset
        ((List.dropWhile_suffix isVoid).subset ((dropVoidEnd_isPrefix _).subset hp)))
    refine ⟨_, rfl, ?_⟩
    rw [solid_pieces_join hplain', solid_dropVoidEnd, solid_dropWhile, solid_dropComponents, hrest,
      body_eq, ← List.map_drop, filterMap_ofPiece]

/-! ### Paths put together from a root and names -/

/-- How a path that is not empty starts. -/
lemma start_cases {ws : List String} (hne : ws ≠ []) (hblank : ws ≠ [""]) :
    (∃ v vs, ws = "" :: v :: vs) ∨ (∃ vs, ws = "." :: vs) ∨
      ∃ w vs, ws = w :: vs ∧ isVoid w = false ∧ ∀ ys, start (w :: ys) = (none, w :: ys) := by
  obtain ⟨w, vs, rfl⟩ := List.exists_cons_of_ne_nil hne
  by_cases hempty : w = ""
  · subst hempty
    obtain ⟨v, vs, rfl⟩ := List.exists_cons_of_ne_nil (l := vs) (by rintro rfl; exact hblank rfl)
    exact Or.inl ⟨v, vs, rfl⟩
  · by_cases hdot : w = "."
    · exact Or.inr (Or.inl ⟨vs, by rw [hdot]⟩)
    · refine Or.inr (Or.inr ⟨w, vs, rfl, by simp [isVoid, hempty, hdot], fun ys => ?_⟩)
      simp [start, hempty, hdot]

lemma start_append {ws : List String} (hne : ws ≠ []) (hblank : ws ≠ [""]) (ys : List String) :
    start (ws ++ ys) = ((start ws).1, (start ws).2 ++ ys) := by
  obtain ⟨v, vs, rfl⟩ | ⟨vs, rfl⟩ | ⟨w, vs, rfl, -, hstart⟩ := start_cases hne hblank
  · rfl
  · rfl
  · rw [List.cons_append, hstart, hstart, List.cons_append]

lemma pieces_ne_nil (path : String) : pieces path ≠ [] := Text.split_ne_nil "/" path

lemma pieces_ne_blank {root : String} (h : root ≠ "") : pieces root ≠ [""] := by
  intro hblank
  have hjoin := Text.join_split "/" root
  rw [← pieces, hblank] at hjoin
  exact h hjoin.symm

lemma components_ne_nil {root : String} (h : root ≠ "") : components root ≠ [] := by
  rw [components_eq]
  obtain ⟨v, vs, hp⟩ | ⟨vs, hp⟩ | ⟨w, vs, hp, hsolid, hstart⟩ :=
    start_cases (pieces_ne_nil root) (pieces_ne_blank h)
  · simp [hp, start]
  · simp [hp, start]
  · simp [hp, hstart, body_eq, solid_cons_of_not_void hsolid]

variable {root : String} {names : List String}

/-- The pieces of a root and of a path put together from it start alike. -/
lemma exists_start_append (hroot : root ≠ "") (hne : names ≠ [])
    (hnames : ∀ n ∈ names, IsName n) :
    ∃ first ps tail, solid tail = [] ∧ start (pieces root) = (first, ps ++ tail) ∧
      start (pieces (append root (Text.join "/" names))) = (first, ps ++ names) := by
  have hplain : pieces (Text.join "/" names) = names :=
    pieces_join hne fun n hn => (hnames n hn).slash
  unfold append
  split
  · next hslash =>
    -- the root ends with a slash, and its last piece is void
    obtain ⟨cs, hcs⟩ := List.getLast?_eq_some_iff.mp (eq_of_beq hslash)
    obtain rfl : root = String.ofList cs ++ "/" := by
      rw [← String.toList_inj, hcs]
      simp
    have hends : pieces (String.ofList cs ++ "/") = pieces (String.ofList cs) ++ [""] := by
      rw [← String.append_empty (s := String.ofList cs ++ "/"), pieces_append]
      rfl
    rw [pieces_append, hends, hplain]
    by_cases hblank : pieces (String.ofList cs) = [""]
    · obtain ⟨n, names, rfl⟩ := List.exists_cons_of_ne_nil hne
      exact ⟨some .root, [], [""], rfl, by rw [hblank]; rfl, by rw [hblank]; rfl⟩
    · exact ⟨_, _, [""], rfl, start_append (pieces_ne_nil _) hblank _,
        start_append (pieces_ne_nil _) hblank _⟩
  · rw [pieces_append, hplain]
    exact ⟨(start (pieces root)).1, (start (pieces root)).2, [], rfl, by simp,
      start_append (pieces_ne_nil _) (pieces_ne_blank hroot) _⟩

/-- **A path put together from a root and names is below the root by these names**, and shows just
them. -/
lemma below_append (hroot : root ≠ "") (hne : names ≠ []) (hnames : ∀ n ∈ names, IsName n) :
    IsBelow root (append root (Text.join "/" names)) names ∧
      below? root (append root (Text.join "/" names)) = some (Text.join "/" names) := by
  obtain ⟨first, ps, tail, htail, hstart, hstart'⟩ := exists_start_append hroot hne hnames
  have hbody : components root = first.toList ++ body ps := by
    rw [components_eq, hstart, body_append, body_eq tail, htail]
    simp
  have hthrough : components (append root (Text.join "/" names)) =
      components root ++ names.map .name := by
    rw [components_eq, hstart', body_append, body_of_names hnames, hbody, List.append_assoc]
  refine ⟨⟨hthrough, hne⟩, ?_⟩
  have hprefix : (components root).isPrefixOf
      (components (append root (Text.join "/" names))) = true :=
    List.isPrefixOf_iff_prefix.mpr ⟨_, hthrough.symm⟩
  have htaken : (components root).length - first.toList.length = (solid ps).length := by
    rw [hbody, body_eq]
    simp
  have hsolid : ∀ n ∈ names, isVoid n = false := fun n hn => (hnames n hn).solid
  rw [below?, if_pos hprefix]
  simp only [hstart']
  split
  · next hnil => exact absurd hnil (components_ne_nil hroot)
  · rw [htaken, dropWhile_dropComponents, dropWhile_of_solid hsolid, dropVoidEnd_of_solid hsolid]

end TypeCoupling.Path
