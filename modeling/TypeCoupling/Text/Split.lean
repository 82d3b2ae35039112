/-!
# Splitting at a delimiter

A text is cut at the leftmost copies of a delimiter that do not overlap. The empty delimiter
stands before, between and after all characters. Joining the pieces with the delimiter gives the
text back (`join_split`).
-/

namespace TypeCoupling.Text

def consPiece (c : Char) : List (List Char) → List (List Char)
  | [] => [[c]]
  | p :: ps => (c :: p) :: ps

/-- The pieces of a text between the copies of `d`; the first `skip` characters belong to a copy
that has been met already. -/
def cut (d : List Char) : List Char → (skip : Nat) → List (List Char)
  | [], _ => [[]]
  | _ :: s, n + 1 => cut d s n
  | c :: s, 0 =>
    if d.isPrefixOf (c :: s) then [] :: cut d s (d.length - 1)
    else consPiece c (cut d s 0)

def pieces (d s : List Char) : List (List Char) :=
  match d with
  | [] => [] :: (s.map ([·]) ++ [[]])
  | _ :: _ => cut d s 0

/-- The pieces of `s` between the copies of the delimiter `d`. -/
def split (d s : String) : List String :=
  (pieces d.toList s.toList).map String.ofList

/-- The pieces one after another with the delimiter between them. -/
def join (d : String) : List String → String
  | [] => ""
  | [p] => p
  | p :: q :: ps => p ++ d ++ join d (q :: ps)

/-- What follows the rightmost copy of the delimiter `d`, the whole text if there is none. -/
def lastPiece (d s : String) : String :=
  String.ofList ((pieces d.toList.reverse s.toList.reverse).headD []).reverse

/-- What follows `p` at the start of `s`. -/
def afterStart? (p s : List Char) : Option (List Char) :=
  if p.isPrefixOf s then some (s.drop p.length) else none

def dropStart? (p s : String) : Option String :=
  (afterStart? p.toList s.toList).map String.ofList

def dropEnd? (p s : String) : Option String :=
  (afterStart? p.toList.reverse s.toList.reverse).map (String.ofList ·.reverse)

def dropCopies (d s : List Char) : List Char :=
  if _h : d ≠ [] ∧ d.isPrefixOf s then dropCopies d (s.drop d.length) else s
termination_by s.length
decreasing_by
  have hd : 0 < d.length := List.length_pos_iff.2 _h.1
  have hs : d.length ≤ s.length := (List.isPrefixOf_iff_prefix.1 _h.2).length_le
  simp only [List.length_drop]
  omega

def dropStartCopies (d s : String) : String :=
  String.ofList (dropCopies d.toList s.toList)

def dropEndCopies (d s : String) : String :=
  String.ofList (dropCopies d.toList.reverse s.toList.reverse).reverse

@[simp] theorem join_nil (d : String) : join d [] = "" := rfl

@[simp] theorem join_singleton (d p : String) : join d [p] = p := rfl

theorem cut_ne_nil (d s : List Char) (n : Nat) : cut d s n ≠ [] := by
  fun_induction cut d s n with
  | case1 => simp
  | case2 _ _ _ ih => exact ih
  | case3 => simp
  | case4 _ s _ _ => cases h : cut d s 0 <;> simp [consPiece]

def joinChars (d : List Char) : List (List Char) → List Char
  | [] => []
  | [p] => p
  | p :: q :: ps => p ++ d ++ joinChars d (q :: ps)

@[simp] theorem toList_join (d : String) (ps : List (List Char)) :
    (join d (ps.map String.ofList)).toList = joinChars d.toList ps := by
  induction ps with
  | nil => simp [joinChars]
  | cons p ps ih =>
    cases ps with
    | nil => simp [joinChars]
    | cons q qs =>
      simp only [List.map_cons, join, joinChars, String.toList_append, String.toList_ofList]
      rw [← ih, List.map_cons]

theorem joinChars_consPiece (d : List Char) (c : Char) (ps : List (List Char)) (h : ps ≠ []) :
    joinChars d (consPiece c ps) = c :: joinChars d ps := by
  match ps, h with
  | [p], _ => rfl
  | p :: q :: qs, _ => simp [consPiece, joinChars]

theorem joinChars_nil_cons (d : List Char) (ps : List (List Char)) (h : ps ≠ []) :
    joinChars d ([] :: ps) = d ++ joinChars d ps := by
  match ps, h with
  | q :: qs, _ => simp [joinChars]

theorem joinChars_cut (d s : List Char) (n : Nat) (hd : d ≠ []) :
    joinChars d (cut d s n) = s.drop n := by
  fun_induction cut d s n with
  | case1 => simp [joinChars]
  | case2 _ _ _ ih => simpa using ih
  | case3 c s h ih =>
    rw [joinChars_nil_cons _ _ (cut_ne_nil _ _ _), ih]
    obtain ⟨t, ht⟩ := List.isPrefixOf_iff_prefix.1 h
    match d, hd with
    | a :: d, _ =>
      obtain ⟨rfl, rfl⟩ : a = c ∧ d ++ t = s := by simpa using ht
      simp
  | case4 c s h ih => rw [joinChars_consPiece _ _ _ (cut_ne_nil _ _ _), ih]; simp

theorem joinChars_singletons (s : List Char) : joinChars [] (s.map ([·]) ++ [[]]) = s := by
  induction s with
  | nil => rfl
  | cons c s ih =>
    cases s with
    | nil => rfl
    | cons b s => simpa [joinChars] using ih

theorem joinChars_pieces (d s : List Char) : joinChars d (pieces d s) = s := by
  cases d with
  | nil => rw [pieces, joinChars_nil_cons _ _ (by simp), joinChars_singletons]; rfl
  | cons a d => simpa [pieces] using joinChars_cut (a :: d) s 0 (by simp)

/-- Joining the pieces of a text with the delimiter gives the text back. -/
@[simp] theorem join_split (d s : String) : join d (split d s) = s := by
  rw [← String.toList_inj, split, toList_join, joinChars_pieces]

theorem pieces_ne_nil (d s : List Char) : pieces d s ≠ [] := by
  cases d with
  | nil => simp [pieces]
  | cons a d => simpa [pieces] using cut_ne_nil (a :: d) s 0

theorem split_ne_nil (d s : String) : split d s ≠ [] := by
  simpa [split] using pieces_ne_nil d.toList s.toList

end TypeCoupling.Text
