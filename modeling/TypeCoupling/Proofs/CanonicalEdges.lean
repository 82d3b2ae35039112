import Mathlib
import TypeCoupling.Proofs.EdgeOrder

/-!
The edges of a tree in order are a normal form of the tree.

Texts are compared by characters, which is the same as comparing their bytes: of two characters the
smaller one has the smaller byte where their codes first differ, and no code is the start of
another. So edges are in order by their fields one after another, texts by bytes and kinds by rank
(`Precedes`). A list in that order is determined by its elements, so trees that hold the same
edges, in whatever files, order and number, give one list.
-/

namespace TypeCoupling

namespace Text

/-! ### Texts and their bytes -/

/-- The bytes of a text. -/
def bytes (s : String) : List UInt8 := s.toUTF8.data.toList

lemma bytes_eq_flatMap (s : String) : bytes s = s.toList.flatMap String.utf8EncodeChar := by
  rw [bytes, String.toUTF8_eq_toByteArray, ← String.utf8Encode_toList, List.utf8Encode,
    List.toList_data_toByteArray]

lemma bytes_inj {a b : String} : bytes a = bytes b ↔ a = b := by
  rw [bytes, bytes, Array.toList_inj, ← ByteArray.ext_iff, String.toUTF8_eq_toByteArray,
    String.toUTF8_eq_toByteArray, String.toByteArray_inj]

lemma byte_cons_lt_cons_iff {x y : Nat} (hx : x < 256) (hy : y < 256) {s t : List UInt8} :
    UInt8.ofNat x :: s < UInt8.ofNat y :: t ↔ x < y ∨ x = y ∧ s < t := by
  rw [List.cons_lt_cons_iff, UInt8.lt_iff_toNat_lt, ← UInt8.toNat_inj,
    UInt8.toNat_ofNat_of_lt' hx, UInt8.toNat_ofNat_of_lt' hy]

/-- The smaller of two numbers is smaller in the first of their groups of six bits that differ. -/
lemma lt_sextets {v w : Nat} (h : v < w) :
    v / 262144 < w / 262144 ∨ v / 262144 = w / 262144 ∧ v / 4096 < w / 4096 ∨
      v / 4096 = w / 4096 ∧ v / 64 < w / 64 ∨ v / 64 = w / 64 ∧ v % 64 < w % 64 := by
  omega

/-- **Step**: the codes of different characters decide, whatever follows them. -/
lemma encode_append_lt {c d : Char} (h : c < d) (s t : List UInt8) :
    String.utf8EncodeChar c ++ s < String.utf8EncodeChar d ++ t := by
  have hlt : c.val.toNat < d.val.toNat := h
  have hd : d.val.toNat < 0x110000 := by
    rcases d.valid with hd | hd
    · exact Nat.lt_trans hd (by decide)
    · exact hd.2
  unfold String.utf8EncodeChar
  generalize c.val.toNat = v at hlt
  generalize d.val.toNat = w at hlt hd
  dsimp only
  -- codes of different lengths differ in their first bytes, codes of one length in some sextet
  split_ifs <;>
    simp (disch := omega) only [List.cons_append, List.nil_append, byte_cons_lt_cons_iff] <;>
    rcases lt_sextets hlt with h₁ | h₂ | h₃ | h₄ <;>
    omega

/-- **Run**: characters in order have bytes in order. -/
lemma flatMap_encode_lt {a b : List Char} (h : a < b) :
    a.flatMap String.utf8EncodeChar < b.flatMap String.utf8EncodeChar := by
  induction a generalizing b with
  | nil =>
    rcases b with _ | ⟨d, b⟩
    · exact absurd h (List.not_lt_nil _)
    · obtain ⟨x, xs, hx⟩ := List.exists_cons_of_ne_nil (String.utf8EncodeChar_ne_nil (c := d))
      rw [List.flatMap_nil, List.flatMap_cons, hx]
      exact List.nil_lt_cons _ _
  | cons c a ih =>
    rcases b with _ | ⟨d, b⟩
    · exact absurd h (List.not_lt_nil _)
    · rw [List.flatMap_cons, List.flatMap_cons]
      rcases List.cons_lt_cons_iff.mp h with hlt | ⟨rfl, hlt⟩
      · exact encode_append_lt hlt _ _
      · exact List.append_left_lt (ih hlt)

/-- **Texts are ordered by their bytes.** -/
lemma bytes_lt_iff {a b : String} : bytes a < bytes b ↔ a < b := by
  have hmono : ∀ {a b : String}, a < b → bytes a < bytes b := by
    intro a b h
    rw [bytes_eq_flatMap, bytes_eq_flatMap]
    exact flatMap_encode_lt (String.lt_iff.mp h)
  refine ⟨fun h => ?_, hmono⟩
  rcases lt_trichotomy a b with hlt | rfl | hgt
  · exact hlt
  · exact absurd h (List.lt_irrefl _)
  · exact absurd (hmono hgt) (List.lt_asymm h)

end Text

/-! ### The order of edges, field by field -/

/-- The place of a kind among the kinds. -/
def UsageKind.rank : UsageKind → Nat
  | usage => 0
  | extension => 1
  | implementation => 2

lemma UsageKind.compare_eq_lt_iff {a b : UsageKind} : compare a b = .lt ↔ a.rank < b.rank := by
  cases a <;> cases b <;> decide

namespace Relationship

/-- The bytes of the texts of an edge, field after field. -/
def texts (r : Relationship) : List (List UInt8) :=
  [r.fromName, r.fromFile, r.fromType, r.toName, r.toFile, r.toType].map Text.bytes

/-- The first edge stands before the second by their texts, or by their kinds if the texts are the
same. -/
def Precedes (a b : Relationship) : Prop :=
  a.texts < b.texts ∨ a.texts = b.texts ∧ a.kind.rank < b.kind.rank

instance (a b : Relationship) : Decidable (a.Precedes b) :=
  inferInstanceAs (Decidable (_ ∨ _))

lemma order_eq_lt_iff {a b : Relationship} : order a b = .lt ↔ a.Precedes b := by
  have hlt : ∀ s t : String, compare s t = .lt ↔ s < t := fun s t => compareOfLessAndEq_eq_lt
  simp only [order, Precedes, texts, Ordering.then_eq_lt, UsageKind.compare_eq_lt_iff, hlt,
    Std.LawfulEqCmp.compare_eq_iff_eq, List.map_cons, List.map_nil, List.cons_lt_cons_iff,
    List.cons.injEq, Text.bytes_lt_iff, Text.bytes_inj, and_true]
  grind

end Relationship

/-! ### The normal form of a tree -/

namespace Tree

lemma flatten_pairwise (t : Tree) : t.flatten.Pairwise Relationship.Precedes :=
  (sortDistinct_pairwise Relationship.order _).imp Relationship.order_eq_lt_iff.mp

/-- A list in order is determined by its elements. -/
lemma eq_of_pairwise_precedes {l l' : List Relationship} (h : l.Pairwise Relationship.Precedes)
    (h' : l'.Pairwise Relationship.Precedes) (hmem : ∀ r, r ∈ l ↔ r ∈ l') : l = l' :=
  eq_of_pairwise_lt (h.imp Relationship.order_eq_lt_iff.mpr)
    (h'.imp Relationship.order_eq_lt_iff.mpr) hmem

/-- **The edges in order are a normal form.** They stand in strictly increasing order and are
those that the tree holds; no other list has these two properties, and two trees have one list of
edges if and only if they hold the same edges. -/
theorem flatten_is_normal_form (t : Tree) :
    t.flatten.Pairwise Relationship.Precedes ∧
      (∀ r, r ∈ t.flatten ↔ ∃ file, r ∈ t.edges file) ∧
      (∀ l : List Relationship, l = t.flatten ↔
        l.Pairwise Relationship.Precedes ∧ ∀ r, r ∈ l ↔ ∃ file, r ∈ t.edges file) ∧
      ∀ t' : Tree, t'.flatten = t.flatten ↔
        ∀ r, (∃ file, r ∈ t'.edges file) ↔ ∃ file, r ∈ t.edges file := by
  have hunique : ∀ l : List Relationship, l = t.flatten ↔
      l.Pairwise Relationship.Precedes ∧ ∀ r, r ∈ l ↔ ∃ file, r ∈ t.edges file := by
    intro l
    constructor
    · rintro rfl
      exact ⟨flatten_pairwise t, fun r => mem_flatten⟩
    · rintro ⟨hl, hmem⟩
      exact eq_of_pairwise_precedes hl (flatten_pairwise t) fun r => by rw [hmem, mem_flatten]
  refine ⟨flatten_pairwise t, fun r => mem_flatten, hunique, fun t' => ?_⟩
  rw [hunique]
  constructor
  · rintro ⟨-, hmem⟩ r
    rw [← mem_flatten, hmem]
  · intro hsame
    exact ⟨flatten_pairwise t', fun r => by rw [mem_flatten, hsame]⟩

end Tree

end TypeCoupling
