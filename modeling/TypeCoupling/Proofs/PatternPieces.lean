import Mathlib
import TypeCoupling.Proofs.PatternEnds

/-!
Splitting is stable.

Whatever a text holds, each bracket that opens a pattern gives one piece, and the pieces stand in
the text one behind another. What is taken off behind a piece is a gap, so a line break in its place
leads the scan back to where it started, as the gap did. Pieces written line by line are therefore
cut apart where they were joined.
-/

namespace TypeCoupling.Query

open Text (isBlank)
open Scan

/-! ### Places of patterns -/

/-- The places of the characters that start a pattern. -/
def Scan.startsIn (s : Scan) (cs : List Char) : List Nat :=
  (List.range cs.length).filter fun i => cs[i]?.any (s.after (cs.take i)).starts

/-- The places of texts that stand one behind another, the first of them at `n`. -/
def places (n : Nat) : List (List Char) → List Nat
  | [] => []
  | chunk :: chunks => n :: places (n + chunk.length) chunks

variable {s : Scan} {lead : List Char} {chunks : List (List Char)}

lemma startsIn_cons (s : Scan) (c : Char) (cs : List Char) :
    s.startsIn (c :: cs) =
      (if s.starts c then [0] else []) ++ ((s.step c).startsIn cs).map (· + 1) := by
  have hrest : (List.map Nat.succ (List.range cs.length)).filter
      (fun i => (c :: cs)[i]?.any (s.after ((c :: cs).take i)).starts) =
        ((s.step c).startsIn cs).map (· + 1) := by
    rw [List.filter_map]
    rfl
  rw [Scan.startsIn, List.length_cons, List.range_succ_eq_map, List.filter_cons, hrest]
  by_cases hstarts : s.starts c = true <;> simp [hstarts]

lemma startsIn_append {a : List Char} (h : s.Quiet a) (b : List Char) :
    s.startsIn (a ++ b) = ((s.after a).startsIn b).map (· + a.length) := by
  induction a generalizing s with
  | nil => simp
  | cons c a ih =>
    rw [List.cons_append, startsIn_cons, h.1, ih h.2, List.map_map]
    simp [Function.comp_def, Nat.add_assoc]

lemma map_add_places (n k : Nat) (chunks : List (List Char)) :
    (places n chunks).map (· + k) = places (n + k) chunks := by
  induction chunks generalizing n with
  | nil => rfl
  | cons chunk chunks ih => rw [places, List.map_cons, ih, places, Nat.add_right_comm]

/-- **Patterns start where chunks do.** -/
lemma startsIn_of_chunks (hlead : s.Quiet lead) (hback : chunks ≠ [] → s.after lead = start)
    (h : Chunks chunks) : s.startsIn (lead ++ chunks.flatten) = places lead.length chunks := by
  induction h generalizing s lead with
  | nil => rw [startsIn_append hlead]; rfl
  | @cons c rest chunks hopen hquiet hback' h ih =>
    have hstart : s.after lead = start := hback (List.cons_ne_nil _ _)
    have hstarts : start.starts c = true := starts_iff.mpr ⟨rfl, hopen⟩
    rw [startsIn_append hlead, hstart, List.flatten_cons, List.cons_append, startsIn_cons, hstarts,
      ih hquiet hback', List.map_append, map_add_places, map_add_places, places]
    simp [Nat.add_comm, Nat.add_left_comm]

lemma forall₂_places {text before : List Char} (htext : text = before ++ chunks.flatten)
    (hpieces : ∀ chunk ∈ chunks, (dropIdleEnd chunk).toList <+: chunk) :
    List.Forall₂ (fun i p => p.toList <+: text.drop i) (places before.length chunks)
      (chunks.map dropIdleEnd) := by
  induction chunks generalizing before with
  | nil => exact .nil
  | cons chunk chunks ih =>
    obtain ⟨hpiece, hpieces⟩ := List.forall_mem_cons.mp hpieces
    refine .cons ?_ ?_
    · rw [htext, List.drop_left, List.flatten_cons]
      exact hpiece.trans (List.prefix_append _ _)
    · rw [← List.length_append]
      exact ih (by simp [htext]) hpieces

lemma le_of_mem_places {n i : Nat} (h : i ∈ places n chunks) : n ≤ i := by
  induction chunks generalizing n with
  | nil => simp [places] at h
  | cons chunk chunks ih =>
    rcases List.mem_cons.mp h with rfl | h
    · exact Nat.le_refl _
    · exact Nat.le_trans (Nat.le_add_right _ _) (ih h)

lemma places_disjoint (n : Nat)
    (hpieces : ∀ chunk ∈ chunks, (dropIdleEnd chunk).toList <+: chunk) :
    ((places n chunks).zip (chunks.map dropIdleEnd)).Pairwise
      fun a b => a.1 + a.2.length ≤ b.1 := by
  induction chunks generalizing n with
  | nil => exact .nil
  | cons chunk chunks ih =>
    obtain ⟨hpiece, hpieces⟩ := List.forall_mem_cons.mp hpieces
    refine .cons (fun b hb => ?_) (ih _ hpieces)
    have hplace := le_of_mem_places (List.of_mem_zip hb).1
    have hlength := hpiece.length_le
    rw [String.length_toList] at hlength
    change n + (dropIdleEnd chunk).length ≤ b.1
    omega

/-! ### Pieces and gaps -/

lemma inLiteral_after_blanks {blanks : List Char} (hs : s.inLiteral = true)
    (hblank : ∀ b ∈ blanks, isBlank b = true) : (s.after blanks).inLiteral = true := by
  induction blanks generalizing s with
  | nil => exact hs
  | cons b blanks ih =>
    obtain ⟨hb, hblank⟩ := List.forall_mem_cons.mp hblank
    refine ih ?_ hblank
    have hquote : b ≠ '\x22' := by
      rintro rfl
      exact absurd hb (by decide)
    have hescape : b ≠ '\\' := by
      rintro rfl
      exact absurd hb (by decide)
    obtain ⟨mode, depth⟩ := s
    cases mode with
    | code => simp [inLiteral] at hs
    | comment => simp [inLiteral] at hs
    | literal => simp [inLiteral, step, hquote, hescape]
    | escape => simp [inLiteral, step]

lemma after_blanks {blanks : List Char} (hs : s.inLiteral = false)
    (hblank : ∀ b ∈ blanks, isBlank b = true) (hbreak : '\n' ∉ blanks) : s.after blanks = s := by
  obtain ⟨mode, depth⟩ := s
  cases mode with
  | code => exact (reads_blanks hblank depth).after
  | comment => exact (reads_comment_text hbreak).after
  | literal => simp [inLiteral] at hs
  | escape => simp [inLiteral] at hs

/-- **A line break does what a gap did**: behind a piece it leads back to the start. -/
lemma step_break_of_gap {gap : List Char} (hgap : IsGap gap) (hlines : s.WithinLines gap)
    (hback : s.after gap = start) : s.step '\n' = start := by
  obtain ⟨blanks, hblank, hbreak, hgap⟩ := hgap
  by_cases hs : s.inLiteral = true
  · -- a gap does not end a literal, and the literal does not go over the end of the line
    have hblanks := inLiteral_after_blanks hs hblank
    rcases hgap with rfl | ⟨idle, rfl, -⟩
    · rw [hback] at hblanks
      exact absurd hblanks (by decide)
    · rw [(withinLines_append.mp hlines).2.1 rfl] at hblanks
      exact absurd hblanks (by decide)
  · rw [Bool.not_eq_true] at hs
    have hdepth : s.depth = 0 := by
      rcases hgap with rfl | ⟨idle, rfl, hidle⟩
      · rw [after_blanks hs hblank hbreak] at hback
        rw [hback]
        rfl
      · rw [after_append, after_blanks hs hblank hbreak, after_cons, step_break hs] at hback
        have hdepth := depth_after_idleLines hidle s.depth
        rw [hback] at hdepth
        exact hdepth.symm
    rw [step_break hs, hdepth, start_eq]

/-! ### Joined pieces -/

/-- Texts on lines of their own, each but the last with the end of its line. -/
def onLines : List (List Char) → List (List Char)
  | [] => []
  | [p] => [p]
  | p :: q :: ps => (p ++ ['\n']) :: onLines (q :: ps)

lemma flatten_onLines (ps : List (List Char)) :
    (onLines ps).flatten = Text.joinChars ['\n'] ps := by
  fun_induction onLines ps with
  | case1 => rfl
  | case2 p => simp [Text.joinChars]
  | case3 p q ps ih => rw [List.flatten_cons, ih, Text.joinChars]

/-- The end of a line is taken off again. -/
lemma map_dropIdleEnd_onLines {ps : List (List Char)}
    (h : ∀ p ∈ ps, EndsTidy p ∧ ∀ c ∈ p.head?, isBlank c = false) :
    (onLines ps).map dropIdleEnd = ps.map String.ofList := by
  fun_induction onLines ps with
  | case1 => rw [List.map_nil, List.map_nil]
  | case2 p =>
    obtain ⟨hp, hhead⟩ := h p (List.mem_singleton_self p)
    have hpiece := dropIdleEnd_append hp hhead isGap_nil
    rw [List.append_nil] at hpiece
    rw [List.map_singleton, List.map_singleton, hpiece]
  | case3 p q ps ih =>
    obtain ⟨⟨hp, hhead⟩, hps⟩ := List.forall_mem_cons.mp h
    rw [List.map_cons, List.map_cons, ih hps,
      dropIdleEnd_append hp hhead (isGap_break idleLines_nil)]

/-- A chunk without the gap behind it. -/
def piece (chunk : List Char) : List Char := (dropIdleEnd chunk).toList

lemma map_ofList_piece (chunks : List (List Char)) :
    (chunks.map piece).map String.ofList = chunks.map dropIdleEnd := by
  rw [List.map_map]
  exact List.map_congr_left fun chunk _ => String.ofList_toList

/-- What is left of a chunk: it starts with the same bracket and ends tidily, a gap follows it in
the chunk, and no other pattern starts in it. -/
lemma Chunks.exists_piece (h : Chunks chunks) : ∀ chunk ∈ chunks, ∃ c p gap,
    chunk = (c :: p) ++ gap ∧ piece chunk = c :: p ∧ isOpening c = true ∧ EndsTidy (c :: p) ∧
      IsGap gap ∧ (start.step c).Quiet p := by
  intro chunk hchunk
  obtain ⟨c, rest, rfl, hopen, hquiet⟩ := h.exists_cons chunk hchunk
  obtain ⟨p, gap, rfl, htidy, hgap, hpiece⟩ := Query.exists_piece hopen rest
  refine ⟨c, p, gap, rfl, ?_, hopen, htidy, hgap, (quiet_append.mp hquiet).1⟩
  rw [piece, hpiece, String.toList_ofList]

lemma Chunks.piece_isPrefix (h : Chunks chunks) :
    ∀ chunk ∈ chunks, (dropIdleEnd chunk).toList <+: chunk := by
  intro chunk hchunk
  obtain ⟨c, p, gap, rfl, hpiece, -⟩ := h.exists_piece chunk hchunk
  exact ⟨gap, congrArg (· ++ gap) hpiece⟩

lemma Chunks.piece_tidy (h : Chunks chunks) :
    ∀ p ∈ chunks.map piece, EndsTidy p ∧ ∀ c ∈ p.head?, isBlank c = false := by
  intro p hp
  obtain ⟨chunk, hchunk, rfl⟩ := List.mem_map.mp hp
  obtain ⟨c, p, gap, -, hpiece, hopen, htidy, -⟩ := h.exists_piece chunk hchunk
  rw [hpiece]
  exact ⟨htidy, by simpa using not_blank_of_isOpening hopen⟩

lemma Chunks.withinLines (h : Chunks chunks) (hlines : start.WithinLines chunks.flatten) :
    ∀ chunk ∈ chunks, start.WithinLines chunk := by
  induction h with
  | nil => simp
  | @cons c rest chunks _ _ hback _ ih =>
    rw [List.flatten_cons, withinLines_append] at hlines
    refine List.forall_mem_cons.mpr ⟨hlines.1, ?_⟩
    rcases eq_or_ne chunks [] with rfl | hne
    · simp
    · exact ih (hback hne ▸ hlines.2)

/-- **Pieces on lines of their own are chunks again.** -/
lemma Chunks.onLines (h : Chunks chunks) (hlines : ∀ chunk ∈ chunks, start.WithinLines chunk) :
    Chunks (onLines (chunks.map piece)) := by
  induction h with
  | nil => exact .nil
  | @cons c rest chunks hopen hquiet hback h ih =>
    obtain ⟨hline, hrest⟩ := List.forall_mem_cons.mp hlines
    obtain ⟨d, p, gap, htext, hpiece, -, -, hgap, hquiet'⟩ :=
      (Chunks.cons hopen hquiet hback h).exists_piece (c :: rest) List.mem_cons_self
    obtain ⟨rfl, rfl⟩ : c = d ∧ rest = p ++ gap := by simpa using htext
    rcases eq_or_ne chunks [] with rfl | hne
    · rw [List.map_singleton, hpiece]
      exact .cons hopen hquiet' (fun hne => absurd rfl hne) .nil
    · have hnext := ih hrest
      obtain ⟨chunk, chunks, rfl⟩ := List.exists_cons_of_ne_nil hne
      rw [List.map_cons, List.map_cons, hpiece, Query.onLines, List.cons_append]
      refine .cons hopen ?_ (fun _ => ?_) hnext
      · rw [quiet_append]
        exact ⟨hquiet', starts_of_not_opening (by decide), trivial⟩
      · have hchunk := hback hne
        rw [htext, after_append] at hchunk
        rw [htext, withinLines_append] at hline
        rw [← List.cons_append, after_append]
        exact step_break_of_gap hgap hline.2 hchunk

lemma splitPatterns_piece (h : Chunks chunks) : ∀ p ∈ chunks.map dropIdleEnd, p ≠ "" ∧
    (p.toList.head? = some '(' ∨ p.toList.head? = some '[') ∧ splitPatterns p = [p] := by
  intro q hq
  obtain ⟨chunk, hchunk, rfl⟩ := List.mem_map.mp hq
  obtain ⟨c, p, gap, -, hpiece, hopen, htidy, -, hquiet⟩ := h.exists_piece chunk hchunk
  have hchars : (dropIdleEnd chunk).toList = c :: p := hpiece
  refine ⟨fun hempty => ?_, ?_, ?_⟩
  · rw [hempty] at hchars
    exact absurd hchars (by simp)
  · rw [hchars]
    simpa [isOpening] using hopen
  · have hsingle : Chunks [c :: p] := .cons hopen hquiet (fun hne => absurd rfl hne) .nil
    have htext : (dropIdleEnd chunk).toList = [] ++ [c :: p].flatten := by simp [hchars]
    rw [splitPatterns_of_chunks htext trivial (fun _ => rfl) hsingle]
    have hself := dropIdleEnd_append htidy (by simpa using not_blank_of_isOpening hopen) isGap_nil
    rw [List.append_nil, ← hchars, String.ofList_toList] at hself
    rw [List.map_singleton, ← hchars, hself]

lemma splitPatterns_join_pieces (h : Chunks chunks)
    (hlines : ∀ chunk ∈ chunks, start.WithinLines chunk) :
    splitPatterns (Text.join "\n" (chunks.map dropIdleEnd)) = chunks.map dropIdleEnd := by
  have htext : (Text.join "\n" (chunks.map dropIdleEnd)).toList =
      [] ++ (Query.onLines (chunks.map piece)).flatten := by
    rw [← map_ofList_piece, Text.toList_join, flatten_onLines]
    rfl
  rw [splitPatterns_of_chunks htext trivial (fun _ => rfl) (h.onLines hlines),
    map_dropIdleEnd_onLines h.piece_tidy, map_ofList_piece]

/-- **Splitting is stable.** If no literal goes over the end of a line, every piece of a text starts
with a bracket and is not split further; the brackets that open patterns are the places of the
pieces, which stand one behind another; and the pieces joined line by line are the pieces of what
they make up. -/
theorem splitPatterns_stable {source : String} (h : start.WithinLines source.toList) :
    (∀ p ∈ splitPatterns source, p ≠ "" ∧
      (p.toList.head? = some '(' ∨ p.toList.head? = some '[') ∧ splitPatterns p = [p]) ∧
    List.Forall₂ (fun i p => p.toList <+: source.toList.drop i) (start.startsIn source.toList)
      (splitPatterns source) ∧
    ((start.startsIn source.toList).zip (splitPatterns source)).Pairwise
      (fun a b => a.1 + a.2.length ≤ b.1) ∧
    splitPatterns (Text.join "\n" (splitPatterns source)) = splitPatterns source := by
  obtain ⟨lead, chunks, -, htext, hlead, hback, hchunks⟩ :=
    chunks_of_cutPatterns start source.toList
  have hsplit := splitPatterns_of_chunks htext hlead hback hchunks
  have hstarts : start.startsIn source.toList = places lead.length chunks := by
    rw [htext, startsIn_of_chunks hlead hback hchunks]
  have hlines : ∀ chunk ∈ chunks, start.WithinLines chunk := by
    rcases eq_or_ne chunks [] with rfl | hne
    · simp
    · rw [htext, withinLines_append, hback hne] at h
      exact hchunks.withinLines h.2
  rw [hsplit, hstarts]
  exact ⟨splitPatterns_piece hchunks, forall₂_places htext hchunks.piece_isPrefix,
    places_disjoint _ hchunks.piece_isPrefix, splitPatterns_join_pieces hchunks hlines⟩

/-- A bracket too many in front, brackets and quotes in comments, and a literal that is not
closed. -/
def raggedText : String := "x) (a \"]\" ; (\n b) @c ; end\n\n; idle (\n[d \"e  "

theorem splitPatterns_stable_ragged :
    start.WithinLines raggedText.toList ∧
      splitPatterns raggedText = ["(a \"]\" ; (\n b) @c ; end", "[d \"e"] ∧
      splitPatterns (Text.join "\n" (splitPatterns raggedText)) = splitPatterns raggedText := by
  have hlines : start.WithinLines raggedText.toList := by decide
  obtain ⟨-, -, -, hjoin⟩ := splitPatterns_stable hlines
  exact ⟨hlines, by cbv, hjoin⟩

end TypeCoupling.Query
