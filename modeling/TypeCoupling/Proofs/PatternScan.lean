import Mathlib
import TypeCoupling.Query.Patterns

/-!
How the scan for patterns goes over a query text, and where it cuts.

The scan cuts where a bracket opens a pattern, so a text comes apart into a lead in which no
pattern starts (`Quiet`) and texts that each start a pattern and lead the scan back to where it
started, except perhaps the last one (`Chunks`). Every text comes apart in one way only.
-/

namespace TypeCoupling.Query

namespace Scan

/-- Where a scan stands after a text. -/
def after (s : Scan) (cs : List Char) : Scan := cs.foldl step s

@[simp] lemma after_nil (s : Scan) : s.after [] = s := rfl

@[simp] lemma after_cons (s : Scan) (c : Char) (cs : List Char) :
    s.after (c :: cs) = (s.step c).after cs := rfl

lemma after_append (s : Scan) (a b : List Char) : s.after (a ++ b) = (s.after a).after b := by
  simp [after, List.foldl_append]

/-- No pattern starts in the text. -/
def Quiet (s : Scan) : List Char → Prop
  | [] => True
  | c :: cs => s.starts c = false ∧ Quiet (s.step c) cs

/-- The scan is in the middle of a literal. -/
def inLiteral (s : Scan) : Bool := s.mode == .literal || s.mode == .escape

/-- No line of the text ends in the middle of a literal. -/
def WithinLines (s : Scan) : List Char → Prop
  | [] => True
  | c :: cs => (c = '\n' → s.inLiteral = false) ∧ WithinLines (s.step c) cs

instance decidableWithinLines (s : Scan) : (cs : List Char) → Decidable (s.WithinLines cs)
  | [] => isTrue trivial
  | c :: cs => @instDecidableAnd _ _ _ (decidableWithinLines (s.step c) cs)

variable {s s' s'' : Scan} {c : Char} {a b cs : List Char}

lemma quiet_append : s.Quiet (a ++ b) ↔ s.Quiet a ∧ (s.after a).Quiet b := by
  induction a generalizing s with
  | nil => simp [Quiet]
  | cons c a ih => simp only [List.cons_append, Quiet, ih, after_cons, and_assoc]

lemma withinLines_append :
    s.WithinLines (a ++ b) ↔ s.WithinLines a ∧ (s.after a).WithinLines b := by
  induction a generalizing s with
  | nil => simp [WithinLines]
  | cons c a ih => simp only [List.cons_append, WithinLines, ih, after_cons, and_assoc]

/-- From `s` the scan goes over the text `cs` to `s'`, with no pattern started and no literal
broken. -/
structure Reads (s : Scan) (cs : List Char) (s' : Scan) : Prop where
  after : s.after cs = s'
  quiet : s.Quiet cs
  withinLines : s.WithinLines cs

lemma Reads.nil (s : Scan) : s.Reads [] s := ⟨rfl, trivial, trivial⟩

lemma Reads.append (h : s.Reads a s') (h' : s'.Reads b s'') : s.Reads (a ++ b) s'' where
  after := by rw [after_append, h.after, h'.after]
  quiet := by rw [quiet_append, h.after]; exact ⟨h.quiet, h'.quiet⟩
  withinLines := by rw [withinLines_append, h.after]; exact ⟨h.withinLines, h'.withinLines⟩

lemma Reads.cons (hstep : s.step c = s') (hstarts : s.starts c = false)
    (hline : c = '\n' → s.inLiteral = false) (h : s'.Reads cs s'') : s.Reads (c :: cs) s'' where
  after := by rw [after_cons, hstep, h.after]
  quiet := ⟨hstarts, hstep ▸ h.quiet⟩
  withinLines := ⟨hline, hstep ▸ h.withinLines⟩

/-! ### Steps -/

/-- The scan stands outside literals and comments, in a number of brackets. -/
def inCode (depth : Nat) : Scan := ⟨.code, depth⟩

lemma start_eq : start = inCode 0 := rfl

/-- A character that means nothing to the scan outside literals and comments. -/
def isPlain (c : Char) : Bool := c != ';' && c != '\x22' && !isOpening c && !isClosing c

lemma not_blank_of_isOpening (h : isOpening c = true) : Text.isBlank c = false := by
  have hbracket : c = '(' ∨ c = '[' := by simpa [isOpening] using h
  rcases hbracket with rfl | rfl <;> decide

lemma isPlain_of_isBlank (h : Text.isBlank c = true) : isPlain c = true := by
  by_contra hplain
  have hspecial : c = ';' ∨ c = '\x22' ∨ c = '(' ∨ c = '[' ∨ c = ')' ∨ c = ']' := by
    simp [isPlain, isOpening, isClosing] at hplain
    tauto
  rcases hspecial with rfl | rfl | rfl | rfl | rfl | rfl <;> exact absurd h (by decide)

variable {depth : Nat}

lemma step_plain (h : isPlain c = true) : (inCode depth).step c = inCode depth := by
  simp only [isPlain, Bool.and_eq_true, bne_iff_ne, Bool.not_eq_true'] at h
  simp [inCode, step, h]

lemma step_opening (h : isOpening c = true) : (inCode depth).step c = inCode (depth + 1) := by
  have hbracket : c = '(' ∨ c = '[' := by simpa [isOpening] using h
  rcases hbracket with rfl | rfl <;> simp [inCode, step, isOpening]

lemma step_closing (h : isClosing c = true) : (inCode depth).step c = inCode (depth - 1) := by
  have hbracket : c = ')' ∨ c = ']' := by simpa [isClosing] using h
  rcases hbracket with rfl | rfl <;> simp [inCode, step, isOpening, isClosing]

lemma starts_iff : s.starts c = true ↔ s = start ∧ isOpening c = true := by
  obtain ⟨mode, depth⟩ := s
  simp [starts, start, and_assoc]

lemma starts_inCode_succ (depth : Nat) (c : Char) : (inCode (depth + 1)).starts c = false := by
  simp [starts, inCode]

lemma starts_of_not_opening (h : isOpening c = false) : s.starts c = false := by
  simp [starts, h]

lemma starts_of_mode (h : s.mode ≠ .code) : s.starts c = false := by
  simp [starts, h]

lemma reads_plain (h : ∀ c ∈ cs, isPlain c = true) : (inCode depth).Reads cs (inCode depth) := by
  induction cs with
  | nil => exact Reads.nil _
  | cons c cs ih =>
    obtain ⟨hc, hcs⟩ := List.forall_mem_cons.mp h
    refine Reads.cons (step_plain hc) (starts_of_not_opening ?_) (fun _ => rfl) (ih hcs)
    simp only [isPlain, Bool.and_eq_true, Bool.not_eq_true'] at hc
    exact hc.1.2

/-- The rest of a line behind a semicolon. -/
lemma reads_comment_text (h : '\n' ∉ cs) :
    (⟨.comment, depth⟩ : Scan).Reads cs ⟨.comment, depth⟩ := by
  induction cs with
  | nil => exact Reads.nil _
  | cons c cs ih =>
    obtain ⟨hc, hcs⟩ : c ≠ '\n' ∧ '\n' ∉ cs := by simpa [eq_comm] using h
    exact Reads.cons (by simp [step, hc]) (starts_of_mode (by simp)) (fun _ => rfl) (ih hcs)

lemma reads_semicolon (h : '\n' ∉ cs) :
    (inCode depth).Reads (';' :: cs) ⟨.comment, depth⟩ :=
  Reads.cons (by simp [inCode, step]) (starts_of_not_opening (by decide)) (fun _ => rfl)
    (reads_comment_text h)

/-- A comment with the end of its line. -/
lemma reads_comment (h : '\n' ∉ cs) :
    (inCode depth).Reads (';' :: (cs ++ ['\n'])) (inCode depth) := by
  refine Reads.append (reads_semicolon h) ?_
  exact Reads.cons (by simp [inCode, step]) (starts_of_mode (by simp)) (fun _ => rfl)
    (Reads.nil _)

end Scan

/-! ### Cuts -/

open Scan

/-- Texts that each start a pattern, and all but the last of which lead the scan back to where it
started. -/
inductive Chunks : List (List Char) → Prop
  | nil : Chunks []
  | cons {c : Char} {rest : List Char} {chunks : List (List Char)} (hopen : isOpening c = true)
      (hquiet : (start.step c).Quiet rest)
      (hback : chunks ≠ [] → start.after (c :: rest) = start) (h : Chunks chunks) :
      Chunks ((c :: rest) :: chunks)

variable {s : Scan} {cs lead : List Char} {chunks : List (List Char)}

lemma Chunks.exists_cons (h : Chunks chunks) : ∀ chunk ∈ chunks, ∃ c rest, chunk = c :: rest ∧
    isOpening c = true ∧ (start.step c).Quiet rest := by
  induction h with
  | nil => simp
  | cons hopen hquiet _ _ ih =>
    exact List.forall_mem_cons.mpr ⟨⟨_, _, rfl, hopen, hquiet⟩, ih⟩

lemma cutPatterns_of_quiet (h : s.Quiet cs) : cutPatterns s cs = [cs] := by
  induction cs generalizing s with
  | nil => rfl
  | cons c cs ih =>
    rw [cutPatterns, h.1, ih h.2]
    rfl

lemma cutPatterns_append_starting {c : Char} (hlead : s.Quiet lead)
    (hstarts : (s.after lead).starts c = true) (cs : List Char) :
    cutPatterns s (lead ++ c :: cs) =
      lead :: Text.consPiece c (cutPatterns ((s.after lead).step c) cs) := by
  induction lead generalizing s with
  | nil => simp [cutPatterns, show s.starts c = true from hstarts]
  | cons b lead ih =>
    rw [List.cons_append, cutPatterns, hlead.1, ih hlead.2 hstarts]
    rfl

/-- **Chunks are cut apart.** -/
lemma cutPatterns_of_chunks (hlead : s.Quiet lead) (hback : chunks ≠ [] → s.after lead = start)
    (h : Chunks chunks) : cutPatterns s (lead ++ chunks.flatten) = lead :: chunks := by
  induction h generalizing s lead with
  | nil => rw [List.flatten_nil, List.append_nil, cutPatterns_of_quiet hlead]
  | @cons c rest chunks hopen hquiet hback' h ih =>
    have hstart : s.after lead = start := hback (List.cons_ne_nil _ _)
    have hstarts : (s.after lead).starts c = true := starts_iff.mpr ⟨hstart, hopen⟩
    rw [List.flatten_cons, List.cons_append, cutPatterns_append_starting hlead hstarts, hstart,
      ih hquiet hback']
    rfl

/-- **Every text comes apart into a lead and chunks.** -/
lemma chunks_of_cutPatterns (s : Scan) (cs : List Char) :
    ∃ lead chunks, cutPatterns s cs = lead :: chunks ∧ cs = lead ++ chunks.flatten ∧
      s.Quiet lead ∧ (chunks ≠ [] → s.after lead = start) ∧ Chunks chunks := by
  induction cs generalizing s with
  | nil => exact ⟨[], [], rfl, rfl, trivial, fun h => absurd rfl h, Chunks.nil⟩
  | cons c cs ih =>
    obtain ⟨lead, chunks, hcut, htext, hquiet, hback, hchunks⟩ := ih (s.step c)
    by_cases hstarts : s.starts c = true
    · -- the lead of the rest belongs to the pattern that starts here
      obtain ⟨rfl, hopen⟩ := starts_iff.mp hstarts
      refine ⟨[], (c :: lead) :: chunks, ?_, ?_, trivial, fun _ => rfl,
        Chunks.cons hopen hquiet hback hchunks⟩
      · simp [cutPatterns, hstarts, hcut, Text.consPiece]
      · simp [htext]
    · rw [Bool.not_eq_true] at hstarts
      refine ⟨c :: lead, chunks, ?_, ?_, ⟨hstarts, hquiet⟩, hback, hchunks⟩
      · simp [cutPatterns, hstarts, hcut, Text.consPiece]
      · simp [htext]

end TypeCoupling.Query
