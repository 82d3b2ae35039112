import Mathlib
import TypeCoupling.Proofs.PatternScan
import TypeCoupling.Proofs.Splitting

/-!
Where a pattern ends.

A pattern ends with the last of its lines that is not idle, so what is taken off is the blanks at
the end of that line and the idle lines behind it (`IsGap`), and what is left ends in a line that
is not idle (`EndsTidy`). These two parts of a text determine each other. Lines are a view of the
text that knows nothing of literals; it agrees with that of the scan as long as no line ends
in the middle of a literal.
-/

namespace TypeCoupling.Query

open Text (isBlank)

/-! ### Lines -/

/-- Texts line by line: the last line has no line break, all others end with one. -/
@[elab_as_elim]
lemma lines_induction {motive : List Char → Prop} (last : ∀ a, '\n' ∉ a → motive a)
    (line : ∀ a b, '\n' ∉ a → motive b → motive (a ++ '\n' :: b)) (s : List Char) : motive s := by
  induction hlength : s.length using Nat.strongRecOn generalizing s with
  | ind n ih =>
    by_cases hbreak : '\n' ∈ s
    · obtain ⟨a, b, rfl, ha⟩ := List.eq_append_cons_of_mem hbreak
      refine line a b ha (ih b.length ?_ b rfl)
      simp only [List.length_append, List.length_cons] at hlength
      omega
    · exact last s hbreak

lemma lines_of_notMem {a : List Char} (h : '\n' ∉ a) (hne : a ≠ []) : lines a = [a] := by
  induction a with
  | nil => exact absurd rfl hne
  | cons c a ih =>
    obtain ⟨hc, ha⟩ : c ≠ '\n' ∧ '\n' ∉ a := by simpa [eq_comm] using h
    rcases a with _ | ⟨b, a⟩
    · simp [lines, hc, Text.consPiece]
    · rw [lines, if_neg (by simpa using hc), ih ha (List.cons_ne_nil _ _)]
      rfl

lemma lines_append_cons {a : List Char} (h : '\n' ∉ a) (b : List Char) :
    lines (a ++ '\n' :: b) = (a ++ ['\n']) :: lines b := by
  induction a with
  | nil => simp [lines]
  | cons c a ih =>
    obtain ⟨hc, ha⟩ : c ≠ '\n' ∧ '\n' ∉ a := by simpa [eq_comm] using h
    rw [List.cons_append, lines, if_neg (by simpa using hc), ih ha]
    rfl

lemma lines_append_break (a b : List Char) :
    lines (a ++ '\n' :: b) = lines (a ++ ['\n']) ++ lines b := by
  induction a using lines_induction with
  | last a ha => rw [lines_append_cons ha, lines_append_cons ha]; rfl
  | line a₁ a₂ ha ih =>
    rw [List.append_assoc, List.append_assoc, List.cons_append, List.cons_append,
      lines_append_cons ha, lines_append_cons ha, ih]
    rfl

lemma flatten_lines (s : List Char) : (lines s).flatten = s := by
  induction s using lines_induction with
  | last a ha =>
    rcases eq_or_ne a [] with rfl | hne
    · rfl
    · rw [lines_of_notMem ha hne, List.flatten_singleton]
  | line a b ha ih => rw [lines_append_cons ha, List.flatten_cons, ih]; simp

/-- A text that whole lines may follow: nothing, or whole lines. -/
def EndsLine (s : List Char) : Prop := s = [] ∨ ∃ q, s = q ++ ['\n']

lemma lines_append {s : List Char} (h : EndsLine s) (t : List Char) :
    lines (s ++ t) = lines s ++ lines t := by
  rcases h with rfl | ⟨q, rfl⟩
  · rfl
  · rw [List.append_assoc, List.singleton_append, lines_append_break]

lemma EndsLine.append {s t : List Char} (hs : EndsLine s) (ht : EndsLine t) :
    EndsLine (s ++ t) := by
  rcases ht with rfl | ⟨q, rfl⟩
  · rwa [List.append_nil]
  · exact Or.inr ⟨s ++ q, by simp⟩

/-- The last line of a text. -/
lemma exists_last_line (s : List Char) :
    ∃ before line, s = before ++ line ∧ EndsLine before ∧ '\n' ∉ line := by
  induction s using lines_induction with
  | last a ha => exact ⟨[], a, rfl, Or.inl rfl, ha⟩
  | line a b ha ih =>
    obtain ⟨before, line, rfl, hbefore, hline⟩ := ih
    have ha' : EndsLine (a ++ ['\n']) := Or.inr ⟨a, rfl⟩
    exact ⟨(a ++ ['\n']) ++ before, line, by simp, ha'.append hbefore, hline⟩

/-! ### Idle lines -/

/-- A line is judged by its first character that is not blank. -/
lemma isIdleLine_append_cons {pre : List Char} (hpre : ∀ b ∈ pre, isBlank b = true) {c : Char}
    (hc : isBlank c = false) (s : List Char) : isIdleLine (pre ++ c :: s) = (c == ';') := by
  have hdrop : (pre ++ c :: s).dropWhile isBlank = c :: s := by
    rw [List.dropWhile_append_of_pos hpre, List.dropWhile_cons_of_neg (by simp [hc])]
  rw [isIdleLine, hdrop]

lemma isIdleLine_of_blank {s : List Char} (h : ∀ b ∈ s, isBlank b = true) :
    isIdleLine s = true := by
  rw [isIdleLine, List.dropWhile_eq_nil_iff.mpr h]

/-- Blanks only, or blanks and a first character that is not blank. -/
lemma blank_or_split (s : List Char) : (∀ b ∈ s, isBlank b = true) ∨
    ∃ pre c rest, s = pre ++ c :: rest ∧ (∀ b ∈ pre, isBlank b = true) ∧ isBlank c = false := by
  rcases hdrop : s.dropWhile isBlank with _ | ⟨c, rest⟩
  · exact Or.inl (List.dropWhile_eq_nil_iff.mp hdrop)
  · refine Or.inr ⟨s.takeWhile isBlank, c, rest, ?_, fun b hb => List.mem_takeWhile_imp hb, ?_⟩
    · rw [← hdrop, List.takeWhile_append_dropWhile]
    · have hhead := List.head?_dropWhile_not isBlank s
      rw [hdrop] at hhead
      simpa using hhead

lemma isIdleLine_eq_true {s : List Char} (h : isIdleLine s = true) :
    (∀ b ∈ s, isBlank b = true) ∨
      ∃ pre text, s = pre ++ ';' :: text ∧ ∀ b ∈ pre, isBlank b = true := by
  rcases blank_or_split s with hblank | ⟨pre, c, rest, rfl, hpre, hc⟩
  · exact Or.inl hblank
  · rw [isIdleLine_append_cons hpre hc, beq_iff_eq] at h
    exact Or.inr ⟨pre, rest, by rw [h], hpre⟩

lemma isIdleLine_eq_false {s : List Char} (h : isIdleLine s = false) :
    ∃ pre c rest, s = pre ++ c :: rest ∧ (∀ b ∈ pre, isBlank b = true) ∧ isBlank c = false ∧
      c ≠ ';' := by
  rcases blank_or_split s with hblank | ⟨pre, c, rest, rfl, hpre, hc⟩
  · rw [isIdleLine_of_blank hblank] at h
    exact absurd h (by decide)
  · rw [isIdleLine_append_cons hpre hc] at h
    exact ⟨pre, c, rest, rfl, hpre, hc, by simpa using h⟩

lemma isIdleLine_append {s : List Char} (h : isIdleLine s = false) (t : List Char) :
    isIdleLine (s ++ t) = false := by
  obtain ⟨pre, c, rest, rfl, hpre, hc, hsemicolon⟩ := isIdleLine_eq_false h
  rw [List.append_assoc, List.cons_append, isIdleLine_append_cons hpre hc]
  simpa using hsemicolon

lemma isIdleLine_append_blank {s t : List Char} (h : isIdleLine s = true)
    (ht : ∀ b ∈ t, isBlank b = true) : isIdleLine (s ++ t) = true := by
  rcases isIdleLine_eq_true h with hblank | ⟨pre, text, rfl, hpre⟩
  · refine isIdleLine_of_blank fun b hb => ?_
    exact (List.mem_append.mp hb).elim (hblank b) (ht b)
  · rw [List.append_assoc, List.cons_append, isIdleLine_append_cons hpre (by decide)]
    rfl

/-- A text of idle lines. -/
def IdleLines (s : List Char) : Prop := ∀ line ∈ lines s, isIdleLine line = true

lemma idleLines_nil : IdleLines [] := by simp [IdleLines, lines]

lemma idleLines_of_notMem {a : List Char} (ha : '\n' ∉ a) :
    IdleLines a ↔ isIdleLine a = true := by
  rcases eq_or_ne a [] with rfl | hne
  · exact iff_of_true idleLines_nil rfl
  · rw [IdleLines, lines_of_notMem ha hne, List.forall_mem_singleton]

lemma idleLines_append_cons {a b : List Char} (ha : '\n' ∉ a) :
    IdleLines (a ++ '\n' :: b) ↔ isIdleLine a = true ∧ IdleLines b := by
  rw [IdleLines, lines_append_cons ha, List.forall_mem_cons]
  have hbreak : ∀ b ∈ ['\n'], isBlank b = true := List.forall_mem_singleton.mpr (by decide)
  refine and_congr_left fun _ => ⟨fun h => ?_, fun h => isIdleLine_append_blank h hbreak⟩
  by_contra hidle
  rw [isIdleLine_append (by simpa using hidle)] at h
  exact absurd h (by decide)

/-- A text is not idle if its first line is not. -/
lemma not_idleLines_cons {c : Char} (hc : isBlank c = false) (hsemicolon : c ≠ ';')
    (s : List Char) : ¬IdleLines (c :: s) := by
  have hline : ∀ a, isIdleLine (c :: a) ≠ true := by
    intro a
    rw [← List.nil_append (c :: a), isIdleLine_append_cons (by simp) hc]
    simpa using hsemicolon
  have hbreak : '\n' ≠ c := by
    rintro rfl
    exact absurd hc (by decide)
  induction s using lines_induction with
  | last a ha =>
    rw [idleLines_of_notMem (List.not_mem_cons_of_ne_of_not_mem hbreak ha)]
    exact hline a
  | line a b ha _ =>
    rw [← List.cons_append, idleLines_append_cons (List.not_mem_cons_of_ne_of_not_mem hbreak ha)]
    exact fun h => hline a h.1

/-! ### Gaps behind patterns -/

/-- Blanks up to the end of a line, and idle lines behind it. -/
def IsGap (s : List Char) : Prop :=
  ∃ blanks, (∀ b ∈ blanks, isBlank b = true) ∧ '\n' ∉ blanks ∧
    (s = blanks ∨ ∃ idle, s = blanks ++ '\n' :: idle ∧ IdleLines idle)

/-- The text ends in a line that is not idle and with a character that is not blank. -/
structure EndsTidy (s : List Char) : Prop where
  line : ∃ before line, s = before ++ line ∧ EndsLine before ∧ '\n' ∉ line ∧
    isIdleLine line = false
  last : ∀ c ∈ s.getLast?, isBlank c = false

lemma EndsTidy.ne_nil {s : List Char} (h : EndsTidy s) : s ≠ [] := by
  rintro rfl
  obtain ⟨before, line, htext, -, -, hidle⟩ := h.line
  obtain ⟨-, rfl⟩ := List.append_eq_nil_iff.mp htext.symm
  exact absurd hidle (by decide)

lemma EndsTidy.append_left {s t : List Char} (hs : EndsLine s) (ht : EndsTidy t) :
    EndsTidy (s ++ t) := by
  obtain ⟨before, line, htext, hbefore, hline⟩ := ht.line
  refine ⟨⟨s ++ before, line, by rw [htext, List.append_assoc], hs.append hbefore, hline⟩, ?_⟩
  intro c hc
  rw [Option.mem_def, List.getLast?_append_of_ne_nil _ ht.ne_nil] at hc
  exact ht.last c hc

lemma dropEndWhile_eq_nil {s : List Char} (h : ∀ b ∈ s, isBlank b = true) :
    Text.dropEndWhile isBlank s = [] := by
  rw [Text.dropEndWhile, List.dropWhile_eq_nil_iff.mpr (by simpa using h), List.reverse_nil]

/-- The lines of a last line with a gap behind it. -/
lemma lines_append_gap {line gap : List Char} (hline : '\n' ∉ line) (hne : line ≠ [])
    (hgap : IsGap gap) : ∃ tail idle, lines (line ++ gap) = (line ++ tail) :: idle ∧
      (∀ b ∈ tail, isBlank b = true) ∧ ∀ l ∈ idle, isIdleLine l = true := by
  obtain ⟨blanks, hblank, hbreak, rfl | ⟨idle, rfl, hidle⟩⟩ := hgap
  · refine ⟨gap, [], lines_of_notMem ?_ (by simp [hne]), hblank, by simp⟩
    simp [hline, hbreak]
  · refine ⟨blanks ++ ['\n'], lines idle, ?_, fun b hb => ?_, hidle⟩
    · rw [← List.append_assoc, lines_append_cons (by simp [hline, hbreak]), List.append_assoc]
    · rcases List.mem_append.mp hb with hb | hb
      · exact hblank b hb
      · rw [List.mem_singleton.mp hb]; decide

/-- **What is taken off a pattern** is a gap behind a tidy end. -/
lemma dropIdleEnd_append {p gap : List Char} (hp : EndsTidy p)
    (hhead : ∀ c ∈ p.head?, isBlank c = false) (hgap : IsGap gap) :
    dropIdleEnd (p ++ gap) = String.ofList p := by
  have hpne := hp.ne_nil
  obtain ⟨⟨before, line, rfl, hbefore, hline, hidle⟩, hlast⟩ := hp
  have hne : line ≠ [] := by
    rintro rfl
    exact absurd hidle (by decide)
  obtain ⟨tail, idle, hlines, htail, hrest⟩ := lines_append_gap hline hne hgap
  have hkept : ((lines (before ++ line ++ gap)).reverse.dropWhile isIdleLine).reverse =
      lines before ++ [line ++ tail] := by
    rw [List.append_assoc, lines_append hbefore, hlines, List.reverse_append, List.reverse_cons,
      List.append_assoc, List.dropWhile_append_of_pos (by simpa using hrest),
      List.singleton_append, List.dropWhile_cons_of_neg (by simp [isIdleLine_append hidle])]
    simp
  have hhead' : ∀ c ∈ ((before ++ line) ++ tail).head?, isBlank c = false := by
    intro c hc
    rw [Option.mem_def, List.head?_append_of_ne_nil _ hpne] at hc
    exact hhead c hc
  rw [dropIdleEnd, hkept, List.flatten_concat, flatten_lines, ← List.append_assoc, Text.trim,
    String.toList_ofList, Text.dropWhile_eq_self_of_head hhead', Text.dropEndWhile_append hlast,
    dropEndWhile_eq_nil htail, List.append_nil]

lemma isGap_nil : IsGap [] := ⟨[], by simp, by simp, Or.inl rfl⟩

lemma isGap_break {idle : List Char} (h : IdleLines idle) : IsGap ('\n' :: idle) :=
  ⟨[], by simp, by simp, Or.inr ⟨idle, rfl, h⟩⟩

/-- A line that is not idle, up to its last character that is not blank. -/
lemma exists_tidy_line {a : List Char} (ha : '\n' ∉ a) (hidle : isIdleLine a = false) :
    ∃ p blanks, a = p ++ blanks ∧ EndsTidy p ∧ ∀ b ∈ blanks, isBlank b = true := by
  have htext : a = Text.dropEndWhile isBlank a ++ a.rtakeWhile isBlank :=
    List.rdropWhile_append_rtakeWhile.symm
  have hblank : ∀ b ∈ a.rtakeWhile isBlank, isBlank b = true :=
    fun b hb => List.mem_rtakeWhile_imp hb
  have hline : isIdleLine (Text.dropEndWhile isBlank a) = false := by
    by_contra hidle'
    rw [Bool.not_eq_false] at hidle'
    rw [htext, isIdleLine_append_blank hidle' hblank] at hidle
    exact absurd hidle (by decide)
  refine ⟨_, _, htext, ⟨⟨[], _, rfl, Or.inl rfl, fun hbreak => ha ?_, hline⟩, ?_⟩, hblank⟩
  · rw [htext]
    exact List.mem_append_left _ hbreak
  · exact Text.last_dropEndWhile_not_blank a

/-- **A text that is not idle has a tidy part with a gap behind it.** -/
lemma exists_endsTidy (s : List Char) :
    IdleLines s ∨ ∃ p gap, s = p ++ gap ∧ EndsTidy p ∧ IsGap gap := by
  induction s using lines_induction with
  | last a ha =>
    by_cases hidle : isIdleLine a = true
    · exact Or.inl ((idleLines_of_notMem ha).mpr hidle)
    · obtain ⟨p, blanks, rfl, hp, hblank⟩ := exists_tidy_line ha (by simpa using hidle)
      refine Or.inr ⟨p, blanks, rfl, hp, blanks, hblank, ?_, Or.inl rfl⟩
      exact fun hbreak => ha (List.mem_append_right _ hbreak)
  | line a b ha ih =>
    rcases ih with hb | ⟨p, gap, rfl, hp, hgap⟩
    · by_cases hidle : isIdleLine a = true
      · exact Or.inl ((idleLines_append_cons ha).mpr ⟨hidle, hb⟩)
      · obtain ⟨p, blanks, rfl, hp, hblank⟩ := exists_tidy_line ha (by simpa using hidle)
        refine Or.inr ⟨p, blanks ++ '\n' :: b, by simp, hp, blanks, hblank, ?_,
          Or.inr ⟨b, rfl, hb⟩⟩
        exact fun hbreak => ha (List.mem_append_right _ hbreak)
    · -- the last line that is not idle stands further down
      exact Or.inr ⟨(a ++ ['\n']) ++ p, gap, by simp, hp.append_left (Or.inr ⟨a, rfl⟩), hgap⟩

/-! ### Splitting -/

open Scan

/-- A text that starts a pattern, cut behind the pattern. -/
lemma exists_piece {c : Char} (hopen : isOpening c = true) (rest : List Char) :
    ∃ p gap, rest = p ++ gap ∧ EndsTidy (c :: p) ∧ IsGap gap ∧
      dropIdleEnd (c :: rest) = String.ofList (c :: p) := by
  have hc : isBlank c = false := not_blank_of_isOpening hopen
  have hsemicolon : c ≠ ';' := by
    rintro rfl
    exact absurd hopen (by decide)
  rcases exists_endsTidy (c :: rest) with hidle | ⟨p, gap, htext, hp, hgap⟩
  · exact absurd hidle (not_idleLines_cons hc hsemicolon rest)
  · obtain ⟨d, p, rfl⟩ := List.exists_cons_of_ne_nil hp.ne_nil
    obtain ⟨rfl, rfl⟩ : c = d ∧ rest = p ++ gap := by simpa using htext
    refine ⟨p, gap, rfl, hp, hgap, ?_⟩
    rw [← List.cons_append, dropIdleEnd_append hp (by simpa using hc) hgap]

/-- **Splitting gives one pattern for each chunk.** -/
lemma splitPatterns_of_chunks {source : String} {lead : List Char} {chunks : List (List Char)}
    (htext : source.toList = lead ++ chunks.flatten) (hlead : start.Quiet lead)
    (hback : chunks ≠ [] → start.after lead = start) (h : Chunks chunks) :
    splitPatterns source = chunks.map dropIdleEnd := by
  rw [splitPatterns, htext, cutPatterns_of_chunks hlead hback h, List.drop_one, List.tail_cons,
    List.filter_eq_self]
  intro p hp
  obtain ⟨chunk, hchunk, rfl⟩ := List.mem_map.mp hp
  obtain ⟨c, rest, rfl, hopen, -⟩ := h.exists_cons chunk hchunk
  obtain ⟨p, gap, -, -, -, hpiece⟩ := exists_piece hopen rest
  simp [hpiece]

/-! ### Lines and the scan -/

variable {s : Scan}

/-- Behind the end of a line that is not in a literal, the scan is outside comments too. -/
lemma step_break (h : s.inLiteral = false) : s.step '\n' = inCode s.depth := by
  obtain ⟨mode, depth⟩ := s
  cases mode with
  | code => exact step_plain (by decide)
  | comment => simp [step, inCode]
  | literal => simp [inLiteral] at h
  | escape => simp [inLiteral] at h

lemma reads_blanks {s : List Char} (h : ∀ b ∈ s, isBlank b = true) (depth : Nat) :
    (inCode depth).Reads s (inCode depth) :=
  reads_plain fun b hb => isPlain_of_isBlank (h b hb)

/-- An idle line leaves the scan outside literals and as deep in brackets as it was. -/
lemma reads_idle_line {a : List Char} (ha : '\n' ∉ a) (hidle : isIdleLine a = true)
    (depth : Nat) :
    (inCode depth).Reads a (inCode depth) ∨ (inCode depth).Reads a ⟨.comment, depth⟩ := by
  rcases isIdleLine_eq_true hidle with hblank | ⟨pre, text, rfl, hpre⟩
  · exact Or.inl (reads_blanks hblank depth)
  · have htext : '\n' ∉ text := fun h => ha (by simp [h])
    exact Or.inr ((reads_blanks hpre depth).append (reads_semicolon htext))

/-- Idle lines leave the scan as deep in brackets as it was. -/
lemma depth_after_idleLines {t : List Char} (h : IdleLines t) (depth : Nat) :
    ((inCode depth).after t).depth = depth := by
  induction t using lines_induction with
  | last a ha =>
    rcases reads_idle_line ha ((idleLines_of_notMem ha).mp h) depth with hreads | hreads
    · rw [hreads.after]; rfl
    · rw [hreads.after]
  | line a b ha ih =>
    obtain ⟨hidle, hb⟩ := (idleLines_append_cons ha).mp h
    have hbreak : ((inCode depth).after a).step '\n' = inCode depth := by
      rcases reads_idle_line ha hidle depth with hreads | hreads
      · rw [hreads.after, step_break rfl]; rfl
      · rw [hreads.after, step_break rfl]
    rw [after_append, after_cons, hbreak, ih hb]

/-- The scan stands outside literals and comments where a line starts. -/
lemma after_endsLine {t : List Char} {depth : Nat} (ht : EndsLine t)
    (hlines : (inCode depth).WithinLines t) :
    ∃ depth', (inCode depth).after t = inCode depth' := by
  rcases ht with rfl | ⟨q, rfl⟩
  · exact ⟨depth, rfl⟩
  · have hq : ((inCode depth).after q).inLiteral = false :=
      ((withinLines_append.mp hlines).2).1 rfl
    exact ⟨_, by rw [after_append, after_cons, after_nil, step_break hq]⟩

/-- **A text that leads out of comments and ends with no blank ends tidily.** -/
lemma endsTidy_of_after {p : List Char} {depth : Nat} (hne : p ≠ [])
    (hlast : ∀ c ∈ p.getLast?, isBlank c = false) (hlines : (inCode depth).WithinLines p)
    (hcode : ((inCode depth).after p).mode = .code) : EndsTidy p := by
  obtain ⟨before, line, rfl, hbefore, hline⟩ := exists_last_line p
  refine ⟨⟨before, line, rfl, hbefore, hline, ?_⟩, hlast⟩
  by_contra hidle
  rw [Bool.not_eq_false] at hidle
  rcases isIdleLine_eq_true hidle with hblank | ⟨pre, text, rfl, hpre⟩
  · -- the last character is one of the line, or the line break in front of it
    rcases eq_or_ne line [] with rfl | hne'
    · rcases hbefore with rfl | ⟨q, rfl⟩
      · exact hne rfl
      · exact absurd (hlast '\n' (by simp)) (by decide)
    · have hmem : line.getLast hne' ∈ (before ++ line).getLast? := by
        rw [Option.mem_def, List.getLast?_append_of_ne_nil _ hne', List.getLast?_eq_some_getLast]
      exact absurd (hlast _ hmem) (by simp [hblank _ (List.getLast_mem hne')])
  · -- behind a semicolon at its front, the whole line is a comment
    obtain ⟨depth', hdepth⟩ := after_endsLine hbefore (withinLines_append.mp hlines).1
    have htext : '\n' ∉ text := fun h => hline (by simp [h])
    have hreads := (reads_blanks hpre depth').append (reads_semicolon htext)
    rw [after_append, hdepth, hreads.after] at hcode
    exact Mode.noConfusion hcode

end TypeCoupling.Query
