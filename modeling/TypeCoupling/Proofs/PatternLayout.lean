import Mathlib
import TypeCoupling.Proofs.ArgumentScan
import TypeCoupling.Proofs.PatternEnds

/-!
Splitting undoes the layout of a query text.

A pattern is a bracket group with a suffix (`IsPattern`). In a query text patterns stand one after
another, with blanks and comments on lines of their own around them (`Spacing`). The scan goes over
a group, whatever brackets its literals and comments hold, and comes back to where it started; the
view by lines takes off the spacing and nothing of the pattern.
-/

namespace TypeCoupling.Query

open Text (isBlank)
open Scan

/-! ### Patterns -/

inductive Bracket where
  | round
  | square

namespace Bracket

def opening : Bracket → Char
  | round => '('
  | square => '['

def closing : Bracket → Char
  | round => ')'
  | square => ']'

lemma isOpening_opening (b : Bracket) : isOpening b.opening = true := by cases b <;> rfl

lemma isClosing_closing (b : Bracket) : isClosing b.closing = true := by cases b <;> rfl

lemma isOpening_closing (b : Bracket) : isOpening b.closing = false := by cases b <;> rfl

lemma opening_not_blank (b : Bracket) : isBlank b.opening = false := by cases b <;> decide

lemma closing_not_blank (b : Bracket) : isBlank b.closing = false := by cases b <;> decide

end Bracket

/-- The inside of a bracket group: characters without meaning, literals within a line, comments up
to the end of their line, and groups, one after another. -/
inductive Inside : List Char → Prop
  | nil : Inside []
  | char {c : Char} {cs : List Char} (hc : isPlain c = true) (h : Inside cs) : Inside (c :: cs)
  | literal {body cs : List Char} (hbody : LiteralBody '\x22' body) (hline : '\n' ∉ body)
      (h : Inside cs) : Inside ('\x22' :: (body ++ '\x22' :: cs))
  | comment {text cs : List Char} (htext : '\n' ∉ text) (h : Inside cs) :
      Inside (';' :: (text ++ '\n' :: cs))
  | group (b : Bracket) {inner cs : List Char} (hinner : Inside inner) (h : Inside cs) :
      Inside (b.opening :: (inner ++ b.closing :: cs))

/-- A bracket group and a suffix without brackets, quotes and semicolons that does not end with a
blank. -/
inductive IsPattern : List Char → Prop
  | mk (b : Bracket) {inner suffix : List Char} (hinner : Inside inner)
      (hsuffix : ∀ c ∈ suffix, isPlain c = true)
      (hlast : ∀ c ∈ suffix.getLast?, isBlank c = false) :
      IsPattern (b.opening :: (inner ++ b.closing :: suffix))

variable {cs : List Char} {depth : Nat}

/-- A literal is passed up to its closing quote. -/
lemma reads_literalBody (h : LiteralBody '\x22' cs) (hline : '\n' ∉ cs) :
    (⟨.literal, depth⟩ : Scan).Reads cs ⟨.literal, depth⟩ := by
  induction h with
  | nil => exact .nil _
  | @char c cs hquote hescape _ ih =>
    obtain ⟨hc, hcs⟩ : c ≠ '\n' ∧ '\n' ∉ cs := by simpa [eq_comm] using hline
    exact .cons (by simp [step, hquote, hescape]) (starts_of_mode (by simp))
      (fun h => absurd h hc) (ih hcs)
  | @escape c cs _ ih =>
    obtain ⟨hc, hcs⟩ : c ≠ '\n' ∧ '\n' ∉ cs := by simpa [eq_comm] using hline
    -- the character behind the backslash is passed unseen
    have hescaped : (⟨.escape, depth⟩ : Scan).Reads (c :: cs) ⟨.literal, depth⟩ :=
      .cons (by simp [step]) (starts_of_mode (by simp)) (fun h => absurd h hc) (ih hcs)
    exact .cons (by simp [step]) (starts_of_mode (by simp)) (by simp) hescaped

/-- **Step**: a literal with its quotes. -/
lemma reads_literal (h : LiteralBody '\x22' cs) (hline : '\n' ∉ cs) :
    (inCode depth).Reads ('\x22' :: (cs ++ ['\x22'])) (inCode depth) := by
  have hclosed : (⟨.literal, depth⟩ : Scan).Reads ['\x22'] (inCode depth) :=
    .cons (by simp [inCode, step]) (starts_of_mode (by simp)) (by simp) (.nil _)
  exact .cons (by simp [inCode, step]) (starts_of_not_opening (by decide)) (by simp)
    ((reads_literalBody h hline).append hclosed)

/-- **Run**: the inside of a group leaves the scan where it was. -/
lemma reads_inside (h : Inside cs) (depth : Nat) :
    (inCode (depth + 1)).Reads cs (inCode (depth + 1)) := by
  induction h generalizing depth with
  | nil => exact .nil _
  | char hc _ ih => exact .cons (step_plain hc) (starts_inCode_succ _ _) (fun _ => rfl) (ih depth)
  | @literal body cs hbody hline _ ih =>
    have hreads := (reads_literal hbody hline).append (ih depth)
    simpa using hreads
  | @comment text cs htext _ ih =>
    have hreads := (reads_comment htext).append (ih depth)
    simpa using hreads
  | @group b inner cs _ _ hinner ih =>
    have hclosed : (inCode (depth + 2)).Reads (b.closing :: cs) (inCode (depth + 1)) :=
      .cons (step_closing b.isClosing_closing) (starts_inCode_succ _ _) (fun _ => rfl) (ih depth)
    exact .cons (step_opening b.isOpening_opening) (starts_inCode_succ _ _) (fun _ => rfl)
      ((hinner (depth + 1)).append hclosed)

/-- What the scan finds in a pattern: one start, at its front. -/
lemma IsPattern.reads (h : IsPattern cs) : ∃ c rest, cs = c :: rest ∧ isOpening c = true ∧
    isBlank c = false ∧ (inCode 1).Reads rest start := by
  obtain ⟨b, hinner, hsuffix, -⟩ := h
  refine ⟨b.opening, _, rfl, b.isOpening_opening, b.opening_not_blank, ?_⟩
  refine (reads_inside hinner 0).append ?_
  exact .cons (step_closing b.isClosing_closing) (starts_of_not_opening b.isOpening_closing)
    (fun _ => rfl) (reads_plain hsuffix)

lemma IsPattern.last (h : IsPattern cs) : ∀ c ∈ cs.getLast?, isBlank c = false := by
  cases h with
  | @mk b inner suffix _ _ hlast =>
    intro c hc
    rw [← List.cons_append, List.getLast?_append_of_ne_nil _ (List.cons_ne_nil _ _),
      List.getLast?_cons, Option.mem_def, Option.some_inj] at hc
    rcases hend : suffix.getLast? with _ | d
    · rw [hend] at hc
      exact hc ▸ b.closing_not_blank
    · rw [hend] at hc
      exact hlast c (by rw [hend]; exact congrArg some hc)

lemma IsPattern.endsTidy (h : IsPattern cs) : EndsTidy cs := by
  obtain ⟨c, rest, rfl, hopen, -, hreads⟩ := h.reads
  have hopened : (inCode 0).step c = inCode 1 := step_opening hopen
  have hlines : (inCode 0).WithinLines (c :: rest) := ⟨fun _ => rfl, hopened ▸ hreads.withinLines⟩
  refine endsTidy_of_after (List.cons_ne_nil _ _) h.last hlines ?_
  rw [after_cons, hopened, hreads.after]
  rfl

/-! ### Spacing -/

/-- Blanks, and comments on lines of their own with the ends of these lines. `fresh` tells that
there is nothing but blanks in front on the line. -/
inductive Spacing : (fresh : Bool) → List Char → Prop
  | nil {fresh : Bool} : Spacing fresh []
  | blank {fresh : Bool} {c : Char} {cs : List Char} (hc : isBlank c = true)
      (h : Spacing (fresh || c == '\n') cs) : Spacing fresh (c :: cs)
  | comment {text cs : List Char} (htext : '\n' ∉ text) (h : Spacing true cs) :
      Spacing true (';' :: (text ++ '\n' :: cs))

variable {fresh : Bool}

lemma Spacing.reads (h : Spacing fresh cs) : (inCode depth).Reads cs (inCode depth) := by
  induction h with
  | nil => exact .nil _
  | @blank fresh c cs hc _ ih =>
    exact (reads_blanks (List.forall_mem_singleton.mpr hc) depth).append ih
  | @comment text cs htext _ ih =>
    have hreads := (reads_comment htext).append ih
    simpa using hreads

lemma isIdleLine_cons_blank {c : Char} (hc : isBlank c = true) (s : List Char) :
    isIdleLine (c :: s) = isIdleLine s := by
  rw [isIdleLine, isIdleLine, List.dropWhile_cons_of_pos hc]

lemma IdleLines.cons_blank {c : Char} (hc : isBlank c = true) (h : IdleLines cs) :
    IdleLines (c :: cs) := by
  rcases eq_or_ne c '\n' with rfl | hne
  · exact (idleLines_append_cons (a := []) (by simp)).mpr ⟨rfl, h⟩
  · induction cs using lines_induction with
    | last a ha =>
      rw [idleLines_of_notMem ha] at h
      rw [idleLines_of_notMem (by simp [ha, hne.symm]), isIdleLine_cons_blank hc, h]
    | line a b ha _ =>
      rw [idleLines_append_cons ha] at h
      rw [← List.cons_append, idleLines_append_cons (by simp [ha, hne.symm]),
        isIdleLine_cons_blank hc]
      exact h

lemma IsGap.cons_blank {c : Char} (hc : isBlank c = true) (hne : c ≠ '\n') (h : IsGap cs) :
    IsGap (c :: cs) := by
  obtain ⟨blanks, hblank, hbreak, hrest⟩ := h
  refine ⟨c :: blanks, List.forall_mem_cons.mpr ⟨hc, hblank⟩, by simp [hbreak, hne.symm], ?_⟩
  rcases hrest with rfl | ⟨idle, rfl, hidle⟩
  · exact Or.inl rfl
  · exact Or.inr ⟨idle, rfl, hidle⟩

lemma Spacing.idleLines (h : Spacing true cs) : IdleLines cs := by
  generalize hfresh : true = fresh at h
  induction h with
  | nil => exact idleLines_nil
  | blank hc _ ih => exact (ih (by rw [← hfresh]; rfl)).cons_blank hc
  | @comment text cs htext _ ih =>
    have hline : '\n' ∉ ';' :: text := by simp [htext]
    rw [← List.cons_append, idleLines_append_cons hline]
    exact ⟨rfl, ih rfl⟩

/-- **Spacing behind a pattern is a gap.** -/
lemma Spacing.isGap (h : Spacing false cs) : IsGap cs := by
  generalize hfresh : false = fresh at h
  induction h with
  | nil => exact isGap_nil
  | @blank fresh c cs hc h ih =>
    subst hfresh
    rcases eq_or_ne c '\n' with rfl | hne
    · exact isGap_break (Spacing.idleLines h)
    · exact (ih (by simp [hne])).cons_blank hc hne
  | comment => exact absurd hfresh (by decide)

/-! ### Layouts -/

lemma chunks_of_layout {parts : List (String × String)}
    (h : ∀ q ∈ parts, IsPattern q.1.toList ∧ Spacing false q.2.toList) :
    Chunks (parts.map fun q => q.1.toList ++ q.2.toList) := by
  induction parts with
  | nil => exact .nil
  | cons q parts ih =>
    obtain ⟨⟨hpattern, hspacing⟩, hparts⟩ := List.forall_mem_cons.mp h
    obtain ⟨c, rest, htext, hopen, -, hreads⟩ := hpattern.reads
    have hopened : start.step c = inCode 1 := step_opening hopen
    have hall : (inCode 1).Reads (rest ++ q.2.toList) start := hreads.append hspacing.reads
    rw [List.map_cons, htext, List.cons_append]
    refine .cons hopen (hopened ▸ hall.quiet) (fun _ => ?_) (ih hparts)
    rw [after_cons, hopened, hall.after]

/-- **Splitting undoes layout.** Patterns written one after another, with any spacing in front of
the first and behind each of them, come back as they were. -/
theorem splitPatterns_layout {lead : String} {parts : List (String × String)}
    (hlead : Spacing true lead.toList)
    (hparts : ∀ q ∈ parts, IsPattern q.1.toList ∧ Spacing false q.2.toList) :
    splitPatterns (lead ++ String.join (parts.map fun q => q.1 ++ q.2)) = parts.map (·.1) := by
  have htext : (lead ++ String.join (parts.map fun q => q.1 ++ q.2)).toList =
      lead.toList ++ (parts.map fun q => q.1.toList ++ q.2.toList).flatten := by
    simp [String.toList_join, List.flatMap_def, Function.comp_def]
  have hread : start.Reads lead.toList start := hlead.reads
  have hends : ∀ q ∈ parts, dropIdleEnd (q.1.toList ++ q.2.toList) = q.1 := by
    intro q hq
    obtain ⟨hpattern, hspacing⟩ := hparts q hq
    obtain ⟨c, rest, hchars, -, hblank, -⟩ := hpattern.reads
    rw [dropIdleEnd_append hpattern.endsTidy (by simpa [hchars] using hblank) hspacing.isGap,
      String.ofList_toList]
  rw [splitPatterns_of_chunks htext hread.quiet (fun _ => hread.after) (chunks_of_layout hparts),
    List.map_map]
  exact List.map_congr_left hends

/-- A group with brackets in a literal and in a comment, under its capture. -/
def trickyPattern : String := "(a \"(\\\";\" ; )\n [b]) @c"

lemma isPattern_trickyPattern : IsPattern trickyPattern.toList := by
  have hbody : LiteralBody '\x22' ['(', '\\', '\x22', ';'] :=
    .char (by decide) (by decide) (.escape _ (.char (by decide) (by decide) .nil))
  have hgroup : Inside ['[', 'b', ']'] := @Inside.group .square ['b'] [] (.char rfl .nil) .nil
  have hcomment : Inside [' ', ';', ' ', ')', '\n', ' ', '[', 'b', ']'] :=
    .char rfl (@Inside.comment [' ', ')'] _ (by decide) (.char rfl hgroup))
  have hinner : Inside "a \"(\\\";\" ; )\n [b]".toList :=
    .char rfl (.char rfl (@Inside.literal ['(', '\\', '\x22', ';'] _ hbody (by decide) hcomment))
  exact @IsPattern.mk .round _ [' ', '@', 'c'] hinner (by simp; decide) (by simp; decide)

def trickyParts : List (String × String) :=
  [(trickyPattern, "\n\n  ; [x\n"), (trickyPattern, " ")]

theorem splitPatterns_layout_tricky :
    Spacing true "; (head\n".toList ∧
      (∀ q ∈ trickyParts, IsPattern q.1.toList ∧ Spacing false q.2.toList) ∧
      splitPatterns ("; (head\n" ++ String.join (trickyParts.map fun q => q.1 ++ q.2)) =
        trickyParts.map (·.1) := by
  have hlead : Spacing true "; (head\n".toList :=
    @Spacing.comment [' ', '(', 'h', 'e', 'a', 'd'] [] (by decide) .nil
  have hgap : Spacing false "\n\n  ; [x\n".toList :=
    .blank rfl (.blank rfl (.blank rfl (.blank rfl
      (@Spacing.comment [' ', '[', 'x'] [] (by decide) .nil))))
  have hblank : Spacing false " ".toList := .blank rfl .nil
  have hparts : ∀ q ∈ trickyParts, IsPattern q.1.toList ∧ Spacing false q.2.toList := by
    simp only [trickyParts, List.forall_mem_cons]
    exact ⟨⟨isPattern_trickyPattern, hgap⟩, ⟨isPattern_trickyPattern, hblank⟩, by simp⟩
  exact ⟨hlead, hparts, splitPatterns_layout hlead hparts⟩

end TypeCoupling.Query
