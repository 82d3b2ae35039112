import Mathlib.Tactic.ByContra
import Mathlib.Tactic.SplitIfs
import TypeCoupling.CallChain

/-!
How the scan for argument lists goes over a text.

A literal is passed from quote to quote, whatever it holds, and a balanced text from one depth back
to the same depth, so an argument list leaves the scan as it was and keeps nothing. Outside all
lists a blank is dropped and any other character is kept.

A literal can only be open inside a list, and a backslash can only be pending inside a literal. So a
scan that has left all lists is where it began, and texts can be stripped one by one exactly where
the first of them leaves all lists.
-/

namespace TypeCoupling

namespace ArgumentScan

@[simp] lemma after_nil (s : ArgumentScan) : s.after [] = s := rfl

@[simp] lemma after_cons (s : ArgumentScan) (c : Char) (cs : List Char) :
    s.after (c :: cs) = (s.step c).1.after cs := rfl

lemma after_append (s : ArgumentScan) (a b : List Char) :
    s.after (a ++ b) = (s.after a).after b := by
  simp [after, List.foldl_append]

@[simp] lemma kept_nil (s : ArgumentScan) : s.kept [] = [] := rfl

lemma kept_cons (s : ArgumentScan) (c : Char) (cs : List Char) :
    s.kept (c :: cs) = (if (s.step c).2 then [c] else []) ++ (s.step c).1.kept cs := by
  rcases hstep : s.step c with ⟨s', keep⟩
  cases keep
  · simp [kept, hstep]
  · simp [kept, hstep]

lemma kept_append (s : ArgumentScan) (a b : List Char) :
    s.kept (a ++ b) = s.kept a ++ (s.after a).kept b := by
  induction a generalizing s with
  | nil => rfl
  | cons c a ih => rw [List.cons_append, kept_cons, kept_cons, after_cons, ih, List.append_assoc]

/-- From `s` the scan goes over the text `cs` to `s'` and keeps `out`. -/
structure Reads (s : ArgumentScan) (cs : List Char) (s' : ArgumentScan) (out : List Char) :
    Prop where
  after : s.after cs = s'
  kept : s.kept cs = out

variable {s s' s'' : ArgumentScan} {c : Char} {cs cs' out out' : List Char}

lemma Reads.nil (s : ArgumentScan) : s.Reads [] s [] := ⟨rfl, rfl⟩

lemma Reads.append (h : s.Reads cs s' out) (h' : s'.Reads cs' s'' out') :
    s.Reads (cs ++ cs') s'' (out ++ out') :=
  ⟨by rw [after_append, h.after, h'.after], by rw [kept_append, h.kept, h.after, h'.kept]⟩

/-- A character that goes. -/
lemma Reads.drop (hstep : s.step c = (s', false)) (h : s'.Reads cs s'' out) :
    s.Reads (c :: cs) s'' out :=
  ⟨by rw [after_cons, hstep, h.after], by rw [kept_cons, hstep, h.kept]; rfl⟩

/-- A character that stays. -/
lemma Reads.keep (hstep : s.step c = (s', true)) (h : s'.Reads cs s'' out) :
    s.Reads (c :: cs) s'' (c :: out) :=
  ⟨by rw [after_cons, hstep, h.after], by rw [kept_cons, hstep, h.kept]; rfl⟩

/-- The scan stands outside all literals, in a number of lists. -/
def inLists (depth : Nat) : ArgumentScan := ⟨depth, none, false⟩

/-- The scan stands in a literal. -/
def inLiteral (depth : Nat) (quote : Char) : ArgumentScan := ⟨depth, some quote, false⟩

variable {depth : Nat} {quote : Char}

lemma step_open : (inLists depth).step '(' = (inLists (depth + 1), false) := by
  simp [inLists, step]

lemma step_close : (inLists (depth + 1)).step ')' = (inLists depth, false) := by
  simp [inLists, step]

/-- A quote in a list opens a literal. -/
lemma step_quote (h : quote = '\x22' ∨ quote = '\x27') :
    (inLists (depth + 1)).step quote = (inLiteral (depth + 1) quote, false) := by
  rcases h with rfl | rfl <;> simp [inLists, inLiteral, step]

lemma step_unquote (h : quote ≠ '\\') :
    (inLiteral depth quote).step quote = (inLists depth, false) := by
  simp [inLists, inLiteral, step, h]

/-- In a list every other character goes. -/
lemma step_argument (hopen : c ≠ '(') (hclose : c ≠ ')') (hdouble : c ≠ '\x22')
    (hsingle : c ≠ '\x27') : (inLists (depth + 1)).step c = (inLists (depth + 1), false) := by
  simp [inLists, step, hopen, hclose, hdouble, hsingle]

/-- Outside all lists the blanks go and the rest stays. -/
lemma step_outside (hopen : c ≠ '(') (hclose : c ≠ ')') :
    start.step c = (start, !Text.isBlank c) := by
  simp [start, step, hopen, hclose]

end ArgumentScan

/-! ### Argument lists -/

/-- The inside of a literal: no quote that closes it, and a backslash takes a character with it. -/
inductive LiteralBody (quote : Char) : List Char → Prop
  | nil : LiteralBody quote []
  | char {c : Char} {cs : List Char} (hquote : c ≠ quote) (hescape : c ≠ '\\')
      (h : LiteralBody quote cs) : LiteralBody quote (c :: cs)
  | escape (c : Char) {cs : List Char} (h : LiteralBody quote cs) :
      LiteralBody quote ('\\' :: c :: cs)

/-- The inside of an argument list: characters, literals and argument lists one after another. -/
inductive Balanced : List Char → Prop
  | nil : Balanced []
  | char {c : Char} {cs : List Char} (hopen : c ≠ '(') (hclose : c ≠ ')') (hdouble : c ≠ '\x22')
      (hsingle : c ≠ '\x27') (h : Balanced cs) : Balanced (c :: cs)
  | literal {quote : Char} {body cs : List Char} (hquote : quote = '\x22' ∨ quote = '\x27')
      (hbody : LiteralBody quote body) (h : Balanced cs) : Balanced (quote :: (body ++ quote :: cs))
  | list {inner cs : List Char} (hinner : Balanced inner) (h : Balanced cs) :
      Balanced ('(' :: (inner ++ ')' :: cs))

namespace ArgumentScan

variable {cs : List Char}

/-- A literal is passed up to its closing quote. -/
lemma reads_literalBody {quote : Char} (h : LiteralBody quote cs) (depth : Nat) :
    (inLiteral depth quote).Reads cs (inLiteral depth quote) [] := by
  induction h with
  | nil => exact .nil _
  | char hquote hescape _ ih =>
    refine .drop ?_ ih
    simp [inLiteral, step, hquote, hescape]
  | escape c _ ih =>
    -- the character behind the backslash is passed unseen
    have hbackslash : (inLiteral depth quote).step '\\' = (⟨depth, some quote, true⟩, false) := by
      simp [inLiteral, step]
    have hescaped : (⟨depth, some quote, true⟩ : ArgumentScan).step c =
        (inLiteral depth quote, false) := by
      simp [inLiteral, step]
    exact .drop hbackslash (.drop hescaped ih)

/-- **A balanced text is passed**: the scan comes back to its depth and keeps nothing. -/
lemma reads_balanced (h : Balanced cs) (depth : Nat) :
    (inLists (depth + 1)).Reads cs (inLists (depth + 1)) [] := by
  induction h generalizing depth with
  | nil => exact .nil _
  | char hopen hclose hdouble hsingle _ ih =>
    exact .drop (step_argument hopen hclose hdouble hsingle) (ih depth)
  | literal hquote hbody _ ih =>
    have hescape : ∀ quote : Char, quote = '\x22' ∨ quote = '\x27' → quote ≠ '\\' := by
      rintro quote (rfl | rfl) <;> decide
    have hclosed := Reads.drop (step_unquote (hescape _ hquote)) (ih depth)
    exact .drop (step_quote hquote) ((reads_literalBody hbody (depth + 1)).append hclosed)
  | list _ _ hinner ih =>
    have hclosed := Reads.drop step_close (ih depth)
    exact .drop step_open ((hinner (depth + 1)).append hclosed)

/-- An argument list leaves the scan as it was. -/
lemma reads_argumentList (h : Balanced cs) : start.Reads ('(' :: (cs ++ [')'])) start [] :=
  .drop step_open ((reads_balanced h 0).append (.drop step_close (.nil _)))

lemma reads_blanks (h : ∀ c ∈ cs, Text.isBlank c = true) : start.Reads cs start [] := by
  induction cs with
  | nil => exact .nil _
  | cons c cs ih =>
    have hblank : Text.isBlank c = true := h c List.mem_cons_self
    have hopen : c ≠ '(' := by
      rintro rfl
      exact absurd hblank (by decide)
    have hclose : c ≠ ')' := by
      rintro rfl
      exact absurd hblank (by decide)
    refine .drop ?_ (ih fun d hd => h d (List.mem_cons_of_mem _ hd))
    rw [step_outside hopen hclose, hblank]
    rfl

lemma reads_word (h : ∀ c ∈ cs, Text.isBlank c = false ∧ c ≠ '(' ∧ c ≠ ')') :
    start.Reads cs start cs := by
  induction cs with
  | nil => exact .nil _
  | cons c cs ih =>
    obtain ⟨hblank, hopen, hclose⟩ := h c List.mem_cons_self
    refine .keep ?_ (ih fun d hd => h d (List.mem_cons_of_mem _ hd))
    rw [step_outside hopen hclose, hblank]
    rfl

end ArgumentScan

/-- What stands in front of a call, without blanks and parentheses, is kept as it is. -/
lemma stripArguments_append {s : String}
    (h : ∀ c ∈ s.toList, Text.isBlank c = false ∧ c ≠ '(' ∧ c ≠ ')') (t : String) :
    stripArguments (s ++ t) = s ++ stripArguments t := by
  have hreads := ArgumentScan.reads_word h
  rw [stripArguments, String.toList_append, ArgumentScan.kept_append, hreads.kept, hreads.after,
    String.ofList_append, String.ofList_toList, stripArguments]

/-! ### Texts one after another -/

namespace ArgumentScan

variable {s : ArgumentScan} {c : Char} {cs : List Char}

/-- The scan stands in no argument list and in no literal. -/
def Outside (s : ArgumentScan) : Prop := s.depth = 0 ∧ s.quote = none

instance (s : ArgumentScan) : Decidable s.Outside :=
  inferInstanceAs (Decidable (s.depth = 0 ∧ s.quote = none))

/-- Literals are open in lists only, and backslashes are pending in literals only. -/
structure Steady (s : ArgumentScan) : Prop where
  quote : s.quote ≠ none → 0 < s.depth
  escaped : s.escaped = true → s.quote ≠ none

lemma steady_start : start.Steady := ⟨by simp [start], by simp [start]⟩

lemma Steady.step (h : s.Steady) (c : Char) : (s.step c).1.Steady := by
  obtain ⟨depth, quote, escaped⟩ := s
  obtain ⟨hquote, hescaped⟩ := h
  cases quote with
  | some q =>
    -- in a literal the depth stays, and it is positive
    have hdepth : 0 < depth := hquote (by simp)
    simp only [ArgumentScan.step]
    split_ifs with hescape
    · exact ⟨fun _ => hdepth, by simp⟩
    · exact ⟨fun _ => hdepth, by simp⟩
    · exact ⟨by simp, by simp [hescape]⟩
    · exact ⟨fun _ => hdepth, by simp⟩
  | none =>
    obtain rfl : escaped = false := by simpa using hescaped
    simp only [ArgumentScan.step]
    split_ifs with hopens
    · -- a quote opens a literal inside a list only
      have hdepth : 0 < depth := by simpa using (Bool.and_eq_true_iff.mp hopens).2
      exact ⟨fun _ => hdepth, by simp⟩
    all_goals exact ⟨by simp, by simp⟩

lemma steady_after (h : s.Steady) (cs : List Char) : (s.after cs).Steady := by
  induction cs generalizing s with
  | nil => exact h
  | cons c cs ih => exact ih (h.step c)

/-- **A scan that is outside is where it began.** -/
lemma Steady.eq_start (h : s.Steady) (hout : s.Outside) : s = start := by
  obtain ⟨depth, quote, escaped⟩ := s
  obtain ⟨rfl, rfl⟩ : depth = 0 ∧ quote = none := hout
  obtain rfl : escaped = false := by simpa using h.escaped
  rfl

/-- A character stays if the scan is outside and it is neither a parenthesis nor blank. -/
lemma step_keeps_iff : (s.step c).2 = true ↔
    s.Outside ∧ Text.isBlank c = false ∧ c ≠ '(' ∧ c ≠ ')' := by
  obtain ⟨depth, quote, escaped⟩ := s
  cases quote with
  | some q =>
    simp only [step, Outside]
    split_ifs <;> simp
  | none =>
    simp only [step, Outside]
    split_ifs with hquote hopen hclose
    · have hdepth : 0 < depth := by simpa using (Bool.and_eq_true_iff.mp hquote).2
      simp [Nat.ne_of_gt hdepth]
    · simp [beq_iff_eq.mp hopen]
    · simp [beq_iff_eq.mp hclose]
    · simp_all

lemma plain_of_mem_kept (h : c ∈ s.kept cs) : Text.isBlank c = false ∧ c ≠ '(' ∧ c ≠ ')' := by
  induction cs generalizing s with
  | nil => simp at h
  | cons d cs ih =>
    rw [kept_cons, List.mem_append] at h
    rcases h with h | h
    · split at h
      · next hkeeps =>
        obtain rfl := List.mem_singleton.mp h
        exact (step_keeps_iff.mp hkeeps).2
      · simp at h
    · exact ih h

end ArgumentScan

lemma stripArguments_eq_self {t : String}
    (h : ∀ c ∈ t.toList, Text.isBlank c = false ∧ c ≠ '(' ∧ c ≠ ')') : stripArguments t = t := by
  rw [stripArguments, (ArgumentScan.reads_word h).kept, String.ofList_toList]

lemma plain_of_mem_stripArguments {t : String} {c : Char} (h : c ∈ (stripArguments t).toList) :
    Text.isBlank c = false ∧ c ≠ '(' ∧ c ≠ ')' := by
  rw [stripArguments, String.toList_ofList] at h
  exact ArgumentScan.plain_of_mem_kept h

lemma stripArguments_append_after (a b : String) :
    stripArguments (a ++ b) =
      stripArguments a ++ .ofList ((ArgumentScan.start.after a.toList).kept b.toList) := by
  rw [stripArguments, String.toList_append, ArgumentScan.kept_append, String.ofList_append,
    stripArguments]

/-- Behind a text that does not come outside, a letter is lost. -/
lemma stripArguments_append_letter {a : String}
    (h : ¬(ArgumentScan.start.after a.toList).Outside) :
    stripArguments (a ++ "x") = stripArguments a := by
  have hlost : ((ArgumentScan.start.after a.toList).step 'x').2 = false :=
    Bool.eq_false_iff.mpr fun hkeeps => h (ArgumentScan.step_keeps_iff.mp hkeeps).1
  have htext : "x".toList = ['x'] := rfl
  rw [stripArguments_append_after, htext, ArgumentScan.kept_cons, hlost]
  simp

/-- **Stripping is a normal form, and composes where the scan comes outside.** What is left of a
text has neither parentheses nor blanks, and stripping it again changes nothing. A text can be
stripped apart from whatever follows it exactly if its scan ends in no argument list and in no
literal. Parentheses need not match: one that closes nothing is dropped. -/
theorem stripArguments_laws (t a : String) :
    ('(' ∉ (stripArguments t).toList ∧ ')' ∉ (stripArguments t).toList ∧
        ∀ c ∈ (stripArguments t).toList, Text.isBlank c = false) ∧
      stripArguments (stripArguments t) = stripArguments t ∧
      ((ArgumentScan.start.after a.toList).Outside ↔
        ∀ b, stripArguments (a ++ b) = stripArguments a ++ stripArguments b) := by
  refine ⟨⟨?_, ?_, ?_⟩, ?_, fun hout b => ?_, fun hall => ?_⟩
  · exact fun h => (plain_of_mem_stripArguments h).2.1 rfl
  · exact fun h => (plain_of_mem_stripArguments h).2.2 rfl
  · exact fun c hc => (plain_of_mem_stripArguments hc).1
  · exact stripArguments_eq_self fun c hc => plain_of_mem_stripArguments hc
  · have hback := (ArgumentScan.steady_after ArgumentScan.steady_start a.toList).eq_start hout
    rw [stripArguments_append_after, hback]
    rfl
  · -- a letter tells whether the scan has come outside
    by_contra hinside
    have hletter : stripArguments "x" = "x" := by decide
    have hcomposed := hall "x"
    rw [stripArguments_append_letter hinside, hletter] at hcomposed
    simpa using congrArg (String.length ·) hcomposed

/-- Two parentheses that close nothing, then a list with a closing one in a literal. -/
theorem stripArguments_laws_surplus :
    stripArguments "a)) .f(\")\")" = "a.f" ∧ stripArguments "a.f" = "a.f" ∧
      (∀ b, stripArguments ("a)) .f(\")\")" ++ b) = "a.f" ++ stripArguments b) ∧
      ¬∀ b, stripArguments ("a.f(\")" ++ b) = "a.f" ++ stripArguments b := by
  have hstripped : stripArguments "a)) .f(\")\")" = "a.f" := by decide
  have hopen : stripArguments "a.f(\")" = "a.f" := by decide
  obtain ⟨-, hagain, hcomposes⟩ := stripArguments_laws "a)) .f(\")\")" "a)) .f(\")\")"
  obtain ⟨-, -, hinside⟩ := stripArguments_laws "" "a.f(\")"
  rw [hstripped] at hagain hcomposes
  rw [hopen] at hinside
  refine ⟨hstripped, hagain, hcomposes.mp (by decide), fun hall => ?_⟩
  exact absurd (hinside.mpr hall) (by decide)

end TypeCoupling
