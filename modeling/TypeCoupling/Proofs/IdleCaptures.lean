import TypeCoupling.Proofs.Inheritance

/-!
Which captures a pass can do without.

The names of the bases are settled before the first capture comes. Every name and every call leaves
its text settled, whether it is looked at or skipped. So a capture is idle if it is neither of the
two, or if its text is that of a base or of a name or call before it: the pass stands behind it
where it stood before. Idle captures can be left out, all of them or any of them.
-/

namespace TypeCoupling

/-- The capture is a name or a call. -/
def Capture.IsUsage (c : Capture) : Prop :=
  c.role = .qualifiedName ∨ c.role = .callExpression

instance (c : Capture) : Decidable c.IsUsage :=
  inferInstanceAs (Decidable (c.role = .qualifiedName ∨ c.role = .callExpression))

namespace Site

variable {c : Capture}

lemma ofCapture?_of_not_isUsage (h : ¬c.IsUsage) : ofCapture? c = none := by
  unfold Capture.IsUsage at h
  unfold ofCapture?
  split
  · next hrole => exact absurd (Or.inl hrole) h
  · next hrole => exact absurd (Or.inr hrole) h
  · rfl

lemma ofCapture?_of_isUsage (h : c.IsUsage) : ∃ s, ofCapture? c = some s ∧ s.text = c.text := by
  rcases h with h | h
  · exact ⟨⟨false, c.text, .usage, none⟩, by simp [ofCapture?, h], rfl⟩
  · exact ⟨⟨true, c.text, .usage, none⟩, by simp [ofCapture?, h], rfl⟩

end Site

namespace UsageContext

variable (ctx : UsageContext) (first : Entry)

/-- The names of the bases that the types of the file declare. -/
def baseNames : List String := ctx.entries.flatMap fun e => e.implemented ++ e.extended.toList

/-- Behind the captures `earlier` the capture changes nothing. -/
def Idle (earlier : List Capture) (c : Capture) : Prop :=
  ¬c.IsUsage ∨ c.text ∈ ctx.baseNames ∨ ∃ d ∈ earlier, d.IsUsage ∧ d.text = c.text

instance (earlier : List Capture) (c : Capture) : Decidable (ctx.Idle earlier c) :=
  inferInstanceAs
    (Decidable (¬c.IsUsage ∨ c.text ∈ ctx.baseNames ∨ ∃ d ∈ earlier, d.IsUsage ∧ d.text = c.text))

/-- The captures behind `earlier` without those that are idle. -/
def withoutIdle : (earlier : List Capture) → List Capture → List Capture
  | _, [] => []
  | earlier, c :: captures =>
    if ctx.Idle earlier c then withoutIdle (earlier ++ [c]) captures
    else c :: withoutIdle (earlier ++ [c]) captures

/-- Some of the captures behind `earlier` are left out, all of them idle. -/
inductive Thinned : (earlier captures kept : List Capture) → Prop
  | nil (earlier : List Capture) : Thinned earlier [] []
  | keep {earlier captures kept : List Capture} (c : Capture)
      (h : Thinned (earlier ++ [c]) captures kept) : Thinned earlier (c :: captures) (c :: kept)
  | leave {earlier captures kept : List Capture} {c : Capture} (hidle : ctx.Idle earlier c)
      (h : Thinned (earlier ++ [c]) captures kept) : Thinned earlier (c :: captures) kept

lemma thinned_withoutIdle (earlier captures : List Capture) :
    ctx.Thinned earlier captures (ctx.withoutIdle earlier captures) := by
  induction captures generalizing earlier with
  | nil => exact .nil earlier
  | cons c captures ih =>
    rw [withoutIdle]
    split
    · next hidle => exact .leave hidle (ih _)
    · exact .keep c (ih _)

/-! ### What is settled -/

section Settled

variable {ctx first} {pass : UsagePass} {text : String}

lemma mem_settled_step (s : Site) (h : text ∈ pass.settled) :
    text ∈ (UsagePass.step ctx first pass s).settled := by
  by_cases hs : s.text ∈ pass.settled
  · rwa [step_of_mem hs]
  · rw [step_of_notMem hs]
    simp [h]

/-- A site leaves its text settled. -/
lemma text_mem_settled_step (s : Site) :
    s.text ∈ (UsagePass.step ctx first pass s).settled := by
  by_cases hs : s.text ∈ pass.settled
  · rwa [step_of_mem hs]
  · rw [step_of_notMem hs]
    simp

lemma mem_settled_foldl (sites : List Site) (h : text ∈ pass.settled) :
    text ∈ (sites.foldl (UsagePass.step ctx first) pass).settled := by
  induction sites generalizing pass with
  | nil => exact h
  | cons s sites ih => exact ih (mem_settled_step s h)

/-- A pass leaves the texts of all its sites settled. -/
lemma text_mem_settled_foldl {sites : List Site} {s : Site} (h : s ∈ sites) :
    s.text ∈ (sites.foldl (UsagePass.step ctx first) pass).settled := by
  induction sites generalizing pass with
  | nil => simp at h
  | cons d sites ih =>
    rcases List.mem_cons.mp h with rfl | h
    · exact mem_settled_foldl sites (text_mem_settled_step s)
    · exact ih h

end Settled

/-! ### A pass over captures -/

/-- Takes one capture. -/
def take (pass : UsagePass) (c : Capture) : UsagePass :=
  (Site.ofCapture? c).elim pass (UsagePass.step ctx first pass)

/-- The pass has settled the names of the bases and the texts of the usages among `earlier`. -/
structure Covers (pass : UsagePass) (earlier : List Capture) : Prop where
  bases : ∀ text ∈ ctx.baseNames, text ∈ pass.settled
  usages : ∀ c ∈ earlier, c.IsUsage → c.text ∈ pass.settled

variable {ctx first} {pass : UsagePass} {earlier : List Capture} {c : Capture}

lemma take_of_site {s : Site} (h : Site.ofCapture? c = some s) :
    ctx.take first pass c = UsagePass.step ctx first pass s := by
  rw [take, h, Option.elim_some]

lemma take_of_not_isUsage (h : ¬c.IsUsage) : ctx.take first pass c = pass := by
  rw [take, Site.ofCapture?_of_not_isUsage h, Option.elim_none]

/-- A capture whose text is settled is skipped, a name like a call. -/
lemma take_of_settled (h : c.text ∈ pass.settled) : ctx.take first pass c = pass := by
  by_cases husage : c.IsUsage
  · obtain ⟨s, hs, htext⟩ := Site.ofCapture?_of_isUsage husage
    rw [take_of_site hs, step_of_mem (htext ▸ h)]
  · exact take_of_not_isUsage husage

/-- The names of the bases are settled when the captures begin. -/
lemma covers_bases : ctx.Covers (ctx.bases.foldl (UsagePass.step ctx first) .start) [] := by
  refine ⟨fun text htext => ?_, by simp⟩
  have htexts : ctx.bases.map (·.text) = ctx.baseNames := by
    simp only [bases, baseNames, List.map_flatMap]
    refine List.flatMap_congr fun e _ => ?_
    simp [Site.ofEntry, Function.comp_def]
  rw [← htexts] at htext
  obtain ⟨s, hs, rfl⟩ := List.mem_map.mp htext
  exact text_mem_settled_foldl hs

/-- **A capture keeps the invariant**, and adds its own text. -/
lemma Covers.take (h : ctx.Covers pass earlier) (c : Capture) :
    ctx.Covers (ctx.take first pass c) (earlier ++ [c]) := by
  by_cases husage : c.IsUsage
  · obtain ⟨s, hs, htext⟩ := Site.ofCapture?_of_isUsage husage
    rw [take_of_site hs]
    refine ⟨fun text ht => mem_settled_step s (h.bases text ht), fun d hd hdusage => ?_⟩
    rcases List.mem_append.mp hd with hd | hd
    · exact mem_settled_step s (h.usages d hd hdusage)
    · obtain rfl := List.mem_singleton.mp hd
      exact htext ▸ text_mem_settled_step s
  · rw [take_of_not_isUsage husage]
    refine ⟨h.bases, fun d hd hdusage => ?_⟩
    rcases List.mem_append.mp hd with hd | hd
    · exact h.usages d hd hdusage
    · obtain rfl := List.mem_singleton.mp hd
      exact absurd hdusage husage

/-- An idle capture leaves the pass as it is. -/
lemma Covers.take_of_idle (h : ctx.Covers pass earlier) (hidle : ctx.Idle earlier c) :
    ctx.take first pass c = pass := by
  rcases hidle with husage | hbase | ⟨d, hd, hdusage, htext⟩
  · exact take_of_not_isUsage husage
  · exact take_of_settled (h.bases _ hbase)
  · exact take_of_settled (htext ▸ h.usages d hd hdusage)

/-- **The pass over what is kept ends where the pass over all ends.** The two stand in the same
state behind every capture, kept or left out. -/
lemma Thinned.foldl_take {captures kept : List Capture} (h : ctx.Thinned earlier captures kept)
    (hcovers : ctx.Covers pass earlier) :
    kept.foldl (ctx.take first) pass = captures.foldl (ctx.take first) pass := by
  induction h generalizing pass with
  | nil => rfl
  | keep c _ ih => exact ih (hcovers.take c)
  | @leave earlier captures kept c hidle _ ih =>
    have hsame : ctx.take first pass c = pass := hcovers.take_of_idle hidle
    have hnext : ctx.Covers (ctx.take first pass c) (earlier ++ [c]) := hcovers.take c
    rw [hsame] at hnext
    rw [List.foldl_cons, hsame, ih hnext]

variable (ctx first) in
/-- The sites of a file are passed base by base, then capture by capture. -/
lemma foldl_sites (captures : List Capture) :
    (ctx.sites captures).foldl (UsagePass.step ctx first) .start =
      captures.foldl (ctx.take first) (ctx.bases.foldl (UsagePass.step ctx first) .start) := by
  rw [sites_eq, List.foldl_append, List.foldl_filterMap]
  congr 1
  funext pass c
  rw [take]
  cases Site.ofCapture? c <;> rfl

lemma usages_of_thinned {captures kept : List Capture} (h : ctx.Thinned [] captures kept) :
    ctx.usages kept = ctx.usages captures := by
  rcases hentries : ctx.entries with _ | ⟨first, own⟩
  · simp only [usages, hentries]
  · simp only [usages, hentries, foldl_sites, h.foldl_take covers_bases]

end UsageContext

/-- **Only first occurrences count.** Leave out every capture that is neither a name nor a call,
every one whose text is the name of a declared base, and every one whose text a name or a call
before it has, whichever of the two it is. The candidates and the deferred calls of the file stay
the same, in the same order. They also do when only some of these captures are left out. -/
theorem usages_withoutIdle (ctx : UsageContext) (captures : List Capture) :
    ctx.usages (ctx.withoutIdle [] captures) = ctx.usages captures ∧
      ∀ kept, ctx.Thinned [] captures kept → ctx.usages kept = ctx.usages captures :=
  ⟨UsageContext.usages_of_thinned (ctx.thinned_withoutIdle [] captures),
    fun _ h => UsageContext.usages_of_thinned h⟩

/-- Two classes with one base class, and a third one with another. -/
def siblings : UsageContext := heirs .csharp .empty [("A", "Base"), ("B", "Base"), ("C", "Other")]

/-- A name, a modifier, a base, a call with the text of the name, another call and its text as a
name. -/
def crowdedCaptures : List Capture :=
  [⟨.qualifiedName, "Shop.Cart", 0, 9, 1⟩, ⟨.accessorModifier, "public", 10, 16, 1⟩,
    ⟨.qualifiedName, "Base", 20, 24, 2⟩, ⟨.callExpression, "Shop.Cart", 30, 39, 3⟩,
    ⟨.callExpression, "c.Pay", 40, 45, 4⟩, ⟨.qualifiedName, "c.Pay", 50, 55, 5⟩]

/-- Two captures of six count, and the last one may also stay. -/
theorem usages_withoutIdle_crowded :
    siblings.withoutIdle [] crowdedCaptures =
        [⟨.qualifiedName, "Shop.Cart", 0, 9, 1⟩, ⟨.callExpression, "c.Pay", 40, 45, 4⟩] ∧
      siblings.usages
          [⟨.qualifiedName, "Shop.Cart", 0, 9, 1⟩, ⟨.callExpression, "c.Pay", 40, 45, 4⟩] =
        siblings.usages crowdedCaptures ∧
      siblings.usages
          [⟨.qualifiedName, "Shop.Cart", 0, 9, 1⟩, ⟨.callExpression, "c.Pay", 40, 45, 4⟩,
            ⟨.qualifiedName, "c.Pay", 50, 55, 5⟩] =
        siblings.usages crowdedCaptures := by
  have hreduced : siblings.withoutIdle [] crowdedCaptures =
      [⟨.qualifiedName, "Shop.Cart", 0, 9, 1⟩, ⟨.callExpression, "c.Pay", 40, 45, 4⟩] := by decide
  obtain ⟨hall, hsome⟩ := usages_withoutIdle siblings crowdedCaptures
  refine ⟨hreduced, hreduced ▸ hall, hsome _ ?_⟩
  exact .keep _ (.leave (by decide) (.leave (by decide) (.leave (by decide)
    (.keep _ (.keep _ (.nil _))))))

end TypeCoupling
