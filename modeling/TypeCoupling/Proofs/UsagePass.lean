import Mathlib
import TypeCoupling.Proofs.Splitting
import TypeCoupling.Usage

/-!
What a pass over the sites of a file skips.

A pass looks at a site unless its text is settled. A site that is looked at settles two texts: its
own, and the text that remains of it after an import or after cleaning. The second one need not
be a text that stands for the same types, and then a later site with that text is swallowed: its
candidates are lost.
-/

namespace TypeCoupling

namespace UsageContext

variable (ctx : UsageContext) (first : Entry)

/-- What a site of the file contributes. -/
def contribution (s : Site) : Resolved := ctx.resolve s (ctx.ownerOf first s).scope

/-- The candidates of a site that is looked at. -/
def candidatesOf (s : Site) : List Candidate :=
  ctx.candidates s (ctx.ownerOf first s) (ctx.contribution first s).targets

/-- The sites that a pass looks at, in order. -/
def lookedAt : Std.HashSet String → List Site → List Site
  | _, [] => []
  | settled, s :: sites =>
    if settled.contains s.text then lookedAt settled sites
    else
      s :: lookedAt ((settled.insert s.text).insert (ctx.contribution first s).settled) sites

variable {ctx first} {settled : Std.HashSet String} {s : Site} {sites : List Site}

lemma lookedAt_cons_of_mem (h : s.text ∈ settled) :
    ctx.lookedAt first settled (s :: sites) = ctx.lookedAt first settled sites := by
  rw [lookedAt, if_pos (Std.HashSet.mem_iff_contains.mp h)]

lemma lookedAt_cons_of_notMem (h : s.text ∉ settled) :
    ctx.lookedAt first settled (s :: sites) =
      s :: ctx.lookedAt first
        ((settled.insert s.text).insert (ctx.contribution first s).settled) sites := by
  rw [lookedAt, if_neg fun hc => h (Std.HashSet.mem_iff_contains.mpr hc)]

lemma step_of_mem {pass : UsagePass} (h : s.text ∈ pass.settled) :
    UsagePass.step ctx first pass s = pass :=
  if_pos (Std.HashSet.mem_iff_contains.mp h)

lemma step_of_notMem {pass : UsagePass} (h : s.text ∉ pass.settled) :
    UsagePass.step ctx first pass s =
      { settled := (pass.settled.insert s.text).insert (ctx.contribution first s).settled
        candidates := pass.candidates ++ ctx.candidatesOf first s
        deferred := pass.deferred ++ (ctx.contribution first s).deferred.toList } :=
  if_neg fun hc => h (Std.HashSet.mem_iff_contains.mpr hc)

variable (ctx first) in
/-- **A pass collects the candidates of the sites it looks at.** -/
lemma foldl_step_candidates (sites : List Site) (pass : UsagePass) :
    (sites.foldl (UsagePass.step ctx first) pass).candidates.toList =
      pass.candidates.toList ++
        (ctx.lookedAt first pass.settled sites).flatMap (ctx.candidatesOf first) := by
  induction sites generalizing pass with
  | nil => simp [lookedAt]
  | cons s sites ih =>
    rw [List.foldl_cons, ih]
    by_cases h : s.text ∈ pass.settled
    · rw [step_of_mem h, lookedAt_cons_of_mem h]
    · rw [step_of_notMem h, lookedAt_cons_of_notMem h]
      simp

variable (ctx first) in
/-- A pass defers the chains of the sites it looks at. -/
lemma foldl_step_deferred (sites : List Site) (pass : UsagePass) :
    (sites.foldl (UsagePass.step ctx first) pass).deferred.toList =
      pass.deferred.toList ++ (ctx.lookedAt first pass.settled sites).flatMap
        fun s => (ctx.contribution first s).deferred.toList := by
  induction sites generalizing pass with
  | nil => simp [lookedAt]
  | cons s sites ih =>
    rw [List.foldl_cons, ih]
    by_cases h : s.text ∈ pass.settled
    · rw [step_of_mem h, lookedAt_cons_of_mem h]
    · rw [step_of_notMem h, lookedAt_cons_of_notMem h]
      simp

/-- **What a file uses**, said of the sites that are looked at. -/
lemma usages_eq (hfirst : ctx.entries.head? = some first) (captures : List Capture) :
    ctx.usages captures =
      ⟨(ctx.lookedAt first ∅ (ctx.sites captures)).flatMap (ctx.candidatesOf first),
        (ctx.lookedAt first ∅ (ctx.sites captures)).flatMap
          fun s => (ctx.contribution first s).deferred.toList⟩ := by
  obtain ⟨own, hown⟩ := List.head?_eq_some_iff.mp hfirst
  simp only [usages, hown, foldl_step_candidates, foldl_step_deferred]
  rfl

lemma lookedAt_subset : ctx.lookedAt first settled sites ⊆ sites := by
  induction sites generalizing settled with
  | nil => exact List.Subset.refl _
  | cons s sites ih =>
    by_cases h : s.text ∈ settled
    · rw [lookedAt_cons_of_mem h]
      exact List.subset_cons_of_subset _ ih
    · rw [lookedAt_cons_of_notMem h]
      exact List.cons_subset_cons _ ih

/-- **Why a site is skipped**: its text is settled, from the beginning or by a site that is looked
at, which has this text or leaves it. -/
lemma lookedAt_or_settled (h : s ∈ sites) :
    s ∈ ctx.lookedAt first settled sites ∨ s.text ∈ settled ∨
      ∃ s' ∈ ctx.lookedAt first settled sites,
        s.text = s'.text ∨ s.text = (ctx.contribution first s').settled := by
  induction sites generalizing settled with
  | nil => simp at h
  | cons d sites ih =>
    by_cases hd : d.text ∈ settled
    · rw [lookedAt_cons_of_mem hd]
      rcases List.mem_cons.mp h with rfl | h
      · exact Or.inr (Or.inl hd)
      · exact ih h
    · rw [lookedAt_cons_of_notMem hd]
      rcases List.mem_cons.mp h with rfl | h
      · exact Or.inl List.mem_cons_self
      · rcases ih h with hs | hs | ⟨s', hs', hsettled⟩
        · exact Or.inl (List.mem_cons_of_mem _ hs)
        · rw [Std.HashSet.mem_insert, Std.HashSet.mem_insert, beq_iff_eq, beq_iff_eq] at hs
          rcases hs with hs | hs | hs
          · exact Or.inr (Or.inr ⟨d, List.mem_cons_self, Or.inr hs.symm⟩)
          · exact Or.inr (Or.inr ⟨d, List.mem_cons_self, Or.inl hs.symm⟩)
          · exact Or.inr (Or.inl hs)
        · exact Or.inr (Or.inr ⟨s', List.mem_cons_of_mem _ hs', hsettled⟩)

/-- A site is looked at if no site that is looked at before it has its text or leaves it. -/
lemma mem_lookedAt_of_clear (before after : List Site) (hs : s.text ∉ settled)
    (hclear : ∀ d ∈ ctx.lookedAt first settled before,
      d.text ≠ s.text ∧ (ctx.contribution first d).settled ≠ s.text) :
    s ∈ ctx.lookedAt first settled (before ++ s :: after) := by
  induction before generalizing settled with
  | nil =>
    rw [List.nil_append, lookedAt_cons_of_notMem hs]
    exact List.mem_cons_self
  | cons d before ih =>
    rw [List.cons_append]
    by_cases hd : d.text ∈ settled
    · rw [lookedAt_cons_of_mem hd] at hclear ⊢
      exact ih hs hclear
    · rw [lookedAt_cons_of_notMem hd] at hclear ⊢
      obtain ⟨htext, hleft⟩ := hclear d List.mem_cons_self
      refine List.mem_cons_of_mem _ (ih ?_ fun d' hd' => hclear d' (List.mem_cons_of_mem _ hd'))
      simp only [Std.HashSet.mem_insert, beq_iff_eq]
      rintro (h | h | h)
      · exact hleft h
      · exact htext h
      · exact hs h

lemma text_notMem_of_mem_lookedAt (h : s ∈ ctx.lookedAt first settled sites) :
    s.text ∉ settled := by
  induction sites generalizing settled with
  | nil => simp [lookedAt] at h
  | cons d sites ih =>
    by_cases hd : d.text ∈ settled
    · rw [lookedAt_cons_of_mem hd] at h
      exact ih h
    · rw [lookedAt_cons_of_notMem hd] at h
      rcases List.mem_cons.mp h with rfl | h
      · exact hd
      · exact fun hs => ih h (by simp [hs])

/-- No site that is looked at before a site that is looked at has its text or leaves it. -/
lemma clear_of_mem_lookedAt (before after : List Site) (hs : s ∉ before)
    (h : s ∈ ctx.lookedAt first settled (before ++ s :: after)) :
    ∀ d ∈ ctx.lookedAt first settled before,
      d.text ≠ s.text ∧ (ctx.contribution first d).settled ≠ s.text := by
  induction before generalizing settled with
  | nil => simp [lookedAt]
  | cons d before ih =>
    obtain ⟨hds, hbefore⟩ : s ≠ d ∧ s ∉ before := by simpa using hs
    rw [List.cons_append] at h
    by_cases hd : d.text ∈ settled
    · rw [lookedAt_cons_of_mem hd] at h ⊢
      exact ih hbefore h
    · rw [lookedAt_cons_of_notMem hd] at h ⊢
      have hlater := (List.mem_cons.mp h).resolve_left hds
      have hfree := text_notMem_of_mem_lookedAt hlater
      simp only [Std.HashSet.mem_insert, beq_iff_eq, not_or] at hfree
      intro d' hd'
      rcases List.mem_cons.mp hd' with rfl | hd'
      · exact ⟨hfree.2.1, hfree.1⟩
      · exact ih hbefore hlater d' hd'

end UsageContext

/-! ### Names in files without bases -/

lemma isTypeName_iff {name : String} :
    isTypeName name ↔ ' ' ∉ name.toList ∧ '<' ∉ name.toList := by
  simp [isTypeName]

/-- What remains of a type name behind its first part is one as well. -/
lemma isTypeName_join_drop {d : String} {parts : List String}
    (h : isTypeName (Text.join d parts)) : isTypeName (Text.join d (parts.drop 1)) := by
  rw [isTypeName_iff] at h ⊢
  exact ⟨fun hc => h.1 (Text.mem_join_of_mem_drop hc),
    fun hc => h.2 (Text.mem_join_of_mem_drop hc)⟩

/-- The site where a name stands. -/
def Site.ofName (text : String) : Site := ⟨false, text, .usage, none⟩

/-- What a file captures is a usage and belongs to no base. -/
lemma Site.frame_of_ofCapture? {c : Capture} {s : Site} (h : ofCapture? c = some s) :
    s.kind = .usage ∧ s.owner = none := by
  unfold ofCapture? at h
  split at h
  · obtain rfl := Option.some.inj h
    exact ⟨rfl, rfl⟩
  · obtain rfl := Option.some.inj h
    exact ⟨rfl, rfl⟩
  · simp at h

namespace UsageContext

/-- No type of the file declares a base. -/
def NoBases (ctx : UsageContext) : Prop :=
  ∀ e ∈ ctx.entries, e.extended = none ∧ e.implemented = []

/-- The import that explains a site: the one that its first part finds. -/
def explains? (ctx : UsageContext) (s : Site) : Option Import :=
  ctx.imports.resolve? ((ctx.parts s).headD "")

/-- The name that a site writes: its clean parts, without a called member. -/
def nameOf (ctx : UsageContext) (s : Site) : String :=
  Text.join ctx.profile.delimiter
    (if ctx.endsInMember s then (ctx.parts s).dropLast else ctx.parts s)

/-- The text that a name settles besides its own. -/
def settledBy (ctx : UsageContext) (text : String) : String :=
  (ctx.resolve (.ofName text) "").settled

variable {ctx : UsageContext}

lemma resolve_of_explained {s : Site} {i : Import} (h : ctx.explains? s = some i)
    (scope : String) : ctx.resolve s scope = ctx.resolveImported s i ((ctx.parts s).drop 1) := by
  unfold explains? at h
  simp only [resolve, h]

lemma resolve_of_unexplained {s : Site} (h : ctx.explains? s = none) (scope : String) :
    ctx.resolve s scope = ctx.resolvePlain s scope (ctx.parts s) := by
  unfold explains? at h
  simp only [resolve, h]

lemma resolvePlain_settled (s : Site) (scope : String) (parts : List String) :
    (ctx.resolvePlain s scope parts).settled =
      Text.join ctx.profile.delimiter (if ctx.endsInMember s then parts.dropLast else parts) := by
  simp only [resolvePlain, apply_ite Resolved.settled, ite_self]

/-- A name that no import explains stands for all its look-ups, and a call is deferred with it. -/
lemma resolvePlain_of_typeName {s : Site} (hne : ctx.nameOf s ≠ "")
    (htype : isTypeName (ctx.nameOf s)) (scope : String) :
    ctx.resolvePlain s scope (ctx.parts s) =
      ⟨ctx.nameOf s, ctx.lookups scope (ctx.nameOf s),
        if s.isCall then
          some ⟨Text.join ctx.profile.delimiter (ctx.parts s), ctx.profile.delimiter,
            ctx.profile.callsLookLikeNames⟩
        else none⟩ := by
  unfold nameOf at hne htype ⊢
  simp [resolvePlain, hne, htype]

/-- What is settled does not depend on the namespace. -/
lemma resolve_settled (s : Site) (scope scope' : String) :
    (ctx.resolve s scope).settled = (ctx.resolve s scope').settled := by
  rcases h : ctx.explains? s with _ | i
  · simp only [resolve_of_unexplained h, resolvePlain_settled]
  · simp only [resolve_of_explained h]

/-- Names with the same parts stand for the same. -/
lemma resolve_ofName_congr {text text' : String}
    (h : ctx.parts (.ofName text) = ctx.parts (.ofName text')) (scope : String) :
    ctx.resolve (.ofName text) scope = ctx.resolve (.ofName text') scope := by
  simp only [resolve, h]
  rfl

lemma sites_of_noBases (hbases : ctx.NoBases) (captures : List Capture) :
    ctx.sites captures = captures.filterMap Site.ofCapture? := by
  have hentries : ctx.entries.flatMap Site.ofEntry = [] := by
    rw [List.flatMap_eq_nil_iff]
    intro e he
    obtain ⟨hext, himpl⟩ := hbases e he
    simp [Site.ofEntry, hext, himpl]
  rw [sites, hentries, List.nil_append]

lemma sites_of_names (hbases : ctx.NoBases) {captures : List Capture}
    (hnames : ∀ c ∈ captures, c.role = .qualifiedName) :
    ctx.sites captures = captures.map (.ofName ·.text) := by
  rw [sites_of_noBases hbases, ← List.filterMap_eq_map]
  refine List.filterMap_congr fun c hc => ?_
  simp [Site.ofCapture?, hnames c hc, Site.ofName]

lemma usages_of_names (hbases : ctx.NoBases) {captures : List Capture}
    (hnames : ∀ c ∈ captures, c.role = .qualifiedName) {first : Entry}
    (hfirst : ctx.entries.head? = some first) :
    (ctx.usages captures).candidates =
      (ctx.lookedAt first ∅ (captures.map (.ofName ·.text))).flatMap (ctx.candidatesOf first) := by
  rw [usages_eq hfirst, sites_of_names hbases hnames]

/-- What a capture contributes that stands alone. -/
lemma usages_single (hbases : ctx.NoBases) {first : Entry}
    (hfirst : ctx.entries.head? = some first) {c : Capture} {s : Site}
    (hs : Site.ofCapture? c = some s) :
    ctx.usages [c] =
      ⟨ctx.candidatesOf first s, (ctx.contribution first s).deferred.toList⟩ := by
  have hsites : ctx.sites [c] = [s] := by
    rw [sites_of_noBases hbases, List.filterMap_cons_some hs, List.filterMap_nil]
  rw [usages_eq hfirst, hsites]
  simp [lookedAt]

/-- The candidates of a name that stands alone. -/
lemma usages_of_name (hbases : ctx.NoBases) {c : Capture} (hname : c.role = .qualifiedName)
    {first : Entry} (hfirst : ctx.entries.head? = some first) :
    (ctx.usages [c]).candidates = ctx.candidatesOf first (.ofName c.text) := by
  have hs : Site.ofCapture? c = some (.ofName c.text) := by
    simp [Site.ofCapture?, hname, Site.ofName]
  rw [usages_single hbases hfirst hs]

lemma usages_of_no_entries {captures : List Capture} (h : ctx.entries.head? = none) :
    ctx.usages captures = ⟨[], []⟩ := by
  rw [List.head?_eq_none_iff] at h
  simp only [usages, h]

/-- Names with the same parts have the same candidates. -/
lemma usages_of_same_parts (hbases : ctx.NoBases) {c c' : Capture} (hc : c.role = .qualifiedName)
    (hc' : c'.role = .qualifiedName)
    (hparts : ctx.parts (.ofName c.text) = ctx.parts (.ofName c'.text)) :
    (ctx.usages [c]).candidates = (ctx.usages [c']).candidates := by
  rcases hfirst : ctx.entries.head? with _ | first
  · rw [usages_of_no_entries hfirst, usages_of_no_entries hfirst]
  · have hresolve := resolve_ofName_congr hparts first.scope
    rw [usages_of_name hbases hc hfirst, usages_of_name hbases hc' hfirst]
    exact congrArg (fun r : Resolved => ctx.candidates (.ofName c.text) first r.targets) hresolve

/-- The name of one capture swallows that of another: it leaves the other's text as settled, but has
not all its candidates. -/
def Swallows (ctx : UsageContext) (c c' : Capture) : Prop :=
  c'.text = ctx.settledBy c.text ∧
    ¬(ctx.usages [c']).candidates ⊆ (ctx.usages [c]).candidates

/-- A pass makes nothing up. -/
lemma exists_of_mem_usages (hbases : ctx.NoBases) {captures : List Capture}
    (hnames : ∀ c ∈ captures, c.role = .qualifiedName) {x : Candidate}
    (hx : x ∈ (ctx.usages captures).candidates) :
    ∃ c ∈ captures, x ∈ (ctx.usages [c]).candidates := by
  rcases hfirst : ctx.entries.head? with _ | first
  · rw [usages_of_no_entries hfirst] at hx
    simp at hx
  · rw [usages_of_names hbases hnames hfirst, List.mem_flatMap] at hx
    obtain ⟨s, hs, hx⟩ := hx
    obtain ⟨c, hc, rfl⟩ := List.mem_map.mp (lookedAt_subset hs)
    exact ⟨c, hc, by rwa [usages_of_name hbases (hnames c hc) hfirst]⟩

/-- Captures of which none swallows another lose nothing. -/
lemma mem_usages_of_not_swallows (hbases : ctx.NoBases) {captures : List Capture}
    (hnames : ∀ c ∈ captures, c.role = .qualifiedName)
    (hkeeps : ∀ c ∈ captures, ∀ c' ∈ captures, ¬ctx.Swallows c c') {c : Capture}
    (hc : c ∈ captures) {x : Candidate} (hx : x ∈ (ctx.usages [c]).candidates) :
    x ∈ (ctx.usages captures).candidates := by
  rcases hfirst : ctx.entries.head? with _ | first
  · rw [usages_of_no_entries hfirst] at hx
    simp at hx
  · rw [usages_of_names hbases hnames hfirst, List.mem_flatMap]
    have hsite : Site.ofName c.text ∈ captures.map (.ofName ·.text) := List.mem_map.mpr ⟨c, hc, rfl⟩
    rcases @lookedAt_or_settled ctx first ∅ _ _ hsite with hs | hs | ⟨s, hs, hsettled⟩
    · exact ⟨_, hs, by rwa [← usages_of_name hbases (hnames c hc) hfirst]⟩
    · simp at hs
    · -- the site that settles the text has the candidates
      refine ⟨s, hs, ?_⟩
      obtain ⟨d, hd, rfl⟩ := List.mem_map.mp (lookedAt_subset hs)
      rcases hsettled with htext | htext
      · have hsame : Site.ofName d.text = .ofName c.text := congrArg Site.ofName htext.symm
        rw [hsame]
        rwa [← usages_of_name hbases (hnames c hc) hfirst]
      · rw [← usages_of_name hbases (hnames d hd) hfirst]
        have hleft : c.text = ctx.settledBy d.text := htext.trans (resolve_settled _ _ _)
        exact not_not.mp (fun hlost => hkeeps d hd c hc ⟨hleft, hlost⟩) hx

/-- After a capture that swallows it, a capture contributes nothing. -/
lemma usages_pair_of_swallows (hbases : ctx.NoBases) {c c' : Capture}
    (hc : c.role = .qualifiedName) (hc' : c'.role = .qualifiedName) (h : ctx.Swallows c c') :
    (ctx.usages [c, c']).candidates = (ctx.usages [c]).candidates := by
  rcases hfirst : ctx.entries.head? with _ | first
  · rw [usages_of_no_entries hfirst, usages_of_no_entries hfirst]
  · have hnames : ∀ d ∈ [c, c'], d.role = .qualifiedName := by simp [hc, hc']
    have hleft : (ctx.contribution first (.ofName c.text)).settled = c'.text :=
      (resolve_settled _ _ _).trans h.1.symm
    have hsettled : (Site.ofName c'.text).text ∈ ((∅ : Std.HashSet String).insert
        (Site.ofName c.text).text).insert (ctx.contribution first (.ofName c.text)).settled :=
      Std.HashSet.mem_insert.mpr (Or.inl (beq_iff_eq.mpr hleft))
    rw [usages_of_names hbases hnames hfirst, usages_of_name hbases hc hfirst, List.map_cons,
      List.map_singleton, lookedAt_cons_of_notMem Std.HashSet.not_mem_empty,
      lookedAt_cons_of_mem hsettled]
    simp [lookedAt]

/-- How one name swallows another: an import explains it and the other is what remains, or no import
does and the other is the clean form, which reads differently when it is cleaned again. -/
lemma Swallows.cause (hbases : ctx.NoBases) {c c' : Capture} (hc : c.role = .qualifiedName)
    (hc' : c'.role = .qualifiedName) (h : ctx.Swallows c c') :
    ((ctx.explains? (.ofName c.text)).isSome ∧
        c'.text = Text.join ctx.profile.delimiter ((ctx.parts (.ofName c.text)).drop 1)) ∨
      (ctx.explains? (.ofName c.text) = none ∧
        c'.text = Text.join ctx.profile.delimiter (ctx.parts (.ofName c.text)) ∧
        ctx.parts (.ofName c'.text) ≠ ctx.parts (.ofName c.text)) := by
  rcases hexplained : ctx.explains? (.ofName c.text) with _ | i
  · refine Or.inr ⟨rfl, ?_, fun hparts => h.2 ?_⟩
    · rw [h.1, settledBy, resolve_of_unexplained hexplained, resolvePlain_settled]
      rfl
    · rw [usages_of_same_parts hbases hc' hc hparts]
      exact List.Subset.refl _
  · refine Or.inl ⟨rfl, ?_⟩
    rw [h.1, settledBy, resolve_of_explained hexplained]
    rfl

end UsageContext

/-- **When skipping settled texts loses nothing.** Take any captures of names in a file without
bases. A pass over some of them never makes a candidate up. It has the candidates of all of them
taken alone, whichever they are and in whatever order, exactly if none of the captures swallows
another. And one that does is explained by an import, behind which the other's text remains, or
its clean form is the other's text and reads differently when it is cleaned again. -/
theorem skipping_lossless_iff_not_swallows (ctx : UsageContext) (hbases : ctx.NoBases)
    (names : Set Capture) (hnames : ∀ c ∈ names, c.role = .qualifiedName) :
    (∀ captures : List Capture, (∀ c ∈ captures, c ∈ names) →
      ∀ x ∈ (ctx.usages captures).candidates, ∃ c ∈ captures, x ∈ (ctx.usages [c]).candidates) ∧
    ((∀ captures : List Capture, (∀ c ∈ captures, c ∈ names) →
        ∀ x, x ∈ (ctx.usages captures).candidates ↔
          ∃ c ∈ captures, x ∈ (ctx.usages [c]).candidates) ↔
      ∀ c ∈ names, ∀ c' ∈ names, ¬ctx.Swallows c c') ∧
    (∀ c ∈ names, ∀ c' ∈ names, ctx.Swallows c c' →
      ((ctx.explains? (.ofName c.text)).isSome ∧
          c'.text = Text.join ctx.profile.delimiter ((ctx.parts (.ofName c.text)).drop 1)) ∨
        (ctx.explains? (.ofName c.text) = none ∧
          c'.text = Text.join ctx.profile.delimiter (ctx.parts (.ofName c.text)) ∧
          ctx.parts (.ofName c'.text) ≠ ctx.parts (.ofName c.text))) := by
  refine ⟨fun captures h x hx => ?_, ⟨fun hall c hc c' hc' hswallows => ?_, fun hkeeps => ?_⟩,
    fun c hc c' hc' h => h.cause hbases (hnames c hc) (hnames c' hc')⟩
  · exact UsageContext.exists_of_mem_usages hbases (fun c hc => hnames c (h c hc)) hx
  · -- the two captures alone show the loss
    refine hswallows.2 fun x hx => ?_
    rw [← UsageContext.usages_pair_of_swallows hbases (hnames c hc) (hnames c' hc') hswallows,
      hall [c, c'] (by simp [hc, hc'])]
    exact ⟨c', by simp, hx⟩
  · intro captures h x
    have hroles : ∀ c ∈ captures, c.role = .qualifiedName := fun c hc => hnames c (h c hc)
    constructor
    · exact UsageContext.exists_of_mem_usages hbases hroles
    · rintro ⟨c, hc, hx⟩
      exact UsageContext.mem_usages_of_not_swallows hbases hroles
        (fun d hd d' hd' => hkeeps d (h d hd) d' (h d' hd')) hc hx

/-- A type of the namespace `App` in a file with some imports. -/
def appContext (imports : ImportTable) : UsageContext where
  profile := Language.csharp.profile
  imports := imports
  entries := [Entry.plain "App" "A" "." "a.cs" .csharp]
  file := "a.cs"
  maxAncestors := none

lemma appContext_noBases (imports : ImportTable) : (appContext imports).NoBases := by
  intro e he
  obtain rfl := List.mem_singleton.mp he
  exact ⟨rfl, rfl⟩

/-- The file imports `Lib.Models`. -/
def modelsContext : UsageContext :=
  appContext (ImportTable.empty.push (.plain "Lib.Models" "." "a.cs"))

def modelsUser : Capture := ⟨.qualifiedName, "Models.User", 30, 41, 2⟩

def bareUser : Capture := ⟨.qualifiedName, "User", 50, 54, 3⟩

lemma usages_modelsUser : (modelsContext.usages [modelsUser]).candidates =
    [⟨"Lib.Models.User", "App.A", "a.cs", .usage⟩] := by cbv

lemma usages_bareUser : (modelsContext.usages [bareUser]).candidates =
    [⟨"User", "App.A", "a.cs", .usage⟩, ⟨"App.User", "App.A", "a.cs", .usage⟩,
      ⟨"Lib.Models.User", "App.A", "a.cs", .usage⟩] := by cbv

lemma modelsUser_swallows_bareUser : modelsContext.Swallows modelsUser bareUser := by
  refine ⟨by cbv, ?_⟩
  rw [usages_bareUser, usages_modelsUser]
  decide

/-- `Models.User` is explained by the import and leaves `User`, so that a `User` after it, which may
be one of `App`, is skipped. In the other order nothing is lost. -/
theorem imported_name_swallows_bare_name :
    (modelsContext.usages [modelsUser, bareUser]).candidates =
        (modelsContext.usages [modelsUser]).candidates ∧
      ⟨"App.User", "App.A", "a.cs", .usage⟩ ∉ (modelsContext.usages [modelsUser]).candidates ∧
      ⟨"App.User", "App.A", "a.cs", .usage⟩ ∈ (modelsContext.usages [bareUser]).candidates ∧
      (modelsContext.usages [bareUser, modelsUser]).candidates =
        (modelsContext.usages [bareUser]).candidates ++
          (modelsContext.usages [modelsUser]).candidates := by
  refine ⟨UsageContext.usages_pair_of_swallows (appContext_noBases _) rfl rfl
    modelsUser_swallows_bareUser, ?_, ?_, ?_⟩
  · rw [usages_modelsUser]
    decide
  · rw [usages_bareUser]
    decide
  · rw [usages_bareUser, usages_modelsUser]
    cbv

def orderArray : Capture := ⟨.qualifiedName, "Order[]", 60, 67, 4⟩

def order : Capture := ⟨.qualifiedName, "Order", 70, 75, 5⟩

/-- An array of orders settles `Order` and has its candidates, so it swallows nothing. -/
theorem skipping_lossless_iff_not_swallows_orders :
    (modelsContext.NoBases ∧ ∀ c ∈ ({orderArray, order} : Set Capture), c.role = .qualifiedName) ∧
      (∀ x, x ∈ (modelsContext.usages [orderArray, order]).candidates ↔
        ∃ c ∈ [orderArray, order], x ∈ (modelsContext.usages [c]).candidates) ∧
      ¬∀ captures : List Capture, (∀ c ∈ captures, c ∈ ({modelsUser, bareUser} : Set Capture)) →
        ∀ x, x ∈ (modelsContext.usages captures).candidates ↔
          ∃ c ∈ captures, x ∈ (modelsContext.usages [c]).candidates := by
  have hbases : modelsContext.NoBases := appContext_noBases _
  have horders : ∀ c ∈ ({orderArray, order} : Set Capture), c.role = .qualifiedName := by
    rintro c (rfl | rfl) <;> rfl
  have husers : ∀ c ∈ ({modelsUser, bareUser} : Set Capture), c.role = .qualifiedName := by
    rintro c (rfl | rfl) <;> rfl
  have hparts : ∀ c ∈ ({orderArray, order} : Set Capture),
      modelsContext.parts (.ofName c.text) = ["Order"] := by
    rintro c (rfl | rfl) <;> cbv
  refine ⟨⟨hbases, horders⟩, ?_, fun hlossless => ?_⟩
  · refine (skipping_lossless_iff_not_swallows _ hbases _ horders).2.1.mpr ?_ _ (by simp)
    intro c hc c' hc' hswallows
    apply hswallows.2
    rw [UsageContext.usages_of_same_parts hbases (horders c' hc') (horders c hc)
      ((hparts c' hc').trans (hparts c hc).symm)]
    exact List.Subset.refl _
  · exact (skipping_lossless_iff_not_swallows _ hbases _ husers).2.1.mp hlossless modelsUser
      (by simp) bareUser (by simp) modelsUser_swallows_bareUser

end TypeCoupling
