import TypeCoupling.Proofs.Splitting
import TypeCoupling.Proofs.UsagePass

/-!
Which declared bases have candidates.

The bases of all types of a file go through the pass before any capture does, and a text is looked
at once. So a base has its candidates unless a base that was looked at before it takes its text
(`Takes`): by having it, by being cleaned to it, or by leaving it behind an import. What the file
captures does not matter. Where two types name the same base, the candidates belong to the first of
them alone.
-/

namespace TypeCoupling

/-- A type declares a base of a kind. -/
def Entry.Declares (e : Entry) (kind : UsageKind) (text : String) : Prop :=
  (kind = .extension ∧ e.extended = some text) ∨ (kind = .implementation ∧ text ∈ e.implemented)

namespace Site

/-- The site of a base. -/
def ofBase (e : Entry) (kind : UsageKind) (text : String) : Site :=
  ⟨false, text, kind, some e.qualifiedName⟩

lemma mem_ofEntry {e : Entry} {s : Site} :
    s ∈ ofEntry e ↔ ∃ kind text, e.Declares kind text ∧ s = ofBase e kind text := by
  simp only [ofEntry, List.mem_append, List.mem_map, Option.mem_toList]
  constructor
  · rintro (⟨text, h, rfl⟩ | ⟨text, h, rfl⟩)
    · exact ⟨.implementation, text, Or.inr ⟨rfl, h⟩, rfl⟩
    · exact ⟨.extension, text, Or.inl ⟨rfl, h⟩, rfl⟩
  · rintro ⟨kind, text, ⟨rfl, h⟩ | ⟨rfl, h⟩, rfl⟩
    · exact Or.inr ⟨text, h, rfl⟩
    · exact Or.inl ⟨text, h, rfl⟩

end Site

namespace UsageContext

/-- The bases of the types of a file, in the order of the types. -/
def bases (ctx : UsageContext) : List Site := ctx.entries.flatMap Site.ofEntry

/-- The bases that stand before a base. -/
def basesBefore (ctx : UsageContext) (s : Site) : List Site := ctx.bases.takeWhile (· ≠ s)

/-- A name without the decorations of its parts. -/
def cleanName (ctx : UsageContext) (text : String) : String := ctx.nameOf (.ofName text)

variable {ctx : UsageContext} {first : Entry} {s : Site}

lemma mem_bases : s ∈ ctx.bases ↔
    ∃ e ∈ ctx.entries, ∃ kind text, e.Declares kind text ∧ s = .ofBase e kind text := by
  simp only [bases, List.mem_flatMap, Site.mem_ofEntry]

lemma sites_eq (captures : List Capture) :
    ctx.sites captures = ctx.bases ++ captures.filterMap Site.ofCapture? := rfl

lemma isCall_of_mem_bases (h : s ∈ ctx.bases) : s.isCall = false := by
  obtain ⟨e, -, kind, text, -, rfl⟩ := mem_bases.mp h
  rfl

lemma basesBefore_subset : ctx.basesBefore s ⊆ ctx.bases :=
  (List.takeWhile_sublist _).subset

lemma notMem_basesBefore : s ∉ ctx.basesBefore s := by
  intro h
  simpa using List.mem_takeWhile_imp h

lemma bases_eq_append (h : s ∈ ctx.bases) :
    ∃ after, ctx.bases = ctx.basesBefore s ++ s :: after := by
  obtain ⟨before, after, hsplit, hbefore⟩ := List.eq_append_cons_of_mem h
  have htaken : ctx.basesBefore s = before := by
    rw [basesBefore, hsplit, List.takeWhile_append_of_pos, List.takeWhile_cons_of_neg (by simp),
      List.append_nil]
    intro d hd
    simpa using fun hds : d = s => hbefore (hds ▸ hd)
  exact ⟨after, by rw [htaken, hsplit]⟩

/-! ### What a base contributes -/

/-- A name means the same whatever it is used for. -/
lemma resolve_of_name (h : s.isCall = false) (scope : String) :
    ctx.resolve s scope = ctx.resolve (.ofName s.text) scope := by
  obtain ⟨isCall, text, kind, owner⟩ := s
  obtain rfl : isCall = false := h
  rfl

/-- The text that a name leaves depends on its own text alone. -/
lemma contribution_settled_of_name (h : s.isCall = false) :
    (ctx.contribution first s).settled = ctx.settledBy s.text := by
  unfold contribution settledBy
  rw [resolve_of_name h]
  exact resolve_settled _ _ _

lemma settledBy_of_unexplained {text : String} (h : ctx.explains? (.ofName text) = none) :
    ctx.settledBy text = ctx.cleanName text := by
  rw [settledBy, resolve_of_unexplained h, resolvePlain_settled]
  rfl

lemma settledBy_of_explained {text : String} {i : Import}
    (h : ctx.explains? (.ofName text) = some i) :
    ctx.settledBy text =
      Text.join ctx.profile.delimiter ((ctx.parts (.ofName text)).drop 1) := by
  rw [settledBy, resolve_of_explained h]
  rfl

/-- A name stands for something if what remains of it is the name of a type; nothing may remain
behind an import only. -/
def StandsForType (ctx : UsageContext) (text : String) : Prop :=
  isTypeName (ctx.settledBy text) ∧
    (ctx.settledBy text = "" → (ctx.explains? (.ofName text)).isSome)

lemma standsForType_of_clean {text : String} (hne : ctx.cleanName text ≠ "")
    (htype : isTypeName (ctx.cleanName text)) : ctx.StandsForType text := by
  rcases h : ctx.explains? (.ofName text) with _ | i
  · rw [StandsForType, settledBy_of_unexplained h]
    exact ⟨htype, fun hempty => absurd hempty hne⟩
  · rw [StandsForType, settledBy_of_explained h, h]
    exact ⟨isTypeName_join_drop htype, fun _ => rfl⟩

lemma targets_ne_nil_iff {text : String} (scope : String) :
    (ctx.resolve (.ofName text) scope).targets ≠ [] ↔ ctx.StandsForType text := by
  have hplain : ctx.endsInMember (.ofName text) = false := rfl
  rcases h : ctx.explains? (.ofName text) with _ | i
  · rw [resolve_of_unexplained h, StandsForType, settledBy_of_unexplained h, h]
    simp only [resolvePlain, hplain, cleanName, nameOf]
    generalize Text.join ctx.profile.delimiter _ = name
    cases isTypeName name <;> simp [lookups]
  · rw [resolve_of_explained h, StandsForType, settledBy_of_explained h, h]
    simp only [resolveImported, hplain, Bool.false_eq_true, if_false]
    cases isTypeName (Text.join ctx.profile.delimiter ((ctx.parts (.ofName text)).drop 1))
    · simp
    · simp only [Bool.not_true, Bool.false_eq_true, if_false]
      split <;> simp

/-- The type that a base belongs to. -/
lemma ownerOf_base {e : Entry} (he : e ∈ ctx.entries) (kind : UsageKind) (text : String) :
    (ctx.ownerOf first (.ofBase e kind text)).qualifiedName = e.qualifiedName := by
  have hfound : (ctx.entries.find? (·.qualifiedName == e.qualifiedName)).isSome := by
    rw [List.find?_isSome]
    exact ⟨e, he, beq_self_eq_true _⟩
  obtain ⟨d, hd⟩ := Option.isSome_iff_exists.mp hfound
  have hname : d.qualifiedName = e.qualifiedName := by simpa using List.find?_some hd
  simpa [ownerOf, Site.ofBase, hd] using hname

/-- Candidates carry the type and the kind of their site. -/
lemma mem_candidatesOf {c : Candidate} (h : c ∈ ctx.candidatesOf first s) :
    c.source = (ctx.ownerOf first s).qualifiedName ∧ c.kind = s.kind := by
  rw [candidatesOf, candidates, List.mem_eraseDups, List.mem_map] at h
  obtain ⟨t, -, rfl⟩ := h
  exact ⟨rfl, rfl⟩

/-- A base that stands for something has a candidate of its type and kind, and no other has. -/
lemma exists_candidate_of_base_iff {e : Entry} (he : e ∈ ctx.entries) (kind : UsageKind)
    {text : String} :
    (∃ c ∈ ctx.candidatesOf first (.ofBase e kind text),
      c.source = e.qualifiedName ∧ c.kind = kind) ↔ ctx.StandsForType text := by
  rw [← targets_ne_nil_iff (ctx.ownerOf first (.ofBase e kind text)).scope]
  constructor
  · rintro ⟨c, hc, -⟩ hnil
    have hnone : ctx.candidatesOf first (.ofBase e kind text) = [] := by
      rw [candidatesOf, contribution, resolve_of_name rfl]
      exact congrArg (ctx.candidates (.ofBase e kind text) _) hnil
    simp [hnone] at hc
  · intro hne
    obtain ⟨target, htarget⟩ := List.exists_mem_of_ne_nil _ hne
    refine ⟨⟨target, (ctx.ownerOf first (.ofBase e kind text)).qualifiedName, ctx.file, kind⟩, ?_,
      ownerOf_base he kind text, rfl⟩
    rw [candidatesOf, candidates, List.mem_eraseDups]
    exact List.mem_map.mpr ⟨target, htarget, rfl⟩

/-! ### Bases in the pass -/

/-- How the text of a base takes that of a later one. -/
inductive Takes (ctx : UsageContext) (earlier text : String) : Prop where
  | same (h : earlier = text)
  | cleaned (hplain : ctx.explains? (.ofName earlier) = none) (h : ctx.cleanName earlier = text)
  | behindImport (himport : (ctx.explains? (.ofName earlier)).isSome)
      (h : Text.join ctx.profile.delimiter ((ctx.parts (.ofName earlier)).drop 1) = text)

lemma takes_iff {earlier text : String} :
    ctx.Takes earlier text ↔ earlier = text ∨ ctx.settledBy earlier = text := by
  constructor
  · rintro (h | ⟨hplain, h⟩ | ⟨himport, h⟩)
    · exact Or.inl h
    · exact Or.inr ((settledBy_of_unexplained hplain).trans h)
    · obtain ⟨i, hi⟩ := Option.isSome_iff_exists.mp himport
      exact Or.inr ((settledBy_of_explained hi).trans h)
  · rintro (h | h)
    · exact .same h
    · rcases hkey : ctx.explains? (.ofName earlier) with _ | i
      · exact .cleaned hkey ((settledBy_of_unexplained hkey).symm.trans h)
      · exact .behindImport (by rw [hkey]; rfl) ((settledBy_of_explained hkey).symm.trans h)

/-- A base that is looked at before takes the text of a base. -/
def Taken (ctx : UsageContext) (first : Entry) (s : Site) : Prop :=
  ∃ d ∈ ctx.lookedAt first ∅ (ctx.basesBefore s), ctx.Takes d.text s.text

/-- **A base is looked at unless its text is taken**, whatever the file captures. -/
lemma base_mem_lookedAt_iff (captures : List Capture) (h : s ∈ ctx.bases) :
    s ∈ ctx.lookedAt first ∅ (ctx.sites captures) ↔ ¬ctx.Taken first s := by
  obtain ⟨after, hsplit⟩ := bases_eq_append h
  have hname : ∀ d ∈ ctx.lookedAt first ∅ (ctx.basesBefore s), d.isCall = false :=
    fun d hd => isCall_of_mem_bases (basesBefore_subset (lookedAt_subset hd))
  rw [sites_eq, hsplit, List.append_assoc, List.cons_append]
  constructor
  · rintro hs ⟨d, hd, htakes⟩
    obtain ⟨htext, hleft⟩ := clear_of_mem_lookedAt _ _ notMem_basesBefore hs d hd
    rw [contribution_settled_of_name (hname d hd)] at hleft
    exact (takes_iff.mp htakes).elim htext hleft
  · intro hfree
    refine mem_lookedAt_of_clear _ _ Std.HashSet.not_mem_empty fun d hd => ?_
    rw [contribution_settled_of_name (hname d hd)]
    exact ⟨fun h => hfree ⟨d, hd, takes_iff.mpr (Or.inl h)⟩,
      fun h => hfree ⟨d, hd, takes_iff.mpr (Or.inr h)⟩⟩

/-- A site of an inheritance is a base. -/
lemma mem_bases_of_kind {captures : List Capture} (hkind : s.kind ≠ .usage)
    (h : s ∈ ctx.sites captures) : s ∈ ctx.bases := by
  rw [sites_eq] at h
  refine (List.mem_append.mp h).resolve_right fun hcapture => ?_
  obtain ⟨c, -, hc⟩ := List.mem_filterMap.mp hcapture
  exact hkind (Site.frame_of_ofCapture? hc).1

end UsageContext

/-- **When an inheritance is kept.** Take any file and any captures. A declared base whose clean
name is the name of a type has a candidate of its type and kind, unless a base that was looked at
before it takes its text. This is exact: a type has a candidate of an inheritance of some kind if
and only if it declares a base of this kind that stands for something and whose text is not taken.
A text is taken by a base of the same text, by one that no import explains and that is cleaned to
it, and by one that leaves it behind an import. -/
theorem inheritance_kept_iff_not_taken (ctx : UsageContext) {first : Entry}
    (hfirst : ctx.entries.head? = some first) (captures : List Capture) :
    (∀ e ∈ ctx.entries, ∀ kind text, e.Declares kind text →
      ctx.cleanName text ≠ "" → isTypeName (ctx.cleanName text) →
      ¬ctx.Taken first (.ofBase e kind text) →
      ∃ c ∈ (ctx.usages captures).candidates, c.source = e.qualifiedName ∧ c.kind = kind) ∧
    ∀ name kind, kind ≠ .usage →
      ((∃ c ∈ (ctx.usages captures).candidates, c.source = name ∧ c.kind = kind) ↔
        ∃ e ∈ ctx.entries, e.qualifiedName = name ∧ ∃ text, e.Declares kind text ∧
          ctx.StandsForType text ∧ ¬ctx.Taken first (.ofBase e kind text)) := by
  have hkept : ∀ e ∈ ctx.entries, ∀ kind text, e.Declares kind text → ctx.StandsForType text →
      ¬ctx.Taken first (.ofBase e kind text) →
      ∃ c ∈ (ctx.usages captures).candidates, c.source = e.qualifiedName ∧ c.kind = kind := by
    intro e he kind text hdeclares hstands hfree
    have hbase : Site.ofBase e kind text ∈ ctx.bases :=
      UsageContext.mem_bases.mpr ⟨e, he, kind, text, hdeclares, rfl⟩
    have hlooked := (UsageContext.base_mem_lookedAt_iff captures hbase).mpr hfree
    obtain ⟨c, hc, hframe⟩ := (UsageContext.exists_candidate_of_base_iff he kind).mpr hstands
    rw [UsageContext.usages_eq hfirst]
    exact ⟨c, List.mem_flatMap.mpr ⟨_, hlooked, hc⟩, hframe⟩
  refine ⟨fun e he kind text hdeclares hne htype => ?_, fun name kind hkind => ⟨?_, ?_⟩⟩
  · exact hkept e he kind text hdeclares (UsageContext.standsForType_of_clean hne htype)
  · rintro ⟨c, hc, rfl, rfl⟩
    rw [UsageContext.usages_eq hfirst] at hc
    obtain ⟨s, hs, hc⟩ := List.mem_flatMap.mp hc
    obtain ⟨hsource, hskind⟩ := UsageContext.mem_candidatesOf hc
    have hbase := UsageContext.mem_bases_of_kind (hskind ▸ hkind) (UsageContext.lookedAt_subset hs)
    have hfree := (UsageContext.base_mem_lookedAt_iff captures hbase).mp hs
    obtain ⟨e, he, kind, text, hdeclares, rfl⟩ := UsageContext.mem_bases.mp hbase
    obtain rfl : c.kind = kind := hskind
    have howner : c.source = e.qualifiedName := hsource.trans (UsageContext.ownerOf_base he _ text)
    exact ⟨e, he, howner.symm, text, hdeclares,
      (UsageContext.exists_candidate_of_base_iff he _).mp ⟨c, hc, howner, rfl⟩, hfree⟩
  · rintro ⟨e, he, rfl, text, hdeclares, hstands, hfree⟩
    exact hkept e he kind text hdeclares hstands hfree

/-- A class of the namespace `App` with a base class. -/
def heir (l : Language) (typeName base : String) : Entry :=
  { Entry.plain "App" typeName l.profile.delimiter "a" l with extended := some base }

/-- A file of classes with a base class each. -/
def heirs (l : Language) (imports : ImportTable) (classes : List (String × String)) :
    UsageContext where
  profile := l.profile
  imports := imports
  entries := classes.map fun c => heir l c.1 c.2
  file := "a"
  maxAncestors := none

/-- The import of the namespace `Lib.Models`. -/
def modelsImport : ImportTable := ImportTable.empty.push (.plain "Lib.Models" "." "a")

/-- A class whose base is the name of a type has no candidate of it. -/
def UsageContext.Loses (ctx : UsageContext) (e : Entry) (base : String) : Prop :=
  e ∈ ctx.entries ∧ e.Declares .extension base ∧ ctx.cleanName base ≠ "" ∧
    isTypeName (ctx.cleanName base) ∧
    ¬∃ c ∈ (ctx.usages []).candidates, c.source = e.qualifiedName ∧ c.kind = .extension

lemma loses_of_usages {ctx : UsageContext} {e : Entry} {base : String} {kept : List Candidate}
    (he : e ∈ ctx.entries) (hbase : e.extended = some base) (hclean : ctx.cleanName base = base)
    (hne : base ≠ "") (htype : isTypeName base) (hkept : (ctx.usages []).candidates = kept)
    (hlost : ¬∃ c ∈ kept, c.source = e.qualifiedName ∧ c.kind = .extension) :
    ctx.Loses e base := by
  rw [← hclean] at hne htype
  exact ⟨he, Or.inl ⟨rfl, hbase⟩, hne, htype, by rwa [hkept]⟩

lemma usages_same_base :
    ((heirs .csharp .empty [("A", "Base"), ("B", "Base")]).usages []).candidates =
      [⟨"Base", "App.A", "a", .extension⟩, ⟨"App.Base", "App.A", "a", .extension⟩] := by cbv

lemma usages_rooted_base :
    ((heirs .php .empty [("A", "\\Base"), ("B", "Base")]).usages []).candidates =
      [⟨"Base", "App\\A", "a", .extension⟩, ⟨"App\\Base", "App\\A", "a", .extension⟩] := by cbv

lemma usages_imported_base :
    ((heirs .csharp modelsImport [("A", "Models.User"), ("B", "User")]).usages []).candidates =
      [⟨"Lib.Models.User", "App.A", "a", .extension⟩] := by cbv

/-- In each of three files the second class has no candidate: its base is the one of the first
class, is what the base of the first class is cleaned to, or remains of that behind an import. In
the last file it has one if the classes change places. -/
theorem second_heir_loses_base :
    (heirs .csharp .empty [("A", "Base"), ("B", "Base")]).Loses (heir .csharp "B" "Base") "Base" ∧
    (heirs .php .empty [("A", "\\Base"), ("B", "Base")]).Loses (heir .php "B" "Base") "Base" ∧
    (heirs .csharp modelsImport [("A", "Models.User"), ("B", "User")]).Loses
      (heir .csharp "B" "User") "User" ∧
    ⟨"App.User", "App.B", "a", .extension⟩ ∈ ((heirs .csharp modelsImport
      [("B", "User"), ("A", "Models.User")]).usages []).candidates := by
  have hswapped : ((heirs .csharp modelsImport
      [("B", "User"), ("A", "Models.User")]).usages []).candidates =
      [⟨"User", "App.B", "a", .extension⟩, ⟨"App.User", "App.B", "a", .extension⟩,
        ⟨"Lib.Models.User", "App.B", "a", .extension⟩,
        ⟨"Lib.Models.User", "App.A", "a", .extension⟩] := by cbv
  refine ⟨?_, ?_, ?_, ?_⟩
  · exact loses_of_usages (by simp [heirs]) rfl (by cbv) (by decide) (by decide) usages_same_base
      (by decide)
  · exact loses_of_usages (by simp [heirs]) rfl (by cbv) (by decide) (by decide)
      usages_rooted_base (by decide)
  · exact loses_of_usages (by simp [heirs]) rfl (by cbv) (by decide) (by decide)
      usages_imported_base (by decide)
  · rw [hswapped]
    decide

/-- Two classes that name a type of the imported namespace, and one with another base. -/
def modelHeirs : UsageContext :=
  heirs .csharp modelsImport [("A", "Models.User"), ("B", "User"), ("C", "Order")]

/-- The class `B` has no candidate, since `Models.User` leaves `User` behind the import. What the
bases before it leave does not take `Order`. -/
theorem inheritance_kept_iff_not_taken_models :
    (modelHeirs.cleanName "Order" = "Order" ∧
      modelHeirs.Taken (heir .csharp "A" "Models.User")
        (.ofBase (heir .csharp "B" "User") .extension "User") ∧
      ¬modelHeirs.Taken (heir .csharp "A" "Models.User")
        (.ofBase (heir .csharp "C" "Order") .extension "Order")) ∧
    (∃ c ∈ (modelHeirs.usages []).candidates, c.source = "App.C" ∧ c.kind = .extension) ∧
    ¬∃ c ∈ (modelHeirs.usages []).candidates, c.source = "App.B" ∧ c.kind = .extension := by
  have hclean : modelHeirs.cleanName "Order" = "Order" := by cbv
  have hleft : modelHeirs.settledBy "Models.User" = "User" := by cbv
  -- before both classes `Models.User` alone has been looked at
  have hbefore : ∀ e ∈ [heir .csharp "B" "User", heir .csharp "C" "Order"], ∀ base ∈ e.extended,
      modelHeirs.lookedAt (heir .csharp "A" "Models.User") ∅
          (modelHeirs.basesBefore (.ofBase e .extension base)) =
        [.ofBase (heir .csharp "A" "Models.User") .extension "Models.User"] := by
    simp only [List.mem_cons, List.not_mem_nil, or_false]
    rintro e (rfl | rfl) base ⟨⟩
    · cbv
    · cbv
  have htaken : modelHeirs.Taken (heir .csharp "A" "Models.User")
      (.ofBase (heir .csharp "B" "User") .extension "User") := by
    refine ⟨.ofBase (heir .csharp "A" "Models.User") .extension "Models.User", ?_,
      UsageContext.takes_iff.mpr (Or.inr hleft)⟩
    rw [hbefore _ (by simp) "User" rfl]
    exact List.mem_singleton_self _
  have hfree : ¬modelHeirs.Taken (heir .csharp "A" "Models.User")
      (.ofBase (heir .csharp "C" "Order") .extension "Order") := by
    rintro ⟨d, hd, htakes⟩
    rw [hbefore _ (by simp) "Order" rfl] at hd
    obtain rfl := List.mem_singleton.mp hd
    rcases UsageContext.takes_iff.mp htakes with h | h
    · exact absurd h (by decide)
    · exact absurd (hleft.symm.trans h) (by decide)
  obtain ⟨hkept, hexact⟩ := inheritance_kept_iff_not_taken modelHeirs rfl []
  refine ⟨⟨hclean, htaken, hfree⟩, ?_, fun hsome => ?_⟩
  · exact hkept (heir .csharp "C" "Order") (by simp [modelHeirs, heirs]) .extension "Order"
      (Or.inl ⟨rfl, rfl⟩) (by rw [hclean]; decide) (by rw [hclean]; decide) hfree
  · obtain ⟨e, he, hname, base, hdeclares, -, hnot⟩ :=
      (hexact "App.B" .extension (by decide)).mp hsome
    have hclass : e = heir .csharp "B" "User" := by
      have hentries : ∀ d ∈ modelHeirs.entries,
          d.qualifiedName = "App.B" → d = heir .csharp "B" "User" := by decide
      exact hentries e he hname
    subst hclass
    obtain rfl : base = "User" := by simpa [Entry.Declares, heir, eq_comm] using hdeclares
    exact hnot htaken

end TypeCoupling
