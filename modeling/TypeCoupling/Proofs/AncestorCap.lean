import TypeCoupling.Proofs.Link
import TypeCoupling.Proofs.NameLookup

/-!
How many namespaces around a type are tried.

The cap on them decides which look-ups a name has and nothing else. What a site leaves as settled
and what it defers are the same under any cap, so two passes under different caps look at the same
sites, and the one with the higher cap has more candidates. It need not have them in the same order:
an ancestor that is tried may be an import as well, and then its candidate moves forward.
-/

namespace TypeCoupling

/-- A cap that allows no more than another one; no cap allows the most. -/
def CapLe (low high : Option Nat) : Prop := ∀ n ∈ high, ∃ m ∈ low, m ≤ n

instance (low high : Option Nat) : Decidable (CapLe low high) :=
  inferInstanceAs (Decidable (∀ n ∈ high, ∃ m ∈ low, m ≤ n))

/-- One contribution has what another one has, and differs from it in further targets only. -/
structure Resolved.Widens (r r' : Resolved) : Prop where
  settled : r.settled = r'.settled
  targets : r.targets ⊆ r'.targets
  deferred : r.deferred = r'.deferred

lemma Resolved.Widens.refl (r : Resolved) : r.Widens r := ⟨rfl, List.Subset.refl _, rfl⟩

namespace UsageContext

/-- The file under another cap. -/
def withCap (ctx : UsageContext) (cap : Option Nat) : UsageContext :=
  { ctx with maxAncestors := cap }

variable {ctx : UsageContext} {low high : Option Nat}

/-! ### One site -/

/-- The nearest ancestors come first, so a higher cap only goes on. -/
lemma ancestors_isPrefix (h : CapLe low high) (scope : String) :
    (ctx.withCap low).ancestors scope <+: (ctx.withCap high).ancestors scope := by
  rw [ancestors, ancestors, outward_eq, outward_eq]
  refine List.IsPrefix.map _ ?_
  rcases low with _ | m
  · rcases high with _ | n
    · exact List.prefix_refl _
    · obtain ⟨m, hm, -⟩ := h n rfl
      simp at hm
  · rcases high with _ | n
    · exact List.take_prefix _ _
    · obtain ⟨m', hm', hle⟩ := h n rfl
      obtain rfl : m = m' := by simpa using hm'
      exact List.take_prefix_take_left hle

lemma lookups_subset (h : CapLe low high) (scope name : String) :
    (ctx.withCap low).lookups scope name ⊆ (ctx.withCap high).lookups scope name := by
  have hbelow := List.map_subset (fun outer => outer ++ ctx.profile.delimiter ++ name)
    (@ancestors_isPrefix ctx low high h scope).subset
  intro target ht
  simp only [lookups, List.mem_append, List.mem_cons] at ht ⊢
  rcases ht with ((ht | ht) | ht) | ht
  · exact Or.inl (Or.inl (Or.inl ht))
  · exact Or.inl (Or.inl (Or.inr ht))
  · exact Or.inl (Or.inr (hbelow ht))
  · exact Or.inr ht

lemma resolvePlain_widens (h : CapLe low high) (s : Site) (scope : String) (parts : List String) :
    ((ctx.withCap low).resolvePlain s scope parts).Widens
      ((ctx.withCap high).resolvePlain s scope parts) := by
  have hmember : (ctx.withCap low).endsInMember s = (ctx.withCap high).endsInMember s := rfl
  have hprofile : (ctx.withCap low).profile = (ctx.withCap high).profile := rfl
  unfold resolvePlain
  rw [hmember, hprofile]
  dsimp only
  -- the cap is met in the look-ups of the name alone
  generalize Text.join _ (if (ctx.withCap high).endsInMember s then _ else _) = name
  split
  · exact .refl _
  · refine ⟨rfl, ?_, rfl⟩
    dsimp only
    split
    · exact List.Subset.refl _
    · exact lookups_subset h scope name

/-- **Step**: under a higher cap a site contributes more targets and nothing else. -/
lemma contribution_widens (h : CapLe low high) (first : Entry) (s : Site) :
    ((ctx.withCap low).contribution first s).Widens ((ctx.withCap high).contribution first s) := by
  have howner : (ctx.withCap low).ownerOf first s = (ctx.withCap high).ownerOf first s := rfl
  unfold contribution
  rw [howner]
  generalize ((ctx.withCap high).ownerOf first s).scope = scope
  rcases hkey : ctx.explains? s with _ | i
  · have hlow : (ctx.withCap low).explains? s = none := hkey
    have hhigh : (ctx.withCap high).explains? s = none := hkey
    rw [resolve_of_unexplained hlow, resolve_of_unexplained hhigh]
    exact resolvePlain_widens h s scope _
  · have hlow : (ctx.withCap low).explains? s = some i := hkey
    have hhigh : (ctx.withCap high).explains? s = some i := hkey
    rw [resolve_of_explained hlow, resolve_of_explained hhigh]
    exact .refl _

/-! ### The pass -/

/-- **Run**: the passes look at the same sites. -/
lemma lookedAt_withCap (h : CapLe low high) (first : Entry) (settled : Std.HashSet String)
    (sites : List Site) :
    (ctx.withCap low).lookedAt first settled sites =
      (ctx.withCap high).lookedAt first settled sites := by
  induction sites generalizing settled with
  | nil => rfl
  | cons s sites ih =>
    by_cases hs : s.text ∈ settled
    · rw [lookedAt_cons_of_mem hs, lookedAt_cons_of_mem hs, ih]
    · rw [lookedAt_cons_of_notMem hs, lookedAt_cons_of_notMem hs, ih,
        (contribution_widens h first s).settled]

lemma candidatesOf_subset (h : CapLe low high) (first : Entry) (s : Site) :
    (ctx.withCap low).candidatesOf first s ⊆ (ctx.withCap high).candidatesOf first s := by
  intro c hc
  rw [candidatesOf, candidates, List.mem_eraseDups] at hc ⊢
  exact List.map_subset _ (contribution_widens h first s).targets hc

/-- A file under a higher cap has more candidates and defers the same. -/
lemma usages_withCap (h : CapLe low high) (captures : List Capture) :
    ((ctx.withCap low).usages captures).candidates ⊆
        ((ctx.withCap high).usages captures).candidates ∧
      ((ctx.withCap low).usages captures).deferred =
        ((ctx.withCap high).usages captures).deferred := by
  rcases hfirst : ctx.entries.head? with _ | first
  · have hlow : (ctx.withCap low).entries.head? = none := hfirst
    have hhigh : (ctx.withCap high).entries.head? = none := hfirst
    rw [usages_of_no_entries hlow, usages_of_no_entries hhigh]
    exact ⟨List.Subset.refl _, rfl⟩
  · have hlow : (ctx.withCap low).entries.head? = some first := hfirst
    have hhigh : (ctx.withCap high).entries.head? = some first := hfirst
    have hsites : (ctx.withCap low).sites captures = (ctx.withCap high).sites captures := rfl
    rw [usages_eq hlow, usages_eq hhigh, lookedAt_withCap h, hsites]
    constructor
    · intro c hc
      obtain ⟨s, hs, hc⟩ := List.mem_flatMap.mp hc
      exact List.mem_flatMap.mpr ⟨s, hs, candidatesOf_subset h first s hc⟩
    · refine List.flatMap_congr fun s _ => ?_
      rw [(contribution_widens h first s).deferred]

end UsageContext

/-- **A higher cap only adds.** For any file and any captures, each candidate under a cap is one
under a higher cap, and the deferred calls are the same. Whatever the candidates are linked against,
no key of an edge is lost. -/
theorem higher_cap_only_adds (ctx : UsageContext) (captures : List Capture)
    {low high : Option Nat} (hcaps : CapLe low high) :
    let few := (ctx.withCap low).usages captures
    let many := (ctx.withCap high).usages captures
    few.candidates ⊆ many.candidates ∧ few.deferred = many.deferred ∧
      ∀ (x : TypeIndex) (own : List Entry) (language : Language),
        (x.link own language few.candidates).map (·.key) ⊆
          (x.link own language many.candidates).map (·.key) := by
  intro few many
  obtain ⟨hcandidates, hdeferred⟩ := UsageContext.usages_withCap hcaps captures
  exact ⟨hcandidates, hdeferred, fun x own language => TypeIndex.link_keys_subset hcandidates⟩

/-- A type three namespaces deep, in a file that imports one of them. -/
def deepContext : UsageContext where
  profile := Language.csharp.profile
  imports := (ImportTable.empty.push (.plain "L" "." "a.cs")).push (.plain "A.B" "." "a.cs")
  entries := [Entry.plain "A.B.C" "T" "." "a.cs" .csharp]
  file := "a.cs"
  maxAncestors := none

def callOnU : Capture := ⟨.callExpression, "U.F()", 60, 65, 4⟩

lemma usages_callOnU_zero : (deepContext.withCap (some 0)).usages [callOnU] =
    ⟨[⟨"U", "A.B.C.T", "a.cs", .usage⟩, ⟨"A.B.C.U", "A.B.C.T", "a.cs", .usage⟩,
        ⟨"L.U", "A.B.C.T", "a.cs", .usage⟩, ⟨"A.B.U", "A.B.C.T", "a.cs", .usage⟩],
      [⟨"U.F", ".", true⟩]⟩ := by
  cbv

/-- The index of the one type `A.B.U`. -/
def indexOfU : TypeIndex := TypeIndex.empty.insert (Entry.plain "A.B" "U" "." "u.cs" .csharp)

/-- With no ancestor tried `A.B` is met as an import, after `L`, and without a cap as an ancestor,
before `L`. The edge to its type `U` is there both times. -/
theorem higher_cap_only_adds_deep :
    (CapLe (some 0) none ∧
      ((deepContext.withCap (some 0)).usages [callOnU]).candidates.map (·.target) =
        ["U", "A.B.C.U", "L.U", "A.B.U"] ∧
      ((deepContext.withCap none).usages [callOnU]).candidates.map (·.target) =
        ["U", "A.B.C.U", "A.B.U", "A.U", "L.U"]) ∧
    ((deepContext.withCap none).usages [callOnU]).deferred = [⟨"U.F", ".", true⟩] ∧
    ⟨"A.B.C.T", "A.B.U", .usage⟩ ∈ (indexOfU.link deepContext.entries .csharp
      ((deepContext.withCap none).usages [callOnU]).candidates).map (·.key) := by
  have hcaps : CapLe (some 0) none := by decide
  obtain ⟨-, hdeferred, hkeys⟩ := higher_cap_only_adds deepContext [callOnU] hcaps
  have hedge : (indexOfU.link deepContext.entries .csharp
      ((deepContext.withCap (some 0)).usages [callOnU]).candidates).map (·.key) =
        [⟨"A.B.C.T", "A.B.U", .usage⟩] := by
    rw [usages_callOnU_zero]
    cbv
  refine ⟨⟨hcaps, by rw [usages_callOnU_zero]; rfl, by cbv⟩, ?_, hkeys _ _ _ ?_⟩
  · rw [← hdeferred, usages_callOnU_zero]
  · rw [hedge]
    exact List.mem_singleton_self _

end TypeCoupling
