import TypeCoupling.Proofs.FirstOfKey
import TypeCoupling.Proofs.Walk

/-!
The known keys only filter.

What the chains of a file come upon does not depend on the keys known before. Of these edges the
first of every key is kept unless the key is known, and all their keys are known then. All that
can be said about resolving chains together, one after another or twice is a law of these two
functions on lists of edges, `keepNew` and `learn`.
-/

namespace TypeCoupling

/-! ### Edges against known keys -/

lemma learn_append (seen : Std.HashSet EdgeKey) (rs rs' : List Relationship) :
    learn seen (rs ++ rs') = learn (learn seen rs) rs' := by
  simp [learn, List.foldl_append]

lemma keepNew_append (seen : Std.HashSet EdgeKey) (rs rs' : List Relationship) :
    keepNew seen (rs ++ rs') = keepNew seen rs ++ keepNew (learn seen rs) rs' := by
  induction rs generalizing seen with
  | nil => rfl
  | cons r rs ih =>
    rw [List.cons_append]
    by_cases h : r.key ∈ seen
    · rw [keepNew_cons_of_mem h, keepNew_cons_of_mem h, learn_cons_of_mem h, ih]
    · rw [keepNew_cons_of_notMem h, keepNew_cons_of_notMem h, learn_cons_of_notMem h, ih,
        List.cons_append]

/-- Edges of known keys change nothing. -/
lemma keepNew_learn_of_known {seen : Std.HashSet EdgeKey} {rs : List Relationship}
    (h : ∀ r ∈ rs, r.key ∈ seen) : keepNew seen rs = [] ∧ learn seen rs = seen := by
  induction rs with
  | nil => exact ⟨rfl, rfl⟩
  | cons r rs ih =>
    have hr : r.key ∈ seen := h r List.mem_cons_self
    rw [keepNew_cons_of_mem hr, learn_cons_of_mem hr]
    exact ih fun d hd => h d (List.mem_cons_of_mem _ hd)

/-- **What is kept** is the first edge of every key that was not known. -/
lemma keepNew_eq_filter (seen : Std.HashSet EdgeKey) (rs : List Relationship) :
    keepNew seen rs = (firstsBy Relationship.key rs).filter (!seen.contains ·.key) := by
  induction rs using List.reverseRecOn with
  | nil => rfl
  | append_singleton rs r ih =>
    rw [keepNew_append, firstsBy_concat, List.filter_append, ih]
    congr 1
    by_cases hs : r.key ∈ seen
    · -- known before
      have hknown : r.key ∈ learn seen rs := mem_learn.mpr (Or.inl hs)
      rw [keepNew_cons_of_mem hknown]
      split <;> simp [keepNew, hs]
    · by_cases hr : ∃ d ∈ rs, d.key = r.key
      · -- an earlier edge has the key
        have hknown : r.key ∈ learn seen rs := mem_learn.mpr (Or.inr hr)
        rw [keepNew_cons_of_mem hknown, if_pos (by simpa using hr)]
        rfl
      · have hnew : r.key ∉ learn seen rs := fun hk => (mem_learn.mp hk).elim hs hr
        rw [keepNew_cons_of_notMem hnew, if_neg (by simpa using hr)]
        simp [keepNew, hs]

/-! ### The chains of a file -/

namespace Graph

lemma offered_append (g : Graph) (file : String) (chains chains' : List CallChain) :
    g.offered file (chains ++ chains') = g.offered file chains ++ g.offered file chains' := by
  unfold offered
  split
  · rfl
  · simp [edgesTo]

/-- Which edges come up depends only on which chains there are. -/
lemma offered_subset {g : Graph} {file : String} {chains chains' : List CallChain}
    (h : chains ⊆ chains') : g.offered file chains ⊆ g.offered file chains' := by
  intro r hr
  obtain ⟨origin, ho, c, hc, hmet⟩ := mem_offered.mp hr
  exact mem_offered.mpr ⟨origin, ho, c, h hc, hmet⟩

/-- **Known keys only filter.** The edges that the chains of a file come upon are given without
the known keys. Resolving the chains returns the first of them of every key that was not known,
and then knows what it knew and all their keys. Which keys come up depends neither on the order
of the chains nor on repetitions. Chains can be resolved in two parts, the second with what is
known after the first, and resolving chains again finds nothing and learns nothing. -/
theorem resolveFile_filters (g : Graph) (file : String) (chains : List CallChain) :
    (∀ seen : Std.HashSet EdgeKey,
      (g.resolveFile file chains seen).1 =
          (firstsBy Relationship.key (g.offered file chains)).filter (!seen.contains ·.key) ∧
        ∀ k, k ∈ (g.resolveFile file chains seen).2 ↔
          k ∈ seen ∨ ∃ r ∈ g.offered file chains, r.key = k) ∧
    (∀ chains' : List CallChain, (∀ c, c ∈ chains' ↔ c ∈ chains) →
      ∀ k, (∃ r ∈ g.offered file chains', r.key = k) ↔ ∃ r ∈ g.offered file chains, r.key = k) ∧
    (∀ (more : List CallChain) (seen : Std.HashSet EdgeKey),
      g.resolveFile file (chains ++ more) seen =
        let first := g.resolveFile file chains seen
        let second := g.resolveFile file more first.2
        (first.1 ++ second.1, second.2)) ∧
    ∀ seen : Std.HashSet EdgeKey,
      g.resolveFile file chains (g.resolveFile file chains seen).2 =
        ([], (g.resolveFile file chains seen).2) := by
  refine ⟨fun seen => ⟨?_, fun k => ?_⟩, fun chains' h k => ?_, fun more seen => ?_,
    fun seen => ?_⟩
  · rw [resolveFile_found, keepNew_eq_filter]
  · rw [resolveFile_seen]
  · constructor
    · rintro ⟨r, hr, hk⟩
      exact ⟨r, offered_subset (fun c hc => (h c).mp hc) hr, hk⟩
    · rintro ⟨r, hr, hk⟩
      exact ⟨r, offered_subset (fun c hc => (h c).mpr hc) hr, hk⟩
  · simp only [resolveFile_eq, offered_append, keepNew_append, learn_append]
  · simp only [resolveFile_eq]
    -- every key that comes up has been learnt the first time
    have hknown : ∀ r ∈ g.offered file chains, r.key ∈ learn seen (g.offered file chains) :=
      fun r hr => mem_learn.mpr (Or.inr ⟨r, hr, rfl⟩)
    obtain ⟨hfound, hlearn⟩ := keepNew_learn_of_known hknown
    rw [hfound, hlearn]

/-- A chain and the first part of it. -/
def relayChains : List CallChain := [⟨"b.Next.Last", ".", true⟩, ⟨"b.Next", ".", true⟩]

theorem resolveFile_filters_relay :
    (relay.resolveFile "A.cs" relayChains (.ofList [⟨"App.A", "App.C", .usage⟩])).1.map (·.key) =
        [⟨"App.A", "App.B", .usage⟩, ⟨"App.A", "App.D", .usage⟩] ∧
      (∀ c, c ∈ relayChains.reverse ++ relayChains ↔ c ∈ relayChains) ∧
      (∃ r ∈ relay.offered "A.cs" (relayChains.reverse ++ relayChains),
        r.key = ⟨"App.A", "App.D", .usage⟩) ∧
      (relay.resolveFile "A.cs" relayChains (relay.resolveFile "A.cs" relayChains ∅).2).1 = [] := by
  have hoffered : relay.offered "A.cs" relayChains =
      [⟨"App.A", "A.cs", "A", "App.B", "B.cs", "B", .usage⟩,
        ⟨"App.A", "A.cs", "A", "App.C", "C.cs", "C", .usage⟩,
        ⟨"App.A", "A.cs", "A", "App.C", "C.cs", "C", .usage⟩,
        ⟨"App.A", "A.cs", "A", "App.D", "D.cs", "D", .usage⟩,
        ⟨"App.A", "A.cs", "A", "App.B", "B.cs", "B", .usage⟩,
        ⟨"App.A", "A.cs", "A", "App.C", "C.cs", "C", .usage⟩] := by cbv
  have hfirsts : firstsBy Relationship.key (relay.offered "A.cs" relayChains) =
      [⟨"App.A", "A.cs", "A", "App.B", "B.cs", "B", .usage⟩,
        ⟨"App.A", "A.cs", "A", "App.C", "C.cs", "C", .usage⟩,
        ⟨"App.A", "A.cs", "A", "App.D", "D.cs", "D", .usage⟩] := by
    rw [hoffered]
    decide
  have hsame : ∀ c, c ∈ relayChains.reverse ++ relayChains ↔ c ∈ relayChains := by simp
  obtain ⟨hfilter, hkeys, -, hagain⟩ := resolveFile_filters relay "A.cs" relayChains
  refine ⟨?_, hsame, (hkeys _ hsame _).mpr ?_, by rw [hagain]⟩
  · rw [(hfilter _).1, hfirsts]
    simp [Relationship.key]
  · rw [hoffered]
    decide

end Graph

end TypeCoupling
