import Mathlib.Tactic.Lemma
import TypeCoupling.Link

/-!
What the linking of candidates yields: an edge whose target is the indexed type of the name that
the candidate asks for. The keys seen so far only leave edges out.
-/

namespace TypeCoupling

/-! ### Edges with new keys -/

lemma keepNew_cons_of_mem {seen : Std.HashSet EdgeKey} {r : Relationship} (h : r.key ∈ seen)
    (rs : List Relationship) : keepNew seen (r :: rs) = keepNew seen rs := by
  rw [keepNew, if_pos (Std.HashSet.mem_iff_contains.mp h)]

lemma keepNew_cons_of_notMem {seen : Std.HashSet EdgeKey} {r : Relationship} (h : r.key ∉ seen)
    (rs : List Relationship) :
    keepNew seen (r :: rs) = r :: keepNew (seen.insert r.key) rs := by
  rw [keepNew, if_neg fun hc => h (Std.HashSet.mem_iff_contains.mpr hc)]

lemma keepNew_sublist (seen : Std.HashSet EdgeKey) (rs : List Relationship) :
    (keepNew seen rs).Sublist rs := by
  induction rs generalizing seen with
  | nil => exact List.Sublist.refl _
  | cons r rs ih =>
    unfold keepNew
    split
    · exact (ih seen).cons r
    · exact (ih _).cons_cons r

lemma keepNew_notMem {seen : Std.HashSet EdgeKey} {rs : List Relationship} {r : Relationship}
    (h : r ∈ keepNew seen rs) : r.key ∉ seen := by
  induction rs generalizing seen with
  | nil => simp [keepNew] at h
  | cons d rs ih =>
    unfold keepNew at h
    split at h
    · exact ih h
    · next hd =>
      rcases List.mem_cons.mp h with rfl | h1
      · simpa using hd
      · exact fun hs => ih h1 (Std.HashSet.mem_insert.mpr (Or.inr hs))

lemma keepNew_keys_nodup (seen : Std.HashSet EdgeKey) (rs : List Relationship) :
    ((keepNew seen rs).map (·.key)).Nodup := by
  induction rs generalizing seen with
  | nil => exact List.Pairwise.nil
  | cons r rs ih =>
    unfold keepNew
    split
    · exact ih seen
    · refine List.nodup_cons.mpr ⟨fun h => ?_, ih _⟩
      obtain ⟨r', hr', hk⟩ := List.mem_map.mp h
      exact keepNew_notMem hr' (Std.HashSet.mem_insert.mpr (Or.inl (beq_iff_eq.mpr hk.symm)))

/-- No key is lost: an edge that is left out shares its key with one that is known or kept. -/
lemma keepNew_complete (seen : Std.HashSet EdgeKey) {rs : List Relationship} {r : Relationship}
    (h : r ∈ rs) : r.key ∈ seen ∨ ∃ r' ∈ keepNew seen rs, r'.key = r.key := by
  induction rs generalizing seen with
  | nil => simp at h
  | cons d rs ih =>
    unfold keepNew
    split
    · next hd =>
      rcases List.mem_cons.mp h with rfl | h1
      · exact Or.inl (Std.HashSet.mem_iff_contains.mpr hd)
      · exact ih seen h1
    · rcases List.mem_cons.mp h with rfl | h1
      · exact Or.inr ⟨r, List.mem_cons_self, rfl⟩
      · rcases ih (seen.insert d.key) h1 with hs | ⟨r', hr', hk⟩
        · rcases Std.HashSet.mem_insert.mp hs with hk | hs
          · exact Or.inr ⟨d, List.mem_cons_self, eq_of_beq hk⟩
          · exact Or.inl hs
        · exact Or.inr ⟨r', List.mem_cons_of_mem _ hr', hk⟩

/-- Only what is known of the keys at hand matters. -/
lemma keepNew_congr {seen seen' : Std.HashSet EdgeKey} {rs : List Relationship}
    (h : ∀ r ∈ rs, r.key ∈ seen ↔ r.key ∈ seen') : keepNew seen rs = keepNew seen' rs := by
  induction rs generalizing seen seen' with
  | nil => rfl
  | cons d rs ih =>
    have hd : seen.contains d.key = seen'.contains d.key := by
      rw [Bool.eq_iff_iff, ← Std.HashSet.mem_iff_contains, ← Std.HashSet.mem_iff_contains]
      exact h d List.mem_cons_self
    have hrs : ∀ r ∈ rs, r.key ∈ seen ↔ r.key ∈ seen' :=
      fun r hr => h r (List.mem_cons_of_mem _ hr)
    have hinsert : ∀ r ∈ rs, r.key ∈ seen.insert d.key ↔ r.key ∈ seen'.insert d.key := by
      intro r hr
      rw [Std.HashSet.mem_insert, Std.HashSet.mem_insert, hrs r hr]
    rw [keepNew, keepNew, hd, ih hrs, ih hinsert]

/-- The keys that are known after some edges have come up. -/
def learn (seen : Std.HashSet EdgeKey) (rs : List Relationship) : Std.HashSet EdgeKey :=
  rs.foldl (fun known r => if known.contains r.key then known else known.insert r.key) seen

@[simp] lemma learn_nil (seen : Std.HashSet EdgeKey) : learn seen [] = seen := rfl

lemma learn_cons_of_mem {seen : Std.HashSet EdgeKey} {r : Relationship} (h : r.key ∈ seen)
    (rs : List Relationship) : learn seen (r :: rs) = learn seen rs := by
  unfold learn
  rw [List.foldl_cons, if_pos (Std.HashSet.mem_iff_contains.mp h)]

lemma learn_cons_of_notMem {seen : Std.HashSet EdgeKey} {r : Relationship} (h : r.key ∉ seen)
    (rs : List Relationship) : learn seen (r :: rs) = learn (seen.insert r.key) rs := by
  unfold learn
  rw [List.foldl_cons, if_neg fun hc => h (Std.HashSet.mem_iff_contains.mpr hc)]

/-- **What is known then** is what was known and the keys that came up. -/
lemma mem_learn {seen : Std.HashSet EdgeKey} {rs : List Relationship} {k : EdgeKey} :
    k ∈ learn seen rs ↔ k ∈ seen ∨ ∃ r ∈ rs, r.key = k := by
  induction rs generalizing seen with
  | nil => simp
  | cons r rs ih =>
    simp only [List.mem_cons, exists_eq_or_imp]
    by_cases h : r.key ∈ seen
    · rw [learn_cons_of_mem h, ih]
      constructor
      · exact Or.imp_right Or.inr
      · rintro (hk | rfl | hk)
        · exact Or.inl hk
        · exact Or.inl h
        · exact Or.inr hk
    · rw [learn_cons_of_notMem h, ih, Std.HashSet.mem_insert, beq_iff_eq, or_assoc, or_left_comm]

/-! ### Confirmed candidates -/

namespace TypeIndex

variable {x : TypeIndex} {own : List Entry} {language : Language}

/-- **When a candidate is an edge.** -/
lemma confirm?_eq_some {c : Candidate} {r : Relationship} :
    x.confirm? own language c = some r ↔
      ∃ target source, x.get? c.target = some target ∧ target.language = language ∧
        own.find? (·.qualifiedName == c.source) = some source ∧
        source.qualifiedName ≠ target.qualifiedName ∧ r = .between source target c.kind := by
  unfold confirm?
  simp only [bind, Option.bind_eq_some_iff, Option.filter_eq_some_iff, beq_iff_eq]
  constructor
  · rintro ⟨target, ⟨hx, hl⟩, source, ho, hr⟩
    split at hr
    · simp at hr
    · next hs =>
      refine ⟨target, source, hx, hl, ho, ?_, (Option.some.inj hr).symm⟩
      simpa [Relationship.isSelfEdge, Relationship.between] using hs
  · rintro ⟨target, source, hx, hl, ho, hs, rfl⟩
    refine ⟨target, ⟨hx, hl⟩, source, ho, ?_⟩
    rw [if_neg (by simpa [Relationship.isSelfEdge, Relationship.between] using hs)]

lemma mem_link {candidates : List Candidate} {r : Relationship}
    (h : r ∈ x.link own language candidates) :
    ∃ c ∈ candidates, x.confirm? own language c = some r :=
  List.mem_filterMap.mp ((keepNew_sublist _ _).subset h)

/-- More candidates lose no key. -/
lemma link_keys_subset {candidates candidates' : List Candidate} (h : candidates ⊆ candidates') :
    (x.link own language candidates).map (·.key) ⊆
      (x.link own language candidates').map (·.key) := by
  intro k hk
  obtain ⟨r, hr, rfl⟩ := List.mem_map.mp hk
  obtain ⟨c, hc, hconfirm⟩ := mem_link hr
  have hmem : r ∈ candidates'.filterMap (x.confirm? own language) :=
    List.mem_filterMap.mpr ⟨c, h hc, hconfirm⟩
  rcases keepNew_complete ∅ hmem with hseen | ⟨r', hr', hkey⟩
  · simp at hseen
  · exact List.mem_map.mpr ⟨r', hr', hkey⟩

end TypeIndex

end TypeCoupling
