import TypeCoupling.Proofs.Index
import TypeCoupling.Proofs.SeenKeys

/-!
Which candidates become edges.

A candidate can be confirmed if the name it asks for is indexed with the language, the name it
starts at is the name of an own type, and the two differ. Linking goes over the candidates once. It
skips what cannot be confirmed without remembering the key, so what it keeps is the first of the
confirmable candidates of every key.
-/

namespace TypeCoupling

/-- The key that the edge of a candidate has. -/
def Candidate.key (c : Candidate) : EdgeKey := ⟨c.source, c.target, c.kind⟩

/-- A partial function that is defined on a list pairs it with its images. -/
lemma forall₂_filterMap {α β : Type} {f : α → Option β} {R : α → β → Prop} {l : List α}
    (h : ∀ a ∈ l, ∃ b, f a = some b ∧ R a b) : List.Forall₂ R l (l.filterMap f) := by
  induction l with
  | nil => exact .nil
  | cons a l ih =>
    obtain ⟨b, hb, hr⟩ := h a List.mem_cons_self
    rw [List.filterMap_cons_some hb]
    exact .cons hr (ih fun c hc => h c (List.mem_cons_of_mem _ hc))

namespace TypeIndex

/-- A candidate from an own type to another type, which is indexed with the language. -/
def Confirmable (x : TypeIndex) (own : List Entry) (language : Language) (c : Candidate) : Prop :=
  (∃ target ∈ x.get? c.target, target.language = language) ∧
    (∃ source ∈ own, source.qualifiedName = c.source) ∧ c.source ≠ c.target

instance (x : TypeIndex) (own : List Entry) (language : Language) :
    DecidablePred (x.Confirmable own language) :=
  fun _ => inferInstanceAs (Decidable (_ ∧ _ ∧ _))

/-- The edge of a candidate: from the first own type of its source to the indexed type of its
target. -/
def EdgeOf (x : TypeIndex) (own : List Entry) (c : Candidate) (r : Relationship) : Prop :=
  ∃ source target, own.find? (·.qualifiedName == c.source) = some source ∧
    x.get? c.target = some target ∧
    r.fromName = source.qualifiedName ∧ r.fromFile = source.file ∧ r.fromType = source.typeName ∧
    r.toName = target.qualifiedName ∧ r.toFile = target.file ∧ r.toType = target.typeName ∧
    r.kind = c.kind

variable {x : TypeIndex} {kept own : List Entry} {language : Language} {c : Candidate}

lemma edgeOf_of_confirm? {r : Relationship} (h : x.confirm? own language c = some r) :
    x.EdgeOf own c r := by
  obtain ⟨target, source, hx, -, ho, -, rfl⟩ := confirm?_eq_some.mp h
  exact ⟨source, target, ho, hx, rfl, rfl, rfl, rfl, rfl, rfl, rfl⟩

/-- An indexed type has the name it is found by, so an edge has the key of its candidate. -/
lemma Holds.key_of_edgeOf (h : x.Holds kept) {r : Relationship} (hr : x.EdgeOf own c r) :
    r.key = c.key := by
  obtain ⟨source, target, ho, hx, hfrom, -, -, hto, -, -, hkind⟩ := hr
  have hsource : source.qualifiedName = c.source := by simpa using List.find?_some ho
  have htarget : target.qualifiedName = c.target := (h.mem_of_get hx).2
  simp [Relationship.key, Candidate.key, hfrom, hto, hkind, hsource, htarget]

/-- **Confirming succeeds exactly for the confirmable candidates.** -/
lemma Holds.confirm?_isSome (h : x.Holds kept) :
    (x.confirm? own language c).isSome ↔ x.Confirmable own language c := by
  rw [Option.isSome_iff_exists]
  constructor
  · rintro ⟨r, hr⟩
    obtain ⟨target, source, hx, hl, ho, hs, -⟩ := confirm?_eq_some.mp hr
    have hsource : source.qualifiedName = c.source := by simpa using List.find?_some ho
    have htarget : target.qualifiedName = c.target := (h.mem_of_get hx).2
    exact ⟨⟨target, hx, hl⟩, ⟨source, List.mem_of_find?_eq_some ho, hsource⟩,
      by rwa [← hsource, ← htarget]⟩
  · rintro ⟨⟨target, hx, hl⟩, ⟨d, hd, hname⟩, hdiffer⟩
    have hfound : (own.find? (·.qualifiedName == c.source)).isSome := by
      rw [List.find?_isSome]
      exact ⟨d, hd, beq_iff_eq.mpr hname⟩
    obtain ⟨source, ho⟩ := Option.isSome_iff_exists.mp hfound
    have hsource : source.qualifiedName = c.source := by simpa using List.find?_some ho
    have htarget : target.qualifiedName = c.target := (h.mem_of_get hx).2
    exact ⟨_, confirm?_eq_some.mpr ⟨target, source, hx, hl, ho, by rwa [hsource, htarget], rfl⟩⟩

/-- The edges that are kept come from the first confirmable candidate of every key. -/
lemma Holds.link_eq (h : x.Holds kept) (own : List Entry) (language : Language)
    (candidates : List Candidate) :
    x.link own language candidates =
      (firstsBy Candidate.key (candidates.filter fun c => x.Confirmable own language c)).filterMap
        (x.confirm? own language) := by
  have hkey : ∀ c r, x.confirm? own language c = some r → r.key = c.key :=
    fun c r hr => h.key_of_edgeOf (edgeOf_of_confirm? hr)
  have hfilter : candidates.filter (x.confirm? own language · |>.isSome) =
      candidates.filter fun c => x.Confirmable own language c := by
    refine List.filter_congr fun c _ => ?_
    rw [Bool.eq_iff_iff, decide_eq_true_iff]
    exact h.confirm?_isSome
  unfold link
  rw [keepNew_eq_filter, firstsBy_filterMap hkey, hfilter]
  exact List.filter_eq_self.mpr fun r _ => by simp

/-- The keys of the edges are those of the confirmable candidates. -/
lemma Holds.exists_key_link (h : x.Holds kept) (own : List Entry) (language : Language)
    (candidates : List Candidate) (k : EdgeKey) :
    (∃ r ∈ x.link own language candidates, r.key = k) ↔
      ∃ c ∈ candidates, x.Confirmable own language c ∧ c.key = k := by
  constructor
  · rintro ⟨r, hr, rfl⟩
    obtain ⟨c, hc, hconfirm⟩ := mem_link hr
    exact ⟨c, hc, h.confirm?_isSome.mp (Option.isSome_of_eq_some hconfirm),
      (h.key_of_edgeOf (edgeOf_of_confirm? hconfirm)).symm⟩
  · rintro ⟨c, hc, hconfirmable, rfl⟩
    obtain ⟨r, hr⟩ := Option.isSome_iff_exists.mp (h.confirm?_isSome.mpr hconfirmable)
    have hmem : r ∈ candidates.filterMap (x.confirm? own language) :=
      List.mem_filterMap.mpr ⟨c, hc, hr⟩
    rcases keepNew_complete ∅ hmem with hseen | ⟨r', hr', hkey⟩
    · simp at hseen
    · exact ⟨r', hr', hkey.trans (h.key_of_edgeOf (edgeOf_of_confirm? hr))⟩

end TypeIndex

/-- **Linking keeps exactly the confirmable candidates.** For any declarations in the index, own
types, language and candidates, the edges are those of the first confirmable candidate of every
key, one for each and in the order of the candidates. Each leads from the first own type of its
name to the indexed type, and it has the key of its candidate. No two edges have the same key, and
every key of a confirmable candidate is there. -/
theorem link_keeps_first_confirmable (declared own : List Entry) (language : Language)
    (candidates : List Candidate) :
    let x := declared.foldl TypeIndex.insert .empty
    let edges := x.link own language candidates
    List.Forall₂ (fun c r => x.EdgeOf own c r ∧ r.key = c.key)
        (firstsBy Candidate.key (candidates.filter fun c => x.Confirmable own language c)) edges ∧
      (edges.map (·.key)).Nodup ∧
      ∀ k, (∃ r ∈ edges, r.key = k) ↔
        ∃ c ∈ candidates, x.Confirmable own language c ∧ c.key = k := by
  intro x edges
  have hholds := TypeIndex.foldl_insert_holds declared TypeIndex.holds_empty
  have hedges := hholds.link_eq own language candidates
  refine ⟨?_, keepNew_keys_nodup _ _, hholds.exists_key_link own language candidates⟩
  change List.Forall₂ _ _ (x.link own language candidates)
  rw [hedges]
  refine forall₂_filterMap fun c hc => ?_
  have hconfirmable : x.Confirmable own language c := by
    simpa using (List.mem_filter.mp (mem_of_mem_firstsBy hc)).2
  obtain ⟨r, hr⟩ := Option.isSome_iff_exists.mp (hholds.confirm?_isSome.mpr hconfirmable)
  have hedge := TypeIndex.edgeOf_of_confirm? hr
  exact ⟨r, hr, hedge, hholds.key_of_edgeOf hedge⟩

end TypeCoupling
