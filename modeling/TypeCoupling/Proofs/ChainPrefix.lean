import TypeCoupling.Proofs.Walk

/-!
What a longer chain has in common with its beginning.

A walk along `xs ++ ys` does what the walk along `xs` does, and in between goes on with `ys`. The
two share the places they have been at, so a place that is entered with a member of `ys` is closed
to a later branch that comes to it with a member of `xs`: the walk crosses itself. Unless it does,
it makes the stops of the shorter walk, and meets all that the shorter walk meets.
-/

namespace TypeCoupling

/-- A place of a walk: a file and a member. -/
abbrev Spot := String × String

/-- A walk comes to a place. -/
structure Stop where
  place : Spot
  /-- The types that the member is looked up in. -/
  reach : List TypeRef
  /-- Number of members ahead, with that of the place. -/
  ahead : Nat
  /-- Whether the walk goes on there: it has not been there before. -/
  entered : Bool

namespace Stop

/-- One visit after another, each with the places that those before it leave. -/
def inTurn (visit : TypeRef → Std.HashSet Spot → Std.HashSet Spot × List Stop) :
    List TypeRef → Std.HashSet Spot → Std.HashSet Spot × List Stop
  | [], v => (v, [])
  | t :: ts, v =>
    ((inTurn visit ts (visit t v).1).1, (visit t v).2 ++ (inTurn visit ts (visit t v).1).2)

/-- The types that are met at a stop. -/
def met (g : Graph) (s : Stop) : List TypeRef :=
  if s.entered then g.met [s.place.2] s.reach else []

/-- A place is entered at one of the stops. -/
def Enters (stops : List Stop) (p : Spot) : Prop := ∃ s ∈ stops, s.entered = true ∧ s.place = p

lemma enters_append {stops stops' : List Stop} {p : Spot} :
    Enters (stops ++ stops') p ↔ Enters stops p ∨ Enters stops' p := by
  simp only [Enters, List.mem_append, or_and_right, exists_or]

section InTurn

variable {visit : TypeRef → Std.HashSet Spot → Std.HashSet Spot × List Stop}

lemma mem_inTurn {ts : List TypeRef} {v : Std.HashSet Spot} {s : Stop}
    (h : s ∈ (inTurn visit ts v).2) : ∃ t ∈ ts, ∃ w, s ∈ (visit t w).2 := by
  induction ts generalizing v with
  | nil => simp [inTurn] at h
  | cons t ts ih =>
    rcases List.mem_append.mp h with h | h
    · exact ⟨t, List.mem_cons_self, v, h⟩
    · obtain ⟨t', ht', hs⟩ := ih h
      exact ⟨t', List.mem_cons_of_mem _ ht', hs⟩

lemma mem_inTurn_places (h : ∀ t v p, p ∈ (visit t v).1 ↔ p ∈ v ∨ Enters (visit t v).2 p)
    (ts : List TypeRef) (v : Std.HashSet Spot) (p : Spot) :
    p ∈ (inTurn visit ts v).1 ↔ p ∈ v ∨ Enters (inTurn visit ts v).2 p := by
  induction ts generalizing v with
  | nil => simp [inTurn, Enters]
  | cons t ts ih => rw [inTurn, ih, h, enters_append, or_assoc]

end InTurn

end Stop

namespace Graph

/-- The types that the accessors of a member lead on to. -/
def landings (g : Graph) (reach : List TypeRef) (member : String) : List TypeRef :=
  (g.hops reach member).filterMap fun hop => g.returned? hop.1 hop.2

/-- The places a walk has been at by then, and the stops it makes, in order. -/
def stops (g : Graph) : List String → (file : String) → (reach : List TypeRef) →
    Std.HashSet Spot → Std.HashSet Spot × List Stop
  | [], _, _, v => (v, [])
  | member :: rest, file, reach, v =>
    if v.contains (file, member) then (v, [⟨(file, member), reach, rest.length + 1, false⟩])
    else
      let later := Stop.inTurn (fun t v => g.stops rest t.file (t :: g.supertypes t) v)
        (g.landings reach member) (v.insert (file, member))
      (later.1, ⟨(file, member), reach, rest.length + 1, true⟩ :: later.2)

section Stops

variable {g : Graph} {member : String} {rest : List String} {file : String} {reach : List TypeRef}
  {v : Std.HashSet Spot}

lemma stops_cons_of_mem (h : (file, member) ∈ v) :
    g.stops (member :: rest) file reach v =
      (v, [⟨(file, member), reach, rest.length + 1, false⟩]) := by
  rw [stops, if_pos (Std.HashSet.mem_iff_contains.mp h)]

/-- The stops that follow the first one, when the walk goes on there. -/
def stopsOnward (g : Graph) (member : String) (rest : List String) (file : String)
    (reach : List TypeRef) (v : Std.HashSet Spot) : Std.HashSet Spot × List Stop :=
  Stop.inTurn (fun t v => g.stops rest t.file (t :: g.supertypes t) v) (g.landings reach member)
    (v.insert (file, member))

lemma stops_cons_of_notMem (h : (file, member) ∉ v) :
    g.stops (member :: rest) file reach v =
      ((g.stopsOnward member rest file reach v).1,
        ⟨(file, member), reach, rest.length + 1, true⟩ ::
          (g.stopsOnward member rest file reach v).2) := by
  rw [stops, if_neg fun hc => h (Std.HashSet.mem_iff_contains.mpr hc)]
  rfl

end Stops

/-! ### Stops and the types met -/

lemma foldl_tourHop_inTurn {g : Graph}
    {onward : TypeRef → Std.HashSet Spot → Std.HashSet Spot × List TypeRef}
    {visit : TypeRef → Std.HashSet Spot → Std.HashSet Spot × List Stop}
    (h : ∀ t v, (onward t v).1 = (visit t v).1 ∧
      ∀ u, u ∈ (onward t v).2 ↔ u ∈ (visit t v).2.flatMap (·.met g))
    (hs : List (Accessor × TypeRef)) (s : Std.HashSet Spot × List TypeRef) :
    let later := Stop.inTurn visit (hs.filterMap fun hop => g.returned? hop.1 hop.2) s.1
    (hs.foldl (g.tourHop onward) s).1 = later.1 ∧
      ∀ u, u ∈ (hs.foldl (g.tourHop onward) s).2 ↔
        u ∈ s.2 ∨ u ∈ hs.flatMap (g.metAt fun _ => []) ∨ u ∈ later.2.flatMap (·.met g) := by
  induction hs generalizing s with
  | nil => simp [Stop.inTurn]
  | cons hop hs ih =>
    rcases hret : g.returned? hop.1 hop.2 with _ | t
    · have hstep : g.tourHop onward s hop = (s.1, s.2 ++ [hop.2]) := by simp [tourHop, hret]
      have hmet : g.metAt (fun _ => []) hop = [hop.2] := by simp [metAt, hret]
      have hland : (hop :: hs).filterMap (fun hop => g.returned? hop.1 hop.2) =
          hs.filterMap fun hop => g.returned? hop.1 hop.2 := by simp [hret]
      obtain ⟨hplaces, htypes⟩ := ih (s.1, s.2 ++ [hop.2])
      rw [List.foldl_cons, hstep, hland]
      refine ⟨hplaces, fun u => ?_⟩
      rw [htypes, List.flatMap_cons, hmet, List.mem_append, List.mem_append]
      tauto
    · have hstep : g.tourHop onward s hop =
          ((onward t s.1).1, s.2 ++ hop.2 :: t :: (onward t s.1).2) := by simp [tourHop, hret]
      have hmet : g.metAt (fun _ => []) hop = [hop.2, t] := by simp [metAt, hret]
      have hland : (hop :: hs).filterMap (fun hop => g.returned? hop.1 hop.2) =
          t :: hs.filterMap fun hop => g.returned? hop.1 hop.2 := by simp [hret]
      obtain ⟨hsame, hvisit⟩ := h t s.1
      obtain ⟨hplaces, htypes⟩ := ih ((onward t s.1).1, s.2 ++ hop.2 :: t :: (onward t s.1).2)
      simp only [hsame] at hplaces htypes
      rw [List.foldl_cons, hstep, hland, hsame]
      refine ⟨hplaces, fun u => ?_⟩
      rw [htypes, List.flatMap_cons, hmet]
      simp only [Stop.inTurn, List.flatMap_append, List.mem_append, List.mem_cons,
        List.not_mem_nil, or_false, hvisit]
      tauto

/-- **A walk meets what is met at its stops.** -/
lemma mem_tour_iff_stops (g : Graph) (ms : List String) (file : String) (reach : List TypeRef)
    (v : Std.HashSet Spot) :
    (g.tour ms file reach v).1 = (g.stops ms file reach v).1 ∧
      ∀ u, u ∈ (g.tour ms file reach v).2 ↔ u ∈ (g.stops ms file reach v).2.flatMap (·.met g) := by
  induction ms generalizing file reach v with
  | nil => simp [tour, stops]
  | cons member rest ih =>
    unfold tour stops
    split
    · simp [Stop.met]
    · obtain ⟨hplaces, htypes⟩ := foldl_tourHop_inTurn (g := g)
        (fun t v => ih t.file (t :: g.supertypes t) v) (g.hops reach member)
        (v.insert (file, member), [])
      refine ⟨hplaces, fun u => ?_⟩
      have hfirst : (g.hops reach member).flatMap (g.metAt fun _ => []) =
          g.met [member] reach := rfl
      rw [htypes, hfirst]
      simp [Stop.met, landings]

/-! ### Where the stops are -/

/-- The member of a stop is one of the chain, and those ahead are counted from it. -/
lemma member_of_mem_stops {g : Graph} {ms : List String} {file : String} {reach : List TypeRef}
    {v : Std.HashSet Spot} {s : Stop} (h : s ∈ (g.stops ms file reach v).2) :
    ∃ before after, ms = before ++ s.place.2 :: after ∧ s.ahead = after.length + 1 := by
  induction ms generalizing file reach v with
  | nil => simp [stops] at h
  | cons member rest ih =>
    by_cases hv : (file, member) ∈ v
    · rw [stops_cons_of_mem hv, List.mem_singleton] at h
      exact ⟨[], rest, by rw [h]; rfl, by rw [h]⟩
    · rw [stops_cons_of_notMem hv] at h
      rcases List.mem_cons.mp h with rfl | h
      · exact ⟨[], rest, rfl, rfl⟩
      · obtain ⟨t, -, w, hs⟩ := Stop.mem_inTurn h
        obtain ⟨before, after, hms, hahead⟩ := ih hs
        exact ⟨member :: before, after, by rw [hms]; rfl, hahead⟩

lemma ahead_le_length {g : Graph} {ms : List String} {file : String} {reach : List TypeRef}
    {v : Std.HashSet Spot} {s : Stop} (h : s ∈ (g.stops ms file reach v).2) :
    s.ahead ≤ ms.length := by
  obtain ⟨before, after, hms, hahead⟩ := member_of_mem_stops h
  have := congrArg List.length hms
  simp only [List.length_append, List.length_cons] at this
  omega

/-- **Where a walk has been** is where it had been and the places it enters. -/
lemma mem_stops_places (g : Graph) (ms : List String) (file : String) (reach : List TypeRef)
    (v : Std.HashSet Spot) (p : Spot) :
    p ∈ (g.stops ms file reach v).1 ↔ p ∈ v ∨ Stop.Enters (g.stops ms file reach v).2 p := by
  induction ms generalizing file reach v p with
  | nil => simp [stops, Stop.Enters]
  | cons member rest ih =>
    by_cases hv : (file, member) ∈ v
    · rw [stops_cons_of_mem hv]
      simp [Stop.Enters]
    · rw [stops_cons_of_notMem hv, stopsOnward,
        Stop.mem_inTurn_places fun t v p => ih t.file (t :: g.supertypes t) v p]
      simp only [Std.HashSet.mem_insert, beq_iff_eq, Stop.Enters, List.exists_mem_cons_iff,
        true_and]
      tauto

/-! ### Two walks side by side -/

section SideBySide

variable {C : Spot → Prop} {n : Nat}

/-- The second walk has been where the first one has been, and else only at some other places. -/
def Tracks (C : Spot → Prop) (v w : Std.HashSet Spot) : Prop :=
  (∀ p ∈ v, p ∈ w) ∧ ∀ p ∈ w, p ∈ v ∨ C p

lemma Tracks.insert {v w : Std.HashSet Spot} (h : Tracks C v w) (p : Spot) :
    Tracks C (v.insert p) (w.insert p) := by
  constructor
  · intro q hq
    rw [Std.HashSet.mem_insert] at hq ⊢
    exact hq.imp_right (h.1 q)
  · intro q hq
    rw [Std.HashSet.mem_insert] at hq ⊢
    rcases hq with hq | hq
    · exact Or.inl (Or.inl hq)
    · exact (h.2 q hq).imp_left Or.inr

/-- The places that are entered with the last `n` members are never come to with one before. -/
def Clear (C : Spot → Prop) (n : Nat) (stops : List Stop) : Prop :=
  ∀ s ∈ stops, (s.ahead ≤ n → s.entered = true → C s.place) ∧ (n < s.ahead → ¬C s.place)

lemma Clear.subset {stops stops' : List Stop} (h : Clear C n stops') (hsub : stops ⊆ stops') :
    Clear C n stops := fun s hs => h s (hsub hs)

/-- The stops before the last `n` members, as those of a chain that ends there. -/
def without (n : Nat) (stops : List Stop) : List Stop :=
  (stops.filter (n < ·.ahead)).map fun s => { s with ahead := s.ahead - n }

lemma without_append (n : Nat) (stops stops' : List Stop) :
    without n (stops ++ stops') = without n stops ++ without n stops' := by
  simp [without]

lemma without_cons_length (p : Spot) (reach : List TypeRef) (e : Bool) (rest ys : List String)
    (stops : List Stop) :
    without ys.length (⟨p, reach, (rest ++ ys).length + 1, e⟩ :: stops) =
      ⟨p, reach, rest.length + 1, e⟩ :: without ys.length stops := by
  have hlength : (rest ++ ys).length = rest.length + ys.length := List.length_append
  have hbefore : ys.length < (rest ++ ys).length + 1 := by omega
  have hahead : (rest ++ ys).length + 1 - ys.length = rest.length + 1 := by omega
  simp only [without, List.filter_cons, hbefore, decide_true, if_true, List.map_cons, hahead]

lemma inTurn_without
    {visit visit' : TypeRef → Std.HashSet Spot → Std.HashSet Spot × List Stop}
    (h : ∀ t v w, Tracks C v w → Clear C n (visit' t w).2 →
      (visit t v).2 = without n (visit' t w).2 ∧ Tracks C (visit t v).1 (visit' t w).1)
    {ts : List TypeRef} {v w : Std.HashSet Spot} (htracks : Tracks C v w)
    (hclear : Clear C n (Stop.inTurn visit' ts w).2) :
    (Stop.inTurn visit ts v).2 = without n (Stop.inTurn visit' ts w).2 ∧
      Tracks C (Stop.inTurn visit ts v).1 (Stop.inTurn visit' ts w).1 := by
  induction ts generalizing v w with
  | nil => exact ⟨rfl, htracks⟩
  | cons t ts ih =>
    rw [Stop.inTurn] at hclear
    obtain ⟨hfirst, htracks⟩ := h t v w htracks (hclear.subset (List.subset_append_left _ _))
    obtain ⟨hrest, htracks⟩ := ih htracks (hclear.subset (List.subset_append_right _ _))
    rw [Stop.inTurn, Stop.inTurn, without_append, ← hfirst, ← hrest]
    exact ⟨rfl, htracks⟩

/-- **The longer walk makes the stops of the shorter one**, as long as no place that it enters with
a member of `ys` is one it comes to with a member of `xs`. -/
lemma stops_without {g : Graph} {ys : List String} (xs : List String) (file : String)
    (reach : List TypeRef) {v w : Std.HashSet Spot} (htracks : Tracks C v w)
    (hclear : Clear C ys.length (g.stops (xs ++ ys) file reach w).2) :
    (g.stops xs file reach v).2 = without ys.length (g.stops (xs ++ ys) file reach w).2 ∧
      Tracks C (g.stops xs file reach v).1 (g.stops (xs ++ ys) file reach w).1 := by
  induction xs generalizing file reach v w with
  | nil =>
    rw [List.nil_append] at hclear ⊢
    refine ⟨?_, fun p hp => ?_, fun p hp => ?_⟩
    · have hnone : (g.stops ys file reach w).2.filter (ys.length < ·.ahead) = [] := by
        rw [List.filter_eq_nil_iff]
        intro s hs
        simpa using ahead_le_length hs
      rw [without, hnone]
      rfl
    · exact (mem_stops_places ..).mpr (Or.inl (htracks.1 p hp))
    · rcases (mem_stops_places ..).mp hp with hp | ⟨s, hs, hentered, rfl⟩
      · exact htracks.2 p hp
      · exact Or.inr ((hclear s hs).1 (ahead_le_length hs) hentered)
  | cons member rest ih =>
    rw [List.cons_append] at hclear ⊢
    by_cases hw : (file, member) ∈ w
    · rw [stops_cons_of_mem hw] at hclear ⊢
      -- the place is none of those entered with `ys`, so the shorter walk has been there too
      have hfree : ¬C (file, member) :=
        (hclear _ List.mem_cons_self).2 (by simp)
      have hv : (file, member) ∈ v := (htracks.2 _ hw).resolve_right hfree
      rw [stops_cons_of_mem hv, without_cons_length]
      exact ⟨rfl, htracks⟩
    · have hv : (file, member) ∉ v := fun hv => hw (htracks.1 _ hv)
      rw [stops_cons_of_notMem hw] at hclear ⊢
      rw [stops_cons_of_notMem hv, without_cons_length]
      obtain ⟨hlater, htracks⟩ := inTurn_without
        (fun t v w hvw hc => ih t.file (t :: g.supertypes t) hvw hc)
        (htracks.insert (file, member)) (hclear.subset (List.subset_cons_self _ _))
      exact ⟨congrArg _ hlater, htracks⟩

end SideBySide

/-! ### Walks that cross themselves -/

/-- The walk of a file along `xs ++ ys` comes, with a member of `xs`, to a place that it enters with
a member of `ys`. -/
def Crosses (g : Graph) (xs ys : List String) (file : String) : Prop :=
  ∃ s ∈ (g.stops (xs ++ ys) file (g.reachOf file) ∅).2,
    ∃ s' ∈ (g.stops (xs ++ ys) file (g.reachOf file) ∅).2,
      s.entered = true ∧ s.ahead ≤ ys.length ∧ ys.length < s'.ahead ∧ s.place = s'.place

lemma mem_tour_append {g : Graph} {xs ys : List String} {file : String}
    (h : ¬g.Crosses xs ys file) {t : TypeRef} (ht : t ∈ (g.tour xs file (g.reachOf file) ∅).2) :
    t ∈ (g.tour (xs ++ ys) file (g.reachOf file) ∅).2 := by
  let long := (g.stops (xs ++ ys) file (g.reachOf file) ∅).2
  let C (p : Spot) : Prop := ∃ s ∈ long, s.entered = true ∧ s.ahead ≤ ys.length ∧ s.place = p
  have hclear : Clear C ys.length long := by
    refine fun s hs => ⟨fun hahead hentered => ⟨s, hs, hentered, hahead, rfl⟩, ?_⟩
    rintro hbefore ⟨s', hs', hentered, hahead, hplace⟩
    exact h ⟨s', hs', s, hs, hentered, hahead, hbefore, hplace⟩
  obtain ⟨hstops, -⟩ := stops_without (C := C) xs file (g.reachOf file)
    (v := ∅) (w := ∅) ⟨by simp, by simp⟩ hclear
  rw [(mem_tour_iff_stops ..).2, hstops, List.mem_flatMap] at ht
  rw [(mem_tour_iff_stops ..).2, List.mem_flatMap]
  -- the same stop, with fewer members ahead
  obtain ⟨s, hs, hmet⟩ := ht
  obtain ⟨s', hs', rfl⟩ := List.mem_map.mp hs
  exact ⟨s', List.mem_of_mem_filter hs', hmet⟩

lemma not_crosses_of_disjoint (g : Graph) {xs ys : List String} (file : String)
    (h : ∀ m ∈ ys, m ∉ xs) : ¬g.Crosses xs ys file := by
  rintro ⟨s, hs, s', hs', -, hlate, hearly, hplace⟩
  obtain ⟨before, after, hms, hahead⟩ := member_of_mem_stops hs
  obtain ⟨before', after', hms', hahead'⟩ := member_of_mem_stops hs'
  have hlength := congrArg List.length hms'
  simp only [List.length_append, List.length_cons] at hlength
  have hys : s.place.2 :: after <:+ ys :=
    List.suffix_of_suffix_length_le ⟨before, hms.symm⟩ (List.suffix_append xs ys)
      (by rw [List.length_cons]; omega)
  have hxs : before' ++ [s'.place.2] <+: xs :=
    List.prefix_of_prefix_length_le ⟨after', by rw [hms']; simp⟩ (List.prefix_append xs ys)
      (by rw [List.length_append, List.length_singleton]; omega)
  refine h s.place.2 (hys.subset List.mem_cons_self) ?_
  rw [hplace]
  exact hxs.subset (by simp)

/-- **A longer chain covers its beginning** unless its walk crosses itself: every key that is known
after the chain with the members `xs` is known after the one with the members `xs ++ ys`. The
walk does not cross itself if no member of `ys` is one of `xs`. -/
theorem longer_chain_covers (g : Graph) (file : String) (xs ys : List String)
    (short long : CallChain) (hshort : short.members = xs) (hlong : long.members = xs ++ ys) :
    (¬g.Crosses xs ys file → ∀ (seen : Std.HashSet EdgeKey) (k : EdgeKey),
      k ∈ (g.resolveFile file [short] seen).2 → k ∈ (g.resolveFile file [long] seen).2) ∧
    ((∀ m ∈ ys, m ∉ xs) → ¬g.Crosses xs ys file) := by
  refine ⟨fun hcross seen k hk => ?_, g.not_crosses_of_disjoint file⟩
  rw [resolveFile_seen] at hk ⊢
  rcases hk with hk | ⟨r, hr, rfl⟩
  · exact Or.inl hk
  · obtain ⟨origin, ho, c, hc, t, ht, hne, rfl⟩ := mem_offered.mp hr
    obtain rfl := List.mem_singleton.mp hc
    have htour : t ∈ g.chainTour file long := by
      unfold chainTour at ht ⊢
      rw [hshort] at ht
      rw [hlong]
      exact mem_tour_append hcross ht
    exact Or.inr ⟨_, mem_offered.mpr ⟨origin, ho, long, List.mem_singleton_self _, t, htour, hne,
      rfl⟩, rfl⟩

lemma resolveFile_seen_empty {g : Graph} {file : String} {chains : List CallChain} {k : EdgeKey} :
    k ∈ (g.resolveFile file chains ∅).2 ↔ k ∈ (g.offered file chains).map (·.key) := by
  simp [resolveFile_seen]

/-- `Go` leads from `A` to itself and from `B` to `T`; `M` leads from `A` to `U`, which stands in
the file of `T`, and from `T` to `W`. -/
def crossing : Graph :=
  let a := ((Entry.plain "" "A" "." "a.cs" .csharp).addAccessor "Go" "A").addAccessor "M" "U"
  let b := (Entry.plain "" "B" "." "a.cs" .csharp).addAccessor "Go" "T"
  let u := Entry.plain "" "U" "." "t.cs" .csharp
  let t := (Entry.plain "" "T" "." "t.cs" .csharp).addAccessor "M" "W"
  let w := Entry.plain "" "W" "." "t.cs" .csharp
  ⟨.ofEntries [a, b, u, t, w], ∅⟩

lemma offered_crossing :
    (crossing.offered "a.cs" [⟨"x.Go.M", ".", true⟩]).map (·.key) =
        [⟨"A", "U", .usage⟩, ⟨"A", "B", .usage⟩, ⟨"A", "T", .usage⟩, ⟨"A", "T", .usage⟩,
          ⟨"A", "W", .usage⟩] ∧
      (crossing.offered "a.cs" [⟨"x.Go.M.M", ".", true⟩]).map (·.key) =
        [⟨"A", "U", .usage⟩, ⟨"A", "B", .usage⟩, ⟨"A", "T", .usage⟩] := by
  constructor <;> cbv

/-- With a second `M` the branch of `A` enters the place of `t.cs` and `M` at `U`, which has no such
member, and the branch of `B` finds it closed: `W` is not met. -/
theorem crossing_chain_misses_edge :
    (⟨"x.Go.M", ".", true⟩ : CallChain).members = ["Go", "M"] ∧
      (⟨"x.Go.M.M", ".", true⟩ : CallChain).members = ["Go", "M"] ++ ["M"] ∧
      ⟨"A", "W", .usage⟩ ∈ (crossing.resolveFile "a.cs" [⟨"x.Go.M", ".", true⟩] ∅).2 ∧
      ⟨"A", "W", .usage⟩ ∉ (crossing.resolveFile "a.cs" [⟨"x.Go.M.M", ".", true⟩] ∅).2 := by
  simp only [resolveFile_seen_empty, offered_crossing]
  decide

theorem longer_chain_covers_relay :
    (⟨"b.Next", ".", true⟩ : CallChain).members = ["Next"] ∧
      (⟨"b.Next.Last", ".", true⟩ : CallChain).members = ["Next"] ++ ["Last"] ∧
      ¬relay.Crosses ["Next"] ["Last"] "A.cs" ∧
      ⟨"App.A", "App.C", .usage⟩ ∈ (relay.resolveFile "A.cs" [⟨"b.Next.Last", ".", true⟩] ∅).2 ∧
      crossing.Crosses ["Go", "M"] ["M"] "a.cs" := by
  have hshort : (⟨"b.Next", ".", true⟩ : CallChain).members = ["Next"] := by decide
  have hlong : (⟨"b.Next.Last", ".", true⟩ : CallChain).members = ["Next"] ++ ["Last"] := by decide
  obtain ⟨hcovers, hdisjoint⟩ := longer_chain_covers relay "A.cs" _ _ _ _ hshort hlong
  have hclear : ¬relay.Crosses ["Next"] ["Last"] "A.cs" := hdisjoint (by decide)
  have hC : (relay.offered "A.cs" [⟨"b.Next", ".", true⟩]).map (·.key) =
      [⟨"App.A", "App.B", .usage⟩, ⟨"App.A", "App.C", .usage⟩] := by cbv
  refine ⟨hshort, hlong, hclear, hcovers hclear ∅ _ ?_, ?_⟩
  · rw [resolveFile_seen_empty, hC]
    decide
  · -- the key that is missed shows that the walk crosses itself
    by_contra hclear
    have hW := (longer_chain_covers crossing "a.cs" ["Go", "M"] ["M"] ⟨"x.Go.M", ".", true⟩
      ⟨"x.Go.M.M", ".", true⟩ (by decide) (by decide)).1 hclear ∅ ⟨"A", "W", .usage⟩
    simp only [resolveFile_seen_empty, offered_crossing] at hW
    revert hW
    decide

end Graph

end TypeCoupling
