import Mathlib
import TypeCoupling.Proofs.Index
import TypeCoupling.Proofs.Link
import TypeCoupling.Walk

/-!
What a call chain meets.

A walk does two things at once: it goes from type to type, skipping the places it has been at,
and it records edges, skipping the keys it knows. The two do not depend on each other, so a walk
is a tour that records nothing (`tour`) with the recording after it. The tour is compared with
what a walk without a guard would meet (`met`) and with the relation `Derives` that says which
types a chain leads to.
-/

namespace TypeCoupling

namespace TypeRef

/-- The edge that a walk from a type records for a type it meets. -/
def edgeFrom (origin : Entry) (t : TypeRef) : Relationship :=
  ⟨origin.qualifiedName, origin.file, origin.typeName, t.name, t.file, t.typeName, .usage⟩

end TypeRef

/-- The edges to the types met, in order. A type has no edge to itself. -/
def edgesTo (origin : Entry) (ts : List TypeRef) : List Relationship :=
  (ts.filter (·.name != origin.qualifiedName)).map (·.edgeFrom origin)

lemma edgesTo_cons_self {origin : Entry} {t : TypeRef} (h : t.name = origin.qualifiedName)
    (ts : List TypeRef) : edgesTo origin (t :: ts) = edgesTo origin ts := by
  simp [edgesTo, h]

lemma edgesTo_cons {origin : Entry} {t : TypeRef} (h : t.name ≠ origin.qualifiedName)
    (ts : List TypeRef) : edgesTo origin (t :: ts) = t.edgeFrom origin :: edgesTo origin ts := by
  simp [edgesTo, h]

lemma mem_edgesTo {origin : Entry} {ts : List TypeRef} {r : Relationship} :
    r ∈ edgesTo origin ts ↔ ∃ t ∈ ts, t.name ≠ origin.qualifiedName ∧ t.edgeFrom origin = r := by
  simp [edgesTo, and_assoc]

/-! ### Recording -/

namespace Walk

variable (origin : Entry)

/-- Records the types of a list one after another. -/
def emitAll (w : Walk) (ts : List TypeRef) : Walk := ts.foldl (emit origin) w

@[simp] lemma emitAll_nil (w : Walk) : emitAll origin w [] = w := rfl
@[simp] lemma emitAll_cons (w : Walk) (t : TypeRef) (ts : List TypeRef) :
    emitAll origin w (t :: ts) = emitAll origin (w.emit origin t) ts := rfl
lemma emitAll_append (w : Walk) (ts us : List TypeRef) :
    emitAll origin w (ts ++ us) = emitAll origin (emitAll origin w ts) us := by
  simp [emitAll, List.foldl_append]

/-- **Step**: what recording a type does to a walk. -/
lemma emit_cases (w : Walk) (t : TypeRef) :
    (t.name = origin.qualifiedName ∧ w.emit origin t = w) ∨
    (t.name ≠ origin.qualifiedName ∧ (t.edgeFrom origin).key ∈ w.seen ∧ w.emit origin t = w) ∨
    (t.name ≠ origin.qualifiedName ∧ (t.edgeFrom origin).key ∉ w.seen ∧ w.emit origin t =
      { w with seen := w.seen.insert (t.edgeFrom origin).key,
               found := w.found.push (t.edgeFrom origin) }) := by
  by_cases hn : t.name = origin.qualifiedName
  · exact Or.inl ⟨hn, by simp [emit, hn]⟩
  · by_cases hs : (t.edgeFrom origin).key ∈ w.seen
    · exact Or.inr (Or.inl ⟨hn, hs, by
        simp only [emit, beq_iff_eq, hn, if_false]
        exact if_pos (Std.HashSet.mem_iff_contains.mp hs)⟩)
    · exact Or.inr (Or.inr ⟨hn, hs, by
        simp only [emit, beq_iff_eq, hn, if_false]
        exact if_neg (fun hc => hs (Std.HashSet.mem_iff_contains.mpr hc))⟩)

/-- Recording does not look at the places. -/
lemma emit_at (w : Walk) (v : Std.HashSet (String × String)) (t : TypeRef) :
    emit origin { w with visited := v } t = { w.emit origin t with visited := v } := by
  unfold emit
  split
  · rfl
  · dsimp only; split <;> rfl

lemma emitAll_at (w : Walk) (v : Std.HashSet (String × String)) (ts : List TypeRef) :
    emitAll origin { w with visited := v } ts = { emitAll origin w ts with visited := v } := by
  induction ts generalizing w with
  | nil => rfl
  | cons t ts ih => rw [emitAll_cons, emitAll_cons, emit_at, ih]

/-- **What is recorded** are the edges with new keys. -/
lemma emitAll_found (w : Walk) (ts : List TypeRef) :
    (emitAll origin w ts).found.toList =
      w.found.toList ++ keepNew w.seen (edgesTo origin ts) := by
  induction ts generalizing w with
  | nil => simp [edgesTo, keepNew]
  | cons t ts ih =>
    rw [emitAll_cons, ih]
    rcases emit_cases origin w t with ⟨hn, h⟩ | ⟨hn, hs, h⟩ | ⟨hn, hs, h⟩
    · rw [h, edgesTo_cons_self hn]
    · rw [h, edgesTo_cons hn, keepNew_cons_of_mem hs]
    · rw [h, edgesTo_cons hn, keepNew_cons_of_notMem hs]
      simp

/-- **What is known after recording** are the keys that came up, too. -/
lemma emitAll_seen (w : Walk) (ts : List TypeRef) :
    (emitAll origin w ts).seen = learn w.seen (edgesTo origin ts) := by
  induction ts generalizing w with
  | nil => rfl
  | cons t ts ih =>
    rw [emitAll_cons, ih]
    rcases emit_cases origin w t with ⟨hn, h⟩ | ⟨hn, hs, h⟩ | ⟨hn, hs, h⟩
    · rw [h, edgesTo_cons_self hn]
    · rw [h, edgesTo_cons hn, learn_cons_of_mem hs]
    · rw [h, edgesTo_cons hn, learn_cons_of_notMem hs]

end Walk

/-! ### Touring -/

namespace Graph

/-- One hop of a tour: the declaring type is met, then the returned type, then what the rest of
the chain meets from there. -/
def tourHop (g : Graph)
    (onward : TypeRef → Std.HashSet (String × String) →
      Std.HashSet (String × String) × List TypeRef)
    (s : Std.HashSet (String × String) × List TypeRef) (hop : Accessor × TypeRef) :
    Std.HashSet (String × String) × List TypeRef :=
  match g.returned? hop.1 hop.2 with
  | none => (s.1, s.2 ++ [hop.2])
  | some t => ((onward t s.1).1, s.2 ++ hop.2 :: t :: (onward t s.1).2)

/-- A walk that records nothing: the places it has been at by then, and the types it meets. -/
def tour (g : Graph) : List String → (file : String) → (reach : List TypeRef) →
    Std.HashSet (String × String) → Std.HashSet (String × String) × List TypeRef
  | [], _, _, v => (v, [])
  | member :: rest, file, reach, v =>
    if v.contains (file, member) then (v, [])
    else
      (g.hops reach member).foldl
        (g.tourHop fun t v => g.tour rest t.file (t :: g.supertypes t) v)
        (v.insert (file, member), [])

/-- **A walk is a tour, recorded.** -/
lemma follow_eq_tour (g : Graph) (origin : Entry) (ms : List String) (file : String)
    (reach : List TypeRef) (w : Walk) :
    g.follow origin ms file reach w =
      { w.emitAll origin (g.tour ms file reach w.visited).2 with
        visited := (g.tour ms file reach w.visited).1 } := by
  induction ms generalizing file reach w with
  | nil => rfl
  | cons member rest ih =>
    unfold follow tour
    split
    · rfl
    · -- both folds go over the same hops; `recorded` takes the tour's state to the walk's
      let recorded (s : Std.HashSet (String × String) × List TypeRef) : Walk :=
        { w.emitAll origin s.2 with visited := s.1 }
      change _ = recorded (List.foldl _ _ _)
      rw [← List.foldl_hom recorded]
      · rfl
      · intro s hop
        unfold tourHop
        rcases g.returned? hop.1 hop.2 with _ | t
        · simp only [recorded, Walk.emitAll_append, Walk.emit_at]; rfl
        · have hlast : s.2 ++ hop.2 :: t :: (g.tour rest t.file (t :: g.supertypes t) s.1).2 =
              (s.2 ++ [hop.2, t]) ++ (g.tour rest t.file (t :: g.supertypes t) s.1).2 := by simp
          simp only [recorded, ih, Walk.emit_at, hlast, Walk.emitAll_append, Walk.emitAll_at]
          rfl

/-! ### Without a guard -/

/-- The types that one hop meets, given what the rest of the chain meets from the returned type. -/
def metAt (g : Graph) (onward : TypeRef → List TypeRef) (hop : Accessor × TypeRef) :
    List TypeRef :=
  match g.returned? hop.1 hop.2 with
  | none => [hop.2]
  | some t => hop.2 :: t :: onward t

/-- The types that a chain meets when no place is skipped, in order. -/
def met (g : Graph) : List String → (reach : List TypeRef) → List TypeRef
  | [], _ => []
  | member :: rest, reach =>
    (g.hops reach member).flatMap (g.metAt fun t => g.met rest (t :: g.supertypes t))

/-- Where the chains of a file start: at the targets of the edges of the file, then at its own
types. -/
def startsOf (g : Graph) (file : String) : List TypeRef :=
  (g.tree.edges file).map (fun r => ⟨r.toName, r.toFile, r.toType⟩) ++
    (g.index.types.entriesOf file).map fun e => ⟨e.qualifiedName, e.file, e.typeName⟩

/-- Where a chain goes on from a type: at the type itself, then at the targets of the edges of its
file by which it extends or implements a type. -/
def onwardFrom (g : Graph) (t : TypeRef) : List TypeRef :=
  t :: ((g.tree.edges t.file).filter fun r =>
    r.fromName = t.name ∧ (r.kind = .extension ∨ r.kind = .implementation)).map
      fun r => ⟨r.toName, r.toFile, r.toType⟩

lemma reachOf_eq_startsOf (g : Graph) (file : String) : g.reachOf file = g.startsOf file := rfl

lemma cons_supertypes_eq_onwardFrom (g : Graph) (t : TypeRef) :
    t :: g.supertypes t = g.onwardFrom t := by
  have hfilter : ((g.tree.edges t.file).filter fun r =>
      r.fromName == t.name && r.kind.isInheritance) =
      (g.tree.edges t.file).filter fun r =>
        r.fromName = t.name ∧ (r.kind = .extension ∨ r.kind = .implementation) := by
    refine List.filter_congr fun r _ => ?_
    cases r.kind <;> simp [UsageKind.isInheritance, Bool.beq_eq_decide_eq]
  rw [supertypes, hfilter]
  rfl

/-- The places that one hop leads to. -/
def enteredAt (g : Graph) (onward : TypeRef → List (String × String))
    (hop : Accessor × TypeRef) : List (String × String) :=
  match g.returned? hop.1 hop.2 with
  | none => []
  | some t => onward t

/-- The places, a file and a member each, that are entered when none is skipped, in order. -/
def entered (g : Graph) : List String → (file : String) → (reach : List TypeRef) →
    List (String × String)
  | [], _, _ => []
  | member :: rest, file, reach =>
    (file, member) :: (g.hops reach member).flatMap
      (g.enteredAt fun t => g.entered rest t.file (g.onwardFrom t))

section Hops

variable {g : Graph}
  {onward : TypeRef → Std.HashSet (String × String) → Std.HashSet (String × String) × List TypeRef}
  {onwardMet : TypeRef → List TypeRef} {onwardEntered : TypeRef → List (String × String)}

lemma foldl_tourHop_sublist (h : ∀ t v, (onward t v).2.Sublist (onwardMet t))
    (hs : List (Accessor × TypeRef)) (s : Std.HashSet (String × String) × List TypeRef) :
    ∃ us, (hs.foldl (g.tourHop onward) s).2 = s.2 ++ us ∧
      us.Sublist (hs.flatMap (g.metAt onwardMet)) := by
  induction hs generalizing s with
  | nil => exact ⟨[], by simp, List.Sublist.refl _⟩
  | cons hop hs ih =>
    obtain ⟨us, hus, hsub⟩ := ih (g.tourHop onward s hop)
    rw [List.foldl_cons, List.flatMap_cons, hus]
    unfold tourHop metAt
    rcases g.returned? hop.1 hop.2 with _ | t
    · exact ⟨hop.2 :: us, by simp, hsub.cons_cons _⟩
    · exact ⟨hop.2 :: t :: (onward t s.1).2 ++ us, by simp,
        (((h t s.1).cons_cons _).cons_cons _).append hsub⟩

/-- The hops of one member, when the places ahead are new and differ from one another. -/
lemma foldl_tourHop_eq
    (h : ∀ t v, (onwardEntered t).Nodup → (∀ p ∈ onwardEntered t, p ∉ v) →
      (onward t v).2 = onwardMet t ∧ ∀ p, p ∈ (onward t v).1 ↔ p ∈ v ∨ p ∈ onwardEntered t)
    (hs : List (Accessor × TypeRef)) (s : Std.HashSet (String × String) × List TypeRef)
    (hnodup : (hs.flatMap (g.enteredAt onwardEntered)).Nodup)
    (hnew : ∀ p ∈ hs.flatMap (g.enteredAt onwardEntered), p ∉ s.1) :
    (hs.foldl (g.tourHop onward) s).2 = s.2 ++ hs.flatMap (g.metAt onwardMet) ∧
      ∀ p, p ∈ (hs.foldl (g.tourHop onward) s).1 ↔
        p ∈ s.1 ∨ p ∈ hs.flatMap (g.enteredAt onwardEntered) := by
  induction hs generalizing s with
  | nil => exact ⟨by simp, by simp⟩
  | cons hop hs ih =>
    rw [List.flatMap_cons] at hnodup hnew
    obtain ⟨hn1, hn2, hdisj⟩ := List.nodup_append.mp hnodup
    rw [List.foldl_cons, List.flatMap_cons, List.flatMap_cons]
    rcases hret : g.returned? hop.1 hop.2 with _ | t
    · have hstep : g.tourHop onward s hop = (s.1, s.2 ++ [hop.2]) := by simp [tourHop, hret]
      have hmet : g.metAt onwardMet hop = [hop.2] := by simp [metAt, hret]
      have hent : g.enteredAt onwardEntered hop = [] := by simp [enteredAt, hret]
      rw [hent, List.nil_append] at hnew
      obtain ⟨h1, h2⟩ := ih (s.1, s.2 ++ [hop.2]) hn2 hnew
      rw [hstep, hmet, hent, h1]
      exact ⟨by simp, by simpa using h2⟩
    · have hstep : g.tourHop onward s hop =
          ((onward t s.1).1, s.2 ++ hop.2 :: t :: (onward t s.1).2) := by simp [tourHop, hret]
      have hmet : g.metAt onwardMet hop = hop.2 :: t :: onwardMet t := by simp [metAt, hret]
      have hent : g.enteredAt onwardEntered hop = onwardEntered t := by simp [enteredAt, hret]
      rw [hent] at hn1 hdisj hnew
      obtain ⟨hm, hp⟩ := h t s.1 hn1 fun p hp => hnew p (List.mem_append_left _ hp)
      -- the places of this hop are none of those ahead
      have hnew' : ∀ p ∈ hs.flatMap (g.enteredAt onwardEntered), p ∉ (onward t s.1).1 := by
        intro p hph hpv
        rcases (hp p).mp hpv with hv | hv
        · exact hnew p (List.mem_append_right _ hph) hv
        · exact hdisj p hv p hph rfl
      obtain ⟨h1, h2⟩ := ih ((onward t s.1).1, s.2 ++ hop.2 :: t :: (onward t s.1).2) hn2 hnew'
      rw [hstep, hmet, hent, h1]
      refine ⟨by simp [hm], fun p => ?_⟩
      rw [h2, hp, List.mem_append, or_assoc]

end Hops

/-- The guard only leaves types out. -/
lemma tour_sublist (g : Graph) (ms : List String) (file : String) (reach : List TypeRef)
    (v : Std.HashSet (String × String)) :
    (g.tour ms file reach v).2.Sublist (g.met ms reach) := by
  induction ms generalizing file reach v with
  | nil => exact List.Sublist.refl _
  | cons member rest ih =>
    unfold tour met
    split
    · exact List.nil_sublist _
    · obtain ⟨us, hus, hsub⟩ := foldl_tourHop_sublist (g := g)
        (fun t v => ih t.file (t :: g.supertypes t) v) (g.hops reach member)
        (v.insert (file, member), [])
      rw [hus]; exact hsub

/-- **A tour that comes to no place twice skips nothing.** -/
lemma tour_eq_met (g : Graph) (ms : List String) (file : String) (reach : List TypeRef)
    (v : Std.HashSet (String × String)) (hnodup : (g.entered ms file reach).Nodup)
    (hnew : ∀ p ∈ g.entered ms file reach, p ∉ v) :
    (g.tour ms file reach v).2 = g.met ms reach ∧
      ∀ p, p ∈ (g.tour ms file reach v).1 ↔ p ∈ v ∨ p ∈ g.entered ms file reach := by
  induction ms generalizing file reach v with
  | nil => exact ⟨rfl, by simp [tour, entered]⟩
  | cons member rest ih =>
    simp only [entered, ← cons_supertypes_eq_onwardFrom] at hnodup hnew
    obtain ⟨hfirst, hlater⟩ := List.nodup_cons.mp hnodup
    have hfree : ¬v.contains (file, member) = true := fun hc =>
      hnew _ List.mem_cons_self (Std.HashSet.mem_iff_contains.mpr hc)
    unfold tour met entered
    simp only [← cons_supertypes_eq_onwardFrom]
    rw [if_neg hfree]
    obtain ⟨hmet, hplaces⟩ := foldl_tourHop_eq (g := g)
      (fun t v => ih t.file (t :: g.supertypes t) v) (g.hops reach member)
      (v.insert (file, member), []) hlater fun p hp hv => by
        rcases Std.HashSet.mem_insert.mp hv with hv | hv
        · exact hfirst (eq_of_beq hv ▸ hp)
        · exact hnew p (List.mem_cons_of_mem _ hp) hv
    refine ⟨by simpa using hmet, fun p => ?_⟩
    rw [hplaces, Std.HashSet.mem_insert, List.mem_cons, beq_iff_eq]
    tauto

/-! ### What a chain leads to -/

lemma mem_hops {g : Graph} {reach : List TypeRef} {member : String} {a : Accessor} {d : TypeRef} :
    (a, d) ∈ g.hops reach member ↔
      a ∈ g.index.accessors.get member ∧
        ∃ name ∈ a.declaringTypes, reach.find? (·.name == name) = some d := by
  simp only [hops, List.mem_flatMap, List.mem_filterMap, Option.map_eq_some_iff, Prod.mk.injEq]
  constructor
  · rintro ⟨b, hb, name, hn, e, he, rfl, rfl⟩
    exact ⟨hb, name, hn, he⟩
  · rintro ⟨ha, name, hn, hd⟩
    exact ⟨a, ha, name, hn, d, hd, rfl, rfl⟩

/-- The types that a chain of members leads to from the types in reach: the declaring type of an
accessor of the first member's name, of the types in reach the first one of that name; the type
the accessor returns; and what the rest of the chain leads to from that type and those it extends
or implements. -/
inductive Derives (g : Graph) : List TypeRef → List String → TypeRef → Prop where
  | declaring {reach : List TypeRef} {member name : String} {rest : List String} {a : Accessor}
      {d : TypeRef} (ha : a ∈ g.index.accessors.get member) (hn : name ∈ a.declaringTypes)
      (hd : reach.find? (·.name == name) = some d) : Derives g reach (member :: rest) d
  | returned {reach : List TypeRef} {member name : String} {rest : List String} {a : Accessor}
      {d t : TypeRef} (ha : a ∈ g.index.accessors.get member) (hn : name ∈ a.declaringTypes)
      (hd : reach.find? (·.name == name) = some d) (ht : g.returned? a d = some t) :
      Derives g reach (member :: rest) t
  | onward {reach : List TypeRef} {member name : String} {rest : List String} {a : Accessor}
      {d t u : TypeRef} (ha : a ∈ g.index.accessors.get member) (hn : name ∈ a.declaringTypes)
      (hd : reach.find? (·.name == name) = some d) (ht : g.returned? a d = some t)
      (hu : Derives g (g.onwardFrom t) rest u) : Derives g reach (member :: rest) u

lemma mem_metAt {g : Graph} {onward : TypeRef → List TypeRef} {a : Accessor} {d t : TypeRef} :
    t ∈ g.metAt onward (a, d) ↔
      t = d ∨ ∃ u, g.returned? a d = some u ∧ (t = u ∨ t ∈ onward u) := by
  unfold metAt
  rcases g.returned? a d with _ | u <;> simp

/-- What a chain meets with its first member. -/
lemma mem_met_cons {g : Graph} {reach : List TypeRef} {member : String} {rest : List String}
    {t : TypeRef} :
    t ∈ g.met (member :: rest) reach ↔
      ∃ a ∈ g.index.accessors.get member, ∃ name ∈ a.declaringTypes,
        ∃ d, reach.find? (·.name == name) = some d ∧ (t = d ∨ ∃ u, g.returned? a d = some u ∧
          (t = u ∨ t ∈ g.met rest (u :: g.supertypes u))) := by
  rw [met, List.mem_flatMap]
  constructor
  · rintro ⟨⟨a, d⟩, hhop, ht⟩
    obtain ⟨ha, name, hn, hd⟩ := mem_hops.mp hhop
    exact ⟨a, ha, name, hn, d, hd, mem_metAt.mp ht⟩
  · rintro ⟨a, ha, name, hn, d, hd, ht⟩
    exact ⟨(a, d), mem_hops.mpr ⟨ha, name, hn, hd⟩, mem_metAt.mpr ht⟩

lemma derives_of_mem_met {g : Graph} {ms : List String} {reach : List TypeRef} {t : TypeRef}
    (h : t ∈ g.met ms reach) : g.Derives reach ms t := by
  induction ms generalizing reach with
  | nil => simp [met] at h
  | cons member rest ih =>
    obtain ⟨a, ha, name, hn, d, hd, rfl | ⟨u, hret, rfl | hu⟩⟩ := mem_met_cons.mp h
    · exact .declaring ha hn hd
    · exact .returned ha hn hd hret
    · rw [cons_supertypes_eq_onwardFrom] at hu
      exact .onward ha hn hd hret (ih hu)

lemma mem_met_of_derives {g : Graph} {ms : List String} {reach : List TypeRef} {t : TypeRef}
    (h : g.Derives reach ms t) : t ∈ g.met ms reach := by
  induction h with
  | declaring ha hn hd => exact mem_met_cons.mpr ⟨_, ha, _, hn, _, hd, Or.inl rfl⟩
  | returned ha hn hd ht =>
    exact mem_met_cons.mpr ⟨_, ha, _, hn, _, hd, Or.inr ⟨_, ht, Or.inl rfl⟩⟩
  | onward ha hn hd ht _ ih =>
    rw [← cons_supertypes_eq_onwardFrom] at ih
    exact mem_met_cons.mpr ⟨_, ha, _, hn, _, hd, Or.inr ⟨_, ht, Or.inr ih⟩⟩

/-- What holds of the types in reach and is kept from type to type holds of all a chain leads
to. -/
lemma Derives.closed {g : Graph} {P : TypeRef → Prop}
    (hret : ∀ member, ∀ a ∈ g.index.accessors.get member, ∀ d t, P d →
      g.returned? a d = some t → P t)
    (hsup : ∀ t, P t → ∀ u ∈ g.supertypes t, P u)
    {reach : List TypeRef} {ms : List String} {t : TypeRef} (h : g.Derives reach ms t)
    (hreach : ∀ u ∈ reach, P u) : P t := by
  induction h with
  | declaring _ _ hd => exact hreach _ (List.mem_of_find?_eq_some hd)
  | returned ha _ hd ht => exact hret _ _ ha _ _ (hreach _ (List.mem_of_find?_eq_some hd)) ht
  | onward ha _ hd ht _ ih =>
    have hP := hret _ _ ha _ _ (hreach _ (List.mem_of_find?_eq_some hd)) ht
    rw [← cons_supertypes_eq_onwardFrom] at ih
    refine ih fun u hu => ?_
    rcases List.mem_cons.mp hu with rfl | hu
    · exact hP
    · exact hsup _ hP u hu

/-! ### The chains of a file -/

/-- The types that a chain of a file meets. It starts with nothing visited. -/
def chainTour (g : Graph) (file : String) (c : CallChain) : List TypeRef :=
  (g.tour c.members file (g.reachOf file) ∅).2

lemma foldl_followChain (g : Graph) (origin : Entry) (file : String) (chains : List CallChain)
    (w : Walk) :
    ∃ v, chains.foldl (g.followChain origin file) w =
      { w.emitAll origin (chains.flatMap (g.chainTour file)) with visited := v } := by
  induction chains generalizing w with
  | nil => exact ⟨w.visited, rfl⟩
  | cons c chains ih =>
    obtain ⟨v, hv⟩ := ih (g.followChain origin file w c)
    refine ⟨v, ?_⟩
    rw [List.foldl_cons, hv, List.flatMap_cons, Walk.emitAll_append]
    simp only [followChain, follow_eq_tour, Walk.emitAll_at, chainTour]

/-- The edges that the chains of a file come upon, whether or not they are known. -/
def offered (g : Graph) (file : String) (chains : List CallChain) : List Relationship :=
  match g.index.types.entriesOf file with
  | [] => []
  | origin :: _ => edgesTo origin (chains.flatMap (g.chainTour file))

lemma offered_nil (g : Graph) (file : String) : g.offered file [] = [] := by
  unfold offered
  split <;> rfl

/-- **The known keys only filter** the edges that the chains come upon. -/
lemma resolveFile_eq (g : Graph) (file : String) (chains : List CallChain)
    (seen : Std.HashSet EdgeKey) :
    g.resolveFile file chains seen =
      (keepNew seen (g.offered file chains), learn seen (g.offered file chains)) := by
  unfold resolveFile offered
  rcases g.index.types.entriesOf file with _ | ⟨origin, own⟩
  · rfl
  · obtain ⟨v, hv⟩ := foldl_followChain g origin file chains ⟨∅, seen, #[]⟩
    simp only [hv, Walk.emitAll_found, Walk.emitAll_seen, List.nil_append]

lemma resolveFile_found (g : Graph) (file : String) (chains : List CallChain)
    (seen : Std.HashSet EdgeKey) :
    (g.resolveFile file chains seen).1 = keepNew seen (g.offered file chains) := by
  rw [resolveFile_eq]

lemma resolveFile_seen (g : Graph) (file : String) (chains : List CallChain)
    (seen : Std.HashSet EdgeKey) (k : EdgeKey) :
    k ∈ (g.resolveFile file chains seen).2 ↔
      k ∈ seen ∨ ∃ r ∈ g.offered file chains, r.key = k := by
  rw [resolveFile_eq, mem_learn]

lemma mem_offered {g : Graph} {file : String} {chains : List CallChain} {r : Relationship} :
    r ∈ g.offered file chains ↔
      ∃ origin, (g.index.types.entriesOf file).head? = some origin ∧ ∃ c ∈ chains,
        ∃ t ∈ g.chainTour file c, t.name ≠ origin.qualifiedName ∧ t.edgeFrom origin = r := by
  unfold offered
  rcases g.index.types.entriesOf file with _ | ⟨origin, own⟩
  · simp
  · simp only [mem_edgesTo, List.mem_flatMap, List.head?_cons, Option.some.injEq, exists_eq_left']
    constructor
    · rintro ⟨t, ⟨c, hc, ht⟩, h⟩
      exact ⟨c, hc, t, ht, h⟩
    · rintro ⟨c, hc, t, ht, h⟩
      exact ⟨t, ⟨c, hc, ht⟩, h⟩

/-- A chain meets only what it leads to. -/
lemma derives_of_mem_chainTour {g : Graph} {file : String} {c : CallChain} {t : TypeRef}
    (h : t ∈ g.chainTour file c) : g.Derives (g.startsOf file) c.members t :=
  derives_of_mem_met ((tour_sublist g _ _ _ _).subset h)

/-- A chain that comes to no place twice meets all it leads to. -/
lemma mem_chainTour_of_derives {g : Graph} {file : String} {c : CallChain} {t : TypeRef}
    (hnodup : (g.entered c.members file (g.startsOf file)).Nodup)
    (h : g.Derives (g.startsOf file) c.members t) : t ∈ g.chainTour file c := by
  have hall := (tour_eq_met g c.members file (g.startsOf file) ∅ hnodup (by simp)).1
  rw [chainTour, reachOf_eq_startsOf, hall]
  exact mem_met_of_derives h

/-- **Soundness and completeness of following chains.** An edge that is found is new and leads from
the first type of the file to a type that one of the chains leads to. And of a chain whose walk
without a guard enters no place twice, every type it leads to is the origin itself, or has its edge
found, or had it known before. -/
theorem resolveFile_sound_complete (g : Graph) (file : String) (chains : List CallChain)
    (seen : Std.HashSet EdgeKey) :
    (∀ r ∈ (g.resolveFile file chains seen).1,
      ∃ origin, (g.index.types.entriesOf file).head? = some origin ∧
        r.key ∉ seen ∧
        ∃ c ∈ chains, ∃ t, g.Derives (g.startsOf file) c.members t ∧ r = t.edgeFrom origin) ∧
    (∀ origin, (g.index.types.entriesOf file).head? = some origin →
      ∀ c ∈ chains, (g.entered c.members file (g.startsOf file)).Nodup →
        ∀ t, g.Derives (g.startsOf file) c.members t → t.name ≠ origin.qualifiedName →
          (∃ r ∈ (g.resolveFile file chains seen).1, r.key = (t.edgeFrom origin).key) ∨
            (t.edgeFrom origin).key ∈ seen) := by
  rw [resolveFile_found]
  refine ⟨fun r hr => ?_, fun origin ho c hc hnodup t ht hne => ?_⟩
  · obtain ⟨origin, ho, c, hc, t, ht, -, rfl⟩ := mem_offered.mp ((keepNew_sublist _ _).subset hr)
    exact ⟨origin, ho, keepNew_notMem hr, c, hc, t, derives_of_mem_chainTour ht, rfl⟩
  · have hoff : t.edgeFrom origin ∈ g.offered file chains :=
      mem_offered.mpr ⟨origin, ho, c, hc, t, mem_chainTour_of_derives hnodup ht, hne, rfl⟩
    exact (keepNew_complete seen hoff).symm

/-- `A` uses `B` and leads to it by `Start`. `B` leads to `C` by `Next` and `C` to `D` by `Last`,
and `C` extends `Base`, which leads to `D` by `Up`. -/
def relay : Graph :=
  let a := (Entry.plain "App" "A" "." "A.cs" .csharp).addAccessor "Start" "B"
  let b := (Entry.plain "App" "B" "." "B.cs" .csharp).addAccessor "Next" "C"
  let c := (Entry.plain "App" "C" "." "C.cs" .csharp).addAccessor "Last" "D"
  let base := (Entry.plain "App" "Base" "." "Base.cs" .csharp).addAccessor "Up" "D"
  let d := Entry.plain "App" "D" "." "D.cs" .csharp
  ⟨.ofEntries [a, b, c, base, d],
    ((∅ : Tree).insert "A.cs" [.between a b .usage]).insert "C.cs" [.between c base .extension]⟩

/-- A chain that hops on the own type of the file first and on a base at last. -/
def upChain : CallChain := ⟨"a.Start.Next.Up", ".", true⟩

theorem resolveFile_sound_complete_relay :
    (relay.entered ["Start", "Next", "Up"] "A.cs" (relay.startsOf "A.cs")).Nodup ∧
      relay.Derives (relay.startsOf "A.cs") ["Start", "Next", "Up"] ⟨"App.D", "D.cs", "D"⟩ ∧
      ∃ r ∈ (relay.resolveFile "A.cs" [upChain] ∅).1,
        r.key = ⟨"App.A", "App.D", .usage⟩ ∧ ∃ c ∈ [upChain],
          ∃ t, relay.Derives (relay.startsOf "A.cs") c.members t ∧ t.name = r.toName := by
  have horigin : (relay.index.types.entriesOf "A.cs").head? =
      some ((Entry.plain "App" "A" "." "A.cs" .csharp).addAccessor "Start" "B") := by cbv
  have hmembers : upChain.members = ["Start", "Next", "Up"] := by decide
  have hnodup : (relay.entered ["Start", "Next", "Up"] "A.cs" (relay.startsOf "A.cs")).Nodup := by
    have h : relay.entered ["Start", "Next", "Up"] "A.cs" (relay.startsOf "A.cs") =
      [("A.cs", "Start"), ("B.cs", "Next"), ("C.cs", "Up")] := by cbv
    rw [h]; decide
  have hD : relay.Derives (relay.startsOf "A.cs") ["Start", "Next", "Up"]
      ⟨"App.D", "D.cs", "D"⟩ := by
    refine derives_of_mem_met ?_
    have h : relay.met ["Start", "Next", "Up"] (relay.startsOf "A.cs") =
      [⟨"App.A", "A.cs", "A"⟩, ⟨"App.B", "B.cs", "B"⟩, ⟨"App.B", "B.cs", "B"⟩,
        ⟨"App.C", "C.cs", "C"⟩, ⟨"App.Base", "Base.cs", "Base"⟩, ⟨"App.D", "D.cs", "D"⟩] := by cbv
    rw [h]; simp
  obtain ⟨hsound, hcomplete⟩ := resolveFile_sound_complete relay "A.cs" [upChain] ∅
  rcases hcomplete _ horigin _ List.mem_cons_self (by rw [hmembers]; exact hnodup)
    ⟨"App.D", "D.cs", "D"⟩ (by rw [hmembers]; exact hD) (by decide) with ⟨r, hr, hk⟩ | hseen
  · obtain ⟨origin, -, -, c, hc, t, ht, rfl⟩ := hsound r hr
    exact ⟨hnodup, hD, _, hr, hk, c, hc, t, ht, rfl⟩
  · simp at hseen

end Graph

end TypeCoupling
