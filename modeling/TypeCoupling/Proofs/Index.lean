import Mathlib.Data.List.Nodup
import TypeCoupling.Index

/-!
What an index holds, said of the list of declarations it stands for: a declaration is dropped if
an earlier one has its qualified name. An insertion into the index is an insertion into the list,
so an index made from many declarations is read off the list alone.
-/

namespace TypeCoupling

/-- The declarations that are kept when one more arrives. -/
def keepFirst (kept : List Entry) (e : Entry) : List Entry :=
  if kept.any (·.qualifiedName == e.qualifiedName) then kept else kept ++ [e]

/-- The first declaration of every qualified name, in order. -/
def firstDeclarations (es : List Entry) : List Entry := es.foldl keepFirst []

lemma mem_foldl_keepFirst {es kept : List Entry} {e : Entry} (h : e ∈ es.foldl keepFirst kept) :
    e ∈ kept ∨ e ∈ es := by
  induction es generalizing kept with
  | nil => exact Or.inl h
  | cons d es ih =>
    rcases ih h with h1 | h1
    · unfold keepFirst at h1
      split at h1
      · exact Or.inl h1
      · rcases List.mem_append.mp h1 with h2 | h2
        · exact Or.inl h2
        · exact Or.inr (by rw [List.mem_singleton.mp h2]; exact List.mem_cons_self)
    · exact Or.inr (List.mem_cons_of_mem _ h1)

lemma mem_of_mem_firstDeclarations {es : List Entry} {e : Entry} (h : e ∈ firstDeclarations es) :
    e ∈ es := by
  rcases mem_foldl_keepFirst h with h1 | h1
  · simp at h1
  · exact h1

lemma exists_mem_keepFirst {kept : List Entry} {name : String} (e : Entry)
    (h : (∃ d ∈ kept, d.qualifiedName = name) ∨ e.qualifiedName = name) :
    ∃ d ∈ keepFirst kept e, d.qualifiedName = name := by
  unfold keepFirst
  split
  · next htaken =>
    rcases h with h | rfl
    · exact h
    · simpa using htaken
  · rcases h with ⟨d, hd, hn⟩ | hn
    · exact ⟨d, List.mem_append_left _ hd, hn⟩
    · exact ⟨e, List.mem_append_right _ List.mem_cons_self, hn⟩

/-- No name is dropped: a declaration that is not kept has a namesake that is. -/
lemma exists_mem_foldl_keepFirst {es kept : List Entry} {name : String}
    (h : (∃ d ∈ kept, d.qualifiedName = name) ∨ ∃ d ∈ es, d.qualifiedName = name) :
    ∃ d ∈ es.foldl keepFirst kept, d.qualifiedName = name := by
  induction es generalizing kept with
  | nil =>
    rcases h with h | ⟨d, hd, -⟩
    · exact h
    · simp at hd
  | cons e es ih =>
    rcases h with h | ⟨d, hd, hn⟩
    · exact ih (Or.inl (exists_mem_keepFirst e (Or.inl h)))
    · rcases List.mem_cons.mp hd with rfl | hd
      · exact ih (Or.inl (exists_mem_keepFirst d (Or.inr hn)))
      · exact ih (Or.inr ⟨d, hd, hn⟩)

namespace TypeIndex

/-- The index stands for a list of declarations with different names. -/
structure Holds (x : TypeIndex) (kept : List Entry) : Prop where
  get : ∀ name, x.get? name = kept.find? (·.qualifiedName == name)
  names : ∀ file, x.byFile.getD file [] = (kept.filter (·.file == file)).map (·.qualifiedName)
  nodup : (kept.map (·.qualifiedName)).Nodup

lemma holds_empty : empty.Holds [] :=
  ⟨fun name => by simp [empty, get?], fun file => by simp [empty], by simp⟩

variable {x : TypeIndex} {kept : List Entry}

lemma Holds.contains (h : x.Holds kept) (name : String) :
    x.contains name = kept.any (·.qualifiedName == name) := by
  have h1 : x.contains name = (x.get? name).isSome := by
    simp [TypeIndex.contains, get?]
  rw [h1, h.get, List.isSome_find?]

/-- **Step**: inserting a declaration keeps the index in step with the list. -/
lemma Holds.insert (h : x.Holds kept) (e : Entry) : (x.insert e).Holds (keepFirst kept e) := by
  unfold TypeIndex.insert keepFirst
  rw [h.contains]
  split
  · exact h
  · next hfresh =>
    have hnew : ∀ d ∈ kept, d.qualifiedName ≠ e.qualifiedName := by simpa using hfresh
    refine ⟨fun name => ?_, fun file => ?_, ?_⟩
    · have hget := h.get name
      unfold get? at hget ⊢
      rw [Std.HashMap.getElem?_insert, List.find?_append, hget]
      by_cases hn : e.qualifiedName = name
      · have hnone : kept.find? (·.qualifiedName == name) = none := by
          rw [List.find?_eq_none]
          intro d hd
          simpa [← hn] using hnew d hd
        simp [hn, hnone]
      · simp [hn]
    · simp only [Std.TreeMap.getD_insert, List.filter_append, List.map_append, h.names]
      by_cases hf : e.file = file
      · subst hf; simp
      · simp [hf]
    · rw [List.map_append, List.nodup_append]
      refine ⟨h.nodup, by simp, fun a ha b hb => ?_⟩
      obtain ⟨d, hd, rfl⟩ := List.mem_map.mp ha
      simp only [List.map_cons, List.map_nil, List.mem_singleton] at hb
      rw [hb]; exact hnew d hd

/-- **Run**: inserting many declarations one after another. -/
lemma foldl_insert_holds (es : List Entry) {x : TypeIndex} {kept : List Entry}
    (h : x.Holds kept) : (es.foldl TypeIndex.insert x).Holds (es.foldl keepFirst kept) := by
  induction es generalizing x kept with
  | nil => exact h
  | cons e es ih => exact ih (h.insert e)

/-- A name leads to one declaration of the list only. -/
lemma Holds.get_of_mem (h : x.Holds kept) {e : Entry} (he : e ∈ kept) :
    x.get? e.qualifiedName = some e := by
  obtain ⟨d, hd⟩ : ∃ d, kept.find? (·.qualifiedName == e.qualifiedName) = some d := by
    rw [← Option.isSome_iff_exists, List.find?_isSome]
    exact ⟨e, he, by simp⟩
  have hname : d.qualifiedName = e.qualifiedName := by simpa using List.find?_some hd
  rw [h.get, hd, List.inj_on_of_nodup_map h.nodup (List.mem_of_find?_eq_some hd) he hname]

lemma Holds.mem_of_get (h : x.Holds kept) {name : String} {e : Entry} (hg : x.get? name = some e) :
    e ∈ kept ∧ e.qualifiedName = name := by
  rw [h.get] at hg
  exact ⟨List.mem_of_find?_eq_some hg, by simpa using List.find?_some hg⟩

lemma Holds.entriesOf (h : x.Holds kept) (file : String) :
    x.entriesOf file = kept.filter (·.file == file) := by
  unfold TypeIndex.entriesOf
  rw [h.names, List.filterMap_map]
  have hsome : ∀ e ∈ kept.filter (·.file == file),
      (x.get? ∘ fun d => d.qualifiedName) e = some e :=
    fun e he => h.get_of_mem (List.mem_filter.mp he).1
  rw [List.filterMap_congr hsome, List.filterMap_some]

end TypeIndex

namespace AccessorIndex

lemma get_insert (x : AccessorIndex) (a : Accessor) (name : String) :
    (x.insert a).get name = x.get name ++ if a.name = name then [a] else [] := by
  unfold insert get
  rw [Std.HashMap.getD_insert]
  by_cases h : a.name = name
  · subst h; simp
  · simp [h]

lemma get_foldl_insert (as : List Accessor) (x : AccessorIndex) (name : String) :
    (as.foldl insert x).get name = x.get name ++ as.filter (·.name == name) := by
  induction as generalizing x with
  | nil => simp
  | cons a as ih =>
    rw [List.foldl_cons, ih, get_insert, List.filter_cons]
    by_cases h : a.name = name <;> simp [h]

end AccessorIndex

namespace Index

lemma insert_types (x : Index) (e : Entry) : (x.insert e).types = x.types.insert e := by
  unfold insert TypeIndex.insert
  split <;> rfl

lemma foldl_insert_types (es : List Entry) (x : Index) :
    (es.foldl insert x).types = es.foldl TypeIndex.insert x.types := by
  induction es generalizing x with
  | nil => rfl
  | cons e es ih => rw [List.foldl_cons, List.foldl_cons, ih, insert_types]

lemma foldl_insert_holds (es : List Entry) {x : Index} {kept : List Entry}
    (h : x.types.Holds kept) : (es.foldl insert x).types.Holds (es.foldl keepFirst kept) := by
  rw [foldl_insert_types]
  exact TypeIndex.foldl_insert_holds es h

/-- The members of the declarations kept, by name. -/
lemma foldl_insert_accessors (es : List Entry) {x : Index} {kept : List Entry}
    (h : x.types.Holds kept) (name : String)
    (ha : x.accessors.get name = (kept.flatMap (·.accessors)).filter (·.name == name)) :
    (es.foldl insert x).accessors.get name =
      ((es.foldl keepFirst kept).flatMap (·.accessors)).filter (·.name == name) := by
  induction es generalizing x kept with
  | nil => exact ha
  | cons e es ih =>
    refine ih (by rw [insert_types]; exact h.insert e) ?_
    unfold insert keepFirst
    rw [h.contains]
    split
    · exact ha
    · simp only [AccessorIndex.get_foldl_insert, ha, List.flatMap_append, List.flatMap_singleton,
        List.filter_append]

/-- An index made from declarations stands for the first of every name. -/
theorem ofEntries_holds (es : List Entry) :
    (ofEntries es).types.Holds (firstDeclarations es) :=
  foldl_insert_holds es TypeIndex.holds_empty

lemma ofEntries_accessors (es : List Entry) (name : String) :
    (ofEntries es).accessors.get name =
      ((firstDeclarations es).flatMap (·.accessors)).filter (·.name == name) :=
  foldl_insert_accessors es TypeIndex.holds_empty name (by simp [empty, AccessorIndex.empty,
    AccessorIndex.get])

/-- A member of the index belongs to an indexed type. -/
lemma mem_accessors {es : List Entry} {name : String} {a : Accessor}
    (h : a ∈ (ofEntries es).accessors.get name) :
    ∃ e ∈ es, (ofEntries es).types.get? e.qualifiedName = some e ∧ a ∈ e.accessors := by
  rw [ofEntries_accessors, List.mem_filter, List.mem_flatMap] at h
  obtain ⟨⟨e, he, ha⟩, -⟩ := h
  exact ⟨e, mem_of_mem_firstDeclarations he, (ofEntries_holds es).get_of_mem he, ha⟩

/-- The index knows every declared name. -/
lemma exists_get_of_mem {es : List Entry} {e : Entry} (h : e ∈ es) :
    ∃ d, (ofEntries es).types.get? e.qualifiedName = some d := by
  obtain ⟨d, hd, hn⟩ : ∃ d ∈ firstDeclarations es, d.qualifiedName = e.qualifiedName :=
    exists_mem_foldl_keepFirst (Or.inr ⟨e, h, rfl⟩)
  exact ⟨d, hn ▸ (ofEntries_holds es).get_of_mem hd⟩

/-- The types of a file are the indexed ones with this file. -/
lemma mem_entriesOf {es : List Entry} {file : String} {e : Entry} :
    e ∈ (ofEntries es).types.entriesOf file ↔
      (ofEntries es).types.get? e.qualifiedName = some e ∧ e.file = file := by
  have hholds := ofEntries_holds es
  rw [hholds.entriesOf, List.mem_filter, beq_iff_eq]
  exact and_congr_left' ⟨hholds.get_of_mem, fun hg => (hholds.mem_of_get hg).1⟩

lemma mem_of_get {es : List Entry} {name : String} {e : Entry}
    (h : (ofEntries es).types.get? name = some e) : e ∈ es ∧ e.qualifiedName = name := by
  obtain ⟨hm, hn⟩ := (ofEntries_holds es).mem_of_get h
  exact ⟨mem_of_mem_firstDeclarations hm, hn⟩

end Index

end TypeCoupling
