import TypeCoupling.Proofs.EdgeOrder
import TypeCoupling.Proofs.FirstOfKey
import TypeCoupling.Proofs.Index
import TypeCoupling.Resolution

/-!
An index read off the declarations that went into it.

Of the declarations of one name the first is kept. The look-up by name, the types of a file, the
list of files, the number of types and the members by name are all views of the kept declarations,
whether they came at once or one by one, and a later declaration of a known name leaves no trace.
-/

namespace TypeCoupling

/-- What the insertions keep are the declarations without an earlier one of their name. -/
lemma firstDeclarations_eq_firstsBy (es : List Entry) :
    firstDeclarations es = firstsBy (·.qualifiedName) es := by
  induction es using List.reverseRecOn with
  | nil => rfl
  | append_singleton es e ih =>
    have hfold : firstDeclarations (es ++ [e]) = keepFirst (firstDeclarations es) e := by
      simp [firstDeclarations]
    rw [hfold, ih, firstsBy_concat, keepFirst, any_firstsBy]
    split
    · rw [List.append_nil]
    · rfl

/-! ### Files and sizes -/

namespace TypeIndex

/-- The index knows the files of the declarations it stands for, and their number. -/
structure Counts (x : TypeIndex) (kept : List Entry) : Prop where
  size : x.size = kept.length
  file : ∀ file, file ∈ x.byFile ↔ ∃ e ∈ kept, e.file = file

lemma counts_empty : empty.Counts [] :=
  ⟨by simp [empty, TypeIndex.size], fun file => by simp [empty]⟩

variable {x : TypeIndex} {kept : List Entry}

/-- **Step**: an insertion adds one type and its file, or nothing. -/
lemma Counts.insert (hc : x.Counts kept) (h : x.Holds kept) (e : Entry) :
    (x.insert e).Counts (keepFirst kept e) := by
  unfold TypeIndex.insert keepFirst
  rw [← h.contains]
  by_cases htaken : x.contains e.qualifiedName = true
  · rw [if_pos htaken, if_pos htaken]
    exact hc
  · rw [if_neg htaken, if_neg htaken]
    have hnew : e.qualifiedName ∉ x.byName := by
      simpa [TypeIndex.contains] using htaken
    refine ⟨?_, fun file => ?_⟩
    · have hsize : x.byName.size = kept.length := hc.size
      simp only [TypeIndex.size, List.length_append, List.length_singleton]
      rw [Std.HashMap.size_insert, if_neg hnew, hsize]
    · have hfile := hc.file file
      rw [Std.TreeMap.mem_insert, Std.LawfulEqCmp.compare_eq_iff_eq, hfile]
      constructor
      · rintro (rfl | ⟨d, hd, rfl⟩)
        · exact ⟨e, by simp, rfl⟩
        · exact ⟨d, List.mem_append_left _ hd, rfl⟩
      · rintro ⟨d, hd, rfl⟩
        rcases List.mem_append.mp hd with hd | hd
        · exact Or.inr ⟨d, hd, rfl⟩
        · rw [List.mem_singleton.mp hd]
          exact Or.inl rfl

lemma Counts.mem_files (hc : x.Counts kept) (file : String) :
    file ∈ x.files ↔ ∃ e ∈ kept, e.file = file := by
  rw [← hc.file]
  exact Std.TreeMap.mem_keys

end TypeIndex

namespace Index

/-- **Run**: inserting many declarations one after another. -/
lemma foldl_insert_counts (es : List Entry) {x : Index} {kept : List Entry}
    (hc : x.types.Counts kept) (h : x.types.Holds kept) :
    (es.foldl insert x).types.Counts (es.foldl keepFirst kept) := by
  induction es generalizing x kept with
  | nil => exact hc
  | cons e es ih =>
    have hcounts : (x.insert e).types.Counts (keepFirst kept e) := by
      rw [insert_types]
      exact hc.insert h e
    have hholds : (x.insert e).types.Holds (keepFirst kept e) := by
      rw [insert_types]
      exact h.insert e
    exact ih hcounts hholds

lemma ofEntries_counts (es : List Entry) : (ofEntries es).types.Counts (firstDeclarations es) :=
  foldl_insert_counts es TypeIndex.counts_empty TypeIndex.holds_empty

/-- Inserting into an index that was made from declarations continues the making. -/
lemma foldl_insert_ofEntries (es more : List Entry) :
    more.foldl insert (ofEntries es) = ofEntries (es ++ more) := by
  rw [ofEntries, ofEntries, List.foldl_append]

end Index

/-! ### Counting by file -/

lemma total_add {α : Type} (f g : α → Nat) (l : List α) :
    total (fun a => f a + g a) l = total f l + total g l := by
  induction l with
  | nil => rfl
  | cons a l ih =>
    simp only [total, List.foldr_cons] at ih ⊢
    omega

/-- In a list without repetition an element is there once or not at all. -/
lemma total_ite_eq {l : List String} (hnodup : l.Nodup) (s : String) :
    total (fun t => if s == t then 1 else 0) l = if s ∈ l then 1 else 0 := by
  induction l with
  | nil => rfl
  | cons t l ih =>
    obtain ⟨hfirst, hlater⟩ := List.nodup_cons.mp hnodup
    have hstep : total (fun t => if s == t then 1 else 0) (t :: l) =
        (if s == t then 1 else 0) + total (fun t => if s == t then 1 else 0) l := rfl
    rw [hstep, ih hlater]
    by_cases hs : s = t
    · subst hs
      simp [hfirst]
    · simp [hs]

/-- **Every declaration is in one file**: the declarations are as many as those of all files. -/
lemma total_length_filter_file {files : List String} (hnodup : files.Nodup) (ws : List Entry)
    (hfiles : ∀ e ∈ ws, e.file ∈ files) :
    total (fun file => (ws.filter (·.file == file)).length) files = ws.length := by
  induction ws with
  | nil => simp [total]
  | cons e ws ih =>
    have hone : (fun file => ((e :: ws).filter (·.file == file)).length) =
        fun file => (if e.file == file then 1 else 0) + (ws.filter (·.file == file)).length := by
      funext file
      by_cases hf : e.file = file
      · simp [hf, Nat.add_comm]
      · simp [hf]
    rw [hone, total_add, ih fun d hd => hfiles d (List.mem_cons_of_mem _ hd),
      total_ite_eq hnodup, if_pos (hfiles e List.mem_cons_self), List.length_cons]
    omega

/-- **The first declaration wins.** An index made from declarations, at once or by insertions, is
a view of those that have no earlier declaration of their name: looked up by name or by file, as
the list of files, in numbers, and by the names of members. Inserting a name that is there changes
nothing. -/
theorem index_view_of_first_declarations (es more : List Entry) :
    let x := more.foldl Index.insert (Index.ofEntries es)
    let winners := firstsBy (·.qualifiedName) (es ++ more)
    (∀ name e, x.types.get? name = some e ↔ e ∈ winners ∧ e.qualifiedName = name) ∧
    (∀ file, x.types.entriesOf file = winners.filter (·.file == file)) ∧
    (x.types.files.Pairwise (· < ·) ∧
      ∀ file, file ∈ x.types.files ↔ ∃ e ∈ winners, e.file = file) ∧
    (x.types.size = winners.length ∧
      x.types.size = total (fun file => (x.types.entriesOf file).length) x.types.files) ∧
    (∀ name, x.accessors.get name =
      winners.flatMap fun e => e.accessors.filter (·.name == name)) ∧
    (∀ e, (∃ d ∈ es ++ more, d.qualifiedName = e.qualifiedName) →
      x.insert e = x ∧ x.types.insert e = x.types) := by
  intro x winners
  have hx : x = Index.ofEntries (es ++ more) := Index.foldl_insert_ofEntries es more
  have hwinners : firstDeclarations (es ++ more) = winners := firstDeclarations_eq_firstsBy _
  have hholds : x.types.Holds winners := by
    rw [hx, ← hwinners]
    exact Index.ofEntries_holds _
  have hcounts : x.types.Counts winners := by
    rw [hx, ← hwinners]
    exact Index.ofEntries_counts _
  refine ⟨fun name e => ⟨hholds.mem_of_get, ?_⟩, hholds.entriesOf,
    ⟨keys_pairwise_lt x.types.byFile, hcounts.mem_files⟩, ⟨hcounts.size, ?_⟩, fun name => ?_,
    fun e he => ?_⟩
  · rintro ⟨he, rfl⟩
    exact hholds.get_of_mem he
  · have hnodup : x.types.files.Nodup := Std.TreeMap.nodup_keys
    simp only [hholds.entriesOf]
    rw [total_length_filter_file hnodup, hcounts.size]
    exact fun e he => (hcounts.mem_files _).mpr ⟨e, he, rfl⟩
  · rw [hx, Index.ofEntries_accessors, hwinners, List.filter_flatMap]
  · obtain ⟨d, hd, hname⟩ := he
    have htaken : x.types.contains e.qualifiedName = true := by
      rw [hholds.contains, any_firstsBy, List.any_eq_true]
      exact ⟨d, hd, by simpa using hname⟩
    exact ⟨if_pos htaken, if_pos htaken⟩

/-- `A` is declared twice in one file, with different members. -/
def doubledEntries : List Entry :=
  [(Entry.plain "" "A" "." "a.cs" .csharp).addAccessor "Make" "B",
    (Entry.plain "" "A" "." "a.cs" .csharp).addAccessor "Drop" "B",
    Entry.plain "" "B" "." "b.cs" .csharp]

/-- A declaration of `A` in another file. -/
def lateEntry : Entry := (Entry.plain "" "A" "." "c.cs" .csharp).addAccessor "Make" "C"

theorem index_view_of_first_declarations_doubled :
    let x := [lateEntry].foldl Index.insert (Index.ofEntries doubledEntries)
    (∃ d ∈ doubledEntries ++ [lateEntry], d.qualifiedName = lateEntry.qualifiedName) ∧
      x.types.size = 2 ∧ x.types.entriesOf "c.cs" = [] ∧
      x.accessors.get "Make" = [⟨"Make", ["A"], "B", "a.cs"⟩] ∧ x.accessors.get "Drop" = [] ∧
      x.insert lateEntry = x := by
  intro x
  have hlate : ∃ d ∈ doubledEntries ++ [lateEntry],
      d.qualifiedName = lateEntry.qualifiedName := by decide
  obtain ⟨-, hfile, -, ⟨hsize, -⟩, hmembers, hinsert⟩ :=
    index_view_of_first_declarations doubledEntries [lateEntry]
  exact ⟨hlate, hsize.trans (by decide), (hfile "c.cs").trans (by decide),
    (hmembers "Make").trans (by decide), (hmembers "Drop").trans (by decide),
    (hinsert lateEntry hlate).1⟩

end TypeCoupling
