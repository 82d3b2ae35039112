import TypeCoupling.Proofs.ImportTable

/-!
Every key of an import table leads to a listed import that has this key.

The invariant holds for any captures: blank aliases, aliases with nothing before them, items
without a group. The delicate event is an alias, which changes the key of an import that is listed
already. It is safe because no key but its own leads to that import, so once its key is taken
away none does.
-/

namespace TypeCoupling

namespace ImportTable

/-- Every key leads to a listed import that has it. -/
def WellKeyed (t : ImportTable) : Prop :=
  ∀ (key : String) (n : Nat), t.keys[key]? = some n →
    ∃ i : Import, t.references[n]? = some i ∧ i.lookupKey = key

variable {t : ImportTable}

lemma wellKeyed_empty : empty.WellKeyed := by
  intro key n h
  simp [empty] at h

lemma WellKeyed.lt_size (h : t.WellKeyed) {key : String} {n : Nat} (hk : t.keys[key]? = some n) :
    n < t.references.size := by
  obtain ⟨i, hi, -⟩ := h key n hk
  exact (Array.getElem?_eq_some_iff.mp hi).1

lemma WellKeyed.key_eq (h : t.WellKeyed) {key : String} {n : Nat} {i : Import}
    (hk : t.keys[key]? = some n) (hi : t.references[n]? = some i) : i.lookupKey = key := by
  obtain ⟨j, hj, hkey⟩ := h key n hk
  rw [hi, Option.some.injEq] at hj
  exact hj ▸ hkey

lemma WellKeyed.push (h : t.WellKeyed) (i : Import) : (t.push i).WellKeyed := by
  intro key n hk
  unfold ImportTable.push at hk ⊢
  rw [Std.HashMap.getElem?_insert] at hk
  split at hk
  · next hkey =>
    obtain rfl : t.references.size = n := Option.some.inj hk
    exact ⟨i, by simp, eq_of_beq hkey⟩
  · have hlt : n < t.references.size := h.lt_size hk
    rw [Array.getElem?_push, if_neg (by omega)]
    exact h key n hk

/-- The keys without that of an import, if it leads to the position where the import stands. -/
def keysWithout (t : ImportTable) (i : Import) (position : Nat) : Std.HashMap String Nat :=
  if t.keys[i.lookupKey]? = some position then t.keys.erase i.lookupKey else t.keys

/-- No key leads to an import whose key is taken away. -/
lemma WellKeyed.keysWithout (h : t.WellKeyed) {i : Import} {position : Nat}
    (hi : t.references[position]? = some i) {key : String} {n : Nat}
    (hk : (t.keysWithout i position)[key]? = some n) :
    t.keys[key]? = some n ∧ n ≠ position := by
  unfold ImportTable.keysWithout at hk
  split at hk
  · rw [Std.HashMap.getElem?_erase] at hk
    split at hk
    · simp at hk
    · next hother =>
      refine ⟨hk, ?_⟩
      rintro rfl
      exact hother (beq_iff_eq.mpr (h.key_eq hk hi))
  · next hforeign =>
    refine ⟨hk, ?_⟩
    rintro rfl
    exact hforeign (h.key_eq hk hi ▸ hk)

lemma aliasLast_of_back {last : Import} (hlast : t.references.back? = some last)
    (aliasName : String) :
    t.aliasLast aliasName =
      if aliasName.isEmpty then
        { t with keys := t.keysWithout last (t.references.size - 1) }
      else
        { references := t.references.pop.push { last with aliasName }
          keys := (t.keysWithout last (t.references.size - 1)).insert aliasName
            (t.references.size - 1) } := by
  unfold aliasLast
  rw [hlast]
  rfl

lemma WellKeyed.aliasLast (h : t.WellKeyed) (aliasName : String) :
    (t.aliasLast aliasName).WellKeyed := by
  rcases hlast : t.references.back? with _ | last
  · unfold ImportTable.aliasLast
    rw [hlast]
    exact h
  · have hat : t.references[t.references.size - 1]? = some last := by
      rw [← Array.back?_eq_getElem?, hlast]
    rw [aliasLast_of_back hlast]
    split
    · -- a blank alias: the import stays as it is, but no key leads to it
      intro key n hk
      exact h key n (h.keysWithout hat hk).1
    · next hnamed =>
      intro key n hk
      rw [Std.HashMap.getElem?_insert] at hk
      split at hk
      · next hkey =>
        obtain rfl : t.references.size - 1 = n := Option.some.inj hk
        refine ⟨{ last with aliasName }, ?_, ?_⟩
        · rw [Array.getElem?_push, Array.size_pop, if_pos rfl]
        · unfold Import.lookupKey
          rw [if_neg hnamed]
          exact eq_of_beq hkey
      · obtain ⟨hold, hne⟩ := h.keysWithout hat hk
        have hlt : n < t.references.size := h.lt_size hold
        have hsame : (t.references.pop.push { last with aliasName })[n]? = t.references[n]? := by
          rw [Array.getElem?_push, Array.size_pop, if_neg hne, Array.getElem?_pop,
            if_pos (by omega)]
        rw [hsame]
        exact h key n hold

/-- **Step**: every event keeps it. -/
lemma WellKeyed.note (h : t.WellKeyed) (e : ImportEvent) : (t.note e).WellKeyed := by
  cases e with
  | listed i => exact h.push i
  | named aliasName => exact h.aliasLast aliasName

/-- **Run**: all events keep it. -/
lemma WellKeyed.foldl_note (h : t.WellKeyed) (es : List ImportEvent) :
    (es.foldl ImportTable.note t).WellKeyed := by
  induction es generalizing t with
  | nil => exact h
  | cons e es ih => exact ih (h.note e)

lemma after_wellKeyed (steps : List ImportStep) : (after steps).WellKeyed := by
  rw [after_eq]
  exact wellKeyed_empty.foldl_note _

lemma WellKeyed.resolve? (h : t.WellKeyed) {key : String} {i : Import}
    (hi : t.resolve? key = some i) : i ∈ t.references ∧ i.lookupKey = key := by
  obtain ⟨n, hk, hn⟩ := Option.bind_eq_some_iff.mp hi
  exact ⟨Array.mem_of_getElem? hn, h.key_eq hk hn⟩

lemma resolve?_push (t : ImportTable) (i : Import) :
    (t.push i).resolve? i.lookupKey = some i := by
  simp [ImportTable.push, ImportTable.resolve?]

end ImportTable

/-- **Where keys lead.** After any steps, each key of a table stands with a position in the list of
imports, and the one there, which is what the key finds, has this key. So an import is found
through its present alias, or through the last part of its name if it has none, and through
nothing else: no two keys lead to one position. What has just been listed is found. -/
theorem keys_lead_to_their_imports (steps : List ImportStep) :
    let t := ImportTable.after steps
    (∀ (key : String) (n : Nat), t.keys[key]? = some n →
      ∃ h : n < t.references.size,
        t.references[n].lookupKey = key ∧ t.resolve? key = some t.references[n]) ∧
    (∀ (key : String) (i : Import), t.resolve? key = some i →
      i ∈ t.references ∧ i.lookupKey = key) ∧
    (∀ (key key' : String) (n : Nat), t.keys[key]? = some n → t.keys[key']? = some n →
      key = key') ∧
    ∀ i : Import, (t.push i).resolve? i.lookupKey = some i := by
  intro t
  have hw : t.WellKeyed := ImportTable.after_wellKeyed steps
  refine ⟨fun key n hk => ?_, fun key i hi => hw.resolve? hi, fun key key' n hk hk' => ?_,
    t.resolve?_push⟩
  · have hlt : n < t.references.size := hw.lt_size hk
    have hat : t.references[n]? = some t.references[n] := Array.getElem?_eq_getElem hlt
    refine ⟨hlt, hw.key_eq hk hat, ?_⟩
    unfold ImportTable.resolve?
    rw [hk, Option.bind_some, hat]
  · obtain ⟨i, hi, hkey⟩ := hw key n hk
    rw [← hkey, hw.key_eq hk' hi]

/-- An alias with nothing before it, a blank alias, an item without a group, and an import that
is given an alias twice. -/
def knottedImports : List ImportStep :=
  [.simple "\\" "a.php" [⟨.aliasAfter, "Z", 4, 5, 1⟩, ⟨.importedName, "A\\X", 10, 13, 2⟩,
      ⟨.aliasAfter, "  ", 14, 16, 2⟩],
    .grouped "\\" "a.php" [⟨.groupItem, "Q", 20, 21, 3⟩, ⟨.groupName, "NS", 24, 26, 4⟩,
      ⟨.groupItem, "Y", 28, 29, 4⟩, ⟨.aliasAfter, "as V", 30, 34, 4⟩,
      ⟨.aliasAfter, "as W", 36, 40, 4⟩]]

theorem keys_lead_to_their_imports_knotted :
    (ImportTable.after knottedImports).references =
        #[⟨"A\\X", "X", "", "a.php"⟩, ⟨"NS\\Y", "Y", "W", "a.php"⟩] ∧
      (ImportTable.after knottedImports).resolve? "X" = none ∧
      (ImportTable.after knottedImports).resolve? "W" = some ⟨"NS\\Y", "Y", "W", "a.php"⟩ ∧
      ∀ key : String, (ImportTable.after knottedImports).keys[key]? = some 1 → key = "W" := by
  have hrefs : (ImportTable.after knottedImports).references =
      #[⟨"A\\X", "X", "", "a.php"⟩, ⟨"NS\\Y", "Y", "W", "a.php"⟩] := by cbv
  have hW : (ImportTable.after knottedImports).keys["W"]? = some 1 := by cbv
  obtain ⟨hlead, -, hone, -⟩ := keys_lead_to_their_imports knottedImports
  obtain ⟨_, -, hfound⟩ := hlead "W" 1 hW
  exact ⟨hrefs, by cbv, by simpa [hrefs] using hfound, fun key hk => hone key "W" 1 hk hW⟩

end TypeCoupling
