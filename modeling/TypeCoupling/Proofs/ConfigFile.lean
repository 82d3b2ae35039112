import Mathlib
import TypeCoupling.Config
import TypeCoupling.Proofs.WrittenLines

/-!
A configuration that was written is the one that is read.

Every number of the configuration has to fit into an integer of the file format; the texts may be
any. The file has one line for each setting, none for a depth that is not there, and reading takes
the default for what has no line. Writing checks everything first and touches the file last, so
where it fails the file is as it was.
-/

namespace TypeCoupling

/-! ### Files -/

namespace FileTree

/-- A path of a file, there or not, in a directory that is there. -/
def Writable (t : FileTree) (path : String) : Prop :=
  ∃ place, t.locate? path = some place ∧ t.isDirectoryAt place = false

lemma node?_put (t : FileTree) {place : Place} (hplace : place ≠ []) (node : FileNode)
    (other : Place) :
    (t.put place node).node? other = if other = place then some node else t.node? other := by
  rcases eq_or_ne other place with rfl | hne
  · simp [node?, put, hplace]
  · simp [node?, put, Std.HashMap.getElem?_insert, hne, hne.symm]

lemma ne_nil_of_isDirectoryAt {t : FileTree} {place : Place} (h : t.isDirectoryAt place = false) :
    place ≠ [] := by
  rintro rfl
  cases h

/-- A file that is written is not in the way of any path. -/
lemma locate?_put {t : FileTree} {place : Place} (h : t.isDirectoryAt place = false)
    (content : ByteArray) (path : String) :
    (t.put place (.file content)).locate? path = t.locate? path := by
  have hdirectory : ∀ other, (t.put place (.file content)).isDirectoryAt other
      = t.isDirectoryAt other := by
    intro other
    rw [isDirectoryAt, node?_put t (ne_nil_of_isDirectoryAt h)]
    split
    · next heq => rw [heq, h]; rfl
    · rfl
  have henter : (t.put place (.file content)).enter? = t.enter? := by
    funext other piece
    rw [enter?, enter?, hdirectory]
  rw [locate?, locate?, henter]
  rfl

lemma fromUTF8?_toUTF8 (text : String) : String.fromUTF8? text.toUTF8 = some text :=
  dif_pos text.isValidUTF8

/-- **A text that was written reads back**, and nothing else changes. -/
lemma write?_of_locate? {t : FileTree} {path : String} {place : Place}
    (hplace : t.locate? path = some place) (hfile : t.isDirectoryAt place = false) (text : String) :
    ∃ t', t.write? path text = some t' ∧ t'.contains path = true ∧ t'.readText? path = some text ∧
      ∀ other ≠ place, t'.node? other = t.node? other := by
  have hnode := node?_put t (ne_nil_of_isDirectoryAt hfile) (.file text.toUTF8)
  have hlocate : (t.put place (.file text.toUTF8)).locate? path = some place := by
    rw [locate?_put hfile, hplace]
  refine ⟨t.put place (.file text.toUTF8), ?_, ?_, ?_, ?_⟩
  · simp [write?, hplace, hfile]
  · rw [contains, get?, hlocate, Option.bind_some, hnode, if_pos rfl]
    rfl
  · rw [readText?, read?, hlocate, Option.bind_some, contentAt?, hnode, if_pos rfl]
    exact fromUTF8?_toUTF8 text
  · intro other hne
    rw [hnode, if_neg hne]

end FileTree

namespace Config

open Toml (Line Writes maxInteger)

/-! ### The text of a configuration -/

/-- The numbers of a configuration fit into integers. -/
def Fits (c : Config) : Prop :=
  c.threads ≤ maxInteger ∧ ∀ n ∈ c.maxAncestorDepth, n ≤ maxInteger

instance (c : Config) : Decidable c.Fits := inferInstanceAs (Decidable (_ ∧ _))

lemma fits_iff {c : Config} : c.Fits ↔
    (decide (maxInteger < c.threads) || c.maxAncestorDepth.any (maxInteger < ·)) = false := by
  obtain ⟨exclusions, relativePaths, depth, threads⟩ := c
  cases depth <;> simp [Fits]

lemma writes_arrayText (texts : List String) :
    Writes (arrayText texts).toList (.array (texts.map .text)) := by
  fun_cases arrayText texts with
  | case1 => exact Toml.writes_no_items
  | case2 text => simpa [quoted] using Toml.writes_item text.toList
  | case3 =>
    have hitems := Toml.writes_items (texts.map String.toList)
    simpa [quoted, Toml.itemLine, List.flatMap_map, Function.comp_def] using hitems

/-- The line of a number. -/
def countLine (name : String) (hbare : Toml.isBare name.toList = true) (n : Nat)
    (hn : n ≤ maxInteger) : Line :=
  ⟨name, Nat.toDigits 10 n, .integer n, hbare, Toml.writes_integer hn⟩

/-- The lines of a configuration. -/
def lines (c : Config) (h : c.Fits) : List Line :=
  [⟨"exclusions", (arrayText c.exclusions).toList, .array (c.exclusions.map .text), rfl,
      writes_arrayText c.exclusions⟩,
    ⟨"relative_paths", (if c.relativePaths then "true" else "false").toList,
      .boolean c.relativePaths, rfl, Toml.writes_boolean c.relativePaths⟩] ++
    (c.maxAncestorDepth.pmap (countLine "max_ancestor_depth" rfl) h.2).toList ++
    [countLine "threads" rfl c.threads h.1]

lemma toText?_eq_none {c : Config} (h : ¬ c.Fits) : c.toText? = none := by
  rw [fits_iff, Bool.not_eq_false] at h
  rw [toText?, if_pos h]

lemma exists_toText? {c : Config} (h : c.Fits) :
    ∃ text, c.toText? = some text ∧ text.toList = (c.lines h).flatMap Line.text := by
  rw [toText?, fits_iff.mp h, if_neg Bool.false_ne_true]
  refine ⟨_, rfl, ?_⟩
  obtain ⟨exclusions, relativePaths, depth, threads⟩ := c
  cases depth <;> simp [lines, countLine, Line.text]

/-- What the lines of a configuration say is the configuration. -/
lemma ofDocument?_lines {c : Config} (h : c.Fits) :
    ofDocument? ((c.lines h).map Line.entry).reverse = some c := by
  have htexts : ∀ texts : List String, (texts.map Toml.Value.text).mapM text? = some texts := by
    intro texts
    induction texts with
    | nil => rfl
    | cons s texts ih => simp [text?, ih]
  obtain ⟨exclusions, relativePaths, depth, threads⟩ := c
  -- a depth that is not there has no line, and the default is none
  cases depth <;>
    simp [lines, countLine, ofDocument?, field?, Toml.entry?_entry_cons, texts?, boolean?, count?,
      htexts]

/-- **The text of a configuration reads back.** -/
lemma exists_parse?_toText? {c : Config} (h : c.Fits) :
    ∃ text, c.toText? = some text ∧ parse? text = some c := by
  obtain ⟨text, htext, hlines⟩ := exists_toText? h
  have hnodup : ((c.lines h).map Line.name).Nodup := by
    obtain ⟨exclusions, relativePaths, depth, threads⟩ := c
    cases depth <;> simp [lines, countLine]
  refine ⟨text, htext, ?_⟩
  rw [parse?, Toml.parse?_lines hnodup hlines, Option.bind_some, ofDocument?_lines]

/-! ### The file of a configuration -/

/-- Writing a configuration, as a program that changes a file tree. -/
def save (path : String) (c : Config) (force : Bool) :
    ExceptT ConfigError (StateM FileTree) Unit := do
  let t ← get
  match write t path c force with
  | .ok written => set written
  | .error e => throw e

/-- The tree changes to what `write` makes of it, and not at all where that fails. -/
lemma run_save (path : String) (c : Config) (force : Bool) (t : FileTree) :
    (save path c force).run.run t =
      match write t path c force with
      | .ok t' => (.ok (), t')
      | .error e => (.error e, t) := by
  have hget : ∀ f : FileTree → ExceptT ConfigError (StateM FileTree) Unit,
      (get >>= f).run.run t = (f t).run.run t := fun f => rfl
  rw [save, hget]
  cases write t path c force with
  | ok t' => rfl
  | error e => rfl

lemma write_of_fits {t : FileTree} {path : String} {c : Config} {force : Bool} (hfits : c.Fits)
    {place : Place} (hplace : t.locate? path = some place) (hfile : t.isDirectoryAt place = false)
    (hforce : t.contains path = true → force = true) :
    ∃ t', write t path c force = .ok t' ∧ load t' path = .ok (some c) ∧
      ∀ other ≠ place, t'.node? other = t.node? other := by
  obtain ⟨text, htext, hparse⟩ := exists_parse?_toText? hfits
  obtain ⟨t', hwrite, hcontains, hread, hother⟩ := FileTree.write?_of_locate? hplace hfile text
  have hfree : (t.contains path && !force) = false := by
    cases hthere : t.contains path with
    | false => rfl
    | true => rw [hforce hthere]; rfl
  refine ⟨t', ?_, ?_, hother⟩
  · rw [write, hfree, if_neg Bool.false_ne_true, htext]
    simp only [hwrite]
  · simp [load, hcontains, hread, hparse]

lemma write_taken {t : FileTree} {path : String} {force : Bool}
    (h : t.contains path = true ∧ force = false) (c : Config) :
    write t path c force = .error (.taken path) := by
  rw [write, h.1, h.2]
  rfl

lemma write_of_not_fits {t : FileTree} {path : String} {c : Config} {force : Bool}
    (hfree : ¬ (t.contains path = true ∧ force = false)) (h : ¬ c.Fits) :
    write t path c force = .error .invalid := by
  rw [write, if_neg (by simpa using hfree), toText?_eq_none h]

/-- **A configuration that was written is the one that is read.** If its numbers fit and the file
may be written, it is written, reading the path gives it back, and all other places are as they
were. If a number does not fit, or if there is something at the path that may not be replaced,
writing fails and leaves everything as it was. -/
theorem save_load_round_trip (t : FileTree) (path : String) (c : Config) (force : Bool) :
    (c.Fits → t.Writable path → (t.contains path = true → force = true) →
      ∃ t', write t path c force = .ok t' ∧ (save path c force).run.run t = (.ok (), t') ∧
        load t' path = .ok (some c) ∧
        ∀ place, t.locate? path ≠ some place → t'.node? place = t.node? place) ∧
    (¬ c.Fits ∨ t.contains path = true ∧ force = false →
      ∃ e, write t path c force = .error e ∧ (save path c force).run.run t = (.error e, t) ∧
        e = if t.contains path = true ∧ force = false then .taken path else .invalid) := by
  constructor
  · rintro hfits ⟨place, hplace, hfile⟩ hforce
    obtain ⟨t', hwrite, hload, hother⟩ := write_of_fits hfits hplace hfile hforce
    refine ⟨t', hwrite, by rw [run_save, hwrite], hload, fun other hne => hother other ?_⟩
    rintro rfl
    exact hne hplace
  · intro hfail
    by_cases htaken : t.contains path = true ∧ force = false
    · have hwrite := write_taken htaken c
      exact ⟨_, hwrite, by rw [run_save, hwrite], by rw [if_pos htaken]⟩
    · have hwrite := write_of_not_fits htaken (hfail.resolve_right htaken)
      exact ⟨_, hwrite, by rw [run_save, hwrite], by rw [if_neg htaken]⟩

/-- Texts that need each way of quoting, and the largest number. -/
def trickyConfig : Config where
  exclusions := ["", "a b", "C:\\out", "it's \"here\"", "two\nlines\\", "'''\"\"\"\n\x07", "\x07"]
  relativePaths := true
  threads := 9223372036854775807

theorem save_load_round_trip_tricky :
    trickyConfig.Fits ∧ (FileTree.empty []).Writable "couplet.toml" ∧
      (FileTree.empty []).contains "couplet.toml" = false ∧
      ∃ t', write (FileTree.empty []) "couplet.toml" trickyConfig false = .ok t' ∧
        load t' "couplet.toml" = .ok (some trickyConfig) ∧
        (save "couplet.toml" default false).run.run t'
          = (.error (.taken "couplet.toml"), t') ∧
        (save "couplet.toml" { threads := 9223372036854775808 } true).run.run t'
          = (.error .invalid, t') := by
  have hfits : trickyConfig.Fits := by decide
  have hplace : (FileTree.empty []).locate? "couplet.toml" = some ["couplet.toml"] := by rfl
  have hnone : (FileTree.empty []).node? ["couplet.toml"] = none := by
    simp [FileTree.node?, FileTree.empty, FileTree.addDirectory, FileTree.pathTo, FileTree.put]
  have hwritable : (FileTree.empty []).Writable "couplet.toml" :=
    ⟨["couplet.toml"], hplace, by rw [FileTree.isDirectoryAt, hnone]; rfl⟩
  have hfree : (FileTree.empty []).contains "couplet.toml" = false := by
    rw [FileTree.contains, FileTree.get?, hplace, Option.bind_some, hnone]
    rfl
  obtain ⟨t', hwrite, -, hload, -⟩ :=
    (save_load_round_trip (FileTree.empty []) "couplet.toml" trickyConfig false).1 hfits hwritable
      (by rw [hfree]; exact id)
  have hthere : t'.contains "couplet.toml" = true := by
    by_contra habsent
    rw [load, if_pos (by simpa using habsent)] at hload
    cases hload
  obtain ⟨e, -, htaken, he⟩ :=
    (save_load_round_trip t' "couplet.toml" default false).2 (.inr ⟨hthere, rfl⟩)
  obtain ⟨e', -, hinvalid, he'⟩ :=
    (save_load_round_trip t' "couplet.toml" { threads := 9223372036854775808 } true).2
      (.inl (by decide))
  rw [if_pos ⟨hthere, rfl⟩] at he
  rw [if_neg (by simp)] at he'
  rw [he] at htaken
  rw [he'] at hinvalid
  exact ⟨hfits, hwritable, hfree, t', hwrite, hload, htaken, hinvalid⟩

end Config

end TypeCoupling
