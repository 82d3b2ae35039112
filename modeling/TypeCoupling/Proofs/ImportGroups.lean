import Mathlib
import TypeCoupling.Import
import TypeCoupling.Proofs.Splitting

/-!
Imports written as groups.

A group is a name and items below it, each with an alias or without one. Written out, an item
imports the name of the group, the delimiter and the item itself. Adding a group and adding what it
is written out to go through the same tables, item by item. They could part at one point only: what
is imported alone is trimmed once more. But a name put together from trimmed texts has no blanks at
its ends.
-/

namespace TypeCoupling

/-! ### Groups as they are written -/

/-- An item of a group, with the alias behind it. -/
structure GroupItem where
  name : Capture
  aliasName : Option Capture
  name_role : name.role = .groupItem
  alias_role : ∀ a ∈ aliasName, a.role = .aliasAfter

/-- A group of imports: what stands before the items, and the items. -/
structure ImportGroup where
  header : Capture
  items : List GroupItem
  header_role : header.role = .groupName

namespace GroupItem

/-- The captures of an item in document order. -/
def captures (i : GroupItem) : List Capture := i.name :: i.aliasName.toList

/-- The imported name of an item below the name of its group. -/
def target (i : GroupItem) (delimiter outer : String) : String :=
  outer ++ delimiter ++ Text.dropStartCopies delimiter (Text.trim i.name.text)

/-- The item as an import of its own. -/
def writtenOut (i : GroupItem) (delimiter outer : String) : List Capture :=
  { i.name with role := .importedName, text := i.target delimiter outer } :: i.aliasName.toList

end GroupItem

namespace ImportGroup

/-- The captures of a group in document order. -/
def captures (g : ImportGroup) : List Capture := g.header :: g.items.flatMap (·.captures)

/-- The name that the items stand below. -/
def outer (g : ImportGroup) (delimiter : String) : String :=
  Text.dropEndCopies delimiter (Text.trim g.header.text)

/-- The items as imports of their own. -/
def writtenOut (g : ImportGroup) (delimiter : String) : List Capture :=
  g.items.flatMap (·.writtenOut delimiter (g.outer delimiter))

end ImportGroup

/-! ### Names that are put together -/

/-- **A joined name needs no trimming**: its ends are those of trimmed texts or of the delimiter. -/
lemma Text.trimmed_joined {d : String} (hd : ∀ c ∈ d.toList, Text.isBlank c = false)
    (outer inner : String) :
    Trimmed (dropEndCopies d (trim outer) ++ d ++ dropStartCopies d (trim inner)).toList := by
  rw [String.toList_append, String.toList_append]
  constructor
  · intro c hc
    rw [List.head?_append, List.head?_append, Option.mem_def, Option.or_eq_some_iff,
      Option.or_eq_some_iff] at hc
    rcases hc with (hc | ⟨-, hc⟩) | ⟨hnone, hc⟩
    · exact (trimmed_trim outer).head c (mem_head?_of_isPrefix (dropEndCopies_isPrefix d _) hc)
    · exact hd c (List.mem_of_head? hc)
    · -- an empty delimiter takes nothing off
      obtain rfl : d = "" := by simpa using (Option.or_eq_none_iff.mp hnone).2
      rw [dropStartCopies_empty] at hc
      exact (trimmed_trim inner).head c hc
  · intro c hc
    rw [List.getLast?_append, List.getLast?_append, Option.mem_def, Option.or_eq_some_iff,
      Option.or_eq_some_iff] at hc
    rcases hc with hc | ⟨-, hc | ⟨hnone, hc⟩⟩
    · exact (trimmed_trim inner).last c (mem_getLast?_of_isSuffix (dropStartCopies_isSuffix d _) hc)
    · exact hd c (List.mem_of_getLast? hc)
    · obtain rfl : d = "" := by simpa using hnone
      rw [dropEndCopies_empty] at hc
      exact (trimmed_trim outer).last c hc

/-! ### Adding them -/

namespace ImportTable

variable {delimiter file : String}

/-- Adds one item of a group. -/
def addItem (delimiter file outer : String) (t : ImportTable) (i : GroupItem) : ImportTable :=
  let t := t.push (.plain (i.target delimiter outer) delimiter file)
  match i.aliasName with
  | none => t
  | some a => t.aliasLast (Text.lastWord a.text)

/-- **Step**: an item of a group that is open. -/
lemma foldl_addGrouped_item (outer : String) (t : ImportTable) (i : GroupItem) :
    i.captures.foldl (addGrouped delimiter file) (t, some outer) =
      (addItem delimiter file outer t i, some outer) := by
  obtain ⟨name, aliasName, hname, halias⟩ := i
  rcases aliasName with _ | a
  · simp [GroupItem.captures, addGrouped, addItem, GroupItem.target, hname]
  · simp [GroupItem.captures, addGrouped, addItem, GroupItem.target, hname, halias a rfl]

/-- **Step**: an item that is written out. -/
lemma foldl_addSimple_item (g : ImportGroup) (hd : ∀ c ∈ delimiter.toList, Text.isBlank c = false)
    (t : ImportTable) (i : GroupItem) :
    (i.writtenOut delimiter (g.outer delimiter)).foldl (addSimple delimiter file) (t, none) =
      (addItem delimiter file (g.outer delimiter) t i, none) := by
  obtain ⟨name, aliasName, hname, halias⟩ := i
  have htrim : Text.trim (GroupItem.target ⟨name, aliasName, hname, halias⟩ delimiter
      (g.outer delimiter)) = _ := Text.trim_eq_self (Text.trimmed_joined hd _ _)
  rcases aliasName with _ | a
  · simp [GroupItem.writtenOut, addSimple, addItem, htrim]
  · simp [GroupItem.writtenOut, addSimple, addItem, htrim, halias a rfl]

/-- **Run**: the items of a group, one after another. -/
lemma foldl_addGrouped_items (outer : String) (items : List GroupItem) (t : ImportTable) :
    (items.flatMap (·.captures)).foldl (addGrouped delimiter file) (t, some outer) =
      (items.foldl (addItem delimiter file outer) t, some outer) := by
  induction items generalizing t with
  | nil => rfl
  | cons i items ih =>
    rw [List.flatMap_cons, List.foldl_append, foldl_addGrouped_item, ih, List.foldl_cons]

lemma foldl_addSimple_items (hd : ∀ c ∈ delimiter.toList, Text.isBlank c = false)
    (g : ImportGroup) (items : List GroupItem) (t : ImportTable) :
    (items.flatMap (·.writtenOut delimiter (g.outer delimiter))).foldl
        (addSimple delimiter file) (t, none) =
      (items.foldl (addItem delimiter file (g.outer delimiter)) t, none) := by
  induction items generalizing t with
  | nil => rfl
  | cons i items ih =>
    rw [List.flatMap_cons, List.foldl_append, foldl_addSimple_item g hd, ih, List.foldl_cons]

/-- A group opens with its name, whichever group was open before. -/
lemma foldl_addGrouped_group (left : Option String) (g : ImportGroup) (t : ImportTable) :
    g.captures.foldl (addGrouped delimiter file) (t, left) =
      (g.items.foldl (addItem delimiter file (g.outer delimiter)) t,
        some (g.outer delimiter)) := by
  have hopen : addGrouped delimiter file (t, left) g.header = (t, some (g.outer delimiter)) := by
    simp [addGrouped, g.header_role, ImportGroup.outer]
  rw [ImportGroup.captures, List.foldl_cons, hopen, foldl_addGrouped_items]

/-- **Run**: groups go through the same tables as what they are written out to. -/
lemma foldl_addGrouped_groups (hd : ∀ c ∈ delimiter.toList, Text.isBlank c = false)
    (groups : List ImportGroup) (left : Option String) (t : ImportTable) :
    ((groups.flatMap (·.captures)).foldl (addGrouped delimiter file) (t, left)).1 =
      ((groups.flatMap (·.writtenOut delimiter)).foldl (addSimple delimiter file) (t, none)).1 := by
  induction groups generalizing left t with
  | nil => rfl
  | cons g groups ih =>
    rw [List.flatMap_cons, List.flatMap_cons, List.foldl_append, List.foldl_append,
      foldl_addGrouped_group, ih, ImportGroup.writtenOut, foldl_addSimple_items hd]

end ImportTable

/-- **Groups mean what they are written out to.** Take any table and any groups, and a delimiter
without blanks. Adding the groups and adding their items as imports of their own leave the same
table: the same imports in the same order, and each key finds the same. -/
theorem groups_eq_written_out (t : ImportTable) {delimiter : String}
    (hdelimiter : ∀ c ∈ delimiter.toList, Text.isBlank c = false) (file : String)
    (groups : List ImportGroup) :
    let grouped := t.addGroups delimiter file (groups.flatMap (·.captures))
    let single := t.addSimples delimiter file (groups.flatMap (·.writtenOut delimiter))
    grouped.references = single.references ∧ ∀ key, grouped.resolve? key = single.resolve? key := by
  intro grouped single
  have hsame : grouped = single := ImportTable.foldl_addGrouped_groups hdelimiter groups none t
  rw [hsame]
  exact ⟨rfl, fun key => rfl⟩

/-- `X` and `Y as Z` below `NS`, with blanks and delimiters around the names. -/
def looseGroup : ImportGroup where
  header := ⟨.groupName, " NS\\ ", 4, 9, 2⟩
  items :=
    [⟨⟨.groupItem, "X ", 10, 12, 2⟩, none, rfl, by simp⟩,
      ⟨⟨.groupItem, "\\Y", 13, 15, 2⟩, some ⟨.aliasAfter, "as Z", 16, 20, 2⟩, rfl, by simp⟩]
  header_role := rfl

/-- The group takes the key `X` from an earlier import. -/
theorem groups_eq_written_out_loose :
    let t := ImportTable.empty.push (.plain "A\\X" "\\" "a.php")
    (∀ c ∈ "\\".toList, Text.isBlank c = false) ∧
      (t.addGroups "\\" "a.php" looseGroup.captures).references =
        #[⟨"A\\X", "X", "", "a.php"⟩, ⟨"NS\\X", "X", "", "a.php"⟩, ⟨"NS\\Y", "Y", "Z", "a.php"⟩] ∧
      (t.addGroups "\\" "a.php" looseGroup.captures).resolve? "X" =
        some ⟨"NS\\X", "X", "", "a.php"⟩ ∧
      (t.addGroups "\\" "a.php" looseGroup.captures).resolve? "Y" = none := by
  intro t
  have hdelimiter : ∀ c ∈ "\\".toList, Text.isBlank c = false := by simp [Text.isBlank]
  have hout : [looseGroup].flatMap (·.writtenOut "\\") =
      [⟨.importedName, "NS\\X", 10, 12, 2⟩, ⟨.importedName, "NS\\Y", 13, 15, 2⟩,
        ⟨.aliasAfter, "as Z", 16, 20, 2⟩] := by cbv
  have hin : [looseGroup].flatMap (·.captures) = looseGroup.captures := List.flatMap_singleton _ _
  obtain ⟨hreferences, hkeys⟩ := groups_eq_written_out t hdelimiter "a.php" [looseGroup]
  rw [hin, hout] at hreferences hkeys
  refine ⟨hdelimiter, hreferences.trans (by cbv), (hkeys "X").trans (by cbv),
    (hkeys "Y").trans (by cbv)⟩

end TypeCoupling
