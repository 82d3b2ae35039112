import Mathlib
import TypeCoupling.Import

/-!
Which import a key finds.

All that fills an import table comes down to two events: an import is listed, or the latest one
is named, that is, gets an alias. The history of a table is what these events leave behind, the
latest import first, each with the keys it had before it was named. A table follows its history:
a key leads to the latest import that has or had the key, as long as that import still has it.
-/

namespace TypeCoupling

/-! ### Steps and events -/

/-- The text has a character that is not blank. -/
def Text.hasWord (s : String) : Bool := s.toList.any fun x => !isBlank x

/-- What is done to an import table. -/
inductive ImportStep where
  /-- Imports written one by one. -/
  | simple (delimiter file : String) (captures : List Capture)
  /-- Imports written as groups. -/
  | grouped (delimiter file : String) (captures : List Capture)
  | push (i : Import)

inductive ImportEvent where
  | listed (i : Import)
  /-- The latest import gets an alias. -/
  | named (aliasName : String)

namespace ImportEvent

/-- The events of one capture of imports written one by one, and the alias that then waits for
its import. -/
def ofSimple (delimiter file : String) (pending : Option String) (c : Capture) :
    List ImportEvent × Option String :=
  match c.role with
  | .aliasBefore => ([], some (Text.lastWord c.text))
  | .aliasAfter => ([named (Text.lastWord c.text)], pending)
  | .importedName =>
    (listed (.plain (Text.trim c.text) delimiter file) :: pending.toList.map named, none)
  | _ => ([], pending)

/-- The events of one capture of imports written as groups, and the group that is open then. -/
def ofGrouped (delimiter file : String) (group : Option String) (c : Capture) :
    List ImportEvent × Option String :=
  match c.role with
  | .groupName => ([], some (Text.dropEndCopies delimiter (Text.trim c.text)))
  | .groupItem =>
    let item := Text.dropStartCopies delimiter (Text.trim c.text)
    (group.toList.map fun header => listed (.plain (header ++ delimiter ++ item) delimiter file),
      group)
  | .aliasAfter => ([named (Text.lastWord c.text)], group)
  | _ => ([], group)

/-- The events of captures, where each may depend on what an earlier one has left. -/
def collect (events : Option String → Capture → List ImportEvent × Option String)
    (left : Option String) : List Capture → List ImportEvent
  | [] => []
  | c :: cs => (events left c).1 ++ collect events (events left c).2 cs

/-- What one capture contributes and leaves, all captures contribute. -/
lemma collect_forall {events : Option String → Capture → List ImportEvent × Option String}
    {P : ImportEvent → Prop} {Q : Option String → Prop} {captures : List Capture}
    (hstep : ∀ c ∈ captures, ∀ left, Q left →
      (∀ e ∈ (events left c).1, P e) ∧ Q (events left c).2)
    {left : Option String} (hleft : Q left) : ∀ e ∈ collect events left captures, P e := by
  induction captures generalizing left with
  | nil => simp [collect]
  | cons c cs ih =>
    obtain ⟨hP, hQ⟩ := hstep c List.mem_cons_self left hleft
    intro e he
    rcases List.mem_append.mp he with he | he
    · exact hP e he
    · exact ih (fun d hd => hstep d (List.mem_cons_of_mem _ hd)) hQ e he

end ImportEvent

namespace ImportStep

def events : ImportStep → List ImportEvent
  | simple delimiter file captures =>
    ImportEvent.collect (ImportEvent.ofSimple delimiter file) none captures
  | grouped delimiter file captures =>
    ImportEvent.collect (ImportEvent.ofGrouped delimiter file) none captures
  | push i => [.listed i]

def captures : ImportStep → List Capture
  | simple _ _ captures => captures
  | grouped _ _ captures => captures
  | push _ => []

/-- Every alias of the step has a word. -/
def AliasesNamed (s : ImportStep) : Prop :=
  ∀ c ∈ s.captures, c.role = .aliasBefore ∨ c.role = .aliasAfter → Text.hasWord c.text = true

instance : DecidablePred AliasesNamed := fun s =>
  inferInstanceAs (Decidable (∀ c ∈ s.captures, c.role = .aliasBefore ∨ c.role = .aliasAfter →
    Text.hasWord c.text = true))

end ImportStep

namespace ImportTable

def apply (t : ImportTable) : ImportStep → ImportTable
  | .simple delimiter file captures => t.addSimples delimiter file captures
  | .grouped delimiter file captures => t.addGroups delimiter file captures
  | .push i => t.push i

/-- The table after some steps. -/
def after (steps : List ImportStep) : ImportTable := steps.foldl apply empty

def note (t : ImportTable) : ImportEvent → ImportTable
  | .listed i => t.push i
  | .named aliasName => t.aliasLast aliasName

lemma addSimple_eq (delimiter file : String) (t : ImportTable) (pending : Option String)
    (c : Capture) :
    addSimple delimiter file (t, pending) c =
      ((ImportEvent.ofSimple delimiter file pending c).1.foldl note t,
        (ImportEvent.ofSimple delimiter file pending c).2) := by
  obtain ⟨role, text, start, stop, line⟩ := c
  cases pending <;> cases role <;> rfl

lemma addGrouped_eq (delimiter file : String) (t : ImportTable) (group : Option String)
    (c : Capture) :
    addGrouped delimiter file (t, group) c =
      ((ImportEvent.ofGrouped delimiter file group c).1.foldl note t,
        (ImportEvent.ofGrouped delimiter file group c).2) := by
  obtain ⟨role, text, start, stop, line⟩ := c
  cases group <;> cases role <;> rfl

/-- Adding captures one by one is noting their events one by one. -/
lemma foldl_add_eq {add : ImportTable × Option String → Capture → ImportTable × Option String}
    {events : Option String → Capture → List ImportEvent × Option String}
    (hadd : ∀ t left c, add (t, left) c = ((events left c).1.foldl note t, (events left c).2))
    (captures : List Capture) (t : ImportTable) (left : Option String) :
    (captures.foldl add (t, left)).1 = (ImportEvent.collect events left captures).foldl note t := by
  induction captures generalizing t left with
  | nil => rfl
  | cons c cs ih => rw [List.foldl_cons, hadd, ih, ImportEvent.collect, List.foldl_append]

lemma apply_eq (t : ImportTable) (s : ImportStep) : t.apply s = s.events.foldl note t := by
  cases s with
  | simple delimiter file captures =>
    exact foldl_add_eq (addSimple_eq delimiter file) captures t none
  | grouped delimiter file captures =>
    exact foldl_add_eq (addGrouped_eq delimiter file) captures t none
  | push i => rfl

/-- A table is made by the events of its steps. -/
lemma after_eq (steps : List ImportStep) :
    after steps = (steps.flatMap (·.events)).foldl note empty := by
  unfold after
  rw [List.foldl_flatMap]
  exact congrArg (fun f => steps.foldl f empty) (funext fun t => funext (apply_eq t))

end ImportTable

/-! ### Aliases that name something -/

lemma Text.lastWord_ne_empty {s : String} (h : Text.hasWord s = true) :
    Text.lastWord s ≠ "" := by
  obtain ⟨x, hx, hb⟩ := List.any_eq_true.mp h
  have hne : s.toList.reverse.dropWhile Text.isBlank ≠ [] := by
    intro hnil
    have hblank := List.dropWhile_eq_nil_iff.mp hnil x (List.mem_reverse.mpr hx)
    rw [hblank] at hb; simp at hb
  have hhead := List.head_dropWhile_not Text.isBlank hne
  obtain ⟨y, ys, hys⟩ := List.exists_cons_of_ne_nil hne
  simp only [hys, List.head_cons] at hhead
  simp [Text.lastWord, hys, hhead, String.ext_iff]

/-- The event is no alias without a word. -/
def ImportEvent.IsNamed : ImportEvent → Prop
  | listed _ => True
  | named aliasName => aliasName ≠ ""

lemma ImportStep.AliasesNamed.events {s : ImportStep} (h : s.AliasesNamed) :
    ∀ e ∈ s.events, e.IsNamed := by
  cases s with
  | simple delimiter file captures =>
    -- an alias that waits is no empty one
    refine ImportEvent.collect_forall (Q := fun left => ∀ a ∈ left, a ≠ "") ?_ (by simp)
    intro c hc left hleft
    have hword := fun hrole => Text.lastWord_ne_empty (h c hc hrole)
    unfold ImportEvent.ofSimple
    split
    · next hrole => exact ⟨by simp, by simpa using hword (Or.inl hrole)⟩
    · next hrole => exact ⟨by simpa [ImportEvent.IsNamed] using hword (Or.inr hrole), hleft⟩
    · refine ⟨fun e he => ?_, by simp⟩
      rcases List.mem_cons.mp he with rfl | he
      · exact trivial
      · obtain ⟨a, ha, rfl⟩ := List.mem_map.mp he
        exact hleft a (Option.mem_toList.mp ha)
    · exact ⟨by simp, hleft⟩
  | grouped delimiter file captures =>
    refine ImportEvent.collect_forall (Q := fun _ => True) ?_ trivial
    intro c hc left _
    unfold ImportEvent.ofGrouped
    split
    · exact ⟨by simp, trivial⟩
    · refine ⟨fun e he => ?_, trivial⟩
      obtain ⟨header, -, rfl⟩ := List.mem_map.mp he
      exact trivial
    · next hrole =>
      have hword := Text.lastWord_ne_empty (h c hc (Or.inr hrole))
      exact ⟨by simpa [ImportEvent.IsNamed] using hword, trivial⟩
    · exact ⟨by simp, trivial⟩
  | push i => simp [ImportStep.events, ImportEvent.IsNamed]

/-! ### The history of a table -/

/-- An import of a table, with the keys that it had before aliases replaced them. -/
structure ImportRecord where
  current : Import
  former : List String

namespace ImportRecord

def key (r : ImportRecord) : String := r.current.lookupKey

/-- The import under an alias. -/
def rename (r : ImportRecord) (aliasName : String) : ImportRecord :=
  ⟨{ r.current with aliasName }, r.key :: r.former⟩

lemma rename_key (r : ImportRecord) {aliasName : String} (h : aliasName ≠ "") :
    (r.rename aliasName).key = aliasName := by
  simp [rename, key, Import.lookupKey, h]

end ImportRecord

/-- The imports after one more event, the latest first. -/
def record : List ImportRecord → ImportEvent → List ImportRecord
  | rs, .listed i => ⟨i, []⟩ :: rs
  | [], .named _ => []
  | r :: rs, .named aliasName => r.rename aliasName :: rs

/-- The imports that some steps leave, the latest first. -/
def importHistory (steps : List ImportStep) : List ImportRecord :=
  (steps.flatMap (·.events)).foldl record []

/-- Where a key leads: to the latest import that has or had it, if that import still has it. -/
def position? (key : String) : List ImportRecord → Option Nat
  | [] => none
  | r :: rs =>
    if r.key = key then some rs.length
    else if key ∈ r.former then none
    else position? key rs

lemma position?_lt {key : String} {rs : List ImportRecord} {n : Nat}
    (h : position? key rs = some n) : n < rs.length := by
  fun_induction position? key rs with
  | case1 => simp at h
  | case2 r rs _ => simp only [Option.some.injEq] at h; simp [← h]
  | case3 => simp at h
  | case4 r rs _ _ ih => have := ih h; simp only [List.length_cons]; omega

namespace ImportTable

/-- The table follows the history. -/
structure Follows (t : ImportTable) (rs : List ImportRecord) : Prop where
  references : t.references.toList = (rs.map (·.current)).reverse
  keys : ∀ key, t.keys[key]? = position? key rs

lemma follows_empty : empty.Follows [] :=
  ⟨rfl, fun key => by simp [empty, position?]⟩

variable {t : ImportTable} {rs : List ImportRecord}

lemma Follows.size (h : t.Follows rs) : t.references.size = rs.length := by
  have := congrArg List.length h.references
  simpa using this

lemma Follows.push (h : t.Follows rs) (i : Import) : (t.push i).Follows (⟨i, []⟩ :: rs) := by
  refine ⟨by simp [ImportTable.push, h.references], fun key => ?_⟩
  unfold ImportTable.push position?
  rw [Std.HashMap.getElem?_insert, h.size, h.keys]
  by_cases hk : i.lookupKey = key <;> simp [ImportRecord.key, hk]

lemma Follows.aliasLast {r : ImportRecord} (h : t.Follows (r :: rs)) {aliasName : String}
    (ha : aliasName ≠ "") : (t.aliasLast aliasName).Follows (r.rename aliasName :: rs) := by
  have hsize := h.size
  have hlist : t.references.toList = (rs.map (·.current)).reverse ++ [r.current] := by
    simpa using h.references
  have hback : t.references.back? = some r.current := by
    rw [← Array.getLast?_toList, hlist]; simp
  -- the latest import always owns its key, so the key is taken from it
  have howns : t.keys[r.current.lookupKey]? = some (t.references.size - 1) := by
    rw [h.keys, hsize]
    simp [position?, ImportRecord.key]
  unfold ImportTable.aliasLast
  simp only [hback, howns, if_true, String.isEmpty_iff, ha, if_false]
  refine ⟨?_, fun key => ?_⟩
  · simp [hlist, ImportRecord.rename]
  · rw [Std.HashMap.getElem?_insert, Std.HashMap.getElem?_erase, h.keys, hsize]
    simp only [position?, ImportRecord.rename_key r ha, beq_iff_eq]
    by_cases hk : aliasName = key
    · simp [hk]
    · by_cases hp : r.current.lookupKey = key
      · simp [ImportRecord.rename, ImportRecord.key, hk, hp]
      · have hp' : key ≠ r.current.lookupKey := fun h => hp h.symm
        simp [ImportRecord.rename, ImportRecord.key, hk, hp, hp']

/-- **Step**: the table follows the history through an event. -/
lemma Follows.note (h : t.Follows rs) {e : ImportEvent} (he : e.IsNamed) :
    (t.note e).Follows (record rs e) := by
  cases e with
  | listed i => exact h.push i
  | named aliasName =>
    cases rs with
    | nil =>
      have hback : t.references.back? = none := by
        rw [← Array.getLast?_toList, h.references]; rfl
      unfold ImportTable.note ImportTable.aliasLast
      rw [hback]
      exact h
    | cons r rs => exact h.aliasLast he

/-- **Run**: the table follows the history through all events. -/
lemma Follows.foldl_note (h : t.Follows rs) {es : List ImportEvent} (hes : ∀ e ∈ es, e.IsNamed) :
    (es.foldl ImportTable.note t).Follows (es.foldl record rs) := by
  induction es generalizing t rs with
  | nil => exact h
  | cons e es ih =>
    exact ih (h.note (hes e List.mem_cons_self)) fun d hd => hes d (List.mem_cons_of_mem _ hd)

lemma after_follows {steps : List ImportStep} (h : ∀ s ∈ steps, s.AliasesNamed) :
    (after steps).Follows (importHistory steps) := by
  rw [after_eq]
  refine follows_empty.foldl_note fun e he => ?_
  obtain ⟨s, hs, he⟩ := List.mem_flatMap.mp he
  exact (h s hs).events e he

end ImportTable

/-! ### Lost keys -/

/-- The import that a key leads to. -/
def found? (key : String) : List ImportRecord → Option Import
  | [] => none
  | r :: rs =>
    if r.key = key then some r.current
    else if key ∈ r.former then none
    else found? key rs

lemma getElem?_position? (key : String) (rs : List ImportRecord) :
    (position? key rs).bind (fun n => (rs.map (·.current)).reverse[n]?) = found? key rs := by
  fun_induction position? key rs with
  | case1 => rfl
  | case2 r rs h => simp [found?, h]
  | case3 r rs h hf => simp [found?, h, hf]
  | case4 r rs h hf ih =>
    rw [found?, if_neg h, if_neg hf, ← ih]
    rcases hp : position? key rs with _ | n
    · rfl
    · have hn := position?_lt hp
      simp only [Option.bind_some, List.map_cons, List.reverse_cons]
      rw [List.getElem?_append_left (by simpa using hn)]

lemma ImportTable.Follows.resolve? {t : ImportTable} {rs : List ImportRecord} (h : t.Follows rs)
    (key : String) : t.resolve? key = found? key rs := by
  unfold ImportTable.resolve?
  rw [h.keys, ← getElem?_position?, ← h.references]
  simp

/-- The key is lost: an import has it, but a later one had it too and gave it up for an alias, and
from that one on no import has it. -/
def Lost (key : String) (rs : List ImportRecord) : Prop :=
  ∃ later r earlier, rs = later ++ r :: earlier ∧ key ∈ r.former ∧
    (∃ e ∈ earlier, e.key = key) ∧ ∀ e ∈ later ++ [r], e.key ≠ key

lemma lost_cons {key : String} {r : ImportRecord} {rs : List ImportRecord} :
    Lost key (r :: rs) ↔
      r.key ≠ key ∧ ((key ∈ r.former ∧ ∃ e ∈ rs, e.key = key) ∨ Lost key rs) := by
  constructor
  · rintro ⟨later, d, earlier, heq, hformer, hhas, hnone⟩
    rcases later with _ | ⟨r', later⟩
    · obtain ⟨rfl, rfl⟩ := List.cons.inj heq
      exact ⟨hnone r (by simp), Or.inl ⟨hformer, hhas⟩⟩
    · obtain ⟨rfl, rfl⟩ := List.cons.inj heq
      exact ⟨hnone r (by simp), Or.inr ⟨later, d, earlier, rfl, hformer, hhas,
        fun e he => hnone e (List.mem_cons_of_mem _ he)⟩⟩
  · rintro ⟨hr, ⟨hformer, hhas⟩ | ⟨later, d, earlier, rfl, hformer, hhas, hnone⟩⟩
    · exact ⟨[], r, rs, rfl, hformer, hhas, by simpa using hr⟩
    · refine ⟨r :: later, d, earlier, rfl, hformer, hhas, fun e he => ?_⟩
      rcases List.mem_cons.mp he with rfl | he
      · exact hr
      · exact hnone e he

lemma Lost.exists_key {key : String} {rs : List ImportRecord} (h : Lost key rs) :
    ∃ e ∈ rs, e.key = key := by
  obtain ⟨later, r, earlier, rfl, -, ⟨e, he, hk⟩, -⟩ := h
  exact ⟨e, by simp [he], hk⟩

/-- A key that is not lost leads to the latest import that has it. -/
lemma found?_eq_latest {key : String} {rs : List ImportRecord} (h : ¬Lost key rs) :
    found? key rs = (rs.map (·.current)).find? (·.lookupKey == key) := by
  fun_induction found? key rs with
  | case1 => rfl
  | case2 r rs hk => simp [← hk, ImportRecord.key]
  | case3 r rs hk hformer =>
    -- were there an import with the key, it would be lost
    have hnone : ∀ e ∈ rs, e.key ≠ key := fun e he hek =>
      h (lost_cons.mpr ⟨hk, Or.inl ⟨hformer, e, he, hek⟩⟩)
    symm
    rw [List.find?_eq_none]
    intro i hi
    obtain ⟨e, he, rfl⟩ := List.mem_map.mp hi
    rcases List.mem_cons.mp he with rfl | he
    · simpa [ImportRecord.key] using hk
    · simpa [ImportRecord.key] using hnone e he
  | case4 r rs hk hformer ih =>
    rw [ih fun hl => h (lost_cons.mpr ⟨hk, Or.inr hl⟩)]
    simp only [ImportRecord.key] at hk
    simp [hk]

lemma found?_of_lost {key : String} {rs : List ImportRecord} (h : Lost key rs) :
    found? key rs = none := by
  fun_induction found? key rs with
  | case1 => rfl
  | case2 r rs hk => exact absurd hk (lost_cons.mp h).1
  | case3 => rfl
  | case4 r rs hk hformer ih =>
    obtain ⟨-, ⟨hf, -⟩ | hl⟩ := lost_cons.mp h
    · exact absurd hf hformer
    · exact ih hl

/-- The last import of a table that has a key. -/
def ImportTable.latest? (t : ImportTable) (key : String) : Option Import :=
  t.references.toList.reverse.find? (·.lookupKey == key)

lemma ImportTable.Follows.latest? {t : ImportTable} {rs : List ImportRecord} (h : t.Follows rs)
    (key : String) : t.latest? key = (rs.map (·.current)).find? (·.lookupKey == key) := by
  unfold ImportTable.latest?
  rw [h.references, List.reverse_reverse]

lemma ImportTable.Follows.latest?_isSome {t : ImportTable} {rs : List ImportRecord}
    (h : t.Follows rs) {key : String} (hl : Lost key rs) : (t.latest? key).isSome := by
  rw [h.latest?, List.find?_isSome]
  obtain ⟨e, he, hk⟩ := hl.exists_key
  exact ⟨e.current, List.mem_map.mpr ⟨e, he, rfl⟩, by simpa [ImportRecord.key] using hk⟩

/-- **What a key finds.** As long as no alias is blank, a key finds the last import that has it,
and nothing exactly when none has it, unless the key is lost; a lost key finds nothing although
an import has it. -/
theorem key_finds_latest_iff_not_lost (steps : List ImportStep)
    (hnamed : ∀ s ∈ steps, s.AliasesNamed) (key : String) :
    ((ImportTable.after steps).resolve? key = (ImportTable.after steps).latest? key ↔
      ¬Lost key (importHistory steps)) ∧
    ((ImportTable.after steps).resolve? key = none ↔
      Lost key (importHistory steps) ∨
        ∀ i ∈ (ImportTable.after steps).references.toList, i.lookupKey ≠ key) := by
  have hf := ImportTable.after_follows hnamed
  by_cases hl : Lost key (importHistory steps)
  · have hnone : (ImportTable.after steps).resolve? key = none := by
      rw [hf.resolve?, found?_of_lost hl]
    have hsome := hf.latest?_isSome hl
    refine ⟨⟨fun heq => ?_, fun h => absurd hl h⟩, fun _ => Or.inl hl, fun _ => hnone⟩
    rw [← heq, hnone] at hsome
    simp at hsome
  · have heq : (ImportTable.after steps).resolve? key = (ImportTable.after steps).latest? key := by
      rw [hf.resolve?, hf.latest?, found?_eq_latest hl]
    refine ⟨⟨fun _ => hl, fun _ => heq⟩, ?_⟩
    rw [heq]
    simp [ImportTable.latest?, hl]

/-- Two imports end in `X`, and the second one is given an alias. -/
def aliasedTwin : List ImportStep :=
  [.simple "\\" "a.php" [⟨.importedName, "A\\X", 10, 13, 2⟩, ⟨.importedName, "B\\X", 19, 22, 3⟩,
    ⟨.aliasAfter, "Y", 26, 27, 3⟩]]

/-- The alias takes `X` from the first import as well. -/
theorem alias_loses_earlier_key :
    (ImportTable.after aliasedTwin).resolve? "X" = none ∧
      (ImportTable.after aliasedTwin).latest? "X" = some ⟨"A\\X", "X", "", "a.php"⟩ := by
  constructor <;> cbv

theorem key_finds_latest_iff_not_lost_twin :
    (∀ s ∈ aliasedTwin, s.AliasesNamed) ∧ Lost "X" (importHistory aliasedTwin) ∧
      ¬Lost "Y" (importHistory aliasedTwin) := by
  have hnamed : ∀ s ∈ aliasedTwin, s.AliasesNamed := by decide
  have hX := (key_finds_latest_iff_not_lost aliasedTwin hnamed "X").2.mp (by cbv)
  have hY := (key_finds_latest_iff_not_lost aliasedTwin hnamed "Y").1.mp (by cbv)
  have hrefs : (ImportTable.after aliasedTwin).references.toList =
      [⟨"A\\X", "X", "", "a.php"⟩, ⟨"B\\X", "X", "Y", "a.php"⟩] := by cbv
  refine ⟨hnamed, hX.resolve_right fun hnone => ?_, hY⟩
  exact hnone ⟨"A\\X", "X", "", "a.php"⟩ (by rw [hrefs]; exact List.mem_cons_self) rfl

end TypeCoupling
