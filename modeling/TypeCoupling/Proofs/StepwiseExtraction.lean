import Mathlib
import TypeCoupling.Proofs.BaseLists

/-!
Declared types built step by step, with every length and every access checked.

The captures of a file may be any list: spans that end before they start, that cross or that are
the same. A loop over them measures spans, and it changes the types in a list at positions that it
has found in another list. `Stepwise.declaredTypes` is this loop; it stops when it asks for the
length of a span that ends before it starts, or for an element behind the end of a list. Neither
happens (`Stepwise.declaredTypes_eq`): only spans around a byte are measured, and a position that is
found is the position of a type. So the loop gives what gathering the bases and accessors of each
type by itself gives.
-/

namespace TypeCoupling

/-- What a run can stop at. -/
inductive Fault where
  /-- The length of a span that ends before it starts. -/
  | negativeLength
  /-- A position behind the end of a list. -/
  | outOfRange
  deriving DecidableEq, Repr

abbrev Checked := Except Fault

namespace Stepwise

def length (c : Capture) : Checked Nat :=
  match c.spanLength? with
  | some n => return n
  | none => throw .negativeLength

def elementAt {α : Type} (l : List α) (i : Nat) : Checked α :=
  match l[i]? with
  | some a => return a
  | none => throw .outOfRange

/-- The smallest of the elements whose span holds a byte, the first of that size. All these spans
are measured. -/
def smallest {α : Type} (span : α → Capture) (byte : Nat) (l : List α) : Checked (Option α) := do
  let measured ← (l.filter fun a => (span a).encloses byte).mapM fun a => do
    return (← length (span a), a)
  return (measured.minOn? (·.1)).map (·.2)

def pairs (block name : Role) (captures : List Capture) : Checked (List Named) := do
  let found ← (ofRole name captures).mapM fun n => do
    let b ← smallest id n.start (ofRole block captures)
    return b.map (⟨·, n⟩)
  return found.reduceOption

def innermost (blocks : List Named) (byte : Nat) : Checked (Option Nat) := do
  let b ← smallest (·.1.block) byte blocks.zipIdx
  return b.map (·.2)

/-- Captures of bases, whatever is said about their kind. -/
def isBase (c : Capture) : Bool := [Role.extendedType, .implementedType, .baseType].contains c.role

/-- The types so far. -/
structure Draft where
  entries : List Entry
  /-- For each type whether a member of an undivided base list has been met. -/
  listed : List Bool

/-- Gives a base to the type at a position. -/
def Draft.giveBase (d : Draft) (c : Capture) (owner : Nat) : Checked Draft := do
  let name := Text.trim c.text
  let entry ← elementAt d.entries owner
  let extending := { entry with extended := some name }
  let implementing := { entry with implemented := entry.implemented ++ [name] }
  match c.role with
  | .extendedType => return { d with entries := d.entries.set owner extending }
  | .implementedType => return { d with entries := d.entries.set owner implementing }
  | _ =>
    let listed ← elementAt d.listed owner
    let next := if !listed && !looksLikeInterface name then extending else implementing
    return ⟨d.entries.set owner next, d.listed.set owner true⟩

/-- Gives a base to the innermost type around it. Other captures are passed over. -/
def Draft.addBase (types : List Named) (d : Draft) (c : Capture) : Checked Draft := do
  if isBase c then
    match ← innermost types c.start with
    | some owner => d.giveBase c owner
    | none => return d
  else return d

/-- Gives an accessor, with the first return type that has it as its innermost, to the type at a
position. -/
def giveAccessor (o : Outline) (decorations : List String) (entries : List Entry)
    (a : Named × Nat) (owner : Nat) : Checked (List Entry) := do
  let returned ← (ofRole .returnType o.captures).findM? fun c => do
    return (← innermost o.accessors c.start) == some a.2
  let returnType := (returned.map (cleanReturnType decorations ·.text)).getD ""
  let entry ← elementAt entries owner
  return entries.set owner (entry.addMember (Text.trim a.1.name.text, returnType))

/-- Gives an accessor to the innermost type around it. -/
def addAccessor (o : Outline) (decorations : List String) (entries : List Entry)
    (a : Named × Nat) : Checked (List Entry) := do
  match ← innermost o.types a.1.block.start with
  | some owner => giveAccessor o decorations entries a owner
  | none => return entries

def outline (captures : List Capture) : Checked Outline := do
  let namespaces ← pairs .namespaceBlock .namespaceName captures
  let types ← pairs .typeBlock .typeName captures
  let accessors ← pairs .accessorBlock .accessorName captures
  return ⟨captures, namespaces, types, accessors⟩

/-- The types without bases and accessors. -/
def plainTypes (p : Profile) (file : String) (o : Outline) : List Entry :=
  o.types.map fun t =>
    Entry.plain (o.scopeAt p.delimiter t.block.start) (Text.trim t.name.text) p.delimiter file
      p.language

def fill (p : Profile) (file : String) (o : Outline) : Checked (List Entry) := do
  let plain := plainTypes p file o
  let draft ← o.captures.foldlM (Draft.addBase o.types) ⟨plain, plain.map fun _ => false⟩
  o.accessors.zipIdx.foldlM (addAccessor o p.decorations) draft.entries

/-- The declared types of a file: its blocks are paired with their names, and then all bases and
all accessors are given to the types, one after another. -/
def declaredTypes (p : Profile) (file : String) (captures : List Capture) :
    Checked (List Entry) := do
  let o ← outline captures
  if o.types.isEmpty then return [] else fill p file o

end Stepwise

/-! ### Runs that do not stop -/

lemma ok_bind {α β : Type} (a : α) (f : α → Checked β) : (Except.ok a >>= f) = f a := rfl

lemma mapM_eq_ok {α β : Type} {f : α → Checked β} {g : α → β} {l : List α}
    (h : ∀ a ∈ l, f a = .ok (g a)) : l.mapM f = .ok (l.map g) := by
  induction l with
  | nil => rfl
  | cons a l ih =>
    obtain ⟨ha, hl⟩ := List.forall_mem_cons.mp h
    rw [List.mapM_cons, ha, ih hl]
    rfl

lemma findM?_eq_ok {α : Type} {f : α → Checked Bool} {p : α → Bool} {l : List α}
    (h : ∀ a ∈ l, f a = .ok (p a)) : l.findM? f = .ok (l.find? p) := by
  induction l with
  | nil => rfl
  | cons a l ih =>
    obtain ⟨ha, hl⟩ := List.forall_mem_cons.mp h
    rw [List.findM?, ha, List.find?_cons]
    cases p a with
    | true => rfl
    | false => exact ih hl

/-- A checked loop that follows an unchecked one under an invariant of the latter. -/
lemma foldlM_eq_ok {α σ τ : Type} {f : τ → α → Checked τ} {g : σ → α → σ} (view : σ → τ)
    (inv : σ → Prop) {l : List α} (hinv : ∀ s a, inv s → inv (g s a))
    (h : ∀ s, inv s → ∀ a ∈ l, f (view s) a = .ok (view (g s a))) {s : σ} (hs : inv s) :
    l.foldlM f (view s) = .ok (view (l.foldl g s)) := by
  induction l generalizing s with
  | nil => rfl
  | cons a l ih =>
    rw [List.foldlM_cons, h s hs a List.mem_cons_self, List.foldl_cons]
    exact ih (fun s hs b hb => h s hs b (List.mem_cons_of_mem a hb)) (hinv s a hs)

/-! ### Handing over to the owners -/

/-- Hands an element to the state at its owner's position. -/
def handOver {α σ : Type} (owner : α → Option Nat) (f : σ → α → σ) (states : List σ) (a : α) :
    List σ :=
  match owner a with
  | some i => states.modify i (f · a)
  | none => states

section HandOver

variable {α σ : Type} (owner : α → Option Nat) (f : σ → α → σ)

@[simp] lemma length_handOver (states : List σ) (a : α) :
    (handOver owner f states a).length = states.length := by
  unfold handOver
  split
  · exact List.length_modify ..
  · rfl

lemma length_foldl_handOver (l : List α) (states : List σ) :
    (l.foldl (handOver owner f) states).length = states.length := by
  induction l generalizing states with
  | nil => rfl
  | cons a l ih => rw [List.foldl_cons, ih, length_handOver]

/-- **Run**: each state has taken the elements that belong to its position, in order. -/
lemma getElem?_foldl_handOver (l : List α) (states : List σ) (i : Nat) :
    (l.foldl (handOver owner f) states)[i]? =
      states[i]?.map fun s => (l.filter (owner · == some i)).foldl f s := by
  induction l generalizing states with
  | nil => simp
  | cons a l ih =>
    rw [List.foldl_cons, ih, List.filter_cons]
    rcases ha : owner a with _ | j
    · simp [handOver, ha]
    · by_cases hj : j = i
      · subst hj
        simp [handOver, ha, Option.map_map, Function.comp_def]
      · simp [handOver, ha, hj]

end HandOver

/-! ### Searches -/

namespace Stepwise

lemma elementAt_of_getElem? {α : Type} {l : List α} {i : Nat} {a : α} (h : l[i]? = some a) :
    elementAt l i = .ok a := by
  rw [elementAt, h]
  rfl

lemma length_of_encloses {c : Capture} {byte : Nat} (h : c.encloses byte = true) :
    length c = .ok c.width := by
  rw [length, Capture.spanLength?_eq_some_width h]
  rfl

lemma minOn?_map {α β : Type} (g : α → β) (f : β → Nat) (l : List α) :
    (l.map g).minOn? f = (l.minOn? fun a => f (g a)).map g := by
  induction l with
  | nil => rfl
  | cons a l ih =>
    rw [List.map_cons, List.minOn?_cons, List.minOn?_cons, ih, Option.map_some]
    cases l.minOn? fun a => f (g a) with
    | none => rfl
    | some b =>
      simp only [Option.map_some, Option.elim_some, minOn]
      split <;> rfl

/-- Only spans around the byte are measured, and these have a length. -/
lemma smallest_eq {α : Type} (span : α → Capture) (byte : Nat) (l : List α) :
    smallest span byte l =
      .ok ((l.filter fun a => (span a).encloses byte).minOn? fun a => (span a).width) := by
  have hmeasured : (l.filter fun a => (span a).encloses byte).mapM
      (fun a => do return (← length (span a), a)) =
        Except.ok ((l.filter fun a => (span a).encloses byte).map
          fun a => ((span a).width, a)) := by
    refine mapM_eq_ok fun a ha => ?_
    rw [length_of_encloses (List.mem_filter.mp ha).2]
    rfl
  rw [smallest, hmeasured, ok_bind, minOn?_map, Option.map_map]
  exact congrArg Except.ok Option.map_id'

lemma pairs_eq (block name : Role) (captures : List Capture) :
    pairs block name captures = .ok (Named.pairs block name captures) := by
  unfold pairs
  rw [mapM_eq_ok fun n _ => by rw [smallest_eq]; rfl, ok_bind, Named.pairs, List.reduceOption,
    List.filterMap_map]
  rfl

lemma innermost_eq (blocks : List Named) (byte : Nat) :
    innermost blocks byte = .ok (Named.innermost? blocks byte) := by
  rw [innermost, smallest_eq]
  rfl

/-- A position that is found is one of the list. -/
lemma innermost?_lt_length {blocks : List Named} {byte i : Nat}
    (h : Named.innermost? blocks byte = some i) : i < blocks.length := by
  obtain ⟨b, hb, -⟩ := Named.isInnermost_of_innermost? h
  exact (List.getElem?_eq_some_iff.mp hb).1

end Stepwise

/-! ### Bases -/

def Entry.withBases (e : Entry) (b : Bases) : Entry :=
  { e with extended := b.extended, implemented := b.implemented }

namespace Stepwise

/-- The draft in which types have been given bases. -/
def Draft.ofBases (plain : List Entry) (bases : List Bases) : Draft where
  entries := List.zipWith Entry.withBases plain bases
  listed := bases.map (·.listed)

/-- Bases change at one position. -/
lemma Draft.ofBases_modify {plain : List Entry} {bases : List Bases} {i : Nat} {e : Entry}
    {b : Bases} (he : plain[i]? = some e) (hb : bases[i]? = some b) (f : Bases → Bases) :
    ofBases plain (bases.modify i f) =
      ⟨(ofBases plain bases).entries.set i (e.withBases (f b)),
        (ofBases plain bases).listed.set i (f b).listed⟩ := by
  have hentries : List.zipWith Entry.withBases plain (bases.modify i f) =
      (List.zipWith Entry.withBases plain bases).set i (e.withBases (f b)) := by
    apply List.ext_getElem?
    intro j
    by_cases hj : i = j
    · subst hj
      have hlt : i < (List.zipWith Entry.withBases plain bases).length := by
        have := (List.getElem?_eq_some_iff.mp he).1
        have := (List.getElem?_eq_some_iff.mp hb).1
        rw [List.length_zipWith]
        omega
      rw [List.getElem?_set_self hlt, List.getElem?_zipWith, List.getElem?_modify_eq, he, hb]
      rfl
    · rw [List.getElem?_set_ne hj, List.getElem?_zipWith, List.getElem?_zipWith,
        List.getElem?_modify_ne f bases hj]
  have hlisted : (bases.modify i f).map (·.listed) =
      (bases.map (·.listed)).set i (f b).listed := by
    rw [List.modify_eq_set_getElem?, hb]
    simp
  rw [ofBases, hentries, hlisted]
  rfl

lemma Draft.giveBase_eq {plain : List Entry} {bases : List Bases} {i : Nat}
    (hplain : i < plain.length) (hbases : i < bases.length) {c : Capture}
    (hrole : isBase c = true) :
    (ofBases plain bases).giveBase c i = .ok (ofBases plain (bases.modify i (·.add c))) := by
  obtain ⟨e, he⟩ : ∃ e, plain[i]? = some e := ⟨_, List.getElem?_eq_getElem hplain⟩
  obtain ⟨b, hb⟩ : ∃ b, bases[i]? = some b := ⟨_, List.getElem?_eq_getElem hbases⟩
  have hentry : elementAt (ofBases plain bases).entries i = .ok (e.withBases b) :=
    elementAt_of_getElem? (by simp [ofBases, List.getElem?_zipWith, he, hb])
  have hlisted : (ofBases plain bases).listed[i]? = some b.listed := by simp [ofBases, hb]
  have hsame : (ofBases plain bases).listed.set i b.listed = (ofBases plain bases).listed := by
    obtain ⟨hlt, heq⟩ := List.getElem?_eq_some_iff.mp hlisted
    rw [← heq, List.set_getElem_self]
  have hmem := List.contains_iff_mem.mp hrole
  simp only [List.mem_cons, List.not_mem_nil, or_false] at hmem
  rw [ofBases_modify he hb, giveBase, hentry]
  rcases hmem with hc | hc | hc
  · simp only [ok_bind, Bases.add, hc, hsame]
    rfl
  · simp only [ok_bind, Bases.add, hc, hsame]
    rfl
  · simp only [ok_bind, Bases.add, hc, elementAt_of_getElem? hlisted]
    split
    · rfl
    · rfl

/-- The position of the type that a base belongs to. -/
def baseOwner (types : List Named) (c : Capture) : Option Nat :=
  if isBase c then Named.innermost? types c.start else none

lemma Draft.addBase_eq {types : List Named} {plain : List Entry} {bases : List Bases}
    (hplain : plain.length = types.length) (hbases : bases.length = types.length) (c : Capture) :
    (ofBases plain bases).addBase types c =
      .ok (ofBases plain (handOver (baseOwner types) Bases.add bases c)) := by
  unfold addBase handOver baseOwner
  rw [innermost_eq]
  split
  · next hrole =>
    rcases hi : Named.innermost? types c.start with _ | i
    · rfl
    · have hlt := innermost?_lt_length hi
      exact giveBase_eq (hplain ▸ hlt) (hbases ▸ hlt) hrole
  · rfl

/-- **Bases** are given to the types without a stop. -/
lemma Draft.foldlM_addBase {types : List Named} {plain : List Entry} {bases : List Bases}
    (hplain : plain.length = types.length) (hbases : bases.length = types.length)
    (l : List Capture) :
    l.foldlM (Draft.addBase types) (ofBases plain bases) =
      .ok (ofBases plain (l.foldl (handOver (baseOwner types) Bases.add) bases)) :=
  foldlM_eq_ok (ofBases plain) (fun bases => bases.length = types.length)
    (fun bases c h => by rw [length_handOver, h]) (fun bases h c _ => addBase_eq hplain h c) hbases

/-! ### Accessors -/

/-- The name and return type of the accessor at a position. -/
def member (o : Outline) (decorations : List String) (a : Named × Nat) : String × String :=
  (Text.trim a.1.name.text, o.returnTypeOf decorations a.2)

/-- The position of the type that an accessor belongs to. -/
def accessorOwner (o : Outline) (a : Named × Nat) : Option Nat :=
  Named.innermost? o.types a.1.block.start

variable (o : Outline) (decorations : List String)

lemma giveAccessor_eq {entries : List Entry} (a : Named × Nat) {i : Nat}
    (hi : i < entries.length) :
    giveAccessor o decorations entries a i =
      .ok (entries.modify i (·.addMember (member o decorations a))) := by
  obtain ⟨e, he⟩ : ∃ e, entries[i]? = some e := ⟨_, List.getElem?_eq_getElem hi⟩
  have hreturned : (ofRole .returnType o.captures).findM?
      (fun c => do return (← innermost o.accessors c.start) == some a.2) =
        Except.ok ((ofRole .returnType o.captures).find? fun c =>
          Named.innermost? o.accessors c.start == some a.2) :=
    findM?_eq_ok fun c _ => by rw [innermost_eq]; rfl
  rw [giveAccessor, hreturned, elementAt_of_getElem? he, List.modify_eq_set_getElem?, he]
  rfl

lemma addAccessor_eq {entries : List Entry} (hentries : entries.length = o.types.length)
    (a : Named × Nat) :
    addAccessor o decorations entries a =
      .ok (handOver (accessorOwner o) (fun e a => e.addMember (member o decorations a))
        entries a) := by
  unfold addAccessor handOver accessorOwner
  rw [innermost_eq]
  rcases hi : Named.innermost? o.types a.1.block.start with _ | i
  · rfl
  · exact giveAccessor_eq o decorations a (hentries ▸ innermost?_lt_length hi)

/-- **Accessors** are given to the types without a stop. -/
lemma foldlM_addAccessor {entries : List Entry} (hentries : entries.length = o.types.length)
    (l : List (Named × Nat)) :
    l.foldlM (addAccessor o decorations) entries =
      .ok (l.foldl (handOver (accessorOwner o) fun e a => e.addMember (member o decorations a))
        entries) :=
  foldlM_eq_ok (fun entries => entries) (fun entries => entries.length = o.types.length)
    (fun entries a h => by rw [length_handOver, h])
    (fun entries h a _ => addAccessor_eq o decorations h a) hentries

/-! ### The whole run -/

/-- What is handed over to a position makes the declared type there. -/
lemma entry_eq_handedOver (p : Profile) (file : String) (t : Named) (i : Nat) :
    o.entry p file t i =
      (o.accessors.zipIdx.filter (accessorOwner o · == some i)).foldl
        (fun e a => e.addMember (member o p.decorations a))
        ((Entry.plain (o.scopeAt p.delimiter t.block.start) (Text.trim t.name.text) p.delimiter
          file p.language).withBases
            ((o.captures.filter (baseOwner o.types · == some i)).foldl Bases.add .none)) := by
  have hbases : o.basesOf i =
      (o.captures.filter (baseOwner o.types · == some i)).foldl Bases.add .none := by
    unfold Outline.basesOf
    congr 1
    refine List.filter_congr fun c _ => ?_
    change (isBase c && _) = _
    unfold baseOwner
    split
    · next hrole => rw [hrole, Bool.true_and]
    · next hrole => rw [Bool.eq_false_iff.mpr hrole]; rfl
  rw [← hbases, Outline.entry, Outline.membersOf, List.foldl_map]
  rfl

/-- The first draft: no type has a base. -/
lemma Draft.ofBases_none (p : Profile) (file : String) :
    Draft.ofBases (plainTypes p file o) ((plainTypes p file o).map fun _ => Bases.none) =
      ⟨plainTypes p file o, (plainTypes p file o).map fun _ => false⟩ := by
  unfold ofBases
  rw [List.zipWith_map_right, List.zipWith_self, List.map_map, plainTypes, List.map_map]
  rfl

lemma fill_eq (p : Profile) (file : String) :
    fill p file o = .ok (o.types.zipIdx.map fun t => o.entry p file t.1 t.2) := by
  have hplain : (plainTypes p file o).length = o.types.length := List.length_map _
  have hnone : ((plainTypes p file o).map fun _ => Bases.none).length = o.types.length := by
    rw [List.length_map, hplain]
  rw [fill, ← Draft.ofBases_none, Draft.foldlM_addBase hplain hnone, ok_bind, foldlM_addAccessor]
  · congr 1
    apply List.ext_getElem?
    intro i
    have hentries : (o.types.zipIdx.map fun t => o.entry p file t.1 t.2)[i]? =
        o.types[i]?.map fun t => o.entry p file t i := by
      rw [List.getElem?_map, List.getElem?_zipIdx, Nat.zero_add, Option.map_map]
      rfl
    rw [hentries, getElem?_foldl_handOver, Draft.ofBases, List.getElem?_zipWith,
      getElem?_foldl_handOver, List.getElem?_map, plainTypes, List.getElem?_map]
    rcases o.types[i]? with _ | t
    · rfl
    · simp only [Option.map_some, entry_eq_handedOver]
  · rw [Draft.ofBases, List.length_zipWith, length_foldl_handOver, hplain, hnone, Nat.min_self]

lemma outline_eq (captures : List Capture) :
    outline captures = .ok (Outline.ofCaptures captures) := by
  rw [outline, pairs_eq, pairs_eq, pairs_eq]
  rfl

/-- **The loop never stops**, and it gives the declared types. -/
lemma declaredTypes_eq (p : Profile) (file : String) (captures : List Capture) :
    declaredTypes p file captures = .ok (TypeCoupling.declaredTypes p file captures) := by
  rw [declaredTypes, outline_eq, ok_bind]
  split
  · next hnone =>
    rw [TypeCoupling.declaredTypes, List.isEmpty_iff.mp hnone]
    rfl
  · exact fill_eq _ p file

end Stepwise

/-! ### What every declared type is -/

/-- Accessors of one type have different names. -/
lemma Entry.addMember_names_nodup {e : Entry} (h : (e.accessors.map (·.name)).Nodup)
    (member : String × String) : ((e.addMember member).accessors.map (·.name)).Nodup := by
  unfold addMember
  split
  · exact h
  · next hnew =>
    have hnotMem : member.1 ∉ e.accessors.map (·.name) := by
      intro hmem
      obtain ⟨a, ha, hname⟩ := List.mem_map.mp hmem
      exact hnew (List.any_eq_true.mpr ⟨a, ha, beq_iff_eq.mpr hname⟩)
    rw [addAccessor, List.map_append, List.map_singleton]
    exact List.nodup_append_comm.mp (List.nodup_cons.mpr ⟨hnotMem, h⟩)

lemma Entry.foldl_addMember_names_nodup (members : List (String × String)) {e : Entry}
    (h : (e.accessors.map (·.name)).Nodup) :
    ((members.foldl addMember e).accessors.map (·.name)).Nodup := by
  induction members generalizing e with
  | nil => exact h
  | cons m members ih => exact ih (addMember_names_nodup h m)

/-- A type with a name made of its parts, in a file, with its own accessors of different names. -/
structure Entry.WellFormed (delimiter file : String) (e : Entry) : Prop where
  name : e.qualifiedName = qualify e.scope delimiter e.typeName
  delimiter_eq : e.delimiter = delimiter
  file_eq : e.file = file
  accessors_apart : (e.accessors.map (·.name)).Nodup
  accessors_own : ∀ a ∈ e.accessors, a.declaringTypes = [e.qualifiedName] ∧ a.file = file

lemma Outline.entry_wellFormed (o : Outline) (p : Profile) (file : String) (t : Named) (i : Nat) :
    (o.entry p file t i).WellFormed p.delimiter file := by
  have hown := o.entry_ownsAccessors p file t i
  have hfile := o.entry_file p file t i
  obtain ⟨as, h⟩ := o.entry_frame p file t i
  refine ⟨by rw [h]; rfl, by rw [h]; rfl, hfile, ?_, fun a ha => ?_⟩
  · exact Entry.foldl_addMember_names_nodup _ List.nodup_nil
  · obtain ⟨htypes, hstands⟩ := hown a ha
    exact ⟨htypes, hstands.trans hfile⟩

/-- A name is paired exactly if it stands in some block. -/
lemma Named.pairs_map_name (block name : Role) (captures : List Capture) :
    (pairs block name captures).map (·.name) =
      (ofRole name captures).filter fun n => (ofRole block captures).any (·.encloses n.start) := by
  rw [pairs, List.map_filterMap, ← List.filterMap_eq_filter]
  refine List.filterMap_congr fun n _ => ?_
  have hsome : (((ofRole block captures).filter (·.encloses n.start)).minOn? Capture.width).isSome =
      (ofRole block captures).any (·.encloses n.start) := by
    rw [Bool.eq_iff_iff, List.isSome_minOn?_iff, List.any_eq_true, ne_eq, List.filter_eq_nil_iff]
    push Not
    rfl
  rw [Option.guard, ← hsome, Option.map_map]
  generalize ((ofRole block captures).filter (·.encloses n.start)).minOn? Capture.width = found
  cases found with
  | none => rfl
  | some b => rfl

lemma declaredTypes_map_typeName (p : Profile) (file : String) (captures : List Capture) :
    (declaredTypes p file captures).map (·.typeName) =
      ((ofRole .typeName captures).filter fun n =>
        (ofRole .typeBlock captures).any (·.encloses n.start)).map (Text.trim ·.text) := by
  have htypes : (Outline.ofCaptures captures).types.map (·.name) = _ :=
    Named.pairs_map_name .typeBlock .typeName captures
  rw [← htypes, declaredTypes, List.map_map]
  conv_rhs => rw [← List.zipIdx_map_fst 0 (Outline.ofCaptures captures).types]
  rw [List.map_map, List.map_map]
  refine List.map_congr_left fun t _ => ?_
  obtain ⟨as, h⟩ := (Outline.ofCaptures captures).entry_frame p file t.1 t.2
  rw [Function.comp_apply, h]
  rfl

/-- **Declared types are found whatever the captures are.** The loop that checks every length and
every access ends with the declared types. There is one for each name of a type that stands in some
type block, in order, and each is well formed. -/
theorem extraction_ends_wellFormed (p : Profile) (file : String) (captures : List Capture) :
    Stepwise.declaredTypes p file captures = .ok (declaredTypes p file captures) ∧
      (declaredTypes p file captures).map (·.typeName) =
        ((ofRole .typeName captures).filter fun n =>
          (ofRole .typeBlock captures).any (·.encloses n.start)).map (Text.trim ·.text) ∧
      ∀ e ∈ declaredTypes p file captures, e.WellFormed p.delimiter file := by
  refine ⟨Stepwise.declaredTypes_eq p file captures, declaredTypes_map_typeName p file captures,
    fun e he => ?_⟩
  obtain ⟨t, -, rfl⟩ := List.mem_map.mp he
  exact Outline.entry_wellFormed _ p file t.1 t.2

/-- Blocks that end before they start, that cross and that are the same. -/
def tangledCaptures : List Capture :=
  [⟨.typeBlock, "", 30, 10, 1⟩, ⟨.typeBlock, "", 0, 50, 1⟩, ⟨.typeBlock, "", 0, 50, 1⟩,
    ⟨.typeBlock, "", 20, 70, 1⟩, ⟨.typeName, "A", 5, 4, 1⟩, ⟨.typeName, "B", 60, 60, 1⟩,
    ⟨.typeName, "C", 25, 90, 1⟩, ⟨.typeName, "D", 80, 85, 1⟩, ⟨.accessorBlock, "", 40, 35, 1⟩,
    ⟨.accessorBlock, "", 22, 48, 1⟩, ⟨.accessorName, "M", 30, 31, 1⟩,
    ⟨.accessorName, "M", 41, 42, 1⟩, ⟨.extendedType, "X", 65, 1, 1⟩]

theorem extraction_ends_wellFormed_tangled :
    Stepwise.length ⟨.typeBlock, "", 30, 10, 1⟩ = .error .negativeLength ∧
      Stepwise.declaredTypes Language.csharp.profile "a.cs" tangledCaptures =
        .ok [(Entry.plain "" "A" "." "a.cs" .csharp).addAccessor "M" "",
          { Entry.plain "" "B" "." "a.cs" .csharp with extended := some "X" },
          Entry.plain "" "C" "." "a.cs" .csharp] := by
  refine ⟨rfl, ?_⟩
  rw [(extraction_ends_wellFormed Language.csharp.profile "a.cs" tangledCaptures).1]
  cbv

end TypeCoupling
