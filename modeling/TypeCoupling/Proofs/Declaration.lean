import Mathlib.Tactic.Lemma
import TypeCoupling.Declaration

/-!
What the declared types of a file have in common, whatever its captures are.
-/

namespace TypeCoupling

lemma Entry.addMember_frame (e : Entry) (member : String × String) :
    ∃ as, e.addMember member = { e with accessors := as } := by
  unfold addMember
  split
  · exact ⟨e.accessors, rfl⟩
  · exact ⟨_, rfl⟩

/-- Members change the accessors of a type and nothing else. -/
lemma Entry.foldl_addMember_frame (members : List (String × String)) (e : Entry) :
    ∃ as, members.foldl addMember e = { e with accessors := as } := by
  induction members generalizing e with
  | nil => exact ⟨e.accessors, rfl⟩
  | cons m members ih =>
    obtain ⟨bs, hb⟩ := e.addMember_frame m
    obtain ⟨as, ha⟩ := ih (e.addMember m)
    exact ⟨as, by rw [List.foldl_cons, ha, hb]⟩

/-- A declared type has the name, the file and the language of its block and the bases found for
it. -/
lemma Outline.entry_frame (o : Outline) (p : Profile) (file : String) (t : Named)
    (position : Nat) :
    ∃ as, o.entry p file t position =
      { Entry.plain (o.scopeAt p.delimiter t.block.start) (Text.trim t.name.text) p.delimiter file
          p.language with
        extended := (o.basesOf position).extended
        implemented := (o.basesOf position).implemented
        accessors := as } :=
  Entry.foldl_addMember_frame _ _

lemma Outline.entry_file (o : Outline) (p : Profile) (file : String) (t : Named) (position : Nat) :
    (o.entry p file t position).file = file := by
  obtain ⟨as, h⟩ := o.entry_frame p file t position
  rw [h]
  rfl

lemma Outline.entry_language (o : Outline) (p : Profile) (file : String) (t : Named)
    (position : Nat) : (o.entry p file t position).language = p.language := by
  obtain ⟨as, h⟩ := o.entry_frame p file t position
  rw [h]
  rfl

/-- Every accessor of the type is declared by the type alone and stands in its file. -/
def Entry.OwnsAccessors (e : Entry) : Prop :=
  ∀ a ∈ e.accessors, a.declaringTypes = [e.qualifiedName] ∧ a.file = e.file

lemma Entry.OwnsAccessors.addMember {e : Entry} (h : e.OwnsAccessors)
    (member : String × String) : (e.addMember member).OwnsAccessors := by
  unfold Entry.addMember
  split
  · exact h
  · intro a ha
    rcases List.mem_append.mp ha with ha | ha
    · exact h a ha
    · rw [List.mem_singleton.mp ha]
      exact ⟨rfl, rfl⟩

lemma Entry.OwnsAccessors.foldl_addMember {e : Entry} (h : e.OwnsAccessors)
    (members : List (String × String)) : (members.foldl Entry.addMember e).OwnsAccessors := by
  induction members generalizing e with
  | nil => exact h
  | cons m members ih => exact ih (h.addMember m)

lemma Outline.entry_ownsAccessors (o : Outline) (p : Profile) (file : String) (t : Named)
    (position : Nat) : (o.entry p file t position).OwnsAccessors := by
  refine Entry.OwnsAccessors.foldl_addMember ?_ _
  intro a ha
  simp [Entry.plain] at ha

/-- The declared types of a file have its language and their own accessors. -/
lemma declaredTypes_own {p : Profile} {file : String} {captures : List Capture} {e : Entry}
    (h : e ∈ declaredTypes p file captures) : e.language = p.language ∧ e.OwnsAccessors := by
  obtain ⟨t, -, rfl⟩ := List.mem_map.mp h
  exact ⟨Outline.entry_language _ p file t.1 t.2, Outline.entry_ownsAccessors _ p file t.1 t.2⟩

lemma declaredTypes_file {p : Profile} {file : String} {captures : List Capture} {e : Entry}
    (h : e ∈ declaredTypes p file captures) : e.file = file := by
  obtain ⟨t, -, rfl⟩ := List.mem_map.mp h
  exact Outline.entry_file _ p file t.1 t.2

end TypeCoupling
