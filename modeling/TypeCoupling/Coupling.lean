import Std.Data.TreeSet
import TypeCoupling.Number.Binary64
import TypeCoupling.Relationship

/-!
# Coupling

How files depend on each other. Only relationships between different files count.
-/

namespace TypeCoupling

/-- Counts are words of 64 bits. -/
def countLimit : Nat := 18446744073709551616

/-- The share of outgoing dependencies: zero for a file that only others depend on, one for a
file that depends on others only. Counts become binary numbers before they are divided. -/
def instability (afferent efferent : Nat) : Binary64 :=
  if afferent + efferent = 0 then .zero
  else (Binary64.ofNat efferent).div (.ofNat (afferent + efferent))

/-- The share of outgoing dependencies, none if the sum of the counts is no count. -/
def instability? (afferent efferent : Nat) : Option Binary64 :=
  if countLimit ≤ afferent + efferent then none else some (instability afferent efferent)

structure FileCoupling where
  file : String
  /-- Number of dependents. -/
  afferent : Nat
  /-- Number of dependencies. -/
  efferent : Nat
  /-- Files that depend on this one, in order. -/
  dependents : List String
  /-- Files that this one depends on, in order. -/
  dependencies : List String
  deriving DecidableEq, Repr

namespace FileCoupling

def ofSides (file : String) (dependents dependencies : List String) : FileCoupling where
  file
  afferent := dependents.length
  efferent := dependencies.length
  dependents
  dependencies

def instability (c : FileCoupling) : Binary64 :=
  TypeCoupling.instability c.afferent c.efferent

end FileCoupling

/-- A set of files for each of some files. -/
abbrev FileSets := Std.TreeMap String (Std.TreeSet String)

namespace FileSets

/-- The files in the set of a file, in order. A file without a set has none. -/
def filesOf (m : FileSets) (file : String) : List String := (m.getD file ∅).toList

def add (m : FileSets) (file other : String) : FileSets :=
  m.insert file ((m.getD file ∅).insert other)

end FileSets

structure FileLinks where
  dependents : FileSets
  dependencies : FileSets

namespace FileLinks

def empty : FileLinks := ⟨∅, ∅⟩

/-- Notes a relationship at both of its files. One inside a file does not count. -/
def step (l : FileLinks) (r : Relationship) : FileLinks :=
  if r.isCrossFile then
    { dependents := l.dependents.add r.toFile r.fromFile
      dependencies := l.dependencies.add r.fromFile r.toFile }
  else l

/-- The files that have a set on either side, in order. -/
def files (l : FileLinks) : List String :=
  (Std.TreeSet.ofList (l.dependents.keys ++ l.dependencies.keys)).toList

end FileLinks

/-- The coupling of every file that occurs in a relationship between files, in order. -/
def coupling (rs : List Relationship) : List FileCoupling :=
  let links := rs.foldl FileLinks.step .empty
  links.files.map fun f =>
    .ofSides f (links.dependents.filesOf f) (links.dependencies.filesOf f)

end TypeCoupling
