import TypeCoupling.Language

/-!
# Kinds of usage

How one type depends on another.
-/

namespace TypeCoupling

inductive UsageKind where
  /-- Any reference: parameter, field, local, creation, static access or call. -/
  | usage
  /-- Declared base class. -/
  | extension
  /-- Declared interface. -/
  | implementation
  deriving DecidableEq, Repr, Hashable, Ord

namespace UsageKind

def all : List UsageKind := [usage, extension, implementation]

def name : UsageKind → String
  | usage => "usage"
  | extension => "extends"
  | implementation => "implements"

def isInheritance : UsageKind → Bool
  | usage => false
  | extension => true
  | implementation => true

def ofName? (text : String) : Option UsageKind :=
  all.find? fun k => sameIgnoringCase k.name text

end UsageKind

end TypeCoupling
