/-!
# Captures

A capture is a piece of a source text together with the role it plays. Captures of one file are
related by their spans alone: a name belongs to the smallest block around it.
-/

namespace TypeCoupling

inductive Role where
  | namespaceBlock
  | namespaceName
  /-- Name of a namespace that holds for the rest of the file. -/
  | fileNamespace
  | typeBlock
  | typeName
  | extendedType
  | implementedType
  /-- A member of a base list that does not tell classes from interfaces. -/
  | baseType
  | accessorBlock
  | accessorName
  | accessorModifier
  | returnType
  | importedName
  /-- Alias written before the import it belongs to. -/
  | aliasBefore
  /-- Alias written after the import it belongs to. -/
  | aliasAfter
  /-- Common start of a group of imports. -/
  | groupName
  | groupItem
  | qualifiedName
  | callExpression
  /-- A role that no part of the resolution asks for. -/
  | other (label : String)
  deriving DecidableEq, Repr

namespace Role

def known : List Role :=
  [namespaceBlock, namespaceName, fileNamespace, typeBlock, typeName, extendedType,
   implementedType, baseType, accessorBlock, accessorName, accessorModifier, returnType,
   importedName, aliasBefore, aliasAfter, groupName, groupItem, qualifiedName, callExpression]

def label : Role → String
  | namespaceBlock => "namespace_definition"
  | namespaceName => "namespace_definition_name"
  | fileNamespace => "file_namespace_name"
  | typeBlock => "class_definition"
  | typeName => "class_name"
  | extendedType => "extended_class"
  | implementedType => "implemented_class"
  | baseType => "base_class"
  | accessorBlock => "accessor_definition"
  | accessorName => "accessor_name"
  | accessorModifier => "accessor_modifier"
  | returnType => "accessor_return_type"
  | importedName => "namespace_use"
  | aliasBefore => "namespace_use_alias_prefix"
  | aliasAfter => "namespace_use_alias_suffix"
  | groupName => "namespace_use_group_name"
  | groupItem => "namespace_use_item_name"
  | qualifiedName => "qualified_name"
  | callExpression => "call_expression"
  | other label => label

def ofLabel (label : String) : Role :=
  (known.find? (·.label == label)).getD (other label)

end Role

/-- A piece of a source text: the bytes from `start` up to `stop`, exclusive. -/
structure Capture where
  role : Role
  text : String
  start : Nat
  stop : Nat
  /-- Line of the first byte, counted from one. -/
  line : Nat
  deriving DecidableEq, Repr

namespace Capture

def encloses (c : Capture) (byte : Nat) : Bool :=
  c.start ≤ byte && byte < c.stop

/-- Number of bytes of the span; none if it ends before it starts. -/
def spanLength? (c : Capture) : Option Nat :=
  if c.stop < c.start then none else some (c.stop - c.start)

/-- Number of bytes of the span, zero if it ends before it starts. -/
def width (c : Capture) : Nat := c.stop - c.start

theorem spanLength?_eq_some_width {c : Capture} {byte : Nat} (h : c.encloses byte = true) :
    c.spanLength? = some c.width := by
  simp only [encloses, Bool.and_eq_true, decide_eq_true_eq] at h
  simp only [spanLength?, width]
  rw [if_neg (by omega)]

end Capture

def ofRole (role : Role) (captures : List Capture) : List Capture :=
  captures.filter (·.role == role)

end TypeCoupling
