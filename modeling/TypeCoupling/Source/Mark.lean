import TypeCoupling.Capture
import TypeCoupling.Resolution
import TypeCoupling.Source.Token

/-!
# Marks

A mark says that some bytes of a source text play a role. The marks of a file, put in the order
of the document, are its captures.
-/

namespace TypeCoupling.Source

/-- The role of the bytes from `start` up to `stop`. -/
structure Mark where
  role : Role
  start : Nat
  stop : Nat
  deriving DecidableEq, Repr

namespace Mark

def ofToken (role : Role) (t : Token) : Mark := ⟨role, t.start, t.stop⟩

/-- Document order: by start, and the longer mark first. -/
def before (a b : Mark) : Bool :=
  a.start < b.start || (a.start == b.start && b.stop ≤ a.stop)

end Mark

def slice (start stop : Nat) : (offset : Nat) → List Char → List Char
  | _, [] => []
  | offset, c :: s =>
    let next := offset + c.utf8Size
    if stop ≤ offset then []
    else if offset < start then slice start stop next s
    else c :: slice start stop next s

def lineOf (byte : Nat) : (offset line : Nat) → List Char → Nat
  | _, line, [] => line
  | offset, line, c :: s =>
    if byte ≤ offset then line
    else lineOf byte (offset + c.utf8Size) (if c == '\n' then line + 1 else line) s

/-- The captures that marks of some roles stand for, in document order and each once. -/
def capturesOf (text : List Char) (roles : List Role) (marks : List Mark) : List Capture :=
  let sorted := (marks.filter (roles.contains ·.role)).mergeSort Mark.before
  sorted.eraseDups.map fun m =>
    { role := m.role
      text := String.ofList (slice m.start m.stop 0 text)
      start := m.start
      stop := m.stop
      line := lineOf m.start 0 1 text }

def declarationRoles : List Role :=
  [.namespaceBlock, .namespaceName, .fileNamespace, .typeBlock, .typeName, .extendedType,
   .implementedType, .baseType, .accessorBlock, .accessorName, .accessorModifier, .returnType]

/-- The captures of a file, divided by what they are for. Aliases of grouped imports are among
`grouped` only. -/
def fileCaptures (text : List Char) (marks grouped : List Mark) : FileCaptures where
  declarations := capturesOf text declarationRoles marks
  imports := capturesOf text [.importedName, .aliasBefore, .aliasAfter] marks
  groupedImports := capturesOf text [.groupName, .groupItem, .aliasAfter] grouped
  usages := capturesOf text [.qualifiedName, .callExpression] marks

end TypeCoupling.Source
