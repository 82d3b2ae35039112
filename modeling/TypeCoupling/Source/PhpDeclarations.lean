import TypeCoupling.Source.PhpCode

/-!
# Imports of PHP files

The `use` declarations of a file or a namespace, one by one and in groups.
-/

namespace TypeCoupling.Source.Php

/-- The trees of each `use` declaration, of the file and of its namespace blocks. -/
def useDeclarations : (fuel : Nat) → List Tree → List (List Tree)
  | 0, _ => []
  | _, [] => []
  | fuel + 1, t :: rest =>
    if t.isWord "use" && !headIs (·.isGroup "(") rest then
      let (declaration, _, after) := splitAtSign ";" rest
      declaration :: useDeclarations fuel after
    else if t.isWord "namespace" then
      match rest with
      | .leaf _ :: .group _ body _ :: after =>
        useDeclarations fuel body ++ useDeclarations fuel after
      | .group _ body _ :: after => useDeclarations fuel body ++ useDeclarations fuel after
      | rest => useDeclarations fuel rest
    else useDeclarations fuel rest

def skipKind : List Tree → List Tree
  | t :: u :: rest =>
    if (t.isWord "function" || t.isWord "const") && !u.isWord "as" then u :: rest
    else t :: u :: rest
  | ts => ts

def clauses : (fuel : Nat) → List Tree → List (List Tree)
  | 0, _ => []
  | _, [] => []
  | fuel + 1, ts =>
    let (clause, _, after) := splitAtSign "," ts
    clause :: clauses fuel after

/-- A clause: the imported name, and its alias if it has one. -/
def clauseMarks (role : Role) (clause : List Tree) : List Mark :=
  match skipKind clause with
  | n :: rest =>
    let alias_ := match rest with
      | as_ :: a :: _ => if as_.isWord "as" then (name? a).toList else []
      | _ => []
    ((name? n).toList.map (.ofToken role)) ++ alias_.map (.ofToken .aliasAfter)
  | [] => []

def isGrouped (declaration : List Tree) : Bool := declaration.any (·.isGroup "\x7b")

def simpleUse (fuel : Nat) (declaration : List Tree) : List Mark :=
  if isGrouped declaration then []
  else (clauses fuel declaration).flatMap (clauseMarks .importedName)

def groupedUse (fuel : Nat) (declaration : List Tree) : List Mark :=
  if !isGrouped declaration then []
  else
    let items := (declaration.findSome? (·.body? "\x7b")).getD []
    let header := ((skipKind declaration).head?.bind name?).toList.map (.ofToken .groupName)
    header ++ (clauses fuel items).flatMap (clauseMarks .groupItem)

/-- The captures of a PHP file. Text outside the tags says nothing. -/
def read (text : String) : FileCaptures :=
  let cs := text.toList
  let plain := plainLength cs
  let ts := tokensFrom lexer cs.length (Text.byteCount (cs.take plain)) (cs.drop plain)
  let fuel := 4 * ts.length + 16
  let trees := forest ts
  let declarations := useDeclarations fuel trees
  fileCaptures cs (code fuel trees ++ declarations.flatMap (simpleUse fuel))
    (declarations.flatMap (groupedUse fuel))

end TypeCoupling.Source.Php
