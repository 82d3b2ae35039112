import TypeCoupling.Source.Mark

/-!
# C# words and types

The tokens of a C# text, and the reading of written types. Wherever a generic name stands, the
name and each of its arguments are qualified names.
-/

namespace TypeCoupling.Source.CSharp

/-- Signs of several characters. A closing angle bracket is always a sign of its own, since two of
them may close two argument lists. -/
def signs : List String :=
  ["=>", "->", "::", "..", "++", "--", "==", "!=", "<=", "&&", "||", "??", "+=", "-=", "*=", "/=",
   "%=", "&=", "|=", "^="]

def lexer : Lexer
  | '/' :: '/' :: s => (none, 2 + lineLength s)
  | '/' :: '*' :: s => (none, 2 + lengthThrough ['*', '/'] s)
  | '#' :: s => (none, 1 + lineLength s)
  | '\x22' :: '\x22' :: '\x22' :: s =>
    (some .literal, 3 + lengthThrough ['\x22', '\x22', '\x22'] s)
  | '\x22' :: s => (some .literal, 1 + quotedLength '\x22' s)
  | '\x27' :: s => (some .literal, 1 + quotedLength '\x27' s)
  | '@' :: '\x22' :: s => (some .literal, 2 + doubledLength '\x22' s)
  | '$' :: '\x22' :: s => (some .literal, 2 + quotedLength '\x22' s)
  | '@' :: '$' :: '\x22' :: s => (some .literal, 3 + doubledLength '\x22' s)
  | '$' :: '@' :: '\x22' :: s => (some .literal, 3 + doubledLength '\x22' s)
  | [] => (none, 0)
  | c :: s =>
    if Text.isBlank c || c == '﻿' then (none, 1)
    else if isWordStart c || c == '@' then (some .word, 1 + wordLength s)
    else if c.isDigit then (some .number, numberLength (c :: s))
    else (some .sign, signLength signs (c :: s))

def builtinTypes : List String :=
  ["bool", "byte", "sbyte", "char", "decimal", "double", "float", "int", "uint", "long", "ulong",
   "short", "ushort", "object", "string", "void"]

/-- Keywords that are neither types nor names. -/
def keywords : List String :=
  ["abstract", "as", "await", "base", "break", "case", "catch", "checked", "class", "const",
   "continue", "default", "delegate", "do", "else", "enum", "event", "explicit", "extern", "false",
   "finally", "fixed", "for", "foreach", "goto", "if", "implicit", "in", "interface", "internal",
   "is", "lock", "namespace", "new", "null", "operator", "out", "override", "params", "private",
   "protected", "public", "readonly", "ref", "return", "sealed", "sizeof", "stackalloc", "static",
   "struct", "switch", "this", "throw", "true", "try", "typeof", "unchecked", "unsafe", "using",
   "virtual", "volatile", "while"]

def isTypeWord (t : Token) : Bool := t.kind == .word && !keywords.contains t.text

def isNameWord (t : Token) : Bool := isTypeWord t && !builtinTypes.contains t.text

structure TypeRead where
  marks : List Mark
  stop : Nat
  rest : List Tree

/-- Whether the brackets of an array type hold nothing but commas. -/
def isRank (body : List Tree) : Bool := body.all (·.isSign ",")

/-- Takes the question marks, array brackets and stars after a type. -/
def readDecorations (arrays : Bool) (r : TypeRead) : List Tree → TypeRead
  | [] => { r with rest := [] }
  | .leaf t :: rest =>
    if t.kind == .sign && (t.text == "?" || t.text == "*") then
      readDecorations arrays { r with stop := t.stop } rest
    else { r with rest := .leaf t :: rest }
  | .group o body c :: rest =>
    if arrays && o.text == "[" && isRank body then
      readDecorations arrays { r with stop := c.stop } rest
    else { r with rest := .group o body c :: rest }

mutual

def readType : (fuel : Nat) → List Tree → Option TypeRead
  | 0, _ => none
  | fuel + 1, .group o body c :: rest =>
    if o.text == "(" then
      (readTuple fuel body).map fun marks => readDecorations true ⟨marks, c.stop, rest⟩ rest
    else none
  | fuel + 1, ts => (readName fuel ts).map fun r => readDecorations true r r.rest

def readTuple : (fuel : Nat) → List Tree → Option (List Mark)
  | 0, _ => none
  | fuel + 1, ts =>
    match readType fuel ts with
    | none => none
    | some r =>
      let after := match r.rest with
        | .leaf t :: rest => if isNameWord t then rest else r.rest
        | rest => rest
      match after with
      | [] => some r.marks
      | t :: rest =>
        if t.isSign "," then (readTuple fuel rest).map (r.marks ++ ·) else none

/-- A dotted name, each part with its type arguments. -/
def readName : (fuel : Nat) → List Tree → Option TypeRead
  | 0, _ => none
  | _, [] => none
  | _, .group .. :: _ => none
  | fuel + 1, .leaf t :: rest =>
    if !isTypeWord t then none
    else
      let part := (readArguments fuel t rest).getD ⟨[], t.stop, rest⟩
      match part.rest with
      | d :: more =>
        if d.isSign "." || d.isSign "::" then
          match readName fuel more with
          | some r => some { r with marks := part.marks ++ r.marks }
          | none => some part
        else some part
      | [] => some part

def readArguments : (fuel : Nat) → (t : Token) → List Tree → Option TypeRead
  | 0, _, _ => none
  | _, _, [] => none
  | fuel + 1, t, o :: rest =>
    if !o.isSign "<" then none
    else
      match rest.dropWhile (·.isSign ",") with
      | c :: after =>
        -- An open list without arguments says nothing.
        if c.isSign ">" then some ⟨[], c.stop, after⟩
        else (readArgumentList fuel rest).map fun r =>
          { r with marks := .ofToken .qualifiedName t :: r.marks }
      | [] => none

def readArgumentList : (fuel : Nat) → List Tree → Option TypeRead
  | 0, _ => none
  | fuel + 1, ts =>
    match ts.head?, readType fuel ts with
    | some first, some r =>
      let marks := ⟨.qualifiedName, first.start, r.stop⟩ :: r.marks
      match r.rest with
      | t :: rest =>
        if t.isSign ">" then some ⟨marks, t.stop, rest⟩
        else if t.isSign "," then
          (readArgumentList fuel rest).map fun more => { more with marks := marks ++ more.marks }
        else none
      | [] => none
    | _, _ => none

end

def isWholeType (fuel : Nat) (ts : List Tree) : Bool :=
  match readType fuel ts with
  | some r => r.rest.isEmpty
  | none => false

/-- The marks of all generic names among the trees. -/
def genericNames : (fuel : Nat) → List Tree → List Mark
  | 0, _ => []
  | _, [] => []
  | fuel + 1, .group _ body _ :: rest => genericNames fuel body ++ genericNames fuel rest
  | fuel + 1, .leaf t :: rest =>
    match readName fuel (.leaf t :: rest) with
    | some r => r.marks ++ genericNames fuel r.rest
    | none => genericNames fuel rest

def skipTypeParameters : List Tree → List Tree
  | t :: rest => if t.isSign "<" then (rest.dropWhile (!·.isSign ">")).drop 1 else t :: rest
  | [] => []

end TypeCoupling.Source.CSharp
