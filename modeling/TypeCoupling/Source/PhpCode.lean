import TypeCoupling.Source.Mark

/-!
# PHP tokens, types and code

The tokens of a PHP text, written types, and the usages in code. A qualified name is one token,
and a variable is a word that starts with a dollar sign.
-/

namespace TypeCoupling.Source.Php

def signs : List String :=
  ["<=>", "**=", "...", "<<=", ">>=", "===", "!==", "??=", "?->", "#[", "::", "->", "=>", "++",
   "--", "==", "!=", "<=", ">=", "&&", "||", "??", "+=", "-=", "*=", "/=", ".=", "%=", "&=", "|=",
   "^=", "**", "<<", ">>"]

def tagLength : List Char → Nat
  | p :: h :: q :: _ =>
    if [p, h, q].map Char.toLower == ['p', 'h', 'p'] then 3 else if p == '=' then 1 else 0
  | '=' :: _ => 1
  | _ => 0

def plainLength : List Char → Nat
  | [] => 0
  | '<' :: '?' :: s => 2 + tagLength s
  | _ :: s => 1 + plainLength s

/-- Length of a comment that ends with its line or before a closing tag. -/
def commentLength : List Char → Nat
  | [] => 0
  | '?' :: '>' :: _ => 0
  | c :: s => if c == '\n' then 0 else 1 + commentLength s

def nameLength : List Char → Nat
  | [] => 0
  | '\\' :: c :: s => if isWordStart c then 1 + nameLength (c :: s) else 0
  | c :: s => if isWordRest c then 1 + nameLength s else 0

/-- Length of a text through the line that holds the closing label. -/
def labelledLength (label : List Char) : List Char → Nat
  | [] => 0
  | '\n' :: s =>
    let indent := (s.takeWhile (fun c => c == ' ' || c == '\t')).length
    let line := s.drop indent
    let after := line.drop label.length
    if label.isPrefixOf line && !(after.head?.map isWordRest).getD false then
      1 + indent + label.length
    else 1 + labelledLength label s
  | _ :: s => 1 + labelledLength label s

/-- Length of a literal between labels, after its three opening signs. -/
def heredocLength (s : List Char) : Nat :=
  let lead := (s.takeWhile fun c => !isWordStart c && c != '\n').length
  let label := (s.drop lead).takeWhile isWordRest
  lead + label.length + labelledLength label (s.drop (lead + label.length))

def lexer : Lexer
  | '?' :: '>' :: s => (none, 2 + plainLength s)
  | '/' :: '/' :: s => (none, 2 + commentLength s)
  | '/' :: '*' :: s => (none, 2 + lengthThrough ['*', '/'] s)
  | '#' :: '[' :: _ => (some .sign, 2)
  | '#' :: s => (none, 1 + commentLength s)
  | '\x22' :: s => (some .literal, 1 + quotedLength '\x22' s)
  | '\x27' :: s => (some .literal, 1 + quotedLength '\x27' s)
  | '\x60' :: s => (some .literal, 1 + quotedLength '\x60' s)
  | '<' :: '<' :: '<' :: s => (some .literal, 3 + heredocLength s)
  | '$' :: c :: s => if isWordStart c then (some .word, 2 + wordLength s) else (some .sign, 1)
  | '\\' :: c :: s =>
    if isWordStart c then (some .word, 1 + nameLength (c :: s)) else (some .sign, 1)
  | [] => (none, 0)
  | c :: s =>
    if Text.isBlank c then (none, 1)
    else if isWordStart c then (some .word, nameLength (c :: s))
    else if c.isDigit then (some .number, numberLength (c :: s))
    else (some .sign, signLength signs (c :: s))

def isVariable (t : Token) : Bool := t.kind == .word && t.text.toList.head? == some '$'

def isName (t : Token) : Bool := t.kind == .word && !isVariable t

def name? : Tree → Option Token
  | .leaf t => if isName t then some t else none
  | .group .. => none

/-- Whether a name has several parts or starts at the root. -/
def isQualified (t : Token) : Bool := isName t && t.text.toList.contains '\\'

/-! ## Types -/

/-- Types that name no class. -/
def builtinTypes : List String :=
  ["array", "callable", "iterable", "bool", "float", "int", "string", "void", "mixed", "false",
   "null", "true", "never"]

/-- The trees of the type at the front. An ampersand in front of a variable belongs to the
variable. -/
def typeTrees : List Tree → List Tree
  | [] => []
  | .group o body c :: rest =>
    if o.text == "(" then .group o body c :: typeTrees rest else []
  | .leaf t :: rest =>
    if isName t then .leaf t :: typeTrees rest
    else if t.kind == .sign && (t.text == "?" || t.text == "|") then .leaf t :: typeTrees rest
    else if t.kind == .sign && t.text == "&" then
      match rest with
      | .leaf n :: _ => if isName n then .leaf t :: typeTrees rest else []
      | _ => []
    else []

def plainClass? : List Tree → Option Token
  | [t] => (name? t).filter fun n => !builtinTypes.contains n.text
  | _ => none

/-- The class that the type of a parameter names, plainly or after a question mark. -/
def parameterClass? : List Tree → Option Token
  | q :: rest => if q.isSign "?" then plainClass? rest else plainClass? (q :: rest)
  | [] => none

def usageOf (t : Option Token) : List Mark := t.toList.map (.ofToken .qualifiedName)

def span (role : Role) (ts : List Tree) : List Mark :=
  match ts.head?, ts.getLast? with
  | some first, some last => [⟨role, first.start, last.stop⟩]
  | _, _ => []

def readReturnType : List Tree → List Tree × List Tree
  | t :: rest =>
    if t.isSign ":" then
      let type := typeTrees rest
      (type, rest.drop type.length)
    else ([], t :: rest)
  | [] => ([], [])

/-! ## Code -/

def modifiers : List String :=
  ["public", "protected", "private", "static", "abstract", "final", "readonly", "var"]

/-- Words that make a parameter a property. -/
def promotions : List String := ["public", "protected", "private", "readonly"]

/-- A class, interface, trait or enumeration: where its name is, and its header and body. -/
structure ClassParts where
  keyword : String
  name : Token
  header : List Tree
  body : List Tree
  stop : Nat
  rest : List Tree

def readClass (ts : List Tree) : Option ClassParts :=
  let ts := ts.dropWhile fun t =>
    t.isGroup "#[" || ["abstract", "final", "readonly"].any (t.isWord ·)
  match ts with
  | .leaf k :: .leaf n :: rest =>
    if k.kind == .word && ["class", "interface", "trait", "enum"].contains k.text && isName n then
      let header := rest.takeWhile fun t => !(t.isGroup "\x7b" || t.isSign ";")
      match rest.drop header.length with
      | .group o body c :: after =>
        if o.text == "\x7b" then some ⟨k.text, n, header, body, c.stop, after⟩ else none
      | _ => none
    else none
  | _ => none

def headerNames (word : String) (header : List Tree) : List Token :=
  let after := (header.dropWhile (!·.isWord word)).drop 1
  (after.takeWhile fun t => !(t.isWord "extends" || t.isWord "implements")).filterMap name?

def headerMarks (c : ClassParts) : List Mark :=
  let extended := headerNames "extends" c.header
  if c.keyword == "class" then
    extended.map (.ofToken .extendedType) ++
      (headerNames "implements" c.header).map (.ofToken .implementedType)
  else if c.keyword == "interface" then extended.map (.ofToken .implementedType)
  else []

/-- The names for the class at hand and its base. -/
def ownClasses : List String := ["self", "static", "parent"]

/-- Whether the name in front of a double colon is used as a class: a call or a constant follows,
not a variable of the class. -/
def namesClass (t : Token) : List Tree → Bool
  | .leaf v :: after =>
    !ownClasses.contains t.text &&
      (!isVariable v || headIs (·.isGroup "(") after)
  | .group .. :: _ => !ownClasses.contains t.text
  | [] => false

def skipReference : List Tree → List Tree
  | t :: rest => if t.isSign "&" then rest else t :: rest
  | [] => []

mutual

def code : (fuel : Nat) → List Tree → List Mark
  | 0, _ => []
  | _, [] => []
  | fuel + 1, t :: rest =>
    match readClass (t :: rest) with
    | some c =>
      ⟨.typeBlock, t.start, c.stop⟩ :: .ofToken .typeName c.name :: headerMarks c
        ++ members fuel c.body ++ code fuel c.rest
    | none =>
      match t with
      | .group o body _ =>
        (if o.text == "#[" then attributeArguments fuel body else code fuel body) ++ code fuel rest
      | .leaf w =>
        if w.kind == .sign && ["->", "?->", "::"].contains w.text then
          -- What follows is a member, whatever its name.
          match rest with
          | .leaf _ :: after => code fuel after
          | rest => code fuel rest
        else if !isName w then code fuel rest
        else if w.text == "namespace" then
          match rest with
          | .leaf n :: .group _ body c :: after =>
            ⟨.namespaceBlock, w.start, c.stop⟩ :: .ofToken .namespaceName n ::
              code fuel body ++ code fuel after
          | .leaf n :: after => .ofToken .fileNamespace n :: code fuel after
          | rest => code fuel rest
        else if w.text == "use" && !headIs (·.isGroup "(") rest then
          code fuel (splitAtSign ";" rest).2.2
        else if w.text == "function" then
          match skipReference rest with
          | .leaf _ :: .group _ ps _ :: after =>
            let (type, after) := readReturnType after
            parameters fuel ps ++ usageOf (plainClass? type) ++ code fuel after
          | .group _ ps _ :: after => parameters fuel ps ++ code fuel after
          | rest => code fuel rest
        else if w.text == "fn" then
          match skipReference rest with
          | .group _ ps _ :: after => parameters fuel ps ++ code fuel after
          | rest => code fuel rest
        else if w.text == "new" then
          match rest with
          | .leaf n :: after =>
            if n.text == "class" then
              -- A class without name: its arguments are code, its braces hold members.
              let header := after.takeWhile (!·.isGroup "\x7b")
              match after.drop header.length with
              | .group _ body _ :: more =>
                code fuel (header.filter (·.isGroup "(")) ++ members fuel body ++ code fuel more
              | more => code fuel more
            else if isName n then .ofToken .qualifiedName n :: code fuel after
            else code fuel (.leaf n :: after)
          | rest => code fuel rest
        else
          match rest with
          | next :: after =>
            let own :=
              if next.isSign "::" && namesClass w after then [.ofToken .qualifiedName w]
              else if next.isGroup "(" && isQualified w then [.ofToken .callExpression w]
              else []
            own ++ code fuel rest
          | [] => []

def attributeArguments : (fuel : Nat) → List Tree → List Mark
  | 0, _ => []
  | _, [] => []
  | fuel + 1, .group _ body _ :: rest => code fuel body ++ attributeArguments fuel rest
  | fuel + 1, .leaf _ :: rest => attributeArguments fuel rest

/-- The parameters of a function. The type of a parameter is a usage unless the parameter is a
property or takes all remaining arguments. -/
def parameters : (fuel : Nat) → List Tree → List Mark
  | 0, _ => []
  | _, [] => []
  | fuel + 1, ts =>
    let (parameter, _, after) := splitAtSign "," ts
    let attributes := parameter.filter (·.isGroup "#[")
    let plain := parameter.filter (!·.isGroup "#[")
    let promoted := plain.takeWhile fun t => promotions.any (t.isWord ·)
    let typed := plain.drop promoted.length
    let type := typeTrees typed
    let variable_ := skipReference (typed.drop type.length)
    let isVariadic := headIs (·.isSign "...") variable_
    let own := if promoted.isEmpty && !isVariadic then usageOf (parameterClass? type) else []
    code fuel attributes ++ own ++ code fuel variable_ ++ parameters fuel after

def members : (fuel : Nat) → List Tree → List Mark
  | 0, _ => []
  | _, [] => []
  | fuel + 1, t :: rest =>
    if t.isWord "use" then
      let names := rest.takeWhile fun t => !(t.isGroup "\x7b" || t.isSign ";")
      members fuel (rest.drop (names.length + 1))
    else
      let header := (t :: rest).takeWhile fun h =>
        h.isGroup "#[" || modifiers.any (h.isWord ·)
      let ts := (t :: rest).drop header.length
      let attributes := code fuel (header.filter (·.isGroup "#["))
      let publicWord? := header.findSome? fun h => if h.isWord "public" then name? h else none
      let accessor (stop : Nat) (type : List Tree) : List Mark :=
        match publicWord? with
        | some p =>
          if type.isEmpty then []
          else ⟨.accessorBlock, t.start, stop⟩ :: .ofToken .accessorModifier p ::
            span .returnType type
        | none => []
      match ts with
      | [] => attributes
      | first :: after =>
        if first.isWord "function" then
          match skipReference after with
          | .leaf n :: .group _ ps _ :: more =>
            let (type, more) := readReturnType more
            let shared := attributes ++ parameters fuel ps ++ usageOf (plainClass? type)
            let named (stop : Nat) : List Mark :=
              let marks := accessor stop type
              if marks.isEmpty then [] else .ofToken .accessorName n :: marks
            match more with
            | .group _ body c :: more =>
              shared ++ named c.stop ++ code fuel body ++ members fuel more
            | end_ :: more => shared ++ named end_.stop ++ members fuel more
            | [] => shared
          | _ => attributes ++ members fuel after
        else if first.isWord "const" || first.isWord "case" then
          let (values, _, more) := splitAtSign ";" after
          attributes ++ code fuel values ++ members fuel more
        else
          let type := typeTrees ts
          match ts.drop type.length with
          | .leaf v :: values =>
            if !isVariable v then attributes ++ members fuel after
            else
              let (values, semicolon, more) := splitAtSign ";" (.leaf v :: values)
              let stop := ((semicolon.map (·.stop)).getD v.stop)
              let marks := accessor stop type
              let names := if marks.isEmpty then [] else variableNames values
              attributes ++ usageOf (plainClass? type) ++ marks ++ names ++ code fuel values
                ++ members fuel more
          | _ => attributes ++ members fuel after

/-- The names of the variables at the start of a list and after its commas, without their dollar
signs. -/
def variableNames (values : List Tree) : List Mark :=
  let starts := values.zip (Option.none :: values.map some)
  starts.filterMap fun (t, previous) =>
    match t with
    | .leaf v =>
      if isVariable v && (previous.map (·.isSign ",")).getD true then
        some ⟨.accessorName, v.start + 1, v.stop⟩
      else none
    | .group .. => none

end

end TypeCoupling.Source.Php
