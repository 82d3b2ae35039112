import TypeCoupling.Source.CSharpUsages

/-!
# Declarations in C# files

Using directives, namespaces, types and their members. A declaration starts at its first
attribute or modifier.
-/

namespace TypeCoupling.Source.CSharp

structure Part where
  marks : List Mark
  stop : Nat
  rest : List Tree

def attributeArguments (fuel : Nat) (body : List Tree) : List Mark :=
  body.flatMap fun t =>
    match t.body? "(" with
    | some arguments => expression fuel none arguments
    | none => []

def modifiers : List String :=
  ["public", "private", "protected", "internal", "static", "abstract", "sealed", "partial",
   "readonly", "const", "virtual", "override", "async", "extern", "unsafe", "volatile", "new",
   "required", "file", "ref"]

def readHeader (fuel : Nat) : List Tree → List Mark × List Token × List Tree
  | .group o body c :: rest =>
    if o.text == "[" then
      let (marks, words, rest) := readHeader fuel rest
      (attributeArguments fuel body ++ marks, words, rest)
    else ([], [], .group o body c :: rest)
  | .leaf t :: rest =>
    if t.kind == .word && modifiers.contains t.text then
      let (marks, words, rest) := readHeader fuel rest
      (marks, t :: words, rest)
    else ([], [], .leaf t :: rest)
  | [] => ([], [], [])

/-- The modifier that makes a member an accessor. -/
def publicModifier? (words : List Token) : Option Token := words.find? (·.text == "public")

def accessorMarks (words : List Token) (start stop typeStart typeStop : Nat) (name : Token) :
    List Mark :=
  match publicModifier? words with
  | some p => [⟨.accessorBlock, start, stop⟩, .ofToken .accessorModifier p,
      ⟨.returnType, typeStart, typeStop⟩, .ofToken .accessorName name]
  | none => []

/-- The trees up to the first comma, and what follows it. -/
def splitAtComma (ts : List Tree) : List Tree × List Tree :=
  let (before, _, after) := splitAtSign "," ts
  (before, after)

/-- The parameters of a declaration; their types are usages if `types` says so, except for the
type of a parameter that takes all remaining arguments. -/
def parameters (types : Bool) : (fuel : Nat) → List Tree → List Mark
  | 0, _ => []
  | fuel + 1, ts =>
    let (marks, _, ts) := readHeader fuel ts
    let plain := ts.dropWhile fun t =>
      ["in", "out", "this", "scoped"].any (t.isWord ·)
    let (takesRest, ts) := match plain with
      | t :: rest => if t.isWord "params" then (true, rest) else (false, plain)
      | [] => (false, [])
    match ts.head?, readType fuel ts with
    | some first, some r =>
      let own := if types && !takesRest then [⟨.qualifiedName, first.start, r.stop⟩] else []
      let (value, after) := splitAtComma r.rest
      marks ++ own ++ r.marks ++ expression fuel none (value.drop 1) ++ parameters types fuel after
    | _, _ => marks

/-- A block, an expression after an arrow, or nothing but a semicolon. -/
def readBody (fuel : Nat) : List Tree → Option Part
  | .group o body c :: rest =>
    if o.text == "\x7b" then some ⟨statements fuel body, c.stop, rest⟩ else none
  | .leaf t :: rest =>
    if t.kind == .sign && t.text == ";" then some ⟨[], t.stop, rest⟩
    else if t.kind == .sign && t.text == "=>" then
      match splitAtSign ";" rest with
      | (value, some semicolon, after) => some ⟨expression fuel none value, semicolon.stop, after⟩
      | (_, none, _) => none
    else none
  | [] => none

def readConstraints (fuel : Nat) (ts : List Tree) : List Mark × List Tree :=
  let constraints := ts.takeWhile fun t => !(t.isGroup "\x7b" || t.isSign ";" || t.isSign "=>")
  (genericNames fuel constraints, ts.drop constraints.length)

def propertyAccessors : (fuel : Nat) → List Tree → List Mark
  | 0, _ => []
  | _, [] => []
  | fuel + 1, .group o body _ :: rest =>
    (if o.text == "\x7b" then statements fuel body else []) ++ propertyAccessors fuel rest
  | fuel + 1, .leaf t :: rest =>
    if t.kind == .sign && t.text == "=>" then
      let (value, _, after) := splitAtSign ";" rest
      expression fuel none value ++ propertyAccessors fuel after
    else propertyAccessors fuel rest

/-- The name of a member, after the interface it is implemented for if there is one. -/
def readMemberName : (fuel : Nat) → List Tree → Option (List Mark × Token × List Tree)
  | 0, _ => none
  | _, [] => none
  | _, .group .. :: _ => none
  | fuel + 1, .leaf t :: rest =>
    if t.kind != .word then none
    else
      let qualifier := (readArguments fuel t rest).getD ⟨[], t.stop, rest⟩
      match qualifier.rest with
      | d :: more =>
        if d.isSign "." then
          (readMemberName fuel more).map fun (marks, n, after) =>
            (qualifier.marks ++ marks, n, after)
        else some ([], t, rest)
      | [] => some ([], t, rest)

def readMethod (fuel : Nat) (ts : List Tree) : Option Part :=
  match skipTypeParameters ts with
  | .group o body _ :: rest =>
    if o.text != "(" then none
    else
      let (constraints, rest) := readConstraints fuel rest
      (readBody fuel rest).map fun b =>
        { b with marks := parameters true fuel body ++ constraints ++ b.marks }
  | _ => none

def readConstructor (fuel : Nat) : List Tree → Option Part
  | .group o body _ :: rest =>
    if o.text != "(" then none
    else
      let initializer := rest.takeWhile fun t =>
        !(t.isGroup "\x7b" || t.isSign ";" || t.isSign "=>")
      (readBody fuel (rest.drop initializer.length)).map fun b =>
        { b with
          marks := parameters true fuel body ++ expression fuel none initializer ++ b.marks }
  | _ => none

def readProperty (fuel : Nat) : List Tree → Option Part
  | .group o body c :: rest =>
    if o.text != "\x7b" then none
    else
      let marks := propertyAccessors fuel body
      match rest with
      | t :: after =>
        if t.isSign "=" then
          match splitAtSign ";" after with
          | (value, some semicolon, after) =>
            some ⟨marks ++ expression fuel none value, semicolon.stop, after⟩
          | (_, none, _) => none
        else some ⟨marks, c.stop, rest⟩
      | [] => some ⟨marks, c.stop, []⟩
  | ts => readBody fuel ts

def readValues (fuel : Nat) (ts : List Tree) : Option Part :=
  match splitAtSign ";" ts with
  | (values, some semicolon, after) => some ⟨expression fuel none values, semicolon.stop, after⟩
  | (_, none, _) => none

/-- A member that starts with a type: an operator, an indexer, a method, a property or a
field. -/
def readTypedMember (fuel : Nat) (start : Nat) (words : List Token) (ts : List Tree) :
    Option Part :=
  match ts.head?, readType fuel ts with
  | some first, some r =>
    let used : Mark := ⟨.qualifiedName, first.start, r.stop⟩
    match r.rest with
    | [] => none
    | next :: more =>
      if next.isWord "operator" then
        let after := more.dropWhile fun t => !t.isGroup "("
        (readBody fuel (after.drop 1)).map fun b =>
          { b with marks := r.marks ++ genericNames fuel (after.take 1) ++ b.marks }
      else if next.isWord "this" then
        (readProperty fuel (more.drop 1)).map fun b =>
          { b with marks := r.marks ++ genericNames fuel (more.take 1) ++ b.marks }
      else
        match readMemberName fuel r.rest with
        | none => none
        | some (qualifier, name, after) =>
          let shared := used :: r.marks ++ qualifier
          match after with
          | [] => none
          | t :: _ =>
            if t.isGroup "(" || t.isSign "<" then
              (readMethod fuel after).map fun b =>
                { b with
                  marks := shared ++ b.marks
                    ++ accessorMarks words start b.stop first.start r.stop name }
            else if t.isGroup "\x7b" || t.isSign "=>" then
              (readProperty fuel after).map fun b =>
                { b with
                  marks := shared ++ b.marks
                    ++ accessorMarks words start b.stop first.start r.stop name }
            else if t.isSign "=" || t.isSign ";" || t.isSign "," then
              (readValues fuel after).map fun b => { b with marks := shared ++ b.marks }
            else none
  | _, _ => none

def baseRole? (keyword : String) : Option Role :=
  if keyword == "class" || keyword == "record" then some .baseType
  else if keyword == "interface" || keyword == "struct" then some .implementedType
  else none

def readBases (role : Option Role) : (fuel : Nat) → List Tree → List Mark × List Tree
  | 0, ts => ([], ts)
  | fuel + 1, ts =>
    match ts.head?, readType fuel ts with
    | some first, some r =>
      -- A base may be given arguments, which belong to it.
      let (passed, stop, rest) := match r.rest with
        | .group o body c :: rest =>
          if o.text == "(" then (expression fuel none body, c.stop, rest)
          else ([], r.stop, .group o body c :: rest)
        | rest => ([], r.stop, rest)
      let own := role.toList.map (⟨·, first.start, stop⟩) ++ r.marks ++ passed
      match rest with
      | t :: more =>
        if t.isSign "," then
          let (marks, rest) := readBases role fuel more
          (own ++ marks, rest)
        else (own, rest)
      | [] => (own, rest)
    | _, _ => ([], ts)

def enumValues : (fuel : Nat) → List Tree → List Mark
  | 0, _ => []
  | _, [] => []
  | fuel + 1, ts =>
    let (marks, _, ts) := readHeader fuel ts
    let (value, after) := splitAtComma ts
    marks ++ expression fuel none (value.drop 1) ++ enumValues fuel after

/-- The directive after the word `using`: the imported name and its alias. Only names can be
imported, so an alias of any other type says nothing. -/
def usingMarks (fuel : Nat) (ts : List Tree) : List Mark :=
  let ts := ts.dropWhile fun t => t.isWord "static" || t.isWord "unsafe"
  let (target, named) : List Tree × List Mark := match ts with
    | .leaf n :: e :: rest =>
      if e.isSign "=" then (rest, [.ofToken .aliasBefore n]) else (ts, [])
    | ts => (ts, [])
  match target.head?, readName fuel target with
  | some first, some r =>
    let isDotted := target.any (·.isSign ".")
    let isPlain := match target with
      | [.leaf n] => isNameWord n
      | _ => false
    if r.rest.isEmpty && (isDotted || isPlain) then
      named ++ ⟨.importedName, first.start, r.stop⟩ :: r.marks
    else genericNames fuel target
  | _, _ => genericNames fuel target

/-- The end of a declaration in braces: a semicolon right after them belongs to it. -/
def closeBlock (stop : Nat) : List Tree → Nat × List Tree
  | t :: rest => if t.isSign ";" then (t.stop, rest) else (stop, t :: rest)
  | [] => (stop, [])

def readMember? (fuel : Nat) (start : Nat) (words : List Token) (ts : List Tree) : Option Part :=
  match ts with
  | [] => none
  | .group .. :: _ => readTypedMember fuel start words ts
  | .leaf t :: rest =>
    if t.kind == .word && t.text == "delegate" then
      match splitAtSign ";" rest with
      | (types, some semicolon, after) => some ⟨genericNames fuel types, semicolon.stop, after⟩
      | (_, none, _) => none
    else if t.kind == .word && t.text == "event" then
      -- Only an event declared like a field is one.
      match readType fuel rest with
      | some r =>
        if (r.rest.any (·.isGroup "\x7b")) && !(r.rest.takeWhile (!·.isGroup "\x7b")).any
            (·.isSign ";") then
          (readMemberName fuel r.rest).bind fun (marks, _, after) =>
            (readProperty fuel after).map fun b => { b with marks := r.marks ++ marks ++ b.marks }
        else readTypedMember fuel start [] rest
      | none => none
    else if t.kind == .sign && t.text == "~" then
      match rest with
      | _ :: _ :: after => readBody fuel after
      | _ => none
    else if t.kind == .word && (t.text == "implicit" || t.text == "explicit") then
      let after := rest.dropWhile fun t => !t.isGroup "("
      (readBody fuel (after.drop 1)).map fun b =>
        let header := rest.take (rest.length - after.length + 1)
        { b with marks := genericNames fuel header ++ b.marks }
    else if isNameWord t && headIs (·.isGroup "(") rest then
      readConstructor fuel rest
    else readTypedMember fuel start words ts

def typeKeyword? : List Tree → Option (String × List Tree)
  | .leaf k :: .leaf n :: rest =>
    if k.kind != .word || n.kind != .word then none
    else if ["class", "struct", "interface", "enum"].contains k.text then
      some (k.text, .leaf n :: rest)
    else if k.text == "record" then
      some (k.text, if n.text == "class" || n.text == "struct" then rest else .leaf n :: rest)
    else none
  | _ => none

def declarations : (fuel : Nat) → List Tree → List Mark
  | 0, _ => []
  | _, [] => []
  | fuel + 1, t :: rest =>
    if t.isSign ";" then declarations fuel rest
    else if t.isWord "using" then
      let (directive, _, after) := splitAtSign ";" rest
      usingMarks fuel directive ++ declarations fuel after
    else if t.isWord "global" && headIs (·.isWord "using") rest then
      declarations fuel rest
    else if t.isWord "extern" && headIs (·.isWord "alias") rest then
      declarations fuel (splitAtSign ";" rest).2.2
    else if t.isWord "namespace" then
      match rest.head?, readName fuel rest with
      | some first, some name =>
        match name.rest with
        | .group _ body c :: after =>
          let (stop, after) := closeBlock c.stop after
          ⟨.namespaceBlock, t.start, stop⟩ :: ⟨.namespaceName, first.start, name.stop⟩ ::
            declarations fuel body ++ declarations fuel after
        | after => ⟨.fileNamespace, first.start, name.stop⟩ :: declarations fuel after
      | _, _ => declarations fuel rest
    else
      let (attributes, words, ts) := readHeader fuel (t :: rest)
      match typeKeyword? ts with
      | some (keyword, .leaf name :: after) =>
        let after := skipTypeParameters after
        let (primary, after) := match after with
          | .group o body c :: more =>
            if o.text == "(" then (parameters false fuel body, more)
            else ([], .group o body c :: more)
          | after => ([], after)
        let (bases, after) := match after with
          | d :: more =>
            if d.isSign ":" then readBases (baseRole? keyword) fuel more else ([], after)
          | [] => ([], [])
        let (constraints, after) := readConstraints fuel after
        let inside := match after with
          | .group _ body _ :: _ =>
            if keyword == "enum" then enumValues fuel body else declarations fuel body
          | _ => []
        let (stop, after) := match after with
          | .group _ _ c :: more => closeBlock c.stop more
          | d :: more => (d.stop, more)
          | [] => (name.stop, [])
        ⟨.typeBlock, t.start, stop⟩ :: .ofToken .typeName name :: attributes ++ primary ++ bases
          ++ constraints ++ inside ++ declarations fuel after
      | _ =>
        match readMember? fuel t.start words ts with
        | some m => attributes ++ m.marks ++ declarations fuel m.rest
        | none =>
          -- Code outside all declarations is read statement by statement.
          let (statement, _, after) := splitAtSign ";" ts
          statements fuel statement ++ declarations fuel after

/-- The captures of a C# file. Each step takes a token or goes into a bracket, and a token is
looked at by a bounded number of steps. -/
def read (text : String) : FileCaptures :=
  let cs := text.toList
  let ts := tokens lexer cs
  fileCaptures cs (declarations (4 * ts.length + 16) (forest ts)) []

end TypeCoupling.Source.CSharp
