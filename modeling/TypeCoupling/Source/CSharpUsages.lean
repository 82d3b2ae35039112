import TypeCoupling.Source.CSharpTypes

/-!
# Usages in C# code

Statements and expressions are gone through from left to right. While an expression is read, the
start of the operand that ends at the current place is known; a member access is the text from
there through the member's name. Whether a statement declares locals shows in its first tokens.
-/

namespace TypeCoupling.Source.CSharp

def wordOperators : List String := ["is", "as", "in", "switch", "with", "when", "and", "or"]

/-- Whether an operand can start with a tree that follows a type in parentheses. -/
def startsOperand (t : Tree) : Bool :=
  match t with
  | .leaf t =>
    match t.kind with
    | .word => !wordOperators.contains t.text
    | .number => true
    | .literal => true
    | .sign => t.text == "!" || t.text == "~"
  | .group o _ _ => o.text == "("

/-- Whether type arguments of a name in an expression can be followed by a tree. -/
def followsArguments (t : Tree) : Bool :=
  match t with
  | .leaf t =>
    t.kind == .sign &&
      [":", ";", ",", ".", "?", "==", "!=", "|", "^", "&&", "||", "&", "??"].contains t.text
  | .group o _ _ => o.text == "(" || o.text == "["

def readMember (fuel : Nat) (t : Token) (rest : List Tree) : TypeRead :=
  match readArguments fuel t rest with
  | some r =>
    match r.rest with
    | [] => r
    | next :: _ => if followsArguments next then r else ⟨[], t.stop, rest⟩
  | none => ⟨[], t.stop, rest⟩

def readDeclarator (fuel : Nat) (ts : List Tree) : Option (TypeRead × List Tree) :=
  match readType fuel ts with
  | some r =>
    match r.rest with
    | .leaf n :: rest => if isNameWord n then some (r, rest) else none
    | _ => none
  | none => none

/-- The type of a declaration of locals, and what follows the first name. -/
def readLocal (fuel : Nat) (ts : List Tree) : Option (List Mark × List Tree) :=
  match ts.head?, readDeclarator fuel ts with
  | some first, some (r, rest) =>
    match rest with
    | next :: _ =>
      if next.isSign "=" || next.isSign ";" || next.isSign "," then
        some (⟨.qualifiedName, first.start, r.stop⟩ :: r.marks, rest)
      else none
    | [] => none
  | _, _ => none

def readLocalFunction (fuel : Nat) (ts : List Tree) : Option (List Mark × List Tree) :=
  match readDeclarator fuel ts with
  | some (r, rest) =>
    match skipTypeParameters rest with
    | .group o body _ :: next :: after =>
      if o.text == "(" && (next.isGroup "\x7b" || next.isSign "=>") then
        some (r.marks ++ genericNames fuel body, next :: after)
      else none
    | _ => none
  | none => none

def conditionWords : List String := ["if", "while", "lock", "switch", "when"]

/-- Keywords with a declaration or an expression in parentheses before the next statement. -/
def headerWords : List String := ["for", "fixed", "using"]

/-- Keywords that a statement follows directly. -/
def leadWords : List String :=
  ["else", "do", "try", "finally", "unsafe", "checked", "unchecked", "const", "using", "catch"]

def jumpWords : List String := ["return", "throw", "goto", "break", "continue", "yield"]

def parenthesized? : List Tree → Option (List Tree × List Tree)
  | .group o body _ :: rest => if o.text == "(" then some (body, rest) else none
  | _ => none

mutual

def statements : (fuel : Nat) → List Tree → List Mark
  | 0, _ => []
  | _, [] => []
  | fuel + 1, .group o body c :: rest =>
    if o.text == "\x7b" then statements fuel body ++ statements fuel rest
    else plainStatement fuel (.group o body c :: rest)
  | fuel + 1, .leaf t :: rest =>
    if t.kind == .sign && t.text == ";" then statements fuel rest
    else if t.kind != .word then expression fuel none (.leaf t :: rest)
    else
      match parenthesized? rest with
      | some (body, after) =>
        if conditionWords.contains t.text then
          expression fuel none body ++ statements fuel after
        else if headerWords.contains t.text then statements fuel body ++ statements fuel after
        else if t.text == "foreach" then
          -- The loop variable is no usage; what is looped over may hold some.
          let header := body.takeWhile (!·.isWord "in")
          genericNames fuel header ++ expression fuel none (body.drop header.length)
            ++ statements fuel after
        else if t.text == "catch" then genericNames fuel body ++ statements fuel after
        else plainStatement fuel (.leaf t :: rest)
      | none =>
        if t.text == "case" then
          let (label, _, after) := splitAtSign ":" rest
          expression fuel none label ++ statements fuel after
        else if t.text == "default" && headIs (·.isSign ":") rest then
          statements fuel (rest.drop 1)
        else if leadWords.contains t.text then statements fuel rest
        else if t.text == "await" &&
            headIs (fun n => n.isWord "foreach" || n.isWord "using") rest then
          statements fuel rest
        else plainStatement fuel (.leaf t :: rest)

/-- The marks of a statement that is no block and has no condition, and of what follows it. -/
def plainStatement : (fuel : Nat) → List Tree → List Mark
  | 0, _ => []
  | fuel + 1, ts =>
    if headIs (fun t => jumpWords.any (t.isWord ·)) ts then expression fuel none (ts.drop 1)
    else
      match readLocal fuel ts, readLocalFunction fuel ts with
      | some (marks, after), _ => marks ++ expression fuel none after
      | none, some (marks, after) => marks ++ statements fuel after
      | none, none => expression fuel none ts

/-- The marks of an expression and of what follows it; `operand` is the start of the operand that
ends here. -/
def expression : (fuel : Nat) → (operand : Option Nat) → List Tree → List Mark
  | 0, _, _ => []
  | _, _, [] => []
  | fuel + 1, operand, .group o body _ :: rest =>
    if o.text == "(" && operand.isNone then
      if headIs (·.isSign "=>") rest then
        genericNames fuel body ++ expression fuel none rest
      else if headIs startsOperand rest && isWholeType fuel body then
        genericNames fuel body ++ expression fuel none rest
      else expression fuel none body ++ expression fuel (some o.start) rest
    else
      expression fuel none body ++ expression fuel (some (operand.getD o.start)) rest
  | fuel + 1, operand, .leaf t :: rest =>
    match t.kind with
    | .number => expression fuel (some t.start) rest
    | .literal => expression fuel (some t.start) rest
    | .sign =>
      if t.text == ";" then statements fuel rest
      else if t.text == "." || t.text == "->" then
        match operand, rest with
        | some start, .leaf n :: after =>
          let r := readMember fuel n after
          ⟨.callExpression, start, r.stop⟩ :: r.marks ++ expression fuel (some start) r.rest
        | _, _ => expression fuel none rest
      else if t.text == "?" then
        match operand, rest with
        | some start, .leaf d :: .leaf n :: after =>
          if d.kind == .sign && d.text == "." then
            let r := readMember fuel n after
            r.marks ++ expression fuel (some start) r.rest
          else expression fuel none rest
        | some start, .group o body c :: after =>
          if o.text == "[" then expression fuel (some start) (.group o body c :: after)
          else expression fuel none rest
        | _, _ => expression fuel none rest
      else if t.text == "!" || t.text == "++" || t.text == "--" then expression fuel operand rest
      else if t.text == "=>" then
        match rest with
        | .group o body c :: after =>
          if o.text == "\x7b" then statements fuel body ++ expression fuel none after
          else expression fuel none (.group o body c :: after)
        | rest => expression fuel none rest
      else expression fuel none rest
    | .word =>
      if t.text == "new" then
        match readName fuel rest with
        | none => expression fuel (some t.start) rest
        | some name =>
          let r := readDecorations false name name.rest
          let created := match rest.head?, r.rest.head? with
            | some first, some next =>
              if next.isGroup "(" || next.isGroup "\x7b" then
                [⟨.qualifiedName, first.start, r.stop⟩]
              else []
            | _, _ => []
          created ++ r.marks ++ expression fuel (some t.start) r.rest
      else if ["typeof", "sizeof", "default"].contains t.text then
        match rest with
        | .group o body c :: after =>
          if o.text == "(" then genericNames fuel body ++ expression fuel (some t.start) after
          else expression fuel (some t.start) (.group o body c :: after)
        | rest => expression fuel (some t.start) rest
      else if t.text == "as" || t.text == "is" then
        let rest := if headIs (·.isWord "not") rest then rest.drop 1 else rest
        match readType fuel rest with
        | some r => r.marks ++ expression fuel none r.rest
        | none => expression fuel none rest
      else if t.text == "out" then
        match readDeclarator fuel rest with
        | some (r, after) => r.marks ++ expression fuel none after
        | none => expression fuel none rest
      else if t.text == "delegate" then
        let after := match rest with
          | .group o body c :: after => if o.text == "(" then after else .group o body c :: after
          | rest => rest
        match after with
        | .group _ body _ :: after => statements fuel body ++ expression fuel none after
        | after => expression fuel none after
      else if ["switch", "with"].contains t.text && operand.isSome then
        expression fuel operand rest
      else if isTypeWord t then
        let r := readMember fuel t rest
        r.marks ++ expression fuel (some t.start) r.rest
      else if ["this", "base", "null", "true", "false"].contains t.text then
        expression fuel (some t.start) rest
      else if ["checked", "unchecked"].contains t.text then expression fuel (some t.start) rest
      else expression fuel none rest

end

end TypeCoupling.Source.CSharp
