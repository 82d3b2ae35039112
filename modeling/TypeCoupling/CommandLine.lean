import TypeCoupling.Text.Split

/-!
# Command line

Options have a long name after two dashes and may have a letter after one dash; letters may be
joined. The value of an option follows it, as an argument of its own, after an equals sign, or right
after the letter. After two dashes alone there are no more options.
-/

namespace TypeCoupling

structure CommandOption where
  long : String
  letter : Option Char
  takesValue : Bool
  /-- Whether it may be given more than once. -/
  repeats : Bool
  deriving DecidableEq, Repr

structure Arguments where
  /-- The options by their long names, with their values. -/
  options : List (String × String)
  positional : List String
  deriving DecidableEq, Repr

namespace Arguments

def empty : Arguments := ⟨[], []⟩

def has (a : Arguments) (long : String) : Bool := a.options.any (·.1 == long)

def values (a : Arguments) (long : String) : List String :=
  (a.options.filter (·.1 == long)).map (·.2)

/-- Adds an option, unless it is there and may not be repeated. -/
def add? (a : Arguments) (o : CommandOption) (value : String) : Option Arguments :=
  if a.has o.long && !o.repeats then none
  else some { a with options := a.options ++ [(o.long, value)] }

def isOption (argument : String) : Bool :=
  (Text.dropStart? "-" argument).isSome && argument != "-"

/-- Reads joined letters; also gives the option that still needs a value. -/
def readLetters (known : List CommandOption) : List Char → Arguments →
    Option (Arguments × Option CommandOption)
  | [], a => some (a, none)
  | c :: s, a => do
    let o ← known.find? (·.letter == some c)
    if o.takesValue then
      match s with
      | [] => some (a, some o)
      | '=' :: s => (a.add? o (String.ofList s)).map (·, none)
      | s => (a.add? o (String.ofList s)).map (·, none)
    else
      (a.add? o "").bind (readLetters known s)

/-- Reads a long option without its dashes; also gives the option that still needs a value. -/
def readLong (known : List CommandOption) (text : List Char) (a : Arguments) :
    Option (Arguments × Option CommandOption) := do
  let name := String.ofList (text.takeWhile (· != '='))
  let o ← known.find? (·.long == name)
  match o.takesValue, text.dropWhile (· != '=') with
  | true, [] => some (a, some o)
  | true, _ :: s => (a.add? o (String.ofList s)).map (·, none)
  | false, [] => (a.add? o "").map (·, none)
  | false, _ :: _ => none

/-- Reads one argument; also gives the option that still needs a value. -/
def readOne (known : List CommandOption) (argument : String) (a : Arguments) :
    Option (Arguments × Option CommandOption) :=
  match argument.toList with
  | '-' :: '-' :: s => readLong known s a
  | '-' :: c :: s => readLetters known (c :: s) a
  | _ => some ({ a with positional := a.positional ++ [argument] }, none)

/-- Reads arguments; none if they do not fit the known options. -/
def read? (known : List CommandOption) : List String → Arguments → Option Arguments
  | [], a => some a
  | argument :: rest, a =>
    if argument == "--" then some { a with positional := a.positional ++ rest }
    else
      match readOne known argument a with
      | none => none
      | some (a, none) => read? known rest a
      | some (a, some o) =>
        match rest with
        | [] => none
        | value :: rest =>
          if isOption value then none
          else
            match a.add? o value with
            | none => none
            | some a => read? known rest a

end Arguments

end TypeCoupling
