/-!
# Languages

The languages whose files are read, and how each of them writes names and calls.
-/

namespace TypeCoupling

inductive Language where
  | csharp
  | php
  deriving DecidableEq, Repr

namespace Language

def all : List Language := [csharp, php]

def name : Language → String
  | csharp => "csharp"
  | php => "php"

/-- All names a language may be asked for by, in lower case. -/
def names : Language → List String
  | csharp => ["csharp", "c#", "cs", "c_sharp"]
  | php => ["php"]

/-- The file extensions of a language, in lower case and without the dot. -/
def extensions : Language → List String
  | csharp => ["cs"]
  | php => ["php", "php3", "php4", "php5", "phtml"]

end Language

/-- Whether two texts agree when capital letters count as small ones. The names looked up this
way are ASCII and hold no `k`, and no character beyond ASCII has a small form among the other
ASCII letters, so mapping ASCII alone decides the comparison for every text. -/
def sameIgnoringCase (name text : String) : Bool :=
  text.toList.map Char.toLower == name.toList

namespace Language

def ofName? (text : String) : Option Language :=
  all.find? fun l => l.names.any (sameIgnoringCase · text)

def ofExtension? (text : String) : Option Language :=
  all.find? fun l => l.extensions.any (sameIgnoringCase · text)

end Language

/-- How a language writes qualified names and calls. -/
structure Profile where
  language : Language
  /-- Stands between the parts of a qualified name. -/
  delimiter : String
  /-- Stands between a receiver and the member called on it. -/
  callDelimiter : String
  /-- Whether a bare name may come from any imported namespace. -/
  crossesImports : Bool
  /-- Endings that decorate a type name without being part of it. -/
  decorations : List String
  deriving DecidableEq, Repr

/-- Whether the parts of a name and the members of a call are written alike, so that the last
part of a call is no part of a type's name. -/
def Profile.callsLookLikeNames (p : Profile) : Bool :=
  p.delimiter == p.callDelimiter

def Language.profile : Language → Profile
  | csharp =>
    { language := csharp, delimiter := ".", callDelimiter := "."
      crossesImports := true, decorations := ["[]", "?"] }
  | php =>
    { language := php, delimiter := "\\", callDelimiter := "->"
      crossesImports := false, decorations := ["[]", "?"] }

end TypeCoupling
