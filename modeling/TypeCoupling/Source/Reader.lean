import TypeCoupling.Source.CSharpDeclarations
import TypeCoupling.Source.PhpDeclarations

/-!
# Reading source text

The reader for the languages of this library. It takes every text; what it does not understand
says nothing.
-/

namespace TypeCoupling.Source

def read : Reader
  | .csharp, text => some (CSharp.read text)
  | .php, text => some (Php.read text)

end TypeCoupling.Source
