import TypeCoupling.Config
import TypeCoupling.Discovery
import TypeCoupling.Resolution
import TypeCoupling.Text.Utf8

/-!
# Analysis of a sources root

The sources below a root are found, read and resolved under the paths that the report shows.
-/

namespace TypeCoupling

def loadSources (t : FileTree) (root : String) (c : Config) : Except Error (List SourceFile) := do
  let paths ← discover t root c.exclusions
  return paths.filterMap fun path =>
    (t.read? path).map fun bytes => ⟨Path.display path root c.relativePaths, Text.ofBytes bytes⟩

/-- The report on a sources root. -/
def analyse (reader : Reader) (t : FileTree) (root : String) (c : Config) : Except Error Report :=
  (loadSources t root c).map (resolve reader c.maxAncestorDepth)

end TypeCoupling
