import TypeCoupling.Error
import TypeCoupling.Ignore

/-!
# Discovery of sources

The files below a sources root whose extension is that of a language, except those that are ignored
or lie in an ignored directory.
-/

namespace TypeCoupling

namespace Discovery

def directoriesAbove (place : Place) : List Place := (FileTree.pathTo place.dropLast).reverse

/-- The rule files that a directory may hold; the earlier ones win over the later ones, wherever
they are. -/
def ruleFiles : List Place := [[".ignore"], [".gitignore"], [".git", "info", "exclude"]]

/-- The verdict of the rule files around a place. Of the files of one name the innermost one with a
rule that fits decides. -/
def verdict? (t : FileTree) (place : Place) (isDirectory : Bool) : Option Verdict :=
  ruleFiles.findSome? fun name =>
    (directoriesAbove place).findSome? fun dir =>
      IgnoreRule.decide? (IgnoreRule.ofPlace t (dir ++ name))
        (Text.join "/" (place.drop dir.length)) isDirectory

def skips (t : FileTree) (filter : IgnoreFilter) (root : String) (rootPlace names : Place)
    (isDirectory : Bool) : Bool :=
  filter.ignores (Path.append root (Text.join "/" names)) isDirectory ||
    verdict? t (rootPlace ++ names) isDirectory == some .ignored

def visits (t : FileTree) (filter : IgnoreFilter) (root : String) (rootPlace names : Place) :
    Bool :=
  ((FileTree.pathTo names.dropLast).tail.all fun dir => !skips t filter root rootPlace dir true) &&
    !skips t filter root rootPlace names false

end Discovery

open Discovery in
/-- The source files below a root, in the order of their components. A root that is a file is its
own only source. -/
def discover (t : FileTree) (root : String) (exclusions : List String) :
    Except Error (List String) :=
  match t.locate? root, t.get? root with
  | some _, some (.file _) => .ok (if (Path.language? root).isSome then [root] else [])
  | some place, some .directory =>
    let filter := IgnoreFilter.make t root exclusions
    let found := (t.filesBelow place).filter fun names =>
      ((names.getLast?.bind Path.language?).isSome) && visits t filter root place names
    .ok ((found.map fun names => Path.append root (Text.join "/" names)).mergeSort fun a b =>
      (compare (Path.components a) (Path.components b)).isLE)
  | _, _ => .error (.sourcesNotFound root)

end TypeCoupling
