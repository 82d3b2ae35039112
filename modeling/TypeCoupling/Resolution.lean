import TypeCoupling.Coupling
import TypeCoupling.Error
import TypeCoupling.Link
import TypeCoupling.Path
import TypeCoupling.Walk

/-!
# Resolution of a set of files

Every file is read on its own. Then the index of all declared types is made in the order of the
paths, usages are linked against it, and call chains are followed over the result. A file that
cannot be read is reported and left out.
-/

namespace TypeCoupling

structure FileCaptures where
  declarations : List Capture
  imports : List Capture
  groupedImports : List Capture
  usages : List Capture

/-- Reads the source text of a language; none for a text that cannot be read. -/
abbrev Reader := Language → String → Option FileCaptures

/-- What is known of a file before any other file is looked at. -/
structure FileFacts where
  path : String
  profile : Profile
  entries : List Entry
  imports : ImportTable
  usageCaptures : List Capture

namespace FileFacts

def ofCaptures (path : String) (profile : Profile) (c : FileCaptures) : FileFacts where
  path
  profile
  entries := declaredTypes profile path c.declarations
  imports :=
    (ImportTable.empty.addSimples profile.delimiter path c.imports).addGroups
      profile.delimiter path c.groupedImports
  usageCaptures := c.usages

def usages (f : FileFacts) (maxAncestors : Option Nat) : FileUsages :=
  UsageContext.usages ⟨f.profile, f.imports, f.entries, f.path, maxAncestors⟩ f.usageCaptures

end FileFacts

structure SourceFile where
  path : String
  content : String
  deriving DecidableEq, Repr

structure FileError where
  path : String
  message : String
  deriving DecidableEq, Repr

structure LinkedFile where
  path : String
  /-- Number of candidates. -/
  candidates : Nat
  direct : List Relationship
  deferred : List CallChain
  deriving DecidableEq, Repr

def FileFacts.link (f : FileFacts) (types : TypeIndex) (maxAncestors : Option Nat) :
    LinkedFile :=
  let u := f.usages maxAncestors
  { path := f.path
    candidates := u.candidates.length
    direct := types.link f.entries f.profile.language u.candidates
    deferred := u.deferred }

structure Stats where
  files : Nat
  failedFiles : Nat
  declarations : Nat
  candidates : Nat
  direct : Nat
  callExpressions : Nat
  transitive : Nat
  deriving DecidableEq, Repr

def Stats.text (s : Stats) : String :=
  "Linker Stats:\n" ++
  "  Files: " ++ toString s.files ++ " (" ++ toString s.failedFiles ++ " failed)\n" ++
  "  Declared Types: " ++ toString s.declarations ++ "\n" ++
  "  Usage Candidates: " ++ toString s.candidates ++ "\n" ++
  "  Direct Relationships: " ++ toString s.direct ++ "\n" ++
  "  Call Expressions: " ++ toString s.callExpressions ++ "\n" ++
  "  Transitive Relationships: " ++ toString s.transitive ++ "\n"

structure Report where
  relationships : List Relationship
  coupling : List FileCoupling
  errors : List FileError
  stats : Stats
  deriving DecidableEq, Repr

/-- What is known of one source file, or why it is left out. -/
def SourceFile.facts (reader : Reader) (f : SourceFile) : Except FileError FileFacts :=
  match Path.language? f.path with
  | none => .error ⟨f.path, (Error.unsupportedLanguage f.path).message⟩
  | some language =>
    match reader language f.content with
    | none => .error ⟨f.path, (Error.unreadableSource f.path).message⟩
    | some captures => .ok (.ofCaptures f.path language.profile captures)

/-- The facts of the files that could be read, and the errors of the others. -/
def partitionFacts (results : List (Except FileError FileFacts)) :
    List FileFacts × List FileError :=
  (results.filterMap fun | .ok f => some f | .error _ => none,
    results.filterMap fun | .ok _ => none | .error e => some e)

namespace LinkedFile

def tree (files : List LinkedFile) : Tree :=
  files.foldl (fun t f => t.insert f.path f.direct) ∅

/-- The transitive relationships of a file: those that are not direct ones of it. -/
def transitive (g : Graph) (f : LinkedFile) : List Relationship :=
  if f.deferred.isEmpty then []
  else (g.resolveFile f.path f.deferred (.ofList ((g.tree.edges f.path).map (·.key)))).1

end LinkedFile

def total {α : Type} (count : α → Nat) (xs : List α) : Nat :=
  xs.foldr (fun x n => count x + n) 0

def resolveFacts (facts : List FileFacts) (errors : List FileError) (fileCount : Nat)
    (maxAncestors : Option Nat) : Report :=
  let index := Index.ofEntries (facts.flatMap (·.entries))
  let linked := facts.map (·.link index.types maxAncestors)
  let g : Graph := ⟨index, LinkedFile.tree linked⟩
  let transitive := linked.map fun f => (f.path, f.transitive g)
  let full := transitive.foldl (fun t f => Tree.extend t f.1 f.2) g.tree
  let relationships := full.flatten
  { relationships
    coupling := coupling relationships
    errors
    stats :=
      { files := fileCount
        failedFiles := errors.length
        declarations := index.types.size
        candidates := total (·.candidates) linked
        direct := total (·.direct.length) linked
        callExpressions := total (·.deferred.length) linked
        transitive := total (·.2.length) transitive } }

/-- The files in the order of their paths. -/
def sortByPath (files : List SourceFile) : List SourceFile :=
  files.mergeSort fun a b => (compare a.path b.path).isLE

def resolve (reader : Reader) (maxAncestors : Option Nat) (files : List SourceFile) : Report :=
  let (facts, errors) := partitionFacts ((sortByPath files).map (·.facts reader))
  resolveFacts facts errors files.length maxAncestors

end TypeCoupling
