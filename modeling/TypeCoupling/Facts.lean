import TypeCoupling.Resolution

/-!
# Resolution with shared keys

The stages of a resolution over given facts, with one set of known edges for all files: the
chains of every file are followed over the keys of all direct relationships.
-/

namespace TypeCoupling

structure StagedResolution where
  files : List (FileFacts × FileUsages × List Relationship)
  transitive : List Relationship
  relationships : List Relationship

/-- Adds each edge to those of the file it starts in. -/
def Tree.extendEach (t : Tree) (rs : List Relationship) : Tree :=
  rs.foldl (fun t r => Tree.extend t r.fromFile [r]) t

def resolveStaged (facts : List FileFacts) (maxAncestors : Option Nat) : StagedResolution :=
  let facts := facts.mergeSort fun a b => (compare a.path b.path).isLE
  let index := Index.ofEntries (facts.flatMap (·.entries))
  let files := facts.map fun f =>
    let u := f.usages maxAncestors
    (f, u, index.types.link f.entries f.profile.language u.candidates)
  let tree : Tree := files.foldl (fun t f => t.insert f.1.path f.2.2) ∅
  let chains : Std.TreeMap String (List CallChain) :=
    files.foldl (fun t f => t.insert f.1.path f.2.1.deferred) ∅
  let seen : Std.HashSet EdgeKey := .ofList (tree.values.flatten.map (·.key))
  let transitive := (Graph.resolveAll ⟨index, tree⟩ chains.toList seen).1
  { files, transitive, relationships := (tree.extendEach transitive).flatten }

end TypeCoupling
