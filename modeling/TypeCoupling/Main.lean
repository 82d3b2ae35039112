import TypeCoupling.Command

/-!
# The program

Takes a snapshot of the files that the command line asks about, runs the command on it, and writes
what comes of it.
-/

namespace TypeCoupling.Snapshot

def addPath (t : FileTree) (path : String) : IO FileTree := do
  let here ← IO.currentDir
  let pieces := Path.pieces path
  let mut t := t
  for n in List.range pieces.length do
    let start := Text.join "/" (pieces.take (n + 1))
    if ← (here / start).isDir then
      if let some place := t.locate? start then
        t := t.addDirectory place
  return t

def addFile (t : FileTree) (path : String) : IO FileTree := do
  let here ← IO.currentDir
  let t ← addPath t path
  match t.locate? path with
  | none => return t
  | some place =>
    if (← (here / path).pathExists) && !(← (here / path).isDir) then
      return t.addFile place (← IO.FS.readBinFile path)
    else return t

/-- Whether discovery looks into a file of this name. -/
def matters (name : String) : Bool :=
  (Path.language? name).isSome || Discovery.ruleFiles.any (·.getLast? == some name)

/-- Adds what is below a directory, down to some depth. Links are not followed. -/
def addBelow : (depth : Nat) → FileTree → Place → String → IO FileTree
  | 0, t, _, _ => return t
  | depth + 1, t, place, path => do
    let mut t := t.addDirectory place
    for entry in ← ((← IO.currentDir) / path).readDir do
      let inner := Path.append path entry.fileName
      let innerPlace := place ++ [entry.fileName]
      match (← entry.path.symlinkMetadata).type with
      | .dir => t ← addBelow depth t innerPlace inner
      | .file =>
        if matters entry.fileName then
          t := t.addFile innerPlace (← IO.FS.readBinFile entry.path)
      | _ => pure ()
    return t

def addRules (t : FileTree) (place : Place) : IO FileTree := do
  let mut t := t
  for directory in FileTree.pathTo place do
    for name in Discovery.ruleFiles do
      t ← addFile t ("/" ++ Text.join "/" (directory ++ name))
  return t

def addSources (t : FileTree) (root : String) : IO FileTree := do
  let t ← addFile t root
  match t.locate? root with
  | none => return t
  | some place =>
    if t.isDirectoryAt place then addBelow 1000 (← addRules t place) place root else return t

def ofCommand (c : Command) : IO FileTree := do
  let home := (Path.pieces (← IO.currentDir).toString).filter (!Path.isVoid ·)
  let mut t := FileTree.empty home
  for path in c.paths do
    t ← addFile t path
  match c.sources? with
  | none => return t
  | some root => addSources t root

end TypeCoupling.Snapshot

open TypeCoupling

def main (arguments : List String) : IO UInt32 := do
  let tree ←
    match Request.parse? false arguments with
    | some (.run command) => Snapshot.ofCommand command
    | _ => pure (.empty [])
  let result := execute tree arguments
  IO.print result.outcome.output
  for path in result.outcome.written do
    if let some bytes := result.outcome.tree.read? path then
      IO.FS.writeBinFile path bytes
  if let some complaint := result.complaint then
    IO.eprintln complaint
  return result.code.toUInt32
