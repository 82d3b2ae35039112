import Std.Data.HashSet
import TypeCoupling.CallChain
import TypeCoupling.Declaration
import TypeCoupling.Import
import TypeCoupling.UsageKind

/-!
# Usages of a file

Each place that names a type becomes candidates: the qualified names that the text may stand for.
A name that an import explains has one candidate. Any other name has all plausible ones, and the
index of declared types decides later which of them exist.
-/

namespace TypeCoupling

structure Candidate where
  /-- Qualified name of the type that may be used. -/
  target : String
  /-- Qualified name of the type that uses it. -/
  source : String
  file : String
  kind : UsageKind
  deriving DecidableEq, Repr

structure Site where
  isCall : Bool
  text : String
  kind : UsageKind
  /-- Qualified name of the declaring type, for a base. -/
  owner : Option String
  deriving DecidableEq, Repr

structure FileUsages where
  candidates : List Candidate
  /-- Call chains to be followed when all types are known. -/
  deferred : List CallChain
  deriving DecidableEq, Repr

structure UsageContext where
  profile : Profile
  imports : ImportTable
  /-- The types the file declares. -/
  entries : List Entry
  file : String
  /-- How many namespaces around a type are tried, all of them if none is given. -/
  maxAncestors : Option Nat

structure Resolved where
  /-- A further text that needs no look from here on. -/
  settled : String
  targets : List String
  deferred : Option CallChain
  deriving DecidableEq, Repr

/-- A name with a space or type arguments is no name of a type. -/
def isTypeName (name : String) : Bool :=
  !name.toList.contains ' ' && !name.toList.contains '<'

namespace UsageContext

/-- The parts of a site's text, each without its decoration. Arguments of a call and one leading
delimiter are no parts. -/
def parts (ctx : UsageContext) (s : Site) : List String :=
  let d := ctx.profile.delimiter
  let text := if s.isCall then stripArguments s.text else Text.trim s.text
  (Text.split d ((Text.dropStart? d text).getD text)).map (undecorate ctx.profile.decorations)

def endsInMember (ctx : UsageContext) (s : Site) : Bool :=
  s.isCall && ctx.profile.callsLookLikeNames

/-- Goes outward from a namespace whose parts are given from the last to the first, after `depth`
rounds. Each round leaves one part out, and the namespace that remains is tried. -/
def outward (ctx : UsageContext) : (depth : Nat) → (parts : List String) → List String
  | depth, _ :: part :: outer =>
    if ctx.maxAncestors.any (· ≤ depth) then []
    else
      Text.join ctx.profile.delimiter (part :: outer).reverse ::
        ctx.outward (depth + 1) (part :: outer)
  | _, _ => []

/-- The namespaces around a namespace that are tried, the nearest first. -/
def ancestors (ctx : UsageContext) (scope : String) : List String :=
  ctx.outward 0 (Text.split ctx.profile.delimiter scope).reverse

def lookups (ctx : UsageContext) (scope name : String) : List String :=
  let below (outer : String) := outer ++ ctx.profile.delimiter ++ name
  let own := if scope.isEmpty then [] else [below scope]
  let imported :=
    if ctx.profile.crossesImports then ctx.imports.references.toList.map (below ·.target) else []
  name :: own ++ (ctx.ancestors scope).map below ++ imported

def resolveImported (ctx : UsageContext) (s : Site) (i : Import) (rest : List String) :
    Resolved :=
  let d := ctx.profile.delimiter
  let remainder := Text.join d (if ctx.endsInMember s then rest.dropLast else rest)
  let targets :=
    if !isTypeName remainder then []
    else if remainder.isEmpty then [i.target]
    else [i.target ++ d ++ remainder]
  ⟨remainder, targets, none⟩

/-- A site that no import explains. A call is deferred with all its parts. -/
def resolvePlain (ctx : UsageContext) (s : Site) (scope : String) (parts : List String) :
    Resolved :=
  let d := ctx.profile.delimiter
  let name := Text.join d (if ctx.endsInMember s then parts.dropLast else parts)
  if !isTypeName name then ⟨name, [], none⟩
  else
    let chain : CallChain := ⟨Text.join d parts, d, ctx.profile.callsLookLikeNames⟩
    ⟨name, if name.isEmpty then [] else ctx.lookups scope name,
      if s.isCall then some chain else none⟩

def resolve (ctx : UsageContext) (s : Site) (scope : String) : Resolved :=
  let parts := ctx.parts s
  match ctx.imports.resolve? (parts.headD "") with
  | some i => ctx.resolveImported s i (parts.drop 1)
  | none => ctx.resolvePlain s scope parts

/-- The type a site belongs to: the one that declares the base, else the first of the file. -/
def ownerOf (ctx : UsageContext) (first : Entry) (s : Site) : Entry :=
  (s.owner.bind fun name => ctx.entries.find? (·.qualifiedName == name)).getD first

def candidates (ctx : UsageContext) (s : Site) (owner : Entry) (targets : List String) :
    List Candidate :=
  (targets.map fun t => ⟨t, owner.qualifiedName, ctx.file, s.kind⟩).eraseDups

end UsageContext

namespace Site

/-- The bases of a declared type: interfaces, then the base class. -/
def ofEntry (e : Entry) : List Site :=
  e.implemented.map (⟨false, ·, .implementation, some e.qualifiedName⟩) ++
    e.extended.toList.map (⟨false, ·, .extension, some e.qualifiedName⟩)

def ofCapture? (c : Capture) : Option Site :=
  match c.role with
  | .qualifiedName => some ⟨false, c.text, .usage, none⟩
  | .callExpression => some ⟨true, c.text, .usage, none⟩
  | _ => none

end Site

structure UsagePass where
  /-- Texts that need no further look. -/
  settled : Std.HashSet String
  candidates : Array Candidate
  deferred : Array CallChain

namespace UsagePass

def start : UsagePass := ⟨∅, #[], #[]⟩

/-- Takes one site. A text is looked at once: its first site decides its role. -/
def step (ctx : UsageContext) (first : Entry) (pass : UsagePass) (s : Site) : UsagePass :=
  if pass.settled.contains s.text then pass
  else
    let owner := ctx.ownerOf first s
    let r := ctx.resolve s owner.scope
    { settled := (pass.settled.insert s.text).insert r.settled
      candidates := pass.candidates ++ ctx.candidates s owner r.targets
      deferred := pass.deferred ++ r.deferred.toList }

end UsagePass

namespace UsageContext

/-- The sites of a file: the bases of its types, then its usage captures in document order. -/
def sites (ctx : UsageContext) (captures : List Capture) : List Site :=
  ctx.entries.flatMap Site.ofEntry ++ captures.filterMap Site.ofCapture?

/-- What a file uses. A file that declares no type uses nothing. -/
def usages (ctx : UsageContext) (captures : List Capture) : FileUsages :=
  match ctx.entries with
  | [] => ⟨[], []⟩
  | first :: _ =>
    let pass := (ctx.sites captures).foldl (UsagePass.step ctx first) .start
    ⟨pass.candidates.toList, pass.deferred.toList⟩

end UsageContext

end TypeCoupling
