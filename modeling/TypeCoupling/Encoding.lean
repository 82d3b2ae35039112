import TypeCoupling.Json
import TypeCoupling.Resolution

/-!
# The report as JSON

The fields of each object come in a fixed order; the coupling is an object with a field per file.
-/

namespace TypeCoupling

namespace Json

def texts (ss : List String) : Json := array (ss.map text)

end Json

def Relationship.toJson (r : Relationship) : Json :=
  .object [("from_fqtn", .text r.fromName), ("from_file", .text r.fromFile),
    ("from_class_name", .text r.fromType), ("to_fqtn", .text r.toName),
    ("to_file", .text r.toFile), ("to_class_name", .text r.toType),
    ("usage_type", .text r.kind.name)]

def FileCoupling.toJson (c : FileCoupling) : Json :=
  .object [("afferent", .count c.afferent), ("efferent", .count c.efferent),
    ("instability", .real c.instability), ("dependents", .texts c.dependents),
    ("dependencies", .texts c.dependencies)]

def FileError.toJson (e : FileError) : Json :=
  .object [("path", .text e.path), ("message", .text e.message)]

def Stats.toJson (s : Stats) : Json :=
  .object [("files", .count s.files), ("failed_files", .count s.failedFiles),
    ("declarations", .count s.declarations), ("candidates", .count s.candidates),
    ("direct", .count s.direct), ("unresolved_call_expressions", .count s.callExpressions),
    ("transitive", .count s.transitive)]

/-- The coupling of all files, by file. -/
def couplingJson (cs : List FileCoupling) : Json := .object (cs.map fun c => (c.file, c.toJson))

namespace Report

/-- The fields of a report. -/
def fields (r : Report) : List (String × Json) :=
  [("relationships", .array (r.relationships.map (·.toJson))),
    ("coupling", couplingJson r.coupling),
    ("errors", .array (r.errors.map (·.toJson))),
    ("stats", r.stats.toJson)]

def toJson (r : Report) : Json := .object r.fields

end Report

end TypeCoupling
