import TypeCoupling.UsageKind

/-!
# Failures

Everything that can go wrong while files are resolved, and the words for it.
-/

namespace TypeCoupling

inductive Error where
  /-- No kind of usage has this name. -/
  | unknownUsageKind (text : String)
  /-- The source text of a file could not be read at all. -/
  | unreadableSource (path : String)
  /-- No language has this name or the extension of this file. -/
  | unsupportedLanguage (subject : String)
  /-- There is neither a file nor a directory to take sources from. -/
  | sourcesNotFound (root : String)
  deriving DecidableEq, Repr

namespace Error

def message : Error → String
  | unknownUsageKind text => "Parse error: Unknown usage type: " ++ text
  | unreadableSource path => "Parse error: Failed to parse " ++ path
  | unsupportedLanguage subject => "Unsupported language for file: " ++ subject
  | sourcesNotFound root => "IO error: sources not found: " ++ root

end Error

def UsageKind.parse (text : String) : Except Error UsageKind :=
  match UsageKind.ofName? text with
  | some k => .ok k
  | none => .error (.unknownUsageKind text)

def Language.parse (text : String) : Except Error Language :=
  match Language.ofName? text with
  | some l => .ok l
  | none => .error (.unsupportedLanguage text)

end TypeCoupling
