import TypeCoupling.Proofs.ArgumentScan
import TypeCoupling.Proofs.FirstOfKey
import TypeCoupling.Proofs.ImportKeys
import TypeCoupling.Proofs.Splitting
import TypeCoupling.Proofs.UsagePass

/-!
Names whose first part is looked up among the imports.

The first part of a name finds an import or not, and the other parts are put behind what it finds.
So an alias and the last part of the import's name are interchangeable in front of the same tail.
And a name with a leading delimiter, which is meant to be complete, is looked up like any other: the
delimiter is gone by then, and an import that is found under the first part takes its place.
-/

namespace TypeCoupling

namespace UsageContext

variable {ctx : UsageContext}

/-- The targets of candidates are those they were made from. -/
lemma map_target_candidates (s : Site) (owner : Entry) (targets : List String) :
    (ctx.candidates s owner targets).map (·.target) = targets.eraseDups := by
  have hinjective : Function.Injective fun t : String =>
      (⟨t, owner.qualifiedName, ctx.file, s.kind⟩ : Candidate) :=
    fun t t' h => congrArg Candidate.target h
  rw [candidates, eraseDups_map_of_injective hinjective, List.map_map, eraseDups_eq_firstsBy]
  exact List.map_id _

end UsageContext

/-! ### Names with a leading delimiter -/

/-- A path that is written with plain parts. -/
structure Profile.IsPath (p : Profile) (path : String) : Prop where
  plain : ∀ c ∈ (p.delimiter ++ path).toList, Text.isBlank c = false ∧ c ≠ '<'
  part : ∀ s ∈ Text.split p.delimiter path, s ≠ "" ∧ ∀ d ∈ p.decorations, ¬d.toList <:+ s.toList

lemma Profile.IsPath.ne_empty {p : Profile} {path : String} (h : p.IsPath path) : path ≠ "" := by
  obtain ⟨head, rest, hsplit⟩ := List.exists_cons_of_ne_nil (Text.split_ne_nil p.delimiter path)
  rw [← Text.join_split p.delimiter path, hsplit]
  exact Text.join_cons_ne_empty (h.part head (by simp [hsplit])).1 rest

lemma Profile.IsPath.isTypeName {p : Profile} {path : String} (h : p.IsPath path) :
    isTypeName path := by
  have hplain : ∀ c ∈ path.toList, Text.isBlank c = false ∧ c ≠ '<' := fun c hc =>
    h.plain c (by simp [hc])
  rw [isTypeName_iff]
  exact ⟨fun hc => absurd (hplain _ hc).1 (by decide), fun hc => (hplain _ hc).2 rfl⟩

namespace UsageContext

variable {ctx : UsageContext} {path : String}

/-- The parts of a path behind a leading delimiter are its own. -/
lemma parts_of_path (hpath : ctx.profile.IsPath path) :
    ctx.parts (.ofName (ctx.profile.delimiter ++ path)) =
      Text.split ctx.profile.delimiter path := by
  have htrim : Text.trim (ctx.profile.delimiter ++ path) = ctx.profile.delimiter ++ path := by
    refine Text.trim_eq_self ⟨fun c hc => ?_, fun c hc => ?_⟩
    · exact (hpath.plain c (List.mem_of_head? hc)).1
    · exact (hpath.plain c (List.mem_of_getLast? hc)).1
  have hclean : ∀ s ∈ Text.split ctx.profile.delimiter path,
      undecorate ctx.profile.decorations s = s :=
    fun s hs => undecorate_eq_self (hpath.part s hs).2
  simp only [parts, Site.ofName, htrim, Bool.false_eq_true, if_false, Text.dropStart?_append,
    Option.getD_some]
  exact (List.map_congr_left hclean).trans (List.map_id _)

/-- A path that no import explains is the first of its look-ups. -/
lemma resolve_path_of_unexplained (hpath : ctx.profile.IsPath path)
    (hkey : ctx.explains? (.ofName (ctx.profile.delimiter ++ path)) = none) (scope : String) :
    (ctx.resolve (.ofName (ctx.profile.delimiter ++ path)) scope).targets =
      ctx.lookups scope path := by
  have hname : ctx.nameOf (.ofName (ctx.profile.delimiter ++ path)) = path := by
    have hmember : ctx.endsInMember (.ofName (ctx.profile.delimiter ++ path)) = false := rfl
    rw [nameOf, hmember, parts_of_path hpath]
    exact Text.join_split _ _
  have hne := hpath.ne_empty
  have htype := hpath.isTypeName
  rw [← hname] at hne htype
  rw [resolve_of_unexplained hkey, resolvePlain_of_typeName hne htype, hname]

/-- A path that an import explains stands for what is behind the import, and for nothing else. -/
lemma resolve_path_of_explained (hpath : ctx.profile.IsPath path) {head : String}
    {rest : List String} (hsplit : Text.split ctx.profile.delimiter path = head :: rest)
    {i : Import} (hkey : ctx.explains? (.ofName (ctx.profile.delimiter ++ path)) = some i)
    (scope : String) :
    (ctx.resolve (.ofName (ctx.profile.delimiter ++ path)) scope).targets =
      [Text.join ctx.profile.delimiter (i.target :: rest)] := by
  have hmember : ctx.endsInMember (.ofName (ctx.profile.delimiter ++ path)) = false := rfl
  have hremainder : isTypeName (Text.join ctx.profile.delimiter rest) := by
    have htype : isTypeName (Text.join ctx.profile.delimiter (head :: rest)) := by
      rw [← hsplit, Text.join_split]
      exact hpath.isTypeName
    simpa using isTypeName_join_drop htype
  rw [resolve_of_explained hkey, parts_of_path hpath, hsplit]
  simp only [resolveImported, hmember, hremainder, Bool.false_eq_true, if_false, Bool.not_true,
    List.drop_succ_cons, List.drop_zero]
  rcases rest with _ | ⟨q, rest⟩
  · rfl
  · have hq : q ≠ "" := (hpath.part q (by simp [hsplit])).1
    have hne : (Text.join ctx.profile.delimiter (q :: rest)).isEmpty = false := by
      simpa using Text.join_cons_ne_empty hq rest
    rw [hne]
    rfl

end UsageContext

/-- **When a complete name stands for itself.** Take a file without bases that declares a type, and
one capture of a path behind a leading delimiter. The path is among its candidates exactly if what
the first part of the path finds among the imports, if anything, imports that very part. Any import
that is found takes the place of the first part, in the only candidate. -/
theorem complete_name_stands_for_itself_iff (ctx : UsageContext) (hentries : ctx.entries ≠ [])
    (hbases : ctx.NoBases) {c : Capture} (hrole : c.role = .qualifiedName) {path : String}
    (htext : c.text = ctx.profile.delimiter ++ path) (hpath : ctx.profile.IsPath path)
    {head : String} {rest : List String}
    (hsplit : Text.split ctx.profile.delimiter path = head :: rest) :
    (path ∈ (ctx.usages [c]).candidates.map (·.target) ↔
      ∀ i ∈ ctx.imports.resolve? head, i.target = head) ∧
    ∀ i ∈ ctx.imports.resolve? head, (ctx.usages [c]).candidates.map (·.target) =
      [Text.join ctx.profile.delimiter (i.target :: rest)] := by
  have hfirst := List.head?_eq_some_head hentries
  have hexplains : ctx.explains? (.ofName c.text) = ctx.imports.resolve? head := by
    rw [UsageContext.explains?, htext, UsageContext.parts_of_path hpath, hsplit]
    rfl
  have htargets : (ctx.usages [c]).candidates.map (·.target) =
      (ctx.resolve (.ofName c.text) (ctx.entries.head hentries).scope).targets.eraseDups := by
    rw [UsageContext.usages_of_name hbases hrole hfirst, UsageContext.candidatesOf,
      UsageContext.map_target_candidates]
    rfl
  rw [htargets, htext]
  rw [htext] at hexplains
  rcases hkey : ctx.imports.resolve? head with _ | i
  · rw [UsageContext.resolve_path_of_unexplained hpath (hexplains.trans hkey)]
    simp [UsageContext.lookups]
  · -- the one target has the other parts as they are, so it is the path if the first parts agree
    rw [UsageContext.resolve_path_of_explained hpath hsplit (hexplains.trans hkey)]
    have hself : path = Text.join ctx.profile.delimiter (i.target :: rest) ↔ i.target = head := by
      rw [← Text.join_split ctx.profile.delimiter path, hsplit]
      exact Text.join_cons_inj.trans eq_comm
    have hone : [Text.join ctx.profile.delimiter (i.target :: rest)].eraseDups =
        [Text.join ctx.profile.delimiter (i.target :: rest)] := rfl
    simp [hself, hone]

/-- A type outside all namespaces, in a file with one import. -/
def phpContext (imported : String) : UsageContext where
  profile := Language.php.profile
  imports := ImportTable.empty.push (.plain imported "\\" "a.php")
  entries := [Entry.plain "" "A" "\\" "a.php" .php]
  file := "a.php"
  maxAncestors := none

lemma phpContext_noBases (imported : String) : (phpContext imported).NoBases := by
  intro e he
  obtain rfl := List.mem_singleton.mp he
  exact ⟨rfl, rfl⟩

def completeFooBar : Capture := ⟨.qualifiedName, "\\Foo\\Bar", 30, 38, 3⟩

lemma split_fooBar : Text.split "\\" "Foo\\Bar" = ["Foo", "Bar"] := by cbv

lemma isPath_fooBar : Language.php.profile.IsPath "Foo\\Bar" := by
  refine ⟨by simp [Language.profile, Text.isBlank], ?_⟩
  change ∀ s ∈ Text.split "\\" "Foo\\Bar", _
  rw [split_fooBar]
  decide

/-- Under an import of `Other\Foo` the complete name `\Foo\Bar` stands for `Other\Foo\Bar` and not
for `Foo\Bar`. -/
theorem import_hides_complete_name :
    completeFooBar.text = Language.php.profile.delimiter ++ "Foo\\Bar" ∧
      Language.php.profile.IsPath "Foo\\Bar" ∧
      ((phpContext "Other\\Foo").usages [completeFooBar]).candidates =
        [⟨"Other\\Foo\\Bar", "A", "a.php", .usage⟩] ∧
      "Foo\\Bar" ∉
        ((phpContext "Other\\Foo").usages [completeFooBar]).candidates.map (·.target) := by
  have husages : ((phpContext "Other\\Foo").usages [completeFooBar]).candidates =
      [⟨"Other\\Foo\\Bar", "A", "a.php", .usage⟩] := by cbv
  refine ⟨rfl, isPath_fooBar, husages, ?_⟩
  rw [husages]
  decide

/-- An import of `Foo` itself does no harm. -/
theorem complete_name_stands_for_itself_iff_foo :
    (Language.php.profile.IsPath "Foo\\Bar" ∧ (phpContext "Foo").NoBases) ∧
      "Foo\\Bar" ∈ ((phpContext "Foo").usages [completeFooBar]).candidates.map (·.target) ∧
      "Foo\\Bar" ∉
        ((phpContext "Other\\Foo").usages [completeFooBar]).candidates.map (·.target) := by
  have hfoo : (phpContext "Foo").imports.resolve? "Foo" = some ⟨"Foo", "Foo", "", "a.php"⟩ := by cbv
  have hother : (phpContext "Other\\Foo").imports.resolve? "Foo" =
      some ⟨"Other\\Foo", "Foo", "", "a.php"⟩ := by cbv
  refine ⟨⟨isPath_fooBar, phpContext_noBases _⟩, ?_, ?_⟩
  · rw [(complete_name_stands_for_itself_iff (phpContext "Foo") (by simp [phpContext])
      (phpContext_noBases _) rfl rfl isPath_fooBar split_fooBar).1, hfoo]
    simp
  · rw [(complete_name_stands_for_itself_iff (phpContext "Other\\Foo") (by simp [phpContext])
      (phpContext_noBases _) rfl rfl isPath_fooBar split_fooBar).1, hother]
    simp

/-! ### Names behind an alias -/

/-- A name that can stand in front of a delimiter: no delimiter, blank or parenthesis is in it, and
it ends with no decoration. -/
structure Profile.IsFirstPart (p : Profile) (name : String) : Prop where
  ne_empty : name ≠ ""
  plain : ∀ c ∈ name.toList,
    Text.isBlank c = false ∧ c ∉ p.delimiter.toList ∧ c ≠ '(' ∧ c ≠ ')'
  undecorated : ∀ d ∈ p.decorations, ¬d.toList <:+ name.toList

/-- The delimiter of a language is one character, which is kept wherever it stands. -/
lemma Language.exists_delimiter (language : Language) :
    ∃ a, language.profile.delimiter.toList = [a] ∧ Text.isBlank a = false ∧ a ≠ '(' ∧ a ≠ ')' := by
  cases language with
  | csharp => exact ⟨'.', rfl, by decide, by decide, by decide⟩
  | php => exact ⟨'\\', rfl, by decide, by decide, by decide⟩

namespace UsageContext

variable {ctx : UsageContext}

/-- A tail as it is read: without its arguments in a call, without the blanks at its end in a
name. -/
def readTail (isCall : Bool) (tail : String) : String :=
  if isCall then stripArguments tail else Text.trimEnd tail

/-- The parts of a tail behind the first part of a name. -/
def tailParts (ctx : UsageContext) (isCall : Bool) (tail : String) : List String :=
  ((Text.split ctx.profile.delimiter (readTail isCall tail)).drop 1).map
    (undecorate ctx.profile.decorations)

/-- A tail that starts with a delimiter is read as one. -/
lemma readTail_start {d : String} {a : Char} (hd : d.toList = [a]) (hblank : Text.isBlank a = false)
    (hopen : a ≠ '(') (hclose : a ≠ ')') {tail : String}
    (htail : tail = "" ∨ d.toList <+: tail.toList) (isCall : Bool) :
    readTail isCall tail = "" ∨ d.toList <+: (readTail isCall tail).toList := by
  rcases htail with rfl | ⟨rest, hrest⟩
  · exact Or.inl (by cases isCall <;> rfl)
  · obtain rfl : tail = d ++ String.ofList rest := by
      rw [← String.toList_inj, ← hrest, String.toList_append, String.toList_ofList]
    refine Or.inr ?_
    cases isCall with
    | true =>
      have hstrip := stripArguments_append (s := d) (by simp [hd, hblank, hopen, hclose])
        (String.ofList rest)
      rw [readTail, if_pos rfl, hstrip, String.toList_append]
      exact List.prefix_append _ _
    | false =>
      have hlast : ∀ c ∈ d.toList.getLast?, Text.isBlank c = false := by simp [hd, hblank]
      simp only [readTail, Text.trimEnd, String.toList_append, Text.dropEndWhile_append hlast,
        String.toList_ofList, Bool.false_eq_true, if_false]
      exact List.prefix_append _ _

lemma tailParts_empty {language : Language} (hprofile : ctx.profile = language.profile)
    (isCall : Bool) : ctx.tailParts isCall "" = [] := by
  have hread : readTail isCall "" = "" := by cases isCall <;> rfl
  rw [tailParts, hread, hprofile]
  cases language <;> rfl

/-- **The first part separates from the tail**, in a name and in a call. -/
lemma parts_append {language : Language} (hprofile : ctx.profile = language.profile)
    {name tail : String} (hname : ctx.profile.IsFirstPart name)
    (htail : tail = "" ∨ ctx.profile.delimiter.toList <+: tail.toList) {s : Site}
    (htext : s.text = name ++ tail) : ctx.parts s = name :: ctx.tailParts s.isCall tail := by
  obtain ⟨a, hd, hblank, hopen, hclose⟩ := language.exists_delimiter
  rw [← hprofile] at hd
  have hread : (if s.isCall then stripArguments s.text else Text.trim s.text) =
      name ++ readTail s.isCall tail := by
    rw [htext]
    cases s.isCall with
    | true =>
      exact stripArguments_append (fun c hc => ⟨(hname.plain c hc).1, (hname.plain c hc).2.2⟩) tail
    | false => exact Text.trim_append hname.ne_empty (fun c hc => (hname.plain c hc).1) tail
  have ha : a ∉ name.toList := fun h => (hname.plain a h).2.1 (by simp [hd])
  simp only [parts, hread, Text.dropStart?_append_eq_none hd hname.ne_empty ha, Option.getD_none]
  rw [Text.split_append hd ha (readTail_start hd hblank hopen hclose htail _), List.map_cons,
    undecorate_eq_self hname.undecorated, tailParts]

/-- The file with other imports. -/
def withImports (ctx : UsageContext) (imports : ImportTable) : UsageContext := { ctx with imports }

/-- The file with the imports that some captures name, and no others. -/
def importing (ctx : UsageContext) (captures : List Capture) : UsageContext :=
  ctx.withImports (ImportTable.empty.addSimples ctx.profile.delimiter ctx.file captures)

/-- An import with nothing behind it stands for its target. -/
lemma resolveImported_bare (s : Site) (i : Import) :
    (ctx.resolveImported s i []).targets = [i.target] := by
  simp [resolveImported, isTypeName]

lemma resolve_of_first_part {s : Site} {name : String} {rest : List String}
    (hparts : ctx.parts s = name :: rest) {i : Import} (hi : ctx.imports.resolve? name = some i)
    (scope : String) : ctx.resolve s scope = ctx.resolveImported s i rest := by
  simp only [resolve, hparts, List.headD_cons, hi, List.drop_succ_cons, List.drop_zero]

end UsageContext

namespace ImportTable

/-- The latest import is found through its alias. -/
lemma resolve?_aliasLast_push (t : ImportTable) (i : Import) {aliasName : String}
    (h : aliasName ≠ "") :
    ((t.push i).aliasLast aliasName).resolve? aliasName = some { i with aliasName } := by
  have hlast : (t.push i).references.back? = some i := by simp [push]
  rw [aliasLast_of_back hlast, if_neg (by simpa using h)]
  simp [resolve?, push]

end ImportTable

/-- An import, and an alias that is written before it or after it. -/
structure AliasedImport (p : Profile) where
  imported : Capture
  before : Capture
  after : Capture
  imported_role : imported.role = .importedName
  before_role : before.role = .aliasBefore
  after_role : after.role = .aliasAfter
  same_alias : Text.lastWord before.text = Text.lastWord after.text
  last_isFirstPart : p.IsFirstPart (Text.lastPiece p.delimiter (Text.trim imported.text))
  alias_isFirstPart : p.IsFirstPart (Text.lastWord after.text)

namespace AliasedImport

variable {p : Profile} (a : AliasedImport p)

/-- The imported name. -/
def target : String := Text.trim a.imported.text

/-- The last part of the imported name, which finds the import without alias. -/
def lastPart : String := Text.lastPiece p.delimiter a.target

def aliasName : String := Text.lastWord a.after.text

/-- The import as it is listed without alias. -/
def plain (file : String) : Import := .plain a.target p.delimiter file

lemma resolve?_plain (file : String) :
    (ImportTable.empty.addSimples p.delimiter file [a.imported]).resolve? a.lastPart =
      some (a.plain file) := by
  have htable : ImportTable.empty.addSimples p.delimiter file [a.imported] =
      ImportTable.empty.push (a.plain file) := by
    simp [ImportTable.addSimples, ImportTable.addSimple, a.imported_role, plain, target]
  rw [htable]
  exact ImportTable.resolve?_push _ _

/-- Wherever the alias is written, it finds the import, which keeps its target. -/
lemma resolve?_aliased {captures : List Capture}
    (h : captures = [a.before, a.imported] ∨ captures = [a.imported, a.after]) (file : String) :
    (ImportTable.empty.addSimples p.delimiter file captures).resolve? a.aliasName =
      some { a.plain file with aliasName := a.aliasName } := by
  have htable : ImportTable.empty.addSimples p.delimiter file captures =
      (ImportTable.empty.push (a.plain file)).aliasLast a.aliasName := by
    rcases h with rfl | rfl
    · simp [ImportTable.addSimples, ImportTable.addSimple, a.imported_role, a.before_role, plain,
        target, aliasName, a.same_alias]
    · simp [ImportTable.addSimples, ImportTable.addSimple, a.imported_role, a.after_role, plain,
        target, aliasName]
  rw [htable]
  exact ImportTable.resolve?_aliasLast_push _ _ a.alias_isFirstPart.ne_empty

end AliasedImport

namespace UsageContext

variable {ctx : UsageContext}

/-- What a name or a call has whose first part finds an import. -/
lemma usages_of_import {language : Language} (hprofile : ctx.profile = language.profile)
    (hbases : ctx.NoBases) {first : Entry} (hfirst : ctx.entries.head? = some first)
    {name tail : String} (hname : ctx.profile.IsFirstPart name)
    (htail : tail = "" ∨ ctx.profile.delimiter.toList <+: tail.toList) {i : Import}
    (hi : ctx.imports.resolve? name = some i) {c : Capture} {isCall : Bool}
    (hs : Site.ofCapture? c = some ⟨isCall, c.text, .usage, none⟩) (htext : c.text = name ++ tail) :
    ctx.usages [c] =
      ⟨ctx.candidates ⟨isCall, c.text, .usage, none⟩ first
        (ctx.resolveImported ⟨isCall, c.text, .usage, none⟩ i (ctx.tailParts isCall tail)).targets,
        []⟩ := by
  set s : Site := ⟨isCall, c.text, .usage, none⟩
  have hparts : ctx.parts s = name :: ctx.tailParts isCall tail :=
    parts_append hprofile hname htail htext
  have hcontribution : ctx.contribution first s =
      ctx.resolveImported s i (ctx.tailParts isCall tail) := resolve_of_first_part hparts hi _
  rw [usages_single hbases hfirst hs, candidatesOf, hcontribution]
  rfl

/-- **First parts that find the same target are interchangeable** in front of a tail. -/
lemma usages_eq_of_same_target {language : Language} (hprofile : ctx.profile = language.profile)
    (hbases : ctx.NoBases) {t t' : ImportTable} {i i' : Import} {name name' tail : String}
    (hname : ctx.profile.IsFirstPart name) (hname' : ctx.profile.IsFirstPart name')
    (htail : tail = "" ∨ ctx.profile.delimiter.toList <+: tail.toList)
    (hi : t.resolve? name = some i) (hi' : t'.resolve? name' = some i')
    (htarget : i.target = i'.target) {c c' : Capture} {isCall : Bool}
    (hs : Site.ofCapture? c = some ⟨isCall, c.text, .usage, none⟩)
    (hs' : Site.ofCapture? c' = some ⟨isCall, c'.text, .usage, none⟩)
    (htext : c.text = name ++ tail) (htext' : c'.text = name' ++ tail) :
    (ctx.withImports t).usages [c] = (ctx.withImports t').usages [c'] := by
  rcases hfirst : ctx.entries.head? with _ | first
  · have hnone : (ctx.withImports t).entries.head? = none := hfirst
    have hnone' : (ctx.withImports t').entries.head? = none := hfirst
    rw [usages_of_no_entries hnone, usages_of_no_entries hnone']
  · have hresolved : ((ctx.withImports t).resolveImported ⟨isCall, c.text, .usage, none⟩ i
        ((ctx.withImports t).tailParts isCall tail)).targets =
          ((ctx.withImports t').resolveImported ⟨isCall, c'.text, .usage, none⟩ i'
            ((ctx.withImports t').tailParts isCall tail)).targets := by
      simp only [resolveImported, htarget]
      rfl
    rw [@usages_of_import (ctx.withImports t) language hprofile hbases first hfirst _ _ hname htail
        _ hi _ _ hs htext,
      @usages_of_import (ctx.withImports t') language hprofile hbases first hfirst _ _ hname' htail
        _ hi' _ _ hs' htext', hresolved]
    rfl

end UsageContext

/-- **An alias stands for its import.** Take a file of a language without bases, an import and an
alias for it, and a tail that is empty or starts with the delimiter. A name or a call that puts the
tail behind the last part of the import's name has, under the import alone, the candidates and the
deferred calls that it has behind the alias, under the import with the alias, wherever that is
written. Without a tail both stand for the imported name. -/
theorem alias_stands_for_import (language : Language) (ctx : UsageContext)
    (hprofile : ctx.profile = language.profile) (hbases : ctx.NoBases)
    (a : AliasedImport ctx.profile) {tail : String}
    (htail : tail = "" ∨ ctx.profile.delimiter.toList <+: tail.toList) {c c' : Capture}
    (hkind : c.role = .qualifiedName ∨ c.role = .callExpression) (hsame : c'.role = c.role)
    (htext : c.text = a.lastPart ++ tail) (htext' : c'.text = a.aliasName ++ tail) :
    (ctx.importing [a.imported]).usages [c] = (ctx.importing [a.before, a.imported]).usages [c'] ∧
      (ctx.importing [a.imported]).usages [c] =
        (ctx.importing [a.imported, a.after]).usages [c'] ∧
      (tail = "" → ∀ first ∈ ctx.entries.head?,
        (ctx.importing [a.imported]).usages [c] =
          ⟨[⟨a.target, first.qualifiedName, ctx.file, .usage⟩], []⟩) := by
  obtain ⟨isCall, hs, hs'⟩ : ∃ isCall, Site.ofCapture? c = some ⟨isCall, c.text, .usage, none⟩ ∧
      Site.ofCapture? c' = some ⟨isCall, c'.text, .usage, none⟩ := by
    rcases hkind with hrole | hrole
    · exact ⟨false, by simp [Site.ofCapture?, hrole], by simp [Site.ofCapture?, hsame, hrole]⟩
    · exact ⟨true, by simp [Site.ofCapture?, hrole], by simp [Site.ofCapture?, hsame, hrole]⟩
  have hplain := a.resolve?_plain ctx.file
  have haliased : ∀ captures, captures = [a.before, a.imported] ∨ captures = [a.imported, a.after] →
      (ctx.importing [a.imported]).usages [c] = (ctx.importing captures).usages [c'] :=
    fun captures h => UsageContext.usages_eq_of_same_target hprofile hbases a.last_isFirstPart
      a.alias_isFirstPart htail hplain (a.resolve?_aliased h ctx.file) rfl hs hs' htext htext'
  refine ⟨haliased _ (Or.inl rfl), haliased _ (Or.inr rfl), ?_⟩
  rintro rfl first hfirst
  have husages := @UsageContext.usages_of_import (ctx.importing [a.imported]) language hprofile
    hbases first hfirst _ _ a.last_isFirstPart htail _ hplain _ _ hs htext
  have hparts : (ctx.importing [a.imported]).tailParts isCall "" = [] :=
    @UsageContext.tailParts_empty _ language hprofile isCall
  rw [husages, hparts, UsageContext.resolveImported_bare]
  rfl

/-- `Lib.A` under the alias `B`. -/
def libA : AliasedImport Language.csharp.profile where
  imported := ⟨.importedName, "Lib.A", 10, 15, 1⟩
  before := ⟨.aliasBefore, "B", 6, 7, 1⟩
  after := ⟨.aliasAfter, "as B", 16, 20, 1⟩
  imported_role := rfl
  before_role := rfl
  after_role := rfl
  same_alias := by cbv
  last_isFirstPart := by
    have hlast : Text.lastPiece "." (Text.trim "Lib.A") = "A" := by cbv
    exact hlast ▸ ⟨by decide, by simp [Language.profile, Text.isBlank], by decide⟩
  alias_isFirstPart := by
    have halias : Text.lastWord "as B" = "B" := by cbv
    exact halias ▸ ⟨by decide, by simp [Language.profile, Text.isBlank], by decide⟩

def throughLastPart : Capture := ⟨.callExpression, "A.C.F(x)", 40, 48, 3⟩

def throughAlias : Capture := ⟨.callExpression, "B.C.F(x)", 40, 48, 3⟩

/-- A call on something below the import, through its last part and through its alias. -/
theorem alias_stands_for_import_libA :
    (throughLastPart.text = libA.lastPart ++ ".C.F(x)" ∧
      throughAlias.text = libA.aliasName ++ ".C.F(x)") ∧
    ((appContext .empty).importing [libA.imported]).usages [throughLastPart] =
      ⟨[⟨"Lib.A.C", "App.A", "a.cs", .usage⟩], []⟩ ∧
    ((appContext .empty).importing [libA.before, libA.imported]).usages [throughAlias] =
      ⟨[⟨"Lib.A.C", "App.A", "a.cs", .usage⟩], []⟩ ∧
    ((appContext .empty).importing [libA.imported, libA.after]).usages [throughAlias] =
      ⟨[⟨"Lib.A.C", "App.A", "a.cs", .usage⟩], []⟩ := by
  have htext : throughLastPart.text = libA.lastPart ++ ".C.F(x)" := by cbv
  have htext' : throughAlias.text = libA.aliasName ++ ".C.F(x)" := by cbv
  have husages : ((appContext .empty).importing [libA.imported]).usages [throughLastPart] =
      ⟨[⟨"Lib.A.C", "App.A", "a.cs", .usage⟩], []⟩ := by cbv
  have hsame : throughAlias.role = throughLastPart.role := rfl
  obtain ⟨hbefore, hafter, -⟩ := alias_stands_for_import .csharp (appContext .empty) rfl
    (appContext_noBases _) libA (Or.inr ⟨_, rfl⟩) (Or.inr rfl) hsame htext htext'
  exact ⟨⟨htext, htext'⟩, husages, hbefore.symm.trans husages, hafter.symm.trans husages⟩

end TypeCoupling
