import TypeCoupling.Proofs.ArgumentScan
import TypeCoupling.Proofs.Splitting
import TypeCoupling.Proofs.UsagePass

/-!
Call chains as they are written, and what is deferred of them.

A chain is a receiver and members behind dots, with argument lists and blanks between them. The scan
leaves the receiver and the members with the dots, splitting gives them back, and so do the members
of the chain that is deferred.
-/

namespace TypeCoupling

/-! ### Chains as they are written -/

/-- A receiver or a member of a chain. -/
structure IsPart (name : String) : Prop where
  ne_empty : name ≠ ""
  plain : ∀ c ∈ name.toList,
    Text.isBlank c = false ∧ c ∉ ['(', ')', '\x22', '\x27', '.', '<']
  undecorated : ∀ d ∈ ["[]", "?"], ¬d.toList <:+ name.toList

/-- A text of blanks. -/
def Blank (gap : List Char) : Prop := ∀ c ∈ gap, Text.isBlank c = true

/-- What may stand behind a member: nothing, or an argument list. -/
inductive ArgumentsText : List Char → Prop
  | nothing : ArgumentsText []
  | list {gap inner : List Char} (hgap : Blank gap) (hinner : Balanced inner) :
      ArgumentsText (gap ++ '(' :: (inner ++ [')']))

/-- Members of a chain, each behind its dot. -/
inductive MembersText : List String → List Char → Prop
  | nil {gap : List Char} (hgap : Blank gap) : MembersText [] gap
  | cons {name : String} {names : List String} {before behind arguments rest : List Char}
      (hbefore : Blank before) (hbehind : Blank behind) (hname : IsPart name)
      (harguments : ArgumentsText arguments) (hrest : MembersText names rest) :
      MembersText (name :: names)
        (before ++ '.' :: (behind ++ (name.toList ++ (arguments ++ rest))))

lemma MembersText.isPart {names : List String} {text : List Char} (h : MembersText names text) :
    ∀ m ∈ names, IsPart m := by
  induction h with
  | nil _ => simp
  | cons _ _ hname _ _ ih =>
    intro m hm
    rcases List.mem_cons.mp hm with rfl | hm
    · exact hname
    · exact ih m hm

namespace ArgumentScan

lemma reads_part {name : String} (h : IsPart name) : start.Reads name.toList start name.toList := by
  refine reads_word fun c hc => ?_
  obtain ⟨hblank, hplain⟩ := h.plain c hc
  simp only [List.mem_cons, not_or] at hplain
  exact ⟨hblank, hplain.1, hplain.2.1⟩

lemma reads_arguments {text : List Char} (h : ArgumentsText text) : start.Reads text start [] := by
  cases h with
  | nothing => exact .nil _
  | list hgap hinner => exact (reads_blanks hgap).append (reads_argumentList hinner)

/-- **Of the members the scan keeps the dots and the names.** -/
lemma reads_members {names : List String} {text : List Char} (h : MembersText names text) :
    start.Reads text start (names.flatMap fun m => '.' :: m.toList) := by
  induction h with
  | nil hgap => exact reads_blanks hgap
  | @cons name names _ _ _ _ hbefore hbehind hname harguments _ ih =>
    have hdot : start.step '.' = (start, true) := by decide
    have htail := (reads_arguments harguments).append ih
    have hmember := (reads_blanks hbehind).append ((reads_part hname).append htail)
    simpa using (reads_blanks hbefore).append (.keep hdot hmember)

end ArgumentScan

/-- Without arguments and blanks a chain is its receiver and members with dots between them. -/
lemma stripArguments_chain {receiver : String} {members : List String} {text : String}
    {tail : List Char} (hreceiver : IsPart receiver) (htail : MembersText members tail)
    (htext : text.toList = receiver.toList ++ tail) :
    stripArguments text = Text.join "." (receiver :: members) := by
  have hreads := (ArgumentScan.reads_part hreceiver).append (ArgumentScan.reads_members htail)
  rw [← String.toList_inj, Text.toList_join_cons, stripArguments, String.toList_ofList, htext,
    hreads.kept]
  rfl

/-! ### What is deferred -/

lemma IsPart.dot_notMem {name : String} (h : IsPart name) : '.' ∉ name.toList := by
  intro hdot
  have hplain := (h.plain '.' hdot).2
  simp at hplain

/-- A part has no question marks to lose. -/
lemma IsPart.dropEndWhile_eq {name : String} (h : IsPart name) :
    Text.dropEndWhile (· == '?') name.toList = name.toList := by
  have hend : ¬['?'] <:+ name.toList := h.undecorated "?" (by simp)
  rcases hlast : name.toList.reverse with _ | ⟨c, cs⟩
  · simp [Text.dropEndWhile, List.reverse_eq_nil_iff.mp hlast]
  · have hname : name.toList = cs.reverse ++ [c] := by
      rw [← List.reverse_reverse name.toList, hlast, List.reverse_cons]
    have hc : c ≠ '?' := by
      rintro rfl
      exact hend ⟨cs.reverse, hname.symm⟩
    have hdrop : (c :: cs).dropWhile (· == '?') = c :: cs := by simp [hc]
    rw [Text.dropEndWhile, hlast, hdrop, ← hlast, List.reverse_reverse]

/-- The members of a chain are those it was made from. -/
lemma members_join {receiver : String} {members : List String}
    (h : ∀ q ∈ receiver :: members, IsPart q) :
    (⟨Text.join "." (receiver :: members), ".", true⟩ : CallChain).members = members := by
  have hsplit : Text.split "." (Text.join "." (receiver :: members)) = receiver :: members :=
    Text.split_join rfl fun q hq => (h q hq).dot_notMem
  have hmembers : ∀ m ∈ members, IsPart m := (List.forall_mem_cons.mp h).2
  have hmap : (members.map fun m => String.ofList (Text.dropEndWhile (· == '?') m.toList)) =
      members := by
    refine (List.map_congr_left fun m hm => ?_).trans (List.map_id members)
    rw [(hmembers m hm).dropEndWhile_eq, String.ofList_toList, id]
  have hfilter : members.filter (!·.isEmpty) = members := by
    rw [List.filter_eq_self]
    intro m hm
    simpa using (hmembers m hm).ne_empty
  simp only [CallChain.members, hsplit, if_true, List.drop_succ_cons, List.drop_zero, hmap, hfilter]

/-- Parts with dots between them can be the name of a type. -/
lemma isTypeName_join {parts : List String} (h : ∀ q ∈ parts, IsPart q) :
    isTypeName (Text.join "." parts) := by
  have hplain : ∀ c ∈ (Text.join "." parts).toList, c ≠ ' ' ∧ c ≠ '<' := by
    intro c hc
    rcases Text.mem_join hc with hdot | ⟨q, hq, hc⟩
    · obtain rfl : c = '.' := by simpa using hdot
      decide
    · obtain ⟨hblank, hplain⟩ := (h q hq).plain c hc
      constructor
      · rintro rfl
        exact absurd hblank (by decide)
      · rintro rfl
        simp at hplain
  rw [isTypeName_iff]
  exact ⟨fun hc => (hplain _ hc).1 rfl, fun hc => (hplain _ hc).2 rfl⟩

namespace UsageContext

variable {ctx : UsageContext}

/-- The parts of a chain are its receiver and its members. -/
lemma parts_of_chain (hprofile : ctx.profile = Language.csharp.profile) {s : Site}
    (hcall : s.isCall = true) {receiver : String} {members : List String}
    (h : ∀ q ∈ receiver :: members, IsPart q)
    (htext : stripArguments s.text = Text.join "." (receiver :: members)) :
    ctx.parts s = receiver :: members := by
  -- a chain does not start with a dot
  have hstart : Text.dropStart? "." (Text.join "." (receiver :: members)) = none := by
    have hreceiver : IsPart receiver := h receiver List.mem_cons_self
    refine Text.dropStart?_eq_none ?_
    rintro ⟨rest, hrest⟩
    have hdot : ".".toList = ['.'] := rfl
    rw [hdot, Text.toList_join_cons] at hrest
    rcases hchars : receiver.toList with _ | ⟨c, cs⟩
    · exact hreceiver.ne_empty (String.toList_eq_nil_iff.mp hchars)
    · rw [hchars] at hrest
      obtain rfl : '.' = c := (List.cons.inj hrest).1
      exact hreceiver.dot_notMem (by simp [hchars])
  have hclean : ∀ q ∈ receiver :: members,
      undecorate Language.csharp.profile.decorations q = q :=
    fun q hq => undecorate_eq_self (h q hq).undecorated
  simp only [parts, hprofile, hcall, if_true, htext]
  change (Text.split "." ((Text.dropStart? "." _).getD _)).map _ = _
  rw [hstart, Option.getD_none, Text.split_join rfl fun q hq => (h q hq).dot_notMem]
  exact (List.map_congr_left hclean).trans (List.map_id _)

/-- The name in front of the last member. -/
lemma nameOf_of_chain (hprofile : ctx.profile = Language.csharp.profile) {s : Site}
    (hcall : s.isCall = true) {receiver : String} {members : List String}
    (hmembers : members ≠ []) (hparts : ctx.parts s = receiver :: members) :
    ctx.nameOf s = Text.join "." (receiver :: members.dropLast) := by
  have hmember : ctx.endsInMember s = true := by
    rw [endsInMember, hcall, hprofile]
    rfl
  rw [nameOf, hmember, if_pos rfl, hparts, List.dropLast_cons_of_ne_nil hmembers, hprofile]
  rfl

end UsageContext

/-- **Call chains are deferred as they are written.** Take a C# file without bases and one call
whose text is a receiver, which is no key of an import, and at least one member, with argument lists
and blanks in any number between them. Then one chain is deferred, and its members are those of the
text. -/
theorem call_chain_deferred (ctx : UsageContext) (hprofile : ctx.profile = Language.csharp.profile)
    (hentries : ctx.entries ≠ []) (hbases : ctx.NoBases) {receiver : String}
    (hkey : ctx.imports.resolve? receiver = none) (hreceiver : IsPart receiver)
    {members : List String} (hmembers : members ≠ []) {tail : List Char}
    (htail : MembersText members tail) {c : Capture} (hrole : c.role = .callExpression)
    (htext : c.text.toList = receiver.toList ++ tail) :
    ∃ chain, (ctx.usages [c]).deferred = [chain] ∧ chain.members = members := by
  have hfirst := List.head?_eq_some_head hentries
  have hs : Site.ofCapture? c = some ⟨true, c.text, .usage, none⟩ := by
    simp [Site.ofCapture?, hrole]
  set s : Site := ⟨true, c.text, .usage, none⟩
  have hall : ∀ q ∈ receiver :: members, IsPart q :=
    List.forall_mem_cons.mpr ⟨hreceiver, htail.isPart⟩
  have hparts : ctx.parts s = receiver :: members :=
    UsageContext.parts_of_chain hprofile rfl hall (stripArguments_chain hreceiver htail htext)
  have hunexplained : ctx.explains? s = none := by
    rw [UsageContext.explains?, hparts]
    exact hkey
  -- the last member is dropped from the name, not from the chain
  have hname := UsageContext.nameOf_of_chain hprofile rfl hmembers hparts
  have hne : ctx.nameOf s ≠ "" := by
    rw [hname]
    exact Text.join_cons_ne_empty hreceiver.ne_empty _
  have htype : isTypeName (ctx.nameOf s) := by
    rw [hname]
    refine isTypeName_join (List.forall_mem_cons.mpr ⟨hreceiver, fun q hq => ?_⟩)
    exact htail.isPart q (List.mem_of_mem_dropLast hq)
  refine ⟨⟨Text.join "." (receiver :: members), ".", true⟩, ?_, members_join hall⟩
  rw [UsageContext.usages_single hbases hfirst hs, UsageContext.contribution,
    UsageContext.resolve_of_unexplained hunexplained,
    UsageContext.resolvePlain_of_typeName hne htype, hparts, hprofile]
  rfl

/-- A call with a literal and a nested call among its arguments, over two lines. -/
def findCustomer : Capture :=
  ⟨.callExpression, "order\n  .Find(\"\\\")\", f('(')) .Customer", 40, 78, 3⟩

/-- The arguments of `Find`: a literal with a quote and a parenthesis in it, and a call on another
literal. -/
lemma balanced_findArguments : Balanced "\"\\\")\", f('(')".toList := by
  have hescaped : LiteralBody '\x22' ['\\', '\x22', ')'] :=
    .escape _ (.char (by decide) (by decide) .nil)
  have hparenthesis : LiteralBody '\x27' ['('] := .char (by decide) (by decide) .nil
  have hinner : Balanced ['\x27', '(', '\x27'] := .literal (Or.inr rfl) hparenthesis .nil
  have hcall : Balanced ['f', '(', '\x27', '(', '\x27', ')'] :=
    .char (by decide) (by decide) (by decide) (by decide) (.list hinner .nil)
  exact .literal (Or.inl rfl) hescaped (.char (by decide) (by decide) (by decide) (by decide)
    (.char (by decide) (by decide) (by decide) (by decide) hcall))

lemma members_findCustomer :
    MembersText ["Find", "Customer"] "\n  .Find(\"\\\")\", f('(')) .Customer".toList := by
  have hfind : IsPart "Find" := ⟨by decide, by simp [Text.isBlank], by decide⟩
  have hcustomer : IsPart "Customer" := ⟨by decide, by simp [Text.isBlank], by decide⟩
  have hlast : MembersText ["Customer"] " .Customer".toList :=
    @MembersText.cons _ _ [' '] [] [] [] (by simp [Blank]; decide) (by simp [Blank]) hcustomer
      .nothing (.nil (by simp [Blank]))
  exact @MembersText.cons _ _ ['\n', ' ', ' '] [] _ _ (by simp [Blank]; decide) (by simp [Blank])
    hfind (@ArgumentsText.list [] _ (by simp [Blank]) balanced_findArguments) hlast

theorem call_chain_deferred_findCustomer :
    (MembersText ["Find", "Customer"] "\n  .Find(\"\\\")\", f('(')) .Customer".toList ∧
      modelsContext.imports.resolve? "order" = none) ∧
    ∃ chain, (modelsContext.usages [findCustomer]).deferred = [chain] ∧
      chain.members = ["Find", "Customer"] := by
  have hkey : modelsContext.imports.resolve? "order" = none := by cbv
  have horder : IsPart "order" := ⟨by decide, by simp [Text.isBlank], by decide⟩
  have hentries : modelsContext.entries ≠ [] := by simp [modelsContext, appContext]
  exact ⟨⟨members_findCustomer, hkey⟩, call_chain_deferred modelsContext rfl hentries
    (appContext_noBases _) hkey horder (by simp) members_findCustomer rfl rfl⟩

end TypeCoupling
