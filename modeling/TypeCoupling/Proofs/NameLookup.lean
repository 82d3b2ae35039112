import TypeCoupling.Proofs.FirstOfKey
import TypeCoupling.Proofs.UsagePass

/-!
What a name stands for that no import explains.

The rule of the look-up: the name itself, the name in the namespace of the type, the name in the
namespaces around it from the nearest to the farthest, and the name behind every import. The rule
is said with the starts of a list of parts, independently of how they are counted off.
-/

namespace TypeCoupling

/-! ### Starts of a list -/

section Starts

variable {α : Type} [DecidableEq α]

/-- The starts of a list that are neither empty nor the list itself, the longest first. -/
def properStarts (l : List α) : List (List α) :=
  (l.inits.filter fun p => p ≠ [] ∧ p ≠ l).reverse

/-- All starts but the list itself are starts of what stands before its last element. -/
lemma properStarts_append_singleton (l : List α) (x : α) :
    properStarts (l ++ [x]) = (l.inits.filter (· ≠ [])).reverse := by
  have hlonger : ∀ p ∈ l.inits, p ≠ l ++ [x] := by
    rintro p hp rfl
    have := ((List.mem_inits _ _).mp hp).length_le
    simp at this
  have hfilter : (l.inits.filter fun p => p ≠ [] ∧ p ≠ l ++ [x]) = l.inits.filter (· ≠ []) :=
    List.filter_congr fun p hp => by simp [hlonger p hp]
  rw [properStarts, List.inits_append, List.filter_append, hfilter]
  simp

/-- The longest proper start leaves the last element out, and the others are those of it. -/
lemma properStarts_append_pair (l : List α) (x y : α) :
    properStarts (l ++ [x] ++ [y]) = (l ++ [x]) :: properStarts (l ++ [x]) := by
  rw [properStarts_append_singleton, properStarts_append_singleton, List.inits_append,
    List.filter_append, List.reverse_append]
  simp

end Starts

/-! ### The rule -/

namespace UsageContext

/-- **The look-up rule** for a name in a namespace: the name, the name in the namespace, in the
namespaces around it from the longest start to the shortest, as many as are allowed, and behind
every import in the order of the imports. -/
def lookupRule (ctx : UsageContext) (scope name : String) : List String :=
  let d := ctx.profile.delimiter
  let segments := Text.split d scope
  let around := (segments.inits.filter fun p => p ≠ [] ∧ p ≠ segments).reverse
  let tried := match ctx.maxAncestors with
    | none => around
    | some n => around.take n
  [name] ++ (if scope = "" then [] else [scope ++ d ++ name]) ++
    tried.map (fun p => Text.join d p ++ d ++ name) ++
    (if ctx.profile.crossesImports then
      ctx.imports.references.toList.map (fun i => i.target ++ d ++ name) else [])

variable {ctx : UsageContext}

/-- **The rounds outward** come upon the proper starts of the parts, from the longest to the
shortest, as many as the rounds before have left. -/
lemma outward_eq (depth : Nat) (parts : List String) :
    ctx.outward depth parts =
      (match ctx.maxAncestors with
        | none => properStarts parts.reverse
        | some n => (properStarts parts.reverse).take (n - depth)).map
          (Text.join ctx.profile.delimiter) := by
  fun_induction outward with
  | case1 depth last part outer hcap =>
    obtain ⟨n, hn, hle⟩ := (Option.any_eq_true _ _).mp hcap
    have hused : n - depth = 0 := Nat.sub_eq_zero_of_le (by simpa using hle)
    simp only [hn, hused, List.take_zero, List.map_nil]
  | case2 depth last part outer hcap ih =>
    have hstarts : properStarts (last :: part :: outer).reverse =
        (part :: outer).reverse :: properStarts (part :: outer).reverse := by
      simpa using properStarts_append_pair outer.reverse part last
    rw [ih, hstarts]
    rcases hmax : ctx.maxAncestors with _ | n
    · rfl
    · -- a round is left, and it takes the longest start
      have hleft : n - depth = n - (depth + 1) + 1 := by
        have : ¬n ≤ depth := by simpa [hmax] using hcap
        omega
      simp only [hleft, List.take_succ_cons, List.map_cons]
  | case3 parts depth hshort =>
    have hnone : properStarts parts.reverse = [] := by
      rcases parts with _ | ⟨x, _ | ⟨y, parts⟩⟩
      · rfl
      · exact properStarts_append_singleton [] x
      · exact absurd rfl (hshort x y parts)
    rw [hnone]
    cases ctx.maxAncestors <;> simp

lemma lookups_eq_lookupRule (scope name : String) :
    ctx.lookups scope name = ctx.lookupRule scope name := by
  unfold lookups lookupRule ancestors
  rw [outward_eq, List.reverse_reverse]
  unfold properStarts
  rcases ctx.maxAncestors with _ | n
  · simp [Function.comp_def]
  · simp [Function.comp_def]

end UsageContext

/-- **A name that no import explains has the candidates of the look-up rule.** Take a file without
bases and one capture of a name or a call whose first part is no key of an import. If what it names,
without the called member, is the name of a type, then its candidates are the names of the rule in
order, each at its first occurrence, and they belong to the first type of the file. -/
theorem unimported_name_follows_rule (ctx : UsageContext) (hbases : ctx.NoBases) {first : Entry}
    (hfirst : ctx.entries.head? = some first) {c : Capture} {s : Site}
    (hs : Site.ofCapture? c = some s) (hkey : ctx.explains? s = none) (hne : ctx.nameOf s ≠ "")
    (htype : ' ' ∉ (ctx.nameOf s).toList ∧ '<' ∉ (ctx.nameOf s).toList) :
    (ctx.usages [c]).candidates =
      (firstsBy id (ctx.lookupRule first.scope (ctx.nameOf s))).map
        fun target => ⟨target, first.qualifiedName, ctx.file, .usage⟩ := by
  obtain ⟨hkind, hbase⟩ := Site.frame_of_ofCapture? hs
  have howner : ctx.ownerOf first s = first := by simp [UsageContext.ownerOf, hbase]
  have htargets : (ctx.contribution first s).targets =
      ctx.lookupRule first.scope (ctx.nameOf s) := by
    rw [UsageContext.contribution, howner, UsageContext.resolve_of_unexplained hkey,
      UsageContext.resolvePlain_of_typeName hne (isTypeName_iff.mpr htype),
      UsageContext.lookups_eq_lookupRule]
  rw [UsageContext.usages_single hbases hfirst hs]
  simp only [UsageContext.candidatesOf, UsageContext.candidates, howner, htargets, hkind]
  refine eraseDups_map_of_injective (fun target target' h => ?_) _
  exact congrArg Candidate.target h

/-- A type three namespaces deep that looks two namespaces up, and imports one of them. -/
def controllerContext : UsageContext where
  profile := Language.csharp.profile
  imports := (ImportTable.empty.push (.plain "Lib" "." "a.cs")).push (.plain "Shop.Web" "." "a.cs")
  entries := [Entry.plain "Shop.Web.Api.V1" "Controller" "." "a.cs" .csharp]
  file := "a.cs"
  maxAncestors := some 2

def makeWidget : Capture := ⟨.callExpression, "Widget[] . Make(1, 2)", 60, 81, 4⟩

theorem unimported_name_follows_rule_controller :
    (controllerContext.explains? ⟨true, makeWidget.text, .usage, none⟩ = none ∧
      controllerContext.nameOf ⟨true, makeWidget.text, .usage, none⟩ = "Widget") ∧
    (controllerContext.usages [makeWidget]).candidates =
      ["Widget", "Shop.Web.Api.V1.Widget", "Shop.Web.Api.Widget", "Shop.Web.Widget",
        "Lib.Widget"].map fun target => ⟨target, "Shop.Web.Api.V1.Controller", "a.cs", .usage⟩ := by
  have hbases : controllerContext.NoBases := by
    intro e he
    obtain rfl := List.mem_singleton.mp he
    exact ⟨rfl, rfl⟩
  have hparts : controllerContext.parts ⟨true, makeWidget.text, .usage, none⟩ =
      ["Widget", "Make"] := by cbv
  have hkey : controllerContext.explains? ⟨true, makeWidget.text, .usage, none⟩ = none := by
    rw [UsageContext.explains?, hparts]
    cbv
  have hname : controllerContext.nameOf ⟨true, makeWidget.text, .usage, none⟩ = "Widget" := by
    rw [UsageContext.nameOf, hparts]
    rfl
  have hrule : firstsBy id (controllerContext.lookupRule "Shop.Web.Api.V1" "Widget") =
      ["Widget", "Shop.Web.Api.V1.Widget", "Shop.Web.Api.Widget", "Shop.Web.Widget",
        "Lib.Widget"] := by cbv
  refine ⟨⟨hkey, hname⟩, ?_⟩
  rw [unimported_name_follows_rule controllerContext hbases rfl rfl hkey (by rw [hname]; decide)
    (by rw [hname]; decide), hname, ← hrule]
  rfl

end TypeCoupling
