import LiveBinding.Proofs.FirstValue
import LiveBinding.Proofs.Folded
import LiveBinding.Proofs.Labels
import Mathlib.Tactic.MkIffOfInductiveProp

namespace LiveBinding

namespace Expr

mutual

/-- The names in an expression, those of members apart. -/
def names : Expr → List String
  | literal _ _ => []
  | ident _ name => [name]
  | field _ receiver _ => names receiver
  | call _ receiver _ args => names receiver ++ namesOf args
  | construct _ _ args => namesOf args
  | index _ receiver position => names receiver ++ names position
  | binary _ _ left right => names left ++ names right
  | unary _ _ operand => names operand
  | paren _ inner => names inner

def namesOf : List Expr → List String
  | [] => []
  | e :: rest => names e ++ namesOf rest

end

end Expr

namespace Scope

/-- The names of a scope that have values. -/
def settled (s : Scope) : Scope := ⟨s.entries.filter (·.2.isBound)⟩

variable {s : Scope} {name : String}

theorem lookup?_settled (h : (s.lookup? name).all ScopeEntry.isBound) :
    s.settled.lookup? name = s.lookup? name := by
  obtain ⟨entries⟩ := s
  simp only [settled, lookup?] at h ⊢
  induction entries with
  | nil => rfl
  | cons entry rest ih =>
    obtain ⟨key, entry⟩ := entry
    by_cases hkey : name == key
    · simp only [List.lookup_cons, hkey] at h
      cases entry with
      | bound l => simp [List.lookup_cons, ScopeEntry.isBound, hkey]
      | pending ty => cases h
    · simp only [List.lookup_cons, hkey] at h
      cases entry with
      | bound l => simpa [List.lookup_cons, ScopeEntry.isBound, hkey] using ih h
      | pending ty => simpa [List.lookup_cons, ScopeEntry.isBound, hkey] using ih h

theorem isBound_of_settled {entry : ScopeEntry} (h : s.settled.lookup? name = some entry) :
    entry.isBound := by
  obtain ⟨entries⟩ := s
  simp only [settled, lookup?] at h
  induction entries with
  | nil => cases h
  | cons e rest ih =>
    rw [List.filter_cons] at h
    split at h
    · next hbound =>
      rw [List.lookup_cons] at h
      split at h
      · cases h
        exact hbound
      · exact ih h
    · exact ih h

end Scope

namespace Build

variable {cx : BuildContext} {scope : Scope}

theorem arguments_scope (method : MethodInfo) (facts : Facts) (nodes : List Node) (params : List Ty) :
    arguments { cx with scope } method facts nodes params = arguments cx method facts nodes params := by
  induction nodes generalizing facts params with
  | nil => rfl
  | cons node nodes ih =>
    cases params with
    | nil => rfl
    | cons param params => simp only [arguments, ih]

theorem select_scope (kind : MemberKind) (name : String) (owner : Ty) (candidates : List MethodInfo)
    (receiver : Facts) (args : List Node) :
    select { cx with scope } kind name owner candidates receiver args =
      select cx kind name owner candidates receiver args := by
  simp only [select, arguments_scope]

theorem call_scope (site : Site) (receiver : Node) (name : String) (args : List Node) :
    call { cx with scope } site receiver name args = call cx site receiver name args := by
  simp only [call, select_scope]

theorem construct_scope (site : Site) (typeName : String) (args : List Node) :
    construct { cx with scope } site typeName args = construct cx site typeName args := by
  simp only [construct, select_scope]

theorem index_scope (site : Site) (receiver position : Node) :
    Build.index { cx with scope } site receiver position = Build.index cx site receiver position := by
  simp only [Build.index, indexByMethod, select_scope]
  rfl

mutual

/-- What an expression is built to depends on the scope by the names in it. -/
theorem expr_scope (outer : Option Span) : (e : Expr) →
    (∀ name ∈ e.names, scope.lookup? name = cx.scope.lookup? name) →
    expr { cx with scope } outer e = expr cx outer e
  | .literal s value, _ => rfl
  | .ident s name, h => by
    have hname := h name List.mem_cons_self
    simp only [expr, ident, hname]
    rfl
  | .field s receiver name, h => by
    simp only [expr, expr_scope none receiver h]
    rfl
  | .call s receiver name args, h => by
    simp only [expr, expr_scope none receiver (List.forall_mem_append.mp h).1,
      values_scope args (List.forall_mem_append.mp h).2, call_scope]
    rfl
  | .construct s typeName args, h => by
    simp only [expr, values_scope args h, construct_scope]
    rfl
  | .index s receiver position, h => by
    simp only [expr, expr_scope none receiver (List.forall_mem_append.mp h).1,
      expr_scope none position (List.forall_mem_append.mp h).2, index_scope]
    rfl
  | .binary s op left right, h => by
    simp only [expr, expr_scope none left (List.forall_mem_append.mp h).1,
      expr_scope none right (List.forall_mem_append.mp h).2]
    rfl
  | .unary s op operand, h => by
    simp only [expr, expr_scope none operand h]
    rfl
  | .paren s inner, h => by
    simp only [expr, expr_scope _ inner h]

theorem values_scope : (es : List Expr) →
    (∀ name ∈ Expr.namesOf es, scope.lookup? name = cx.scope.lookup? name) →
    values { cx with scope } es = values cx es
  | [], _ => rfl
  | e :: rest, h => by
    simp only [values, expr_scope none e (List.forall_mem_append.mp h).1,
      values_scope rest (List.forall_mem_append.mp h).2]

end

end Build

namespace Node

variable {cx : BuildContext} (hscope : ∀ name entry, cx.scope.lookup? name = some entry → entry.isBound)
include hscope

set_option linter.unusedSectionVars false

mutual

/-- A node reads no pending name if the scope has none. -/
theorem Resolved.evaluable : (n : Node) → n.Resolved cx → n.info.evaluable
  | literal info value, h => congrArg Facts.evaluable h
  | scopeRead info entry, ⟨⟨name, hname⟩, hf⟩ =>
    (congrArg Facts.evaluable hf).trans (hscope name entry hname)
  | typeRef info owner, h => congrArg Facts.evaluable h
  | access info receiver member, ⟨⟨_, _, he⟩, hr, hm⟩ => by
    show info.evaluable = true
    rw [he, Resolved.evaluable receiver hr, memberEvaluable_of_resolved member hm]
    rfl
  | construct info m args, ⟨⟨_, _, hf⟩, ha⟩ =>
    (congrArg Facts.evaluable hf).trans (argsEvaluable_of_resolved args ha)
  | binary info op (.mk left _) (.mk right _) plan, ⟨⟨_, _, he⟩, hl, hr⟩ => by
    show info.evaluable = true
    rw [he, show (Arg.node (.mk left _)).info.evaluable = true from Resolved.evaluable left hl,
      show (Arg.node (.mk right _)).info.evaluable = true from Resolved.evaluable right hr]
    rfl
  | unary info op (.mk operand _) kind, ⟨hf, ho⟩ => hf.2.1.trans (Resolved.evaluable operand ho)

theorem memberEvaluable_of_resolved : (m : Member) → memberForall (Fits cx) m → memberEvaluable m
  | .property _, _ => rfl
  | .staticField _, _ => rfl
  | .method _ args, h => argsEvaluable_of_resolved args h
  | .staticCall _ args, h => argsEvaluable_of_resolved args h
  | .index (.mk node _) _, h => Resolved.evaluable node h

theorem argsEvaluable_of_resolved : (args : List Arg) → argsForall (Fits cx) args → argsEvaluable args
  | [], _ => rfl
  | .mk node c :: rest, h => by
    show (node.info.evaluable && argsEvaluable rest) = true
    rw [Resolved.evaluable node h.1, argsEvaluable_of_resolved rest h.2]
    rfl

end

end Node

/-- The tree of an expression that names nothing pending can be evaluated. -/
theorem Tree.build_evaluable {cx : BuildContext} {tree : Tree} (h : Tree.build cx = .ok tree)
    (hnames : ∀ name ∈ cx.parsed.root.names, (cx.scope.lookup? name).all ScopeEntry.isBound) :
    tree.root.info.evaluable := by
  have hsettled : Tree.build { cx with scope := cx.scope.settled } = .ok tree := by
    rw [Tree.build, Build.expr_scope none cx.parsed.root fun name hname ↦
      Scope.lookup?_settled (hnames name hname)]
    exact h
  exact Node.Resolved.evaluable (fun _ _ ↦ Scope.isBound_of_settled) _ (build_resolved hsettled).1

open Exec Fragment

variable {r : Registry} {answer : MethodId → List Value → Except RuntimeError Value}
variable {env : Loadable → Value} {w : World}

/-- A host that conforms, in which the code of the names of a scope comes to values. It may call methods. -/
structure World.Lends (r : Registry) (answer : MethodId → List Value → Except RuntimeError Value)
    (scope : Scope) (env : Loadable → Value) (w : World) : Prop extends w.Suits r answer scope env where
  gives : ∀ name l, scope.lookup? name = some (.bound l) → l.Gives r answer w.frame w.SameHeap (env l)

/-- Making a binding gives the value of its node. -/
theorem World.Lends.instantiate_eq {cx : BuildContext} {n : Node} {c : Fragment} {ty : Ty}
    (h : w.Lends r answer cx.scope env) (hm : cx.model = r.model) (hn : IsOperand cx n)
    (hc : c.Coerces r n.ty ty) {layout : FlagLayout} {artifact : Artifact}
    (hcompiles : Compiles (n.render .resumable .start).1 c (n.render .resumable .start).2 layout artifact)
    (hfresh : ∀ k c, w.listening ⟨w.instances.size⟩ k c = 0) :
    ∃ N, ∀ fuel ≥ N, (instantiate r fuel artifact w).1 = (n.meaning r answer env w c).result := by
  have hin : Node.InScope cx (n.render .resumable .start).2 :=
    Node.Resolved.inScope n hn.1 .start fun l hl ↦ absurd hl List.not_mem_nil
  have hgives : List.Forall₂ (Loadable.Gives r answer w.frame w.SameHeap)
      (n.render .resumable .start).2.storage.captured
      ((n.render .resumable .start).2.storage.captured.map env) := by
    rw [List.forall₂_map_right_iff, List.forall₂_same]
    intro l hl
    obtain ⟨name, hname⟩ := hin l hl
    exact h.gives name l hname
  obtain ⟨M, hM⟩ := h.functional.exists_enough (Loadable.calls
    ((w.addInstance artifact).reading r (asked answer) w.frame #[])
    (n.render .resumable .start).2.storage.captured)
  obtain ⟨N, hN⟩ := @Suits.update_eq _ _ _ _ _ _ _ _ h.toSuits hm hn hc _ _ hcompiles hfresh False nofun
  refine ⟨artifact.init.size + M + N, fun fuel hfuel ↦ ?_⟩
  have hcalls : r.methods = r.methods ∨ ∀ l ∈ (n.render .resumable .start).2.storage.captured,
      l.load.isSilent := .inl rfl
  obtain ⟨events, hinit⟩ := hcompiles.runInit_gives hfresh h.functional World.sameHeap_addInstance hgives
    hcalls (.inl ⟨by omega, fun call hcall ↦ hM _ fuel (by omega) call hcall⟩)
  have hinit : runInit r fuel ⟨w.instances.size⟩ artifact (w.addInstance artifact) = _ := hinit
  obtain ⟨-, hend⟩ := hN fuel events (.inl (by omega))
  obtain ⟨v, st, m, hv, -, hrun, hupdate⟩ | ⟨x, hx, hupdate⟩ := hend
  · have hvalue := hrun.valueOf_putCell (w := { w with events })
    have hcreate : createInstance r fuel artifact w =
        (.ok ⟨w.instances.size⟩, m.world.putCell ⟨w.cells.size⟩ (.quiet v)) := by
      rw [createInstance_eq, hinit, hupdate]
    rw [instantiate, Run.bind_apply, hcreate, hv]
    exact congrArg Except.ok hvalue
  · rw [hx]
    exact Run.bind_error (createInstance_error (hinit ▸ hupdate)) _

theorem World.Lends.evaluate_eq {cx : BuildContext} {n : Node} {c : Fragment} {ty : Ty}
    (h : w.Lends r answer cx.scope env) (hm : cx.model = r.model) (hn : IsOperand cx n)
    (hc : c.Coerces r n.ty ty) {R : Routine}
    (hR : Assembler.Assembles (((n.renderDirect ++ c).emit none .empty).emit .return) R) :
    ∃ N, ∀ fuel ≥ N, (evaluate r fuel R w).1 = (n.meaning r answer env w c).result := by
  have hloads : cx.scope.Loads False (w.reading r (asked answer) w.frame #[]) env :=
    fun name l hname σ ↦ (h.gives name l hname).turns w (.refl w) σ
  obtain ⟨N, hN⟩ := h.toSuits.evaluate_eq hm hn hc hloads (fun name l hname ↦ (h.gives name l hname).plain) hR
  exact ⟨N, fun fuel hfuel ↦ (hN fuel (.inl hfuel)).1⟩

namespace CompiledBinding

/-- The type of the value of a binding. -/
def ty : CompiledBinding → Ty
  | static b => b.ty
  | dynamic b => b.ty
  | deferred ty => ty

def isDynamic : CompiledBinding → Bool
  | dynamic _ => true
  | _ => false

/-- What running a binding comes to. A binding of a name without a value cannot be run. -/
def outcome? (b : CompiledBinding) (r : Registry) (fuel : Nat) (w : World) : Option (Except Stop Value) :=
  match b.evaluation? r fuel with
  | .ok (some (_, run)) => some (run w).1
  | _ => none

end CompiledBinding

namespace CompileContext

variable {cx : CompileContext} {scope : Scope} {parsed : ParsedExpr} {tree : Tree}
variable {target : Option BindingTarget} {b : CompiledBinding}

/-- A binding comes to the value that its tree means, whether it is evaluated once or kept up to
date. -/
theorem outcome?_eq (htree : cx.buildTree scope parsed = .ok tree)
    (htext : ∀ text, tree.root.literal? ≠ some (.string text)) (hevaluable : tree.root.info.evaluable)
    (hcompile : cx.compileTree tree target = .ok b) (hmodel : cx.model = r.model)
    (hw : w.Lends r answer scope env) (hfresh : ∀ k c, w.listening ⟨w.instances.size⟩ k c = 0) :
    b.ty = (target.map BindingTarget.ty).getD tree.ty ∧
      ∃ c, Targets cx tree (target.map BindingTarget.ty) c ∧ ∃ N, ∀ fuel ≥ N,
        b.outcome? r fuel w = some (tree.root.meaning r answer env w c).result := by
  have hn := Tree.build_resolved htree
  unfold compileTree at hcompile
  rw [if_neg (by simp [hevaluable])] at hcompile
  split at hcompile
  · obtain ⟨s, hs, rfl⟩ := map_eq_ok hcompile
    have hsealed := (composable_renderStatic composable_isInert hn.1
      (fun name l hname ↦ composable_isInert.plain _ (hw.gives name l hname).plain) hs).isSealed none
    obtain ⟨R, hR⟩ : ∃ R, s.routine = .ok R := ⟨_, assemble_of_sealed hsealed⟩
    obtain ⟨hty, c, hc, hassembles⟩ := routine_eq_of_textless hs htext hR
    obtain ⟨N, hN⟩ := hw.evaluate_eq hmodel hn (hc.coerces hmodel) hassembles
    refine ⟨hty, c, hc, N, fun fuel hfuel ↦ ?_⟩
    simp only [CompiledBinding.outcome?, CompiledBinding.evaluation?, hR]
    exact congrArg some (hN fuel hfuel)
  · obtain ⟨d, hd, rfl⟩ := map_eq_ok hcompile
    obtain ⟨c, hc, hty, hcompiles⟩ := compileArtifact_eq hd (Node.Resolved.isPlain tree.root hn.1)
    obtain ⟨N, hN⟩ := hw.instantiate_eq hmodel hn (hc.coerces hmodel) hcompiles hfresh
    exact ⟨hty, c, hc, N, fun fuel hfuel ↦ congrArg some (hN fuel hfuel)⟩

/-- Computing with literals while compiling changes neither the type of a binding nor what it comes
to. -/
theorem compileBinding_folds {source : String} {b' : CompiledBinding}
    (hsource : parseAttribute source = .ok (.expression parsed))
    (htext : ∀ v ∈ parsed.root.literals, v.isText = false)
    (hnames : ∀ name ∈ parsed.root.names, (scope.lookup? name).all ScopeEntry.isBound)
    (hfolded : { cx with fold := true }.compileBinding source scope target = .ok b)
    (hplain : { cx with fold := false }.compileBinding source scope target = .ok b')
    (hmodel : cx.model = r.model) (hw : w.Lends r answer scope env)
    (hfresh : ∀ k c, w.listening ⟨w.instances.size⟩ k c = 0) :
    b.ty = b'.ty ∧ ∃ outcome, outcome ≠ .error .exhausted ∧ ∃ N, ∀ fuel ≥ N,
      b.outcome? r fuel w = some outcome ∧ b'.outcome? r fuel w = some outcome := by
  have hcompile {fold : Bool} {b : CompiledBinding}
      (h : { cx with fold }.compileBinding source scope target = .ok b) :
      ∃ tree, { cx with fold }.buildTree scope parsed = .ok tree ∧
        { cx with fold }.compileTree tree target = .ok b := by
    obtain ⟨content, hcontent, h⟩ := except_bind_ok (mapError_eq_ok h)
    cases hsource.symm.trans hcontent
    exact except_bind_ok h
  obtain ⟨folded, hbuild, hcompiled⟩ := hcompile hfolded
  obtain ⟨plain, hbuild', hcompiled'⟩ := hcompile hplain
  let context : BuildContext := ⟨cx.model, scope, parsed, cx.fold⟩
  have hfolds : folded.root.Folds plain.root := @Tree.build_folds context folded plain htext hbuild hbuild'
  have htextless {n : Node} (h : n.Clear) (text : String) : n.literal? ≠ some (.string text) :=
    fun hlit ↦ nomatch (h _ hlit).1
  obtain ⟨hty, c, hc, N, hN⟩ := outcome?_eq hbuild (htextless hfolds.clear)
    (Tree.build_evaluable hbuild hnames) hcompiled hmodel hw hfresh
  obtain ⟨hty', c', hc', N', hN'⟩ := outcome?_eq hbuild' (htextless hfolds.clear_right)
    (Tree.build_evaluable hbuild' hnames) hcompiled' hmodel hw hfresh
  have htree : folded.ty = plain.ty := hfolds.ty
  obtain rfl : c = c' := Targets.unique_of_ty rfl htree hc hc'
  refine ⟨by rw [hty, hty', htree], (folded.root.meaning r answer env w c).result, fun he ↦ ?_,
    max N N', fun fuel hfuel ↦ ⟨hN fuel (by omega), ?_⟩⟩
  · exact (hw.yields hmodel (Tree.build_resolved hbuild) (hc.coerces hmodel)).2 _ he rfl
  · rw [hN' fuel (by omega), Node.meaning, Node.meaning, hfolds.eval]

end CompileContext

namespace Sample

/-- The expression of an attribute. -/
def expressionOf (source : String) : ParsedExpr :=
  match parseAttribute source with
  | .ok (.expression parsed) => parsed
  | _ => ⟨"", .literal ⟨0, 0⟩ .null, 0⟩

def isExpression (source : String) : Bool :=
  match parseAttribute source with
  | .ok (.expression _) => true
  | _ => false

theorem expressionOf_eq {source : String} (h : isExpression source) :
    parseAttribute source = .ok (.expression (expressionOf source)) := by
  unfold isExpression at h
  unfold expressionOf
  split at h
  · next parsed hparsed => rw [hparsed]
  · cases h

/-- The binding of an attribute. -/
def compiledIn (cx : CompileContext) (scope : Scope) (source : String) : CompiledBinding :=
  match cx.compileBinding source scope none with
  | .ok b => b
  | .error _ => .deferred .void

theorem compiledIn_eq {cx : CompileContext} {scope : Scope} {source : String}
    (h : (cx.compileBinding source scope none).isOk) :
    cx.compileBinding source scope none = .ok (compiledIn cx scope source) := by
  obtain ⟨b, hb⟩ := exists_of_isOk h
  rw [compiledIn, hb]

theorem lends_box (n : Int32) : (box n).Lends picking picking.answer scope fun _ ↦ .object ⟨0⟩ where
  toSuits := (serves_box n).suits
  gives name l hl := ((serves_box n).loads name l hl).gives fun w hw ↦ by
    rw [hw.objects]
    exact functional_picking _

end Sample

open Sample CompileContext in
/-- A comparison of literals decides, so that nothing observable is read. -/
theorem compileBinding_folds_comparison :
    let source := "$\x7b2 * 3 - 5 < 2 || x.p / 0 == 1\x7d"
    let folded := compiledIn { pickingContext with fold := true } scope source
    let plain := compiledIn { pickingContext with fold := false } scope source
    (folded.isDynamic = false ∧ plain.isDynamic) ∧ folded.ty = plain.ty ∧
      ∃ outcome, outcome ≠ .error .exhausted ∧ ∃ N, ∀ fuel ≥ N,
        folded.outcome? picking fuel (box 1) = some outcome ∧
          plain.outcome? picking fuel (box 1) = some outcome := by
  intro source folded plain
  obtain ⟨hexpression, htextless, hbound, hfolded, hplain, hdynamic⟩ :
      isExpression source ∧ (∀ v ∈ (expressionOf source).root.literals, v.isText = false) ∧
      (∀ name ∈ (expressionOf source).root.names, (scope.lookup? name).all ScopeEntry.isBound) ∧
      (CompileContext.compileBinding { pickingContext with fold := true } source scope none).isOk ∧
      (CompileContext.compileBinding { pickingContext with fold := false } source scope none).isOk ∧
      folded.isDynamic = false ∧ plain.isDynamic := by decide +kernel
  exact ⟨hdynamic, compileBinding_folds (expressionOf_eq hexpression) htextless hbound
    (compiledIn_eq hfolded) (compiledIn_eq hplain) rfl (lends_box 1) (listening_box 1 _)⟩

namespace Sample

/-- A class with two observable properties, and a method that fails. -/
def losing : Registry where
  classes := #[{ name := "Box", superclass := none, properties := [
    ⟨.class ⟨0⟩, "p", .prim .boolean, observable⟩, ⟨.class ⟨0⟩, "q", .prim .boolean, observable⟩] }]
  names := [("Box", .class ⟨0⟩)]
  methods := #[⟨⟨⟨0⟩, .class ⟨0⟩, "lost", [], .class ⟨0⟩, { accessible := true, static := true }⟩,
    Script.method "lost" (.fail "lost"), []⟩]

/-- The host frame holds two boxes. -/
def boxes : World where
  objects := #[⟨⟨0⟩, "a", [("p", .observable ⟨0⟩), ("q", .observable ⟨1⟩)]⟩,
    ⟨⟨0⟩, "b", [("p", .observable ⟨2⟩), ("q", .observable ⟨3⟩)]⟩]
  cells := #[{ value := .bool false }, { value := .bool false }, { value := .bool true },
    { value := .bool true }]
  frame := [.object ⟨0⟩, .object ⟨1⟩]

/-- An attribute without text whose names have values, and what it comes to with its literals computed
and with its literals left alone. -/
@[mk_iff]
structure Comes (scope : Scope) (source : String) (folded plain : Except Stop Value) : Prop where
  expression : isExpression source
  textless : ∀ v ∈ (expressionOf source).root.literals, v.isText = false
  bound : ∀ name ∈ (expressionOf source).root.names, (scope.lookup? name).all ScopeEntry.isBound
  compiled (fold : Bool) :
    (({ model := losing.model, fold } : CompileContext).compileBinding source scope none).isOk
  folded : (compiledIn { model := losing.model, fold := true } scope source).outcome? losing 60 boxes =
    some folded
  plain : (compiledIn { model := losing.model, fold := false } scope source).outcome? losing 60 boxes =
    some plain

instance (scope : Scope) (source : String) (folded plain : Except Stop Value) :
    Decidable (Comes scope source folded plain) :=
  decidable_of_iff' _ (comes_iff ..)

end Sample

open Sample CompileContext in
/-- If two names share an id without sharing their value, the one that is met first stands for both,
and computing with literals can leave it out. It also leaves out a name that cannot be loaded. A name whose
code takes the lock of the result needs a binding that is kept up to date. -/
theorem compileBinding_folds_shared :
    boxes.Conforms losing losing.answer ∧ losing.Functional boxes.objects losing.answer ∧
    Comes ((Scope.empty.bind (.local ⟨0⟩ "x" (.class ⟨0⟩) 0)).bind (.local ⟨0⟩ "y" (.class ⟨0⟩) 1))
      "$\x7b(false && x.p) || y.q\x7d" (.ok (.bool true)) (.ok (.bool false)) ∧
    Comes (Scope.empty.bind ⟨⟨0⟩, "x", .class ⟨0⟩, .op (.invokeStatic ⟨0⟩ 0)⟩)
      "$\x7btrue || x.p\x7d" (.ok (.bool true)) (.error (.error (.fault "lost"))) ∧
    Comes ((Scope.empty.bind ⟨⟨0⟩, "x", .prim .int, .ops [.lockAcquire, .pushInt 1]⟩).bind
        (.local ⟨1⟩ "y" (.class ⟨0⟩) 1))
      "$\x7bx == 1 && (true || y.q)\x7d" (.error (.error .missingInstance)) (.ok .null) := by
  have honly {d : MethodDef} (hd : d ∈ losing.methods) : d = losing.methods[0] :=
    List.mem_singleton.mp (Array.mem_toList_iff.mpr hd)
  refine ⟨(World.declared_of_isDeclared (by decide +kernel)).conforms fun d hd args _ v hv ↦ ?_,
    Registry.functional (fun d hd args ↦ ?_) _, by decide +kernel, by decide +kernel, by decide +kernel⟩
  · obtain rfl := honly hd
    cases hv
  · obtain rfl := honly hd
    rfl

end LiveBinding
