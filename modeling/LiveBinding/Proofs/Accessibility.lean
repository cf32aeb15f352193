import LiveBinding.Proofs.Locks

/-!
Members that are not accessible. As far as methods and constructors go they might as well not be
there: building a tree from a type model gives the same as building it from the model without them
(`Tree.build_visible`). So every method in a tree is accessible, and so are the factories that its
conversions call. Properties are not looked at in this way.
-/

namespace LiveBinding

namespace TypeModel

/-- The model without the methods and constructors that are not accessible. -/
def visible (model : TypeModel) : TypeModel :=
  { model with
    methods := fun owner name arity ↦ (model.methods owner name arity).filter (·.flags.accessible)
    staticMethods := fun owner name arity ↦
      (model.staticMethods owner name arity).filter (·.flags.accessible)
    constructors := fun owner arity ↦ (model.constructors owner arity).filter (·.flags.accessible) }

variable (model : TypeModel)

@[simp]
theorem isAssignable_visible : model.visible.isAssignable = model.isAssignable := rfl

@[simp]
theorem display_visible : model.visible.display = model.display := by
  funext ty
  cases ty <;> rfl

@[simp]
theorem signature_visible : model.visible.signature = model.signature := by
  funext m
  rw [signature, signature, display_visible]

end TypeModel

namespace Coercion

variable (model : TypeModel)

@[simp]
theorem valueOf?_visible : valueOf? model.visible = valueOf? model := by
  funext target
  have hfilter : model.visible.staticMethods target "valueOf" 1 =
    (model.staticMethods target "valueOf" 1).filter (·.flags.accessible) := rfl
  rw [valueOf?, valueOf?, hfilter, List.find?_filter, TypeModel.isAssignable_visible]
  congr
  funext m
  cases m.flags.accessible <;> simp [beq_eq_decide]

@[simp]
theorem conversion?_visible : conversion? model.visible = conversion? model := by
  funext source target
  unfold conversion?
  simp only [valueOf?_visible, TypeModel.isAssignable_visible]
  rfl

@[simp]
theorem coerce?_visible : coerce? model.visible = coerce? model := by
  funext source target
  simp only [coerce?, conversion?_visible, TypeModel.isAssignable_visible]

@[simp]
theorem ofText?_visible : ofText? model.visible = ofText? model := by
  funext text target
  simp only [ofText?, valueOf?_visible]
  rfl

@[simp]
theorem require_visible : require model.visible = require model := by
  funext source target
  simp only [require, coerce?_visible, TypeModel.display_visible]

end Coercion

namespace Overload

variable (model : TypeModel)

@[simp]
theorem isApplicable_visible : isApplicable model.visible = isApplicable model := by
  funext params args
  simp only [isApplicable, Coercion.coerce?_visible]

@[simp]
theorem score_visible : score model.visible = score model := by
  funext params args
  induction params generalizing args with
  | nil => rfl
  | cons param params ih =>
    cases args with
    | nil => rfl
    | cons arg args => simp only [score, ih, TypeModel.isAssignable_visible]

@[simp]
theorem viable?_visible : viable? model.visible = viable? model := by
  funext args m
  simp only [viable?, isApplicable_visible, score_visible]

theorem viable?_of_not_accessible {args : List Ty} {m : MethodInfo}
    (h : m.flags.accessible = false) : viable? model args m = none := by
  simp [viable?, h]

theorem best_filter_accessible (args : List Ty) (candidates : List MethodInfo) :
    best model args (candidates.filter (·.flags.accessible)) = best model args candidates := by
  unfold best
  rw [List.foldl_filter]
  congr
  funext kept m
  cases h : m.flags.accessible
  · rw [viable?_of_not_accessible model h]
    rfl
  · rfl

/-- A call selects among the accessible methods as if they were all. -/
theorem select_visible (kind : MemberKind) (name : String) (owner : Ty)
    (candidates : List MethodInfo) (args : List Ty) :
    select model.visible kind name owner (candidates.filter (·.flags.accessible)) args =
      select model kind name owner candidates args := by
  have hbest : best model.visible args = best model args := by
    funext candidates
    simp only [best, viable?_visible]
  simp only [select, hbest, best_filter_accessible, TypeModel.display_visible,
    TypeModel.signature_visible]

end Overload

/-- The context with accessible methods and constructors only. -/
def BuildContext.visible (cx : BuildContext) : BuildContext := { cx with model := cx.model.visible }

namespace Build

variable (cx : BuildContext)

@[simp]
theorem constant?_visible : constant? cx.visible = constant? cx := rfl

@[simp]
theorem constantBool?_visible : constantBool? cx.visible = constantBool? cx := rfl

@[simp]
theorem foldPair?_visible : foldPair? cx.visible = foldPair? cx := rfl

@[simp]
theorem site_visible : Build.site cx.visible = Build.site cx := rfl

@[simp]
theorem ident_visible : ident cx.visible = ident cx := rfl

@[simp]
theorem concat_visible : concat cx.visible = concat cx := rfl

@[simp]
theorem model_visible : cx.visible.model = cx.model.visible := rfl

@[simp]
theorem incompatible_visible : incompatible cx.visible = incompatible cx := by
  funext op left right
  simp only [incompatible, model_visible, TypeModel.display_visible]

@[simp]
theorem field_visible : field cx.visible = field cx := by
  funext site receiver name
  simp only [field, model_visible, TypeModel.display_visible]
  rfl

@[simp]
theorem arguments_visible : arguments cx.visible = arguments cx := by
  funext method facts nodes params
  induction nodes generalizing facts params with
  | nil => cases params <;> rfl
  | cons node nodes ih =>
    cases params with
    | nil => rfl
    | cons param params => simp only [arguments, ih, model_visible, Coercion.require_visible]

@[simp]
theorem select_visible (kind : MemberKind) (name : String) (owner : Ty)
    (candidates : List MethodInfo) (receiver : Facts) (args : List Node) :
    select cx.visible kind name owner (candidates.filter (·.flags.accessible)) receiver args =
      select cx kind name owner candidates receiver args := by
  simp only [select, arguments_visible, model_visible, Overload.select_visible]

@[simp]
theorem call_visible : call cx.visible = call cx := by
  funext site receiver name args
  simp only [call, model_visible, TypeModel.visible, select_visible]

@[simp]
theorem construct_visible : construct cx.visible = construct cx := by
  funext site typeName args
  simp only [construct, model_visible, TypeModel.visible, select_visible]

@[simp]
theorem indexByMethod_visible : indexByMethod cx.visible = indexByMethod cx := by
  funext site receiver index
  have hdisplay := TypeModel.display_visible cx.model
  simp only [indexByMethod, model_visible, hdisplay]
  simp only [TypeModel.visible, select_visible]

@[simp]
theorem charCoercion?_visible : charCoercion? cx.visible = charCoercion? cx := by
  funext index
  simp only [charCoercion?, model_visible, Coercion.coerce?_visible]

@[simp]
theorem indexChars_visible : indexChars cx.visible = indexChars cx := by
  funext site receiver index
  simp only [indexChars, charCoercion?_visible, constant?_visible]

@[simp]
theorem index_visible : Build.index cx.visible = Build.index cx := by
  funext site receiver index
  simp only [Build.index, indexChars_visible, indexByMethod_visible]

@[simp]
theorem promoted_visible : promoted cx.visible = promoted cx := by
  funext op left right node kind
  simp only [promoted, model_visible, Coercion.coerce?_visible, incompatible_visible]

@[simp]
theorem numeric_visible : numeric cx.visible = numeric cx := by
  funext site op left right
  simp only [numeric, concat_visible, promoted_visible, incompatible_visible, foldPair?_visible]

@[simp]
theorem equality_visible : equality cx.visible = equality cx := by
  funext site op left right
  simp only [equality, promoted_visible, incompatible_visible, foldPair?_visible]

@[simp]
theorem condition_visible : condition cx.visible = condition cx := by
  funext symbol n
  simp only [condition, model_visible, Coercion.coerce?_visible, TypeModel.display_visible]

@[simp]
theorem shortCircuit_visible : shortCircuit cx.visible = shortCircuit cx := by
  funext site op left right
  simp only [shortCircuit, condition_visible]
  rfl

@[simp]
theorem unary_visible : unary cx.visible = unary cx := by
  funext site op operand
  simp only [unary, condition_visible, constantBool?_visible, constant?_visible, model_visible,
    Coercion.coerce?_visible, TypeModel.display_visible]

mutual

theorem expr_visible (outer : Option Span) : (e : Expr) → expr cx.visible outer e = expr cx outer e
  | .literal .. | .ident .. => rfl
  | .field _ receiver _ => by
    simp only [expr, expr_visible none receiver, site_visible, field_visible]
  | .call _ receiver _ args => by
    simp only [expr, expr_visible none receiver, values_visible args, site_visible, call_visible]
  | .construct _ _ args => by
    simp only [expr, values_visible args, site_visible, construct_visible]
  | .index _ receiver position => by
    simp only [expr, expr_visible none receiver, expr_visible none position, site_visible,
      index_visible]
  | .binary _ _ left right => by
    simp only [expr, expr_visible none left, expr_visible none right, site_visible,
      shortCircuit_visible, equality_visible, numeric_visible]
  | .unary _ _ operand => by
    simp only [expr, expr_visible none operand, site_visible, unary_visible]
  | .paren _ inner => by simp only [expr, expr_visible _ inner]

theorem values_visible : (es : List Expr) → values cx.visible es = values cx es
  | [] => rfl
  | e :: rest => by simp only [values, expr_visible none e, values_visible rest]

end

end Build

/-- Methods and constructors that are not accessible have no part in a tree. -/
theorem Tree.build_visible (cx : BuildContext) : Tree.build cx.visible = Tree.build cx := by
  have hparsed : cx.visible.parsed = cx.parsed := rfl
  simp only [Tree.build, hparsed, Build.expr_visible]

namespace Node

/-- The method or constructor that a node calls. -/
def callee? : Node → Option MethodInfo
  | access _ _ (.method m _) | access _ _ (.staticCall m _) | access _ _ (.index _ (.method m))
  | construct _ m _ => some m
  | _ => none

variable {P Q : Node → Prop}

mutual

theorem Forall.imp (h : ∀ n, P n → Q n) : (n : Node) → n.Forall P → n.Forall Q
  | literal .., hn | scopeRead .., hn | typeRef .., hn => h _ hn
  | access _ receiver member, hn => ⟨h _ hn.1, Forall.imp h receiver hn.2.1, memberForall.imp h member hn.2.2⟩
  | construct _ _ args, hn => ⟨h _ hn.1, argsForall.imp h args hn.2⟩
  | binary _ _ (.mk left _) (.mk right _) _, hn =>
    ⟨h _ hn.1, Forall.imp h left hn.2.1, Forall.imp h right hn.2.2⟩
  | unary _ _ (.mk operand _) _, hn => ⟨h _ hn.1, Forall.imp h operand hn.2⟩

theorem memberForall.imp (h : ∀ n, P n → Q n) : (m : Member) → memberForall P m → memberForall Q m
  | .property _, _ | .staticField _, _ => trivial
  | .method _ args, hm | .staticCall _ args, hm => argsForall.imp h args hm
  | .index (.mk node _) _, hm => Forall.imp h node hm

theorem argsForall.imp (h : ∀ n, P n → Q n) : (args : List Arg) → argsForall P args → argsForall Q args
  | [], _ => trivial
  | .mk node _ :: rest, ha => ⟨Forall.imp h node ha.1, argsForall.imp h rest ha.2⟩

end

theorem Fits.accessible {cx : BuildContext} {n : Node} (h : Fits cx.visible n) :
    ∀ m ∈ n.callee?, m.flags.accessible := by
  intro m hm
  match n with
  | access _ _ (.method _ _) =>
    obtain ⟨⟨-, ⟨name, hmem⟩, -⟩, -⟩ := h
    cases hm
    exact (List.mem_filter.mp hmem).2
  | access _ _ (.staticCall _ _) =>
    obtain ⟨⟨_, _, _, -, hmem, -⟩, -⟩ := h
    cases hm
    exact (List.mem_filter.mp hmem).2
  | access _ _ (.index _ (.method _)) =>
    obtain ⟨⟨-, hmem, -⟩, -⟩ := h
    cases hm
    exact (List.mem_filter.mp hmem).2
  | construct _ _ _ =>
    obtain ⟨⟨_, hmem⟩, -⟩ := h
    cases hm
    exact (List.mem_filter.mp hmem).2
  | access _ _ (.property _) | access _ _ (.staticField _) | access _ _ (.index _ .chars)
  | literal .. | scopeRead .. | typeRef .. | binary .. | unary .. => cases hm

end Node

/-- A static call in an instruction is that of an accessible factory. -/
def Op.CallsFactory (model : TypeModel) : Op → Prop
  | .invokeStatic id _ => ∃ t, ∃ m ∈ model.staticMethods t "valueOf" 1, m.flags.accessible ∧ m.id = id
  | _ => True

/-- All static calls in the code are those of accessible factories. -/
def Fragment.CallsFactories (model : TypeModel) (c : Fragment) : Prop :=
  ∀ op ∈ c.given, op.CallsFactory model

namespace Coercion

variable {model : TypeModel} {source target : Ty} {ops : List Op} {c : Fragment}

theorem callsFactory_valueOf {m : MethodInfo} (h : valueOf? model target = some m) (argc : ℕ) :
    (Op.invokeStatic m.id argc).CallsFactory model := by
  have hm := List.find?_some h
  simp only [Bool.and_eq_true] at hm
  exact ⟨target, m, List.mem_of_find?_eq_some h, hm.1.1, rfl⟩

theorem callsFactory_default (h : defaultValue? target = some ops) :
    ∀ op ∈ ops, op.CallsFactory model := by
  unfold defaultValue? at h
  split at h <;> cases h <;> first
    | exact List.forall_mem_singleton.mpr trivial
    | exact List.forall_mem_cons.mpr ⟨trivial, List.forall_mem_singleton.mpr trivial⟩

theorem callsFactory_parse (p : Prim) : (parse p).CallsFactory model := by
  cases p <;> trivial

theorem callsFactory_conversion (h : conversion? model source target = some ops) :
    ∀ op ∈ ops, op.CallsFactory model := by
  intro op hop
  cases converting_conversion h op hop with
  | parse p => exact callsFactory_parse p
  | valueOf hm => exact callsFactory_valueOf hm 1
  | _ => trivial

/-- A conversion calls accessible factories only. -/
theorem callsFactories_coerce (h : coerce? model source target = some c) :
    c.CallsFactories model := by
  unfold coerce? at h
  split at h
  · cases h
    exact nofun
  · split at h
    · obtain ⟨ops, ho, rfl⟩ := Option.map_eq_some_iff.mp h
      exact List.forall_mem_cons.mpr ⟨trivial, callsFactory_default ho⟩
    · split at h
      · cases h
      · next convert hc =>
        split at h
        · obtain ⟨ops, ho, rfl⟩ := Option.map_eq_some_iff.mp h
          exact List.forall_mem_append.mpr ⟨callsFactory_conversion hc, callsFactory_default ho⟩
        · cases h
          exact callsFactory_conversion hc

end Coercion

/-- In a tree only accessible methods and constructors are called, by its nodes and by the
conversions between them. -/
theorem Tree.build_accessible {cx : BuildContext} {tree : Tree} (h : Tree.build cx = .ok tree) :
    tree.root.Forall (fun n ↦ ∀ m ∈ n.callee?, m.flags.accessible) ∧
      ∀ c ∈ tree.root.coercions, c.CallsFactories cx.model := by
  have hvisible := (Tree.build_resolved ((Tree.build_visible cx).trans h)).1
  have hresolved := (Tree.build_resolved h).1
  exact ⟨Node.Forall.imp (fun _ ↦ Node.Fits.accessible) _ hvisible,
    Node.Resolved.forall_coercions Coercion.callsFactories_coerce _ hresolved⟩

namespace Sample

/-- A class with a property that is not accessible. -/
def veiled : Registry where
  classes := #[⟨"Box", none, [⟨.class ⟨0⟩, "p", .int, {}⟩], none⟩]

def veiledContext : BuildContext where
  model := veiled.model
  scope := Scope.empty.bind (.local ⟨0⟩ "o" (.class ⟨0⟩) 0)
  parsed := ⟨"o.p", .field ⟨0, 3⟩ (.ident ⟨0, 1⟩ "o") "p", 0⟩
  fold := true

end Sample

/-- The rule for methods is no rule for properties. -/
theorem Tree.build_veiled : ∃ info receiver p size,
    Tree.build Sample.veiledContext = .ok ⟨.access info receiver (.property p), size⟩ ∧
      p.flags.accessible = false :=
  ⟨_, _, _, _, rfl, rfl⟩

end LiveBinding
