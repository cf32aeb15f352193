import LiveBinding.Unit.Session

namespace LiveBinding

/-- The problem is one of units and not of an attribute. -/
def Problem.ofUnits : Problem → Bool
  | .includeCycle _ | .unitNotFound _ => true
  | _ => false

/-- If it fails, then with a problem of an attribute. -/
def Confined {α : Type} (x : Except CompileError α) : Prop :=
  ∀ e, x = .error e → e.problem.ofUnits = false

section

variable {α β : Type} {x : Except CompileError α} {e : CompileError}

theorem confined_ok (a : α) : Confined (.ok a) := nofun

theorem confined_error (h : e.problem.ofUnits = false) :
    Confined (.error e : Except CompileError α) := by
  rintro _ ⟨⟩
  exact h

theorem Confined.bind {f : α → Except CompileError β} (hx : Confined x)
    (hf : ∀ a, Confined (f a)) : Confined (x >>= f) := by
  cases x with
  | error e => exact confined_error (hx e rfl)
  | ok a => exact hf a

theorem Confined.map {f : α → β} (hx : Confined x) : Confined (x.map f) := by
  cases x with
  | error e => exact confined_error (hx e rfl)
  | ok a => exact confined_ok (f a)

theorem Confined.mapError {f : CompileError → CompileError} (hx : Confined x)
    (hf : ∀ e, (f e).problem = e.problem) : Confined (x.mapError f) := by
  cases x with
  | error e => exact confined_error (hf e ▸ hx e rfl)
  | ok a => exact confined_ok a

theorem confined_mapM {f : α → Except CompileError β} (hf : ∀ a, Confined (f a)) (as : List α) :
    Confined (as.mapM f) := by
  induction as with
  | nil => exact confined_ok []
  | cons a as ih =>
    rw [List.mapM_cons]
    exact (hf a).bind fun b ↦ ih.bind fun bs ↦ confined_ok (b :: bs)

end

namespace Lexeme

/-- Characters that are no token are a problem of the attribute. -/
theorem first_problem {c : Char} {rest : List Char} {e : LexError} (h : first c rest = .error e) :
    e.problem.ofUnits = false := by
  unfold first at h
  split at h
  · unfold number at h
    dsimp only at h
    split at h
    all_goals
      cases h
      try rfl
  split at h
  · unfold string at h
    split at h
    all_goals
      cases h
      try rfl
  split at h
  · cases h
  · unfold punctuation at h
    dsimp only at h
    split at h
    all_goals
      cases h
      try rfl

end Lexeme

theorem Token.scanFrom_confined (fuel pos : Nat) (cs : List Char) :
    Confined (scanFrom fuel pos cs) := by
  induction fuel generalizing pos cs with
  | zero => exact confined_ok _
  | succ fuel ih =>
    unfold scanFrom
    dsimp only
    split
    · exact confined_ok _
    split
    · next e hlexeme => exact confined_error (Lexeme.first_problem hlexeme)
    · next lexeme _ =>
      split
      · next e htokens => exact confined_error (ih _ _ e htokens)
      · exact confined_ok _

namespace Parser

theorem confined_unexpected {α : Type} (tokens : List Token) (expected : String) :
    Confined (.error (unexpected tokens expected) : Except CompileError α) := confined_error rfl

theorem expect_confined (kind : TokenKind) (expected : String) (tokens : List Token) :
    Confined (expect kind expected tokens) := by
  unfold expect
  split
  · split
    · exact confined_ok _
    · exact confined_unexpected _ _
  · exact confined_unexpected _ _

mutual

theorem binary_confined : ∀ (fuel power : Nat) (tokens : List Token),
    Confined (binary fuel power tokens)
  | 0, _, _ => confined_unexpected _ _
  | fuel + 1, power, tokens => by
    unfold binary
    exact (unary_confined fuel tokens).bind fun (left, rest) ↦
      operators_confined fuel power left rest

theorem operators_confined : ∀ (fuel power : Nat) (left : Expr) (tokens : List Token),
    Confined (operators fuel power left tokens)
  | 0, _, _, _ => confined_unexpected _ _
  | fuel + 1, power, left, tokens => by
    unfold operators
    split
    · split
      · exact confined_ok _
      · exact (binary_confined fuel _ _).bind fun (right, rest) ↦
          operators_confined fuel power _ rest
    · exact confined_ok _

theorem unary_confined : ∀ (fuel : Nat) (tokens : List Token), Confined (unary fuel tokens)
  | 0, _ => confined_unexpected _ _
  | fuel + 1, tokens => by
    unfold unary
    split
    · exact (unary_confined fuel _).bind fun _ ↦ confined_ok _
    · exact (unary_confined fuel _).bind fun _ ↦ confined_ok _
    · exact (primary_confined fuel _).bind fun (receiver, rest) ↦
        suffixes_confined fuel receiver rest

theorem suffixes_confined : ∀ (fuel : Nat) (receiver : Expr) (tokens : List Token),
    Confined (suffixes fuel receiver tokens)
  | 0, _, _ => confined_unexpected _ _
  | fuel + 1, receiver, tokens => by
    unfold suffixes
    split
    · exact (arguments_confined fuel _).bind fun (_, rest) ↦ suffixes_confined fuel _ rest
    · exact suffixes_confined fuel _ _
    · exact confined_unexpected _ _
    · exact (binary_confined fuel 0 _).bind fun (_, rest) ↦
        (expect_confined _ _ rest).bind fun (_, rest') ↦ suffixes_confined fuel _ rest'
    · exact confined_ok _

theorem arguments_confined : ∀ (fuel : Nat) (tokens : List Token), Confined (arguments fuel tokens)
  | 0, _ => confined_unexpected _ _
  | fuel + 1, tokens => by
    unfold arguments
    split
    · exact confined_ok _
    · exact moreArguments_confined fuel tokens

theorem moreArguments_confined : ∀ (fuel : Nat) (tokens : List Token),
    Confined (moreArguments fuel tokens)
  | 0, _ => confined_unexpected _ _
  | fuel + 1, tokens => by
    unfold moreArguments
    refine (binary_confined fuel 0 tokens).bind fun (arg, rest) ↦ ?_
    dsimp only
    split
    · exact (moreArguments_confined fuel _).bind fun _ ↦ confined_ok _
    · exact (expect_confined _ _ _).bind fun _ ↦ confined_ok _

theorem primary_confined : ∀ (fuel : Nat) (tokens : List Token), Confined (primary fuel tokens)
  | 0, _ => confined_unexpected _ _
  | fuel + 1, tokens => by
    unfold primary
    split
    · exact confined_ok _
    · exact (arguments_confined fuel _).bind fun _ ↦ confined_ok _
    · exact confined_ok _
    · exact (binary_confined fuel 0 _).bind fun _ ↦
        (expect_confined _ _ _).bind fun _ ↦ confined_ok _
    · exact confined_unexpected _ _

end

theorem expression_confined (tokens : List Token) : Confined (expression tokens) := by
  refine (binary_confined _ 0 tokens).bind fun (root, rest) ↦ ?_
  dsimp only
  split
  · exact confined_ok _
  · exact confined_unexpected _ _

end Parser

theorem parseExpression_confined (source : String) (base : Nat) :
    Confined (parseExpression source base) := by
  have hroot : Confined ((Token.scan source).bind Parser.expression) :=
    Confined.bind (Token.scanFrom_confined _ _ _) Parser.expression_confined
  unfold parseExpression
  split
  · exact confined_ok _
  · next e he => exact confined_error (hroot e he)

theorem parseAttribute_confined (text : String) : Confined (parseAttribute text) := by
  unfold parseAttribute
  split
  · exact confined_ok _
  · dsimp only
    split
    · exact confined_ok _
    · exact (parseExpression_confined _ _).map

theorem Coercion.require_confined (model : TypeModel) (source target : Ty) :
    Confined (require model source target) := by
  unfold require
  split
  · exact confined_ok _
  · exact confined_error rfl

theorem Coercion.requireText_confined (model : TypeModel) (text : String) (target : Ty) :
    Confined (requireText model text target) := by
  unfold requireText
  split
  · exact confined_ok _
  · exact confined_error rfl

theorem Overload.select_confined (model : TypeModel) (kind : MemberKind) (name : String)
    (owner : Ty) (candidates : List MethodInfo) (args : List Ty) :
    Confined (select model kind name owner candidates args) := by
  unfold select
  dsimp only
  split
  · exact confined_error rfl
  split
  · exact confined_error rfl
  · exact confined_ok _
  · exact confined_error rfl

namespace Build

/-- The same of a step of building, whatever nodes there are already. -/
def Confines {α : Type} (build : Build α) : Prop := ∀ n, Confined (build n)

section

variable {α β : Type}

theorem confines_pure (a : α) : Confines (pure a) := fun n ↦ confined_ok (a, n)

theorem confines_fail {e : CompileError} (h : e.problem.ofUnits = false) :
    Confines (fail e : Build α) := fun _ ↦ confined_error h

theorem Confines.bind {x : Build α} {f : α → Build β} (hx : Confines x)
    (hf : ∀ a, Confines (f a)) : Confines (x >>= f) :=
  fun n ↦ (hx n).bind fun (a, n') ↦ hf a n'

theorem confines_lift {x : Except CompileError α} (hx : Confined x) :
    Confines (liftM x : Build α) := fun n ↦ hx.bind fun a ↦ confined_ok (a, n)

theorem Confines.orSpan {build : Build α} (h : Confines build) (span : Span) :
    Confines (orSpan span build) := by
  intro n
  unfold Build.orSpan
  split
  · exact confined_ok _
  · next e he => exact confined_error (h n e he)

end

theorem push_confines (site : Site) (facts : Facts) (make : NodeInfo → Node) :
    Confines (push site facts make) := fun _ ↦ confined_ok _

theorem access_confines (site : Site) (receiver : Node) (member : Member) (facts : Facts) :
    Confines (access site receiver member facts) := fun _ ↦ confined_ok _

theorem literal_confines (site : Site) (value : Literal) : Confines (literal site value) :=
  push_confines _ _ _

theorem requireValue_confines (n : Node) : Confines (requireValue n) := by
  unfold requireValue
  split
  · exact confines_fail rfl
  · exact confines_pure ()

variable (cx : BuildContext) (site : Site)

theorem ident_confines (name : String) : Confines (ident cx site name) := by
  unfold ident
  split
  · exact push_confines _ _ _
  split
  · exact push_confines _ _ _
  · exact confines_fail rfl

theorem field_confines (receiver : Node) (name : String) :
    Confines (field cx site receiver name) := by
  unfold field
  dsimp only
  split
  · split
    · exact access_confines _ _ _ _
    · exact confines_fail rfl
  · split
    · exact access_confines _ _ _ _
    · exact confines_fail rfl

theorem arguments_confined (method : MethodInfo) (facts : Facts) (nodes : List Node)
    (params : List Ty) : Confined (arguments cx method facts nodes params) := by
  induction nodes generalizing facts params with
  | nil => exact confined_ok _
  | cons node nodes ih =>
    cases params with
    | nil => exact confined_ok _
    | cons param params =>
      exact (Coercion.require_confined _ _ _).bind fun _ ↦ (ih _ params).bind fun _ ↦ confined_ok _

theorem select_confined (kind : MemberKind) (name : String) (owner : Ty)
    (candidates : List MethodInfo) (receiver : Facts) (args : List Node) :
    Confined (select cx kind name owner candidates receiver args) :=
  (Overload.select_confined _ _ _ _ _ _).bind fun method ↦
    (arguments_confined cx method _ args method.params).bind fun _ ↦ confined_ok _

theorem call_confines (receiver : Node) (name : String) (args : List Node) :
    Confines (call cx site receiver name args) := by
  unfold call
  dsimp only
  split
  all_goals
    refine (confines_lift (select_confined cx _ _ _ _ _ _)).bind fun _ ↦ ?_
    exact access_confines _ _ _ _

theorem construct_confines (typeName : String) (args : List Node) :
    Confines (construct cx site typeName args) := by
  unfold construct
  split
  · exact confines_fail rfl
  · exact (confines_lift (select_confined cx _ _ _ _ _ _)).bind fun _ ↦ push_confines _ _ _

theorem indexByMethod_confines (receiver index : Node) :
    Confines (indexByMethod cx site receiver index) := by
  refine (confines_lift (select_confined cx _ _ _ _ _ _)).bind fun _ ↦ ?_
  dsimp only
  split
  · exact access_confines _ _ _ _
  · exact confines_fail rfl

theorem indexChars_confines (receiver index : Node) :
    Confines (indexChars cx site receiver index) := by
  unfold indexChars
  split
  · exact confines_fail rfl
  split
  · split
    · exact literal_confines _ _
    · exact confines_fail rfl
  · exact access_confines _ _ _ _

theorem index_confines (receiver index : Node) : Confines (Build.index cx site receiver index) := by
  have hrest : Confines (if receiver.ty = .str then indexChars cx site receiver index
      else indexByMethod cx site receiver index) := by
    split
    · exact indexChars_confines _ _ _ _
    · exact indexByMethod_confines _ _ _ _
  unfold Build.index
  dsimp only
  split
  · split
    · exact (confines_fail rfl).bind fun _ ↦ hrest
    · exact hrest
  · exact hrest

theorem promoted_confined (op : BinaryOp) (left right node : Node) (kind : Prim) :
    Confined (promoted cx op left right node kind) := by
  unfold promoted
  dsimp only
  split
  · exact confined_ok _
  · exact confined_error rfl

theorem concat_confines (left right : Node) : Confines (concat cx site left right) := by
  unfold concat
  split
  · exact literal_confines _ _
  · exact push_confines _ _ _

theorem folded_confines {value? : Option Literal} {build : Build Node} (h : Confines build) :
    Confines (match value? with
      | some value => literal site value
      | none => build) := by
  split
  · exact literal_confines _ _
  · exact h

theorem numeric_confines (op : BinaryOp) (left right : Node) :
    Confines (numeric cx site op left right) := by
  unfold numeric
  split
  · exact concat_confines _ _ _ _
  dsimp only
  have hrest : Confines (do
      let kind := promote left right
      let l ← promoted cx op left right left kind
      let r ← promoted cx op left right right kind
      if op.category = .comparison then
        match foldPair? cx left right (Fold.compare? op kind) with
        | some value => literal site value
        | none => binaryNode site op l r (.compare kind) .boolean
      else
        match foldPair? cx left right (Fold.arithmetic? op kind) with
        | some value => literal site value
        | none => binaryNode site op l r (.arithmetic kind) (.prim kind)) := by
    refine (confines_lift (promoted_confined _ _ _ _ _ _)).bind fun l ↦ ?_
    refine (confines_lift (promoted_confined _ _ _ _ _ _)).bind fun r ↦ ?_
    split
    · exact folded_confines _ (push_confines _ _ _)
    · exact folded_confines _ (push_confines _ _ _)
  split
  · exact (confines_fail rfl).bind fun _ ↦ hrest
  · exact hrest

theorem equality_confines (op : BinaryOp) (left right : Node) :
    Confines (equality cx site op left right) := by
  unfold equality
  dsimp only
  split
  · exact confines_fail rfl
  split
  · refine (confines_lift (promoted_confined _ _ _ _ _ _)).bind fun l ↦ ?_
    refine (confines_lift (promoted_confined _ _ _ _ _ _)).bind fun r ↦ ?_
    exact folded_confines _ (push_confines _ _ _)
  split
  · exact confines_fail rfl
  · exact folded_confines _ (push_confines _ _ _)

theorem condition_confined (symbol : String) (n : Node) : Confined (condition cx symbol n) := by
  unfold condition
  dsimp only
  split
  · exact confined_ok _
  · exact confined_error rfl

theorem shortCircuit_confines (op : BinaryOp) (left : Node) {right : Build Node}
    (hright : Confines right) : Confines (shortCircuit cx site op left right) := by
  refine (confines_lift (condition_confined _ _ _)).bind fun l ↦ ?_
  dsimp only
  split
  · exact literal_confines _ _
  refine hright.bind fun r ↦ (requireValue_confines r).bind fun _ ↦ ?_
  refine (confines_lift (condition_confined _ _ _)).bind fun _ ↦ ?_
  split
  · exact literal_confines _ _
  · exact push_confines _ _ _

theorem unary_confines (op : UnaryOp) (operand : Node) : Confines (unary cx site op operand) := by
  unfold unary
  dsimp only
  split
  · refine (confines_lift (condition_confined _ _ _)).bind fun arg ↦ ?_
    split
    · exact literal_confines _ _
    · exact push_confines _ _ _
  · split
    · exact confines_fail rfl
    · exact folded_confines _ (push_confines _ _ _)

mutual

theorem expr_confines (outer : Option Span) : (e : Expr) → Confines (expr cx outer e)
  | .literal _ _ => literal_confines _ _
  | .ident _ name => (ident_confines cx _ name).orSpan _
  | .field _ receiver name =>
    Confines.orSpan ((expr_confines none receiver).bind fun r ↦ field_confines cx _ r name) _
  | .call _ receiver name args =>
    Confines.orSpan ((expr_confines none receiver).bind fun r ↦
      (values_confines args).bind fun rs ↦ call_confines cx _ r name rs) _
  | .construct _ typeName args =>
    Confines.orSpan ((values_confines args).bind fun rs ↦ construct_confines cx _ typeName rs) _
  | .index _ receiver position =>
    Confines.orSpan ((expr_confines none receiver).bind fun r ↦
      (requireValue_confines r).bind fun _ ↦ (expr_confines none position).bind fun i ↦
        (requireValue_confines i).bind fun _ ↦ index_confines cx _ r i) _
  | .binary _ op left right => by
    unfold expr
    refine Confines.orSpan ((expr_confines none left).bind fun l ↦
      (requireValue_confines l).bind fun _ ↦ ?_) _
    split
    · exact shortCircuit_confines cx _ op l (expr_confines none right)
    refine (expr_confines none right).bind fun r ↦ (requireValue_confines r).bind fun _ ↦ ?_
    split
    · exact equality_confines cx _ op l r
    · exact numeric_confines cx _ op l r
  | .unary _ op operand =>
    Confines.orSpan ((expr_confines none operand).bind fun o ↦
      (requireValue_confines o).bind fun _ ↦ unary_confines cx _ op o) _
  | .paren s inner => expr_confines (outer.or (some s)) inner

theorem values_confines : (es : List Expr) → Confines (values cx es)
  | [] => confines_pure []
  | e :: rest => (expr_confines none e).bind fun n ↦ (requireValue_confines n).bind fun _ ↦
    (values_confines rest).bind fun ns ↦ confines_pure (n :: ns)

end

end Build

theorem Tree.build_confined (cx : BuildContext) : Confined (Tree.build cx) := by
  have hroot : Build.Confines (do
      let root ← Build.expr cx none cx.parsed.root
      Build.requireValue root
      return root) :=
    (Build.expr_confines cx none _).bind fun root ↦
      (Build.requireValue_confines root).bind fun _ ↦ Build.confines_pure root
  exact (hroot 0).bind fun _ ↦ confined_ok _

theorem Assembler.assemble_confined (a : Assembler) : Confined a.assemble := by
  unfold assemble
  cases a.finish with
  | error e => exact confined_error rfl
  | ok r => exact confined_ok r

namespace CompileContext

variable (cx : CompileContext)

theorem renderStatic_confined (tree : Tree) (target : Option Ty) :
    Confined (cx.renderStatic tree target) := by
  unfold renderStatic
  dsimp only
  split
  · exact confined_ok _
  split
  · split
    · exact (Coercion.require_confined _ _ _).map
    · exact (Coercion.requireText_confined _ _ _).map
  · exact (Coercion.require_confined _ _ _).map

theorem requireWritable_confined (target : Option BindingTarget) :
    Confined (requireWritable target) := by
  unfold requireWritable
  split
  · split
    · exact confined_error rfl
    · exact confined_ok ()
  · exact confined_ok ()

theorem compileArtifact_confined (tree : Tree) (target : Option BindingTarget) :
    Confined (cx.compileArtifact tree target) := by
  refine (requireWritable_confined target).bind fun _ ↦ ?_
  have hassemble (a b : Assembler) (make : Routine → Routine → DynamicBinding) :
      Confined (do return make (← a.assemble) (← b.assemble)) :=
    a.assemble_confined.bind fun _ ↦ b.assemble_confined.bind fun _ ↦ confined_ok _
  dsimp only
  split
  · exact (Coercion.require_confined _ _ _).bind fun _ ↦ hassemble _ _ _
  · exact (confined_ok _).bind fun _ ↦ hassemble _ _ _

theorem compilePlain_confined (text : String) (target : Option BindingTarget) :
    Confined (cx.compilePlain text target) := by
  unfold compilePlain
  split
  · exact confined_ok _
  · exact (Coercion.requireText_confined _ _ _).map

theorem compileTree_confined (tree : Tree) (target : Option BindingTarget) :
    Confined (cx.compileTree tree target) := by
  unfold compileTree
  split
  · exact confined_ok _
  split
  · exact (cx.renderStatic_confined tree _).map
  · exact (cx.compileArtifact_confined tree target).map

theorem compileBinding_confined (source : String) (scope : Scope)
    (target : Option BindingTarget) : Confined (cx.compileBinding source scope target) := by
  refine Confined.mapError ((parseAttribute_confined source).bind fun value ↦ ?_) fun e ↦ ?_
  · split
    · exact cx.compilePlain_confined _ _
    · exact (Tree.build_confined _).bind fun tree ↦ cx.compileTree_confined tree target
  · split
    · rfl
    · rfl

end CompileContext

theorem StaticBinding.routine_confined (b : StaticBinding) : Confined b.routine :=
  Assembler.assemble_confined _

namespace UnitCompiler

variable (c : UnitCompiler)

theorem compileSites_confined (unit : MarkupUnit) : Confined (c.compileSites unit) :=
  confined_mapM (fun _ ↦ ((c.options.context c.model).compileBinding_confined _ _ _).map) _

theorem output_confined (encoding : Encoding) (sites : List CompiledSite) :
    Confined (c.output encoding sites) := by
  cases encoding with
  | artifact => exact confined_ok _
  | listing =>
    refine (confined_mapM (fun site ↦ ?_) sites).map
    unfold CompiledSite.listing
    dsimp only
    split
    · exact (StaticBinding.routine_confined _).bind fun _ ↦ confined_ok _
    · exact confined_ok _
    · exact confined_ok _
  | image =>
    refine ((confined_mapM (fun site ↦ ?_) sites).map).map
    unfold SiteImage.of
    split
    · exact (StaticBinding.routine_confined _).map
    · exact confined_ok _
    · exact confined_ok _

/-- Once its includes are compiled, a unit fails only with a problem of one of its attributes. -/
theorem link_confined (key : UnitKey) (unit : MarkupUnit) (includes : List CompiledUnit) :
    Confined (c.link key unit includes) :=
  (c.compileSites_confined unit).bind fun sites ↦
    (c.output_confined key.encoding sites).bind fun _ ↦ confined_ok _

end UnitCompiler

end LiveBinding
