import LiveBinding.Expr.Basic
import LiveBinding.Tree.Fold
import LiveBinding.Tree.Node
import LiveBinding.Tree.Overload

namespace LiveBinding

/-- What an expression is resolved against. `fold` computes operators over literals at once. -/
structure BuildContext where
  model : TypeModel
  scope : Scope
  parsed : ParsedExpr
  fold : Bool

/-- Building counts the nodes it makes. -/
abbrev Build := StateT Nat (Except CompileError)

/-- The source text and the place of the node being built. -/
structure Site where
  name : String
  span : Span

/-- What a node passes on to the node around it. -/
structure Facts where
  ty : Ty
  monitoring : Nat
  evaluable : Bool

namespace Facts

def fixed (ty : Ty) : Facts := ⟨ty, 0, true⟩

def of (n : Node) : Facts := ⟨n.info.ty, n.info.monitoring, n.info.evaluable⟩

/-- The facts of a node of type `ty` that is computed from both. -/
def join (f g : Facts) (ty : Ty) : Facts :=
  ⟨ty, f.monitoring + g.monitoring, f.evaluable && g.evaluable⟩

end Facts

namespace Build

def orSpan {α : Type} (span : Span) (build : Build α) : Build α := fun n ↦
  match build n with
  | .ok result => .ok result
  | .error e => .error (e.orSpan span)

def fresh : Build Nat := fun n ↦ .ok (n, n + 1)

def fail {α : Type} (e : CompileError) : Build α := throw e

def push (site : Site) (facts : Facts) (make : NodeInfo → Node) : Build Node := do
  let id ← fresh
  return make ⟨id, site.name, site.span, facts.ty, facts.monitoring, facts.evaluable⟩

def literal (site : Site) (value : Literal) : Build Node :=
  push site (.fixed (.ofLiteral value)) (.literal · value)

/-- The member has a node of its own in front of that of the access. -/
def access (site : Site) (receiver : Node) (member : Member) (facts : Facts) : Build Node := do
  let _ ← fresh
  push site facts (.access · receiver member)

/-- A type name is no value. -/
def requireValue : Node → Build Unit
  | .typeRef info _ => fail ⟨.unknownIdentifier info.name, some info.span, none⟩
  | _ => pure ()

section

variable (cx : BuildContext)

/-- The rank for promotion; a string literal has that of the number it spells. -/
def rank? (n : Node) : Option Rank :=
  match n.literal? with
  | some value => value.numericView?.bind Literal.rank?
  | none => n.ty.rank?

/-- The literal of a node, where literals are computed with. -/
def constant? (n : Node) : Option Literal := if cx.fold then n.literal? else none

def constantBool? (n : Node) : Option Bool :=
  match (constant? cx n).bind Literal.numericView? with
  | some (.boolean b) => some b
  | _ => none

def foldPair? (left right : Node) (f : Literal → Literal → Option Literal) : Option Literal :=
  match constant? cx left, constant? cx right with
  | some l, some r => f l r
  | _, _ => none

def incompatible (op : BinaryOp) (left right : Node) : CompileError :=
  Problem.incompatibleOperands op.symbol (cx.model.display left.ty) (cx.model.display right.ty)

def ident (site : Site) (name : String) : Build Node :=
  match cx.scope.lookup? name with
  | some entry => push site ⟨entry.ty, 0, entry.isBound⟩ (.scopeRead · entry)
  | none =>
    match cx.model.resolveType name with
    | some ty => push site (.fixed ty) (.typeRef · ty)
    | none => fail (Problem.unknownIdentifier name)

def field (site : Site) (receiver : Node) (name : String) : Build Node :=
  let owner := Facts.of receiver
  match receiver with
  | .typeRef _ ty =>
    match cx.model.staticField ty name with
    | some f => access site receiver (.staticField f) { owner with ty := f.ty }
    | none => fail (Problem.noApplicableMember .staticField name (cx.model.display ty))
  | _ =>
    match cx.model.property owner.ty name with
    | some p =>
      let points := if p.flags.observable then 1 else 0
      access site receiver (.property p) ⟨p.ty, owner.monitoring + points, owner.evaluable⟩
    | none => fail (Problem.noApplicableMember .property name (cx.model.display owner.ty))

/-- Converts arguments to the parameters of a method. -/
def arguments (method : MethodInfo) (facts : Facts) :
    List Node → List Ty → Except CompileError (List Arg × Facts)
  | node :: nodes, param :: params => do
    let coercion ← Coercion.require cx.model node.ty param
    let (args, facts) ← arguments method (facts.join (.of node) method.ret) nodes params
    return (.mk node coercion :: args, facts)
  | _, _ => return ([], facts)

/-- The best of some methods with its arguments. -/
def select (kind : MemberKind) (name : String) (owner : Ty) (candidates : List MethodInfo)
    (receiver : Facts) (args : List Node) :
    Except CompileError (MethodInfo × List Arg × Facts) := do
  let method ← Overload.select cx.model kind name owner candidates (args.map Node.ty)
  let (args, facts) ←
    arguments cx method { receiver with ty := method.ret } args method.params
  return (method, args, facts)

def call (site : Site) (receiver : Node) (name : String) (args : List Node) : Build Node := do
  let owner := Facts.of receiver
  match receiver with
  | .typeRef _ ty =>
    let candidates := cx.model.staticMethods ty name args.length
    let (method, args, facts) ← select cx .staticMethod name ty candidates owner args
    access site receiver (.staticCall method args) facts
  | _ =>
    let candidates := cx.model.methods owner.ty name args.length
    let (method, args, facts) ← select cx .method name owner.ty candidates owner args
    access site receiver (.method method args) facts

def construct (site : Site) (typeName : String) (args : List Node) : Build Node :=
  match cx.model.resolveType typeName with
  | none => fail (Problem.typeNotFound typeName)
  | some owner => do
    let candidates := cx.model.constructors owner args.length
    let (method, args, facts) ← select cx .constructor typeName owner candidates (.fixed owner) args
    push site facts (.construct · method args)

/-- The literal that an index spells. -/
def literalIndex? (index : Node) : Option Literal := index.literal?.bind Literal.numericView?

/-- Indexes a receiver that is not a string, by its method `get`. -/
def indexByMethod (site : Site) (receiver index : Node) : Build Node := do
  let owner := Facts.of receiver
  let candidates := cx.model.methods owner.ty "get" 1
  let (method, args, facts) ← select cx .indexer "get" owner.ty candidates owner [index]
  match args with
  | [arg] => access site receiver (.index arg (.method method)) facts
  | _ => fail (Problem.noApplicableMember .indexer "get" (cx.model.display owner.ty))

/-- The conversion of the index of a string. A literal has to spell a whole number. -/
def charCoercion? (index : Node) : Option Fragment :=
  let wellFormed := match literalIndex? index, index.literal? with
    | some (.int _), _ | some (.long _), _ => true
    | _, some _ => false
    | _, none => true
  if wellFormed && index.ty != .null then Coercion.coerce? cx.model index.ty .int else none

def indexChars (site : Site) (receiver index : Node) : Build Node :=
  match charCoercion? cx index with
  | none => fail ⟨.illegalIndex index.info.name, some index.info.span, none⟩
  | some coercion =>
    match constant? cx receiver, (literalIndex? index).bind Literal.toInt64? with
    | some (.string text), some n =>
      match if 0 ≤ n.toInt then text.toList[n.toInt.toNat]? else none with
      | some c => literal site (.string (String.singleton c))
      | none => fail (Problem.indexOutOfRange n.toInt text.length)
    | _, _ =>
      access site receiver (.index (.mk index coercion) .chars)
        ((Facts.of receiver).join (.of index) .str)

def index (site : Site) (receiver index : Node) : Build Node := do
  match (literalIndex? index).bind Literal.toInt64? with
  | some n =>
    if n.toInt < 0 then
      fail ⟨.illegalIndex (toString n.toInt), some index.info.span, none⟩
  | none => pure ()
  if receiver.ty = .str then indexChars cx site receiver index
  else indexByMethod cx site receiver index

def binaryNode (site : Site) (op : BinaryOp) (left right : Arg) (plan : Plan) (ty : Ty) :
    Build Node :=
  push site ((Facts.of left.node).join (.of right.node) ty) (.binary · op left right plan)

/-- The common kind of two operands. -/
def promote (left right : Node) : Prim := .ofRank (.promote (rank? left) (rank? right))

/-- Converts one of two operands to their common kind. -/
def promoted (op : BinaryOp) (left right node : Node) (kind : Prim) : Except CompileError Arg :=
  let coercion := match node.ty with
    | .null | .void => none
    | ty => Coercion.coerce? cx.model ty (.prim kind)
  match coercion with
  | some coercion => .ok (.mk node coercion)
  | none => .error (incompatible cx op left right)

/-- The operand makes `+` join strings; text that spells a number does not. -/
def concatenates (n : Node) : Bool :=
  n.ty = .str && match n.literal? with
    | some (.string text) => (Literal.parseNumeric? text).isNone
    | _ => true

def concat (site : Site) (left right : Node) : Build Node :=
  match constant? cx left, constant? cx right with
  | some l, some r => literal site (.string (l.render ++ r.render))
  | _, _ => binaryNode site .add (.mk left .empty) (.mk right .empty) .concat .str

def numeric (site : Site) (op : BinaryOp) (left right : Node) : Build Node := do
  if op = .add && (concatenates left || concatenates right) then concat cx site left right
  else
    let kind := promote left right
    if kind = .boolean then fail (incompatible cx op left right)
    let l ← promoted cx op left right left kind
    let r ← promoted cx op left right right kind
    if op.category = .comparison then
      match foldPair? cx left right (Fold.compare? op kind) with
      | some value => literal site value
      | none => binaryNode site op l r (.compare kind) .boolean
    else
      match foldPair? cx left right (Fold.arithmetic? op kind) with
      | some value => literal site value
      | none => binaryNode site op l r (.arithmetic kind) (.prim kind)

def equality (site : Site) (op : BinaryOp) (left right : Node) : Build Node := do
  let nullSide := left.ty = .null || right.ty = .null
  if (left.ty.isPrimitive || right.ty.isPrimitive) && nullSide then
    fail (incompatible cx op left right)
  else if (left.ty.primitive?.isSome || right.ty.primitive?.isSome) && !nullSide then
    let kind := promote left right
    let l ← promoted cx op left right left kind
    let r ← promoted cx op left right right kind
    match foldPair? cx left right (Fold.compare? op kind) with
    | some value => literal site value
    | none => binaryNode site op l r (.compare kind) .boolean
  else if left.ty = .void || right.ty = .void then fail (incompatible cx op left right)
  else
    match foldPair? cx left right (Fold.references? op) with
    | some value => literal site value
    | none => binaryNode site op (.mk left .empty) (.mk right .empty) .refEquality .boolean

/-- An operand that has to be a boolean. Strings are read as one. -/
def condition (symbol : String) (n : Node) : Except CompileError Arg :=
  let coercion :=
    if n.ty.isBoolean || n.ty = .str then Coercion.coerce? cx.model n.ty .boolean else none
  match coercion with
  | some coercion => .ok (.mk n coercion)
  | none => .error (Problem.incompatibleOperands symbol (cx.model.display n.ty) "boolean")

/-- `&&` and `||`. The right operand is not even built if a literal on the left decides. -/
def shortCircuit (site : Site) (op : BinaryOp) (left : Node) (right : Build Node) :
    Build Node := do
  let l ← condition cx op.symbol left
  let decided := constantBool? cx left
  if decided.isSome && decided = op.decidedBy then literal site (.boolean (decided = some true))
  else
    let right ← right
    requireValue right
    let r ← condition cx op.symbol right
    match decided, constantBool? cx right with
    | some a, some b => literal site (.boolean (if op = .and then a && b else a || b))
    | _, _ => binaryNode site op l r .shortCircuit .boolean

def unary (site : Site) (op : UnaryOp) (operand : Node) : Build Node := do
  let facts := Facts.of operand
  match op with
  | .not =>
    let arg ← condition cx op.symbol operand
    match constantBool? cx operand with
    | some b => literal site (.boolean !b)
    | none => push site { facts with ty := .boolean } (.unary · op arg .boolean)
  | .neg =>
    let kind := Prim.ofRank (.promote (rank? operand) none)
    let coercion := match operand.ty with
      | .null | .void => none
      | ty => if kind = .boolean then none else Coercion.coerce? cx.model ty (.prim kind)
    match coercion with
    | none =>
      fail (Problem.incompatibleOperands op.symbol (cx.model.display operand.ty) "number")
    | some coercion =>
      match (constant? cx operand).bind (Fold.negate? kind) with
      | some value => literal site value
      | none =>
        push site { facts with ty := .prim kind } (.unary · op (.mk operand coercion) kind)

def site (span : Span) : Site := ⟨cx.parsed.text span, cx.parsed.attributeSpan span⟩

mutual

/-- The node of an expression. Inside parentheses it takes the text and the place of the outermost
ones. An error without a place gets that of the innermost node around it. -/
def expr (outer : Option Span) : Expr → Build Node
  | .literal s value => literal (site cx (outer.getD s)) value
  | .ident s name =>
    let site := site cx (outer.getD s)
    orSpan site.span (ident cx site name)
  | .field s receiver name =>
    let site := site cx (outer.getD s)
    orSpan site.span do
      let receiver ← expr none receiver
      field cx site receiver name
  | .call s receiver name args =>
    let site := site cx (outer.getD s)
    orSpan site.span do
      let receiver ← expr none receiver
      let args ← values args
      call cx site receiver name args
  | .construct s typeName args =>
    let site := site cx (outer.getD s)
    orSpan site.span do
      let args ← values args
      construct cx site typeName args
  | .index s receiver position =>
    let site := site cx (outer.getD s)
    orSpan site.span do
      let receiver ← expr none receiver
      requireValue receiver
      let position ← expr none position
      requireValue position
      index cx site receiver position
  | .binary s op left right =>
    let site := site cx (outer.getD s)
    orSpan site.span do
      let left ← expr none left
      requireValue left
      if op.category = .shortCircuit then shortCircuit cx site op left (expr none right)
      else
        let right ← expr none right
        requireValue right
        if op.category = .equality then equality cx site op left right
        else numeric cx site op left right
  | .unary s op operand =>
    let site := site cx (outer.getD s)
    orSpan site.span do
      let operand ← expr none operand
      requireValue operand
      unary cx site op operand
  | .paren s inner => expr (outer.or (some s)) inner

def values : List Expr → Build (List Node)
  | [] => return []
  | e :: rest => do
    let node ← expr none e
    requireValue node
    let nodes ← values rest
    return node :: nodes

end

end

end Build

/-- Resolves names, types and members of an expression. -/
def Tree.build (cx : BuildContext) : Except CompileError Tree := do
  let (root, size) ← (do
    let root ← Build.expr cx none cx.parsed.root
    Build.requireValue root
    return root : Build Node).run 0
  return ⟨root, size⟩

end LiveBinding
