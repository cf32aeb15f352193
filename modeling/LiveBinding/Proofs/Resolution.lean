import LiveBinding.Proofs.Outcome
import LiveBinding.Proofs.Overloads
import LiveBinding.Proofs.Rendering
import LiveBinding.Tree.Build
import Mathlib.Algebra.GroupWithZero.Nat

namespace LiveBinding

/-- Operands are promoted to the kind. -/
def Prim.isRanked (p : Prim) : Bool := p.rank?.isSome

theorem Prim.isRanked_ofRank (rank : Rank) : (ofRank rank).isRanked := by cases rank <;> rfl

def NodeInfo.facts (info : NodeInfo) : Facts := ⟨info.ty, info.monitoring, info.evaluable⟩

namespace Node

/-- The node stands for a value and not for a type. -/
def isValue : Node → Bool
  | typeRef .. => false
  | _ => true

/-- How many observable properties some arguments read. -/
def argReads (args : List Arg) : Nat := (args.map (·.node.monitoring)).sum

def argsEvaluable (args : List Arg) : Bool := args.all (·.node.info.evaluable)

section

variable (cx : BuildContext)

/-- An argument is a value that is converted to a type. -/
def Converts (a : Arg) (ty : Ty) : Prop :=
  a.node.isValue ∧ Coercion.coerce? cx.model a.node.ty ty = some a.coercion

/-- The arguments are converted to the parameters of a method. -/
def Passes (args : List Arg) (method : MethodInfo) : Prop :=
  List.Forall₂ (fun a ty ↦ Converts cx a ty ∧ a.node.ty ≠ .void) args method.params

/-- The member belongs to the type of its receiver. -/
def MemberFits (receiver : Node) (ty : Ty) : Member → Prop
  | .property p =>
    receiver.isValue ∧ (∃ name, cx.model.property receiver.ty name = some p) ∧ ty = p.ty
  | .staticField f => ∃ info owner name, receiver = .typeRef info owner ∧
      cx.model.staticField owner name = some f ∧ ty = f.ty
  | .method m args => receiver.isValue ∧ (∃ name, m ∈ cx.model.methods receiver.ty name args.length) ∧
      Passes cx args m ∧ ty = m.ret
  | .staticCall m args => ∃ info owner name, receiver = .typeRef info owner ∧
      m ∈ cx.model.staticMethods owner name args.length ∧ Passes cx args m ∧ ty = m.ret
  | .index a .chars => receiver.isValue ∧ receiver.ty = .str ∧ Converts cx a .int ∧ ty = .str
  | .index a (.method m) => receiver.isValue ∧ m ∈ cx.model.methods receiver.ty "get" 1 ∧
      Passes cx [a] m ∧ ty = m.ret

def memberReads : Member → Nat
  | .property p => if p.flags.observable then 1 else 0
  | .staticField _ => 0
  | .method _ args | .staticCall _ args => argReads args
  | .index a _ => a.node.monitoring

def memberEvaluable : Member → Bool
  | .property _ | .staticField _ => true
  | .method _ args | .staticCall _ args => argsEvaluable args
  | .index a _ => a.node.info.evaluable

/-- The operator computes a value of a type by its plan. -/
def PlanFits (op : BinaryOp) (left right : Arg) (ty : Ty) : Plan → Prop
  | .arithmetic kind => op.category = .arithmetic ∧ (kind.isRanked ∧ kind ≠ .boolean) ∧
      Converts cx left (.prim kind) ∧ Converts cx right (.prim kind) ∧ ty = .prim kind
  | .compare kind => (op.category = .comparison ∧ kind ≠ .boolean ∨ op.category = .equality) ∧
      Converts cx left (.prim kind) ∧ Converts cx right (.prim kind) ∧ ty = .boolean
  | .concat => left.node.isValue ∧ right.node.isValue ∧ left.coercion = .empty ∧
      right.coercion = .empty ∧ ty = .str
  | .refEquality => left.node.isValue ∧ right.node.isValue ∧ left.coercion = .empty ∧
      right.coercion = .empty ∧ ty = .boolean
  | .shortCircuit => Converts cx left .boolean ∧ Converts cx right .boolean ∧ ty = .boolean

/-- A node agrees with what it is made of. -/
def Fits : Node → Prop
  | literal info value => info.facts = .fixed (.ofLiteral value)
  | scopeRead info entry => (∃ name, cx.scope.lookup? name = some entry) ∧
      info.facts = ⟨entry.ty, 0, entry.isBound⟩
  | typeRef info owner => info.facts = .fixed owner
  | access info receiver member => MemberFits cx receiver info.ty member ∧
      info.monitoring = receiver.monitoring + memberReads member ∧
      info.evaluable = (receiver.info.evaluable && memberEvaluable member)
  | construct info m args => (∃ owner, m ∈ cx.model.constructors owner args.length) ∧
      Passes cx args m ∧ info.facts = ⟨m.ret, argReads args, argsEvaluable args⟩
  | binary info op left right plan => PlanFits cx op left right info.ty plan ∧
      info.monitoring = left.node.monitoring + right.node.monitoring ∧
      info.evaluable = (left.node.info.evaluable && right.node.info.evaluable)
  | unary info op operand kind => info.monitoring = operand.node.monitoring ∧
      info.evaluable = operand.node.info.evaluable ∧ info.ty = .prim kind ∧
      Converts cx operand (.prim kind) ∧ kind.isRanked ∧ (op = .not ↔ kind = .boolean)

end

mutual

/-- A property of a node and of every node in it. -/
def Forall (P : Node → Prop) : Node → Prop
  | literal info value => P (literal info value)
  | scopeRead info entry => P (scopeRead info entry)
  | typeRef info owner => P (typeRef info owner)
  | access info receiver member =>
    P (access info receiver member) ∧ Forall P receiver ∧ memberForall P member
  | construct info m args => P (construct info m args) ∧ argsForall P args
  | binary info op (.mk left c) (.mk right c') plan =>
    P (binary info op (.mk left c) (.mk right c') plan) ∧ Forall P left ∧ Forall P right
  | unary info op (.mk operand c) kind => P (unary info op (.mk operand c) kind) ∧ Forall P operand

def memberForall (P : Node → Prop) : Member → Prop
  | .property _ | .staticField _ => True
  | .method _ args | .staticCall _ args => argsForall P args
  | .index (.mk node _) _ => Forall P node

def argsForall (P : Node → Prop) : List Arg → Prop
  | [] => True
  | .mk node _ :: rest => Forall P node ∧ argsForall P rest

end

/-- Every node agrees with what it is made of. -/
def Resolved (cx : BuildContext) (n : Node) : Prop := n.Forall (Fits cx)

end Node

namespace Build

variable {α β : Type}

/-- Whatever a build gives has a property. -/
def Gives (x : Build α) (P : α → Prop) : Prop := ∀ n a n', x n = .ok (a, n') → P a

namespace Gives

variable {P : α → Prop} {Q : β → Prop}

theorem bind {x : Build α} {f : α → Build β} (hx : Gives x P) (hf : ∀ a, P a → Gives (f a) Q) :
    Gives (x >>= f) Q := by
  intro n b n' h
  simp only [Bind.bind, StateT.bind, Except.bind] at h
  split at h
  · cases h
  · next p hp => exact hf p.1 (hx n p.1 p.2 hp) p.2 b n' h

theorem pure {a : α} (h : P a) : Gives (Pure.pure a : Build α) P := by
  rintro n a n' ⟨⟩
  exact h

theorem fail (e : CompileError) : Gives (Build.fail e : Build α) P := by
  rintro n a n' ⟨⟩

theorem lift {e : Except CompileError α} (h : ∀ a, e = .ok a → P a) :
    Gives (liftM e : Build α) P := by
  intro n a n' hn
  cases e with
  | error e => cases hn
  | ok b =>
    cases hn
    exact h a rfl

theorem orSpan {x : Build α} (span : Span) (h : Gives x P) : Gives (Build.orSpan span x) P := by
  intro n a n' hn
  simp only [Build.orSpan] at hn
  split at hn
  · next hx => exact h n a n' (hx.trans hn)
  · cases hn

theorem mono {P' : α → Prop} {x : Build α} (h : Gives x P) (hp : ∀ a, P a → P' a) : Gives x P' :=
  fun n a n' hn ↦ hp a (h n a n' hn)

end Gives

end Build

open Build

section

variable (cx : BuildContext)

/-- A node that is resolved and stands for a value. -/
def IsOperand (n : Node) : Prop := n.Resolved cx ∧ n.isValue

variable {cx}

theorem gives_push {site : Site} {facts : Facts} {make : NodeInfo → Node} {P : Node → Prop}
    (h : ∀ info : NodeInfo, info.facts = facts → P (make info)) :
    Gives (push site facts make) P := by
  refine Gives.bind (P := fun _ ↦ True) (fun _ _ _ _ ↦ trivial) fun id _ ↦ .pure (h _ rfl)

theorem gives_literal (site : Site) (value : Literal) :
    Gives (literal site value) (IsOperand cx) :=
  gives_push fun _ hi ↦ ⟨hi, rfl⟩

theorem gives_access {site : Site} {receiver : Node} {member : Member} {facts : Facts}
    (hr : receiver.Resolved cx) (hm : Node.memberForall (Node.Fits cx) member)
    (hf : Node.MemberFits cx receiver facts.ty member)
    (hn : facts.monitoring = receiver.monitoring + Node.memberReads member)
    (he : facts.evaluable = (receiver.info.evaluable && Node.memberEvaluable member)) :
    Gives (access site receiver member facts) (IsOperand cx) := by
  refine Gives.bind (P := fun _ ↦ True) (fun _ _ _ _ ↦ trivial) fun _ _ ↦ gives_push ?_
  rintro info rfl
  exact ⟨⟨⟨hf, hn, he⟩, hr, hm⟩, rfl⟩

theorem gives_requireValue (n : Node) : Gives (requireValue n) (fun _ ↦ n.isValue) := by
  cases n with
  | typeRef => exact .fail _
  | _ => exact .pure rfl

theorem gives_ident (site : Site) (name : String) :
    Gives (ident cx site name) (Node.Resolved cx) := by
  unfold ident
  split
  · next entry h => exact gives_push fun info hi ↦ ⟨⟨name, h⟩, hi⟩
  · split
    · exact gives_push fun info hi ↦ hi
    · exact .fail _

theorem gives_field {receiver : Node} (site : Site) (name : String) (h : receiver.Resolved cx) :
    Gives (field cx site receiver name) (IsOperand cx) := by
  unfold field
  split
  · next info owner =>
    split
    · next f hf =>
      have hi : info.facts = .fixed owner := h
      exact gives_access h trivial ⟨info, owner, name, rfl, hf, rfl⟩ rfl (Bool.and_true _).symm
    · exact .fail _
  · next hv =>
    have hvalue : receiver.isValue := by
      cases receiver <;> first | rfl | exact absurd rfl (hv _ _)
    dsimp only
    split
    · next p hp => exact gives_access h trivial ⟨hvalue, ⟨name, hp⟩, rfl⟩ rfl (Bool.and_true _).symm
    · exact .fail _

theorem best_mem {model : TypeModel} {tys : List Ty} {candidates : List MethodInfo} {m : MethodInfo}
    (h : m ∈ Overload.best model tys candidates) :
    m ∈ candidates ∧ (Overload.viable? model tys m).isSome := by
  rw [Overload.best_eq_leaders] at h
  obtain ⟨hm, hleads⟩ := List.mem_filter.mp h
  exact ⟨hm, Overload.viable?_isSome_iff.mpr (of_decide_eq_true hleads).1⟩

theorem select_mem {model : TypeModel} {kind : MemberKind} {name : String} {owner : Ty}
    {candidates : List MethodInfo} {tys : List Ty} {m : MethodInfo}
    (h : Overload.select model kind name owner candidates tys = .ok m) :
    m ∈ candidates ∧ m.params.length = tys.length ∧
      Overload.isApplicable model m.params tys := by
  have hm : m ∈ Overload.best model tys candidates := by
    unfold Overload.select at h
    dsimp only at h
    split at h
    · cases h
    · split at h
      · cases h
      · next hb =>
        cases h
        rw [hb]
        exact List.mem_singleton_self _
      · cases h
  obtain ⟨hc, hv⟩ := best_mem hm
  unfold Overload.viable? at hv
  split at hv
  · next hall =>
    simp only [Bool.and_eq_true, beq_iff_eq] at hall
    exact ⟨hc, hall.1.2, hall.2⟩
  · cases hv

theorem require_eq {model : TypeModel} {source target : Ty} {c : Fragment}
    (h : Coercion.require model source target = .ok c) :
    Coercion.coerce? model source target = some c := by
  unfold Coercion.require at h
  split at h
  · cases h; assumption
  · cases h

/-- Arguments that are converted one after the other. -/
theorem arguments_eq {m : MethodInfo} {nodes : List Node} {params : List Ty} {facts facts' : Facts}
    {args : List Arg} (h : arguments cx m facts nodes params = .ok (args, facts'))
    (hty : facts.ty = m.ret) (hlen : params.length = nodes.length)
    (happ : Overload.isApplicable cx.model params (nodes.map Node.ty))
    (hn : ∀ n ∈ nodes, IsOperand cx n) :
    List.Forall₂ (fun a ty ↦ Node.Converts cx a ty ∧ a.node.ty ≠ .void) args params ∧
      Node.argsForall (Node.Fits cx) args ∧ args.length = nodes.length ∧
      facts' = ⟨m.ret, facts.monitoring + Node.argReads args,
        facts.evaluable && Node.argsEvaluable args⟩ := by
  induction nodes generalizing params facts args with
  | nil =>
    cases params with
    | cons => simp at hlen
    | nil =>
      cases h
      exact ⟨.nil, trivial, rfl, by simp [Node.argReads, Node.argsEvaluable, ← hty]⟩
  | cons n nodes ih =>
    cases params with
    | nil => simp at hlen
    | cons param params =>
      obtain ⟨c, hc, h⟩ := except_bind_ok h
      obtain ⟨⟨rest, facts₁⟩, hrest, h⟩ := except_bind_ok h
      cases h
      simp only [Overload.isApplicable, List.map_cons, List.zip_cons_cons, List.all_cons,
        Bool.and_eq_true, bne_iff_ne] at happ
      have hnode := hn n List.mem_cons_self
      obtain ⟨h₁, h₂, h₃, h₄⟩ := ih hrest rfl (by simpa using hlen) happ.2
        (fun n hn' ↦ hn n (List.mem_cons_of_mem _ hn'))
      refine ⟨.cons ⟨⟨hnode.2, require_eq hc⟩, happ.1.1⟩ h₁, ⟨hnode.1, h₂⟩, by simp [h₃], ?_⟩
      rw [h₄]
      simp [Facts.join, Facts.of, Node.argReads, Node.argsEvaluable, Arg.node, Node.monitoring,
        Nat.add_assoc, Bool.and_assoc]

theorem select_eq {kind : MemberKind} {name : String} {owner : Ty} {candidates : List MethodInfo}
    {facts facts' : Facts} {nodes : List Node} {m : MethodInfo} {args : List Arg}
    (h : select cx kind name owner candidates facts nodes = .ok (m, args, facts'))
    (hn : ∀ n ∈ nodes, IsOperand cx n) :
    m ∈ candidates ∧ Node.Passes cx args m ∧ Node.argsForall (Node.Fits cx) args ∧
      args.length = nodes.length ∧ facts' = ⟨m.ret, facts.monitoring + Node.argReads args,
        facts.evaluable && Node.argsEvaluable args⟩ := by
  obtain ⟨m', hm, h⟩ := except_bind_ok h
  obtain ⟨⟨args', facts₁⟩, hargs, h⟩ := except_bind_ok h
  cases h
  obtain ⟨hmem, hlen, happ⟩ := select_mem hm
  obtain ⟨h₁, h₂, h₃, h₄⟩ := arguments_eq hargs rfl (by simpa using hlen) happ hn
  exact ⟨hmem, h₁, h₂, h₃, h₄⟩

theorem gives_call {receiver : Node} {nodes : List Node} (site : Site) (name : String)
    (h : receiver.Resolved cx) (hn : ∀ n ∈ nodes, IsOperand cx n) :
    Gives (call cx site receiver name nodes) (IsOperand cx) := by
  unfold call
  dsimp only
  split
  · next info owner =>
    refine Gives.bind (Gives.lift fun _ hsel ↦ hsel) fun ⟨m, args, facts⟩ hsel ↦ ?_
    obtain ⟨hm, hp, ha, hlen, rfl⟩ := select_eq hsel hn
    exact gives_access h ha ⟨info, owner, name, rfl, hlen ▸ hm, hp, rfl⟩ rfl rfl
  · next hv =>
    have hvalue : receiver.isValue := by
      cases receiver <;> first | rfl | exact absurd rfl (hv _ _)
    refine Gives.bind (Gives.lift fun _ hsel ↦ hsel) fun ⟨m, args, facts⟩ hsel ↦ ?_
    obtain ⟨hm, hp, ha, hlen, rfl⟩ := select_eq hsel hn
    exact gives_access h ha ⟨hvalue, ⟨name, hlen ▸ hm⟩, hp, rfl⟩ rfl rfl

theorem gives_construct {nodes : List Node} (site : Site) (name : String)
    (hn : ∀ n ∈ nodes, IsOperand cx n) :
    Gives (construct cx site name nodes) (IsOperand cx) := by
  unfold construct
  split
  · exact .fail _
  · next owner hr =>
    refine Gives.bind (Gives.lift fun _ hsel ↦ hsel) fun ⟨m, args, facts⟩ hsel ↦ ?_
    obtain ⟨hm, hp, ha, hlen, rfl⟩ := select_eq hsel hn
    refine gives_push fun info hi ↦ ⟨⟨⟨⟨owner, hlen ▸ hm⟩, hp, ?_⟩, ha⟩, rfl⟩
    simpa [Facts.fixed] using hi

theorem gives_indexByMethod {receiver index : Node} (site : Site) (h : IsOperand cx receiver)
    (hi : IsOperand cx index) :
    Gives (indexByMethod cx site receiver index) (IsOperand cx) := by
  unfold indexByMethod
  dsimp only
  refine Gives.bind (Gives.lift fun _ hsel ↦ hsel) fun ⟨m, args, facts⟩ hsel ↦ ?_
  obtain ⟨hm, hp, ha, hlen, rfl⟩ := select_eq hsel (by simpa using hi)
  dsimp only
  split
  · next a =>
    obtain ⟨node, c⟩ := a
    refine gives_access h.1 ha.1 ⟨h.2, hm, hp, rfl⟩ ?_ ?_
    · simp [Node.argReads, Node.memberReads, Facts.of, Node.monitoring]
    · simp [Node.argsEvaluable, Node.memberEvaluable, Facts.of]
  · exact .fail _

theorem charCoercion_eq {index : Node} {c : Fragment} (h : charCoercion? cx index = some c) :
    Coercion.coerce? cx.model index.ty .int = some c := by
  unfold charCoercion? at h
  exact (Option.ite_none_right_eq_some.mp h).2

theorem gives_indexChars {receiver index : Node} (site : Site) (h : IsOperand cx receiver)
    (hs : receiver.ty = .str) (hi : IsOperand cx index) :
    Gives (indexChars cx site receiver index) (IsOperand cx) := by
  unfold indexChars
  split
  · exact .fail _
  · next c hc =>
    split
    · split
      · exact gives_literal _ _
      · exact .fail _
    · exact gives_access h.1 hi.1 ⟨h.2, hs, ⟨hi.2, charCoercion_eq hc⟩, rfl⟩ rfl rfl

theorem gives_index {receiver index : Node} (site : Site) (h : IsOperand cx receiver)
    (hi : IsOperand cx index) : Gives (Build.index cx site receiver index) (IsOperand cx) := by
  have hlast : Gives (if receiver.ty = .str then indexChars cx site receiver index
      else indexByMethod cx site receiver index) (IsOperand cx) := by
    split
    · next hs => exact gives_indexChars site h hs hi
    · exact gives_indexByMethod site h hi
  unfold Build.index
  dsimp only
  cases (literalIndex? index).bind Literal.toInt64? with
  | none => exact hlast
  | some n =>
    dsimp only
    by_cases hneg : n.toInt < 0
    · rw [if_pos hneg]
      exact Gives.bind (P := fun _ ↦ False) (.fail _) fun _ h ↦ h.elim
    · rw [if_neg hneg]
      exact hlast

theorem gives_binaryNode {op : BinaryOp} {left right : Arg} {plan : Plan} {ty : Ty} (site : Site)
    (hl : left.node.Resolved cx) (hr : right.node.Resolved cx)
    (h : Node.PlanFits cx op left right ty plan) :
    Gives (binaryNode site op left right plan ty) (IsOperand cx) := by
  obtain ⟨l, c⟩ := left
  obtain ⟨r, c'⟩ := right
  refine gives_push ?_
  rintro info hi
  obtain ⟨hty, hm, he⟩ : info.ty = ty ∧ info.monitoring = l.info.monitoring + r.info.monitoring ∧
      info.evaluable = (l.info.evaluable && r.info.evaluable) := by
    simpa [NodeInfo.facts, Facts.join, Facts.of, Arg.node] using hi
  exact ⟨⟨⟨hty ▸ h, hm, he⟩, hl, hr⟩, rfl⟩

theorem promoted_eq {op : BinaryOp} {left right node : Node} {kind : Prim} {a : Arg}
    (h : promoted cx op left right node kind = .ok a) (hn : node.isValue) :
    a.node = node ∧ Node.Converts cx a (.prim kind) := by
  unfold promoted at h
  dsimp only at h
  split at h
  · next c hc =>
    cases h
    refine ⟨rfl, hn, ?_⟩
    split at hc
    · cases hc
    · cases hc
    · exact hc
  · cases h

theorem gives_concat {left right : Node} (site : Site) (hl : IsOperand cx left)
    (hr : IsOperand cx right) : Gives (concat cx site left right) (IsOperand cx) := by
  unfold concat
  split
  · exact gives_literal _ _
  · exact gives_binaryNode site hl.1 hr.1 ⟨hl.2, hr.2, rfl, rfl, rfl⟩

theorem gives_numeric {op : BinaryOp} {left right : Node} (site : Site) (hl : IsOperand cx left)
    (hr : IsOperand cx right) (hop : op.category = .arithmetic ∨ op.category = .comparison) :
    Gives (numeric cx site op left right) (IsOperand cx) := by
  unfold numeric
  split
  · exact gives_concat site hl hr
  · dsimp only
    by_cases hk : promote left right = .boolean
    · rw [if_pos hk]
      exact Gives.bind (P := fun _ ↦ False) (.fail _) fun _ h ↦ h.elim
    · rw [if_neg hk]
      refine Gives.bind (Gives.lift fun _ h ↦ promoted_eq h hl.2) fun l ⟨hl', hlc⟩ ↦ ?_
      refine Gives.bind (Gives.lift fun _ h ↦ promoted_eq h hr.2) fun r ⟨hr', hrc⟩ ↦ ?_
      split
      · next hc =>
        split
        · exact gives_literal _ _
        · exact gives_binaryNode site (hl' ▸ hl.1) (hr' ▸ hr.1) ⟨.inl ⟨hc, hk⟩, hlc, hrc, rfl⟩
      · next hc =>
        split
        · exact gives_literal _ _
        · exact gives_binaryNode site (hl' ▸ hl.1) (hr' ▸ hr.1)
            ⟨hop.resolve_right hc, ⟨Prim.isRanked_ofRank _, hk⟩, hlc, hrc, rfl⟩

theorem gives_equality {op : BinaryOp} {left right : Node} (site : Site) (hl : IsOperand cx left)
    (hr : IsOperand cx right) (hop : op.category = .equality) :
    Gives (equality cx site op left right) (IsOperand cx) := by
  unfold equality
  dsimp only
  split
  · exact .fail _
  · split
    · refine Gives.bind (Gives.lift fun _ h ↦ promoted_eq h hl.2) fun l ⟨hl', hlc⟩ ↦ ?_
      refine Gives.bind (Gives.lift fun _ h ↦ promoted_eq h hr.2) fun r ⟨hr', hrc⟩ ↦ ?_
      split
      · exact gives_literal _ _
      · exact gives_binaryNode site (hl' ▸ hl.1) (hr' ▸ hr.1) ⟨.inr hop, hlc, hrc, rfl⟩
    · split
      · exact .fail _
      · split
        · exact gives_literal _ _
        · exact gives_binaryNode site hl.1 hr.1 ⟨hl.2, hr.2, rfl, rfl, rfl⟩

theorem condition_eq {symbol : String} {node : Node} {a : Arg}
    (h : condition cx symbol node = .ok a) (hn : node.isValue) :
    a.node = node ∧ Node.Converts cx a .boolean := by
  unfold condition at h
  dsimp only at h
  split at h
  · next c hc =>
    cases h
    exact ⟨rfl, hn, (Option.ite_none_right_eq_some.mp hc).2⟩
  · cases h

theorem gives_shortCircuit {op : BinaryOp} {left : Node} {right : Build Node} (site : Site)
    (hl : IsOperand cx left) (hr : Gives right (Node.Resolved cx)) :
    Gives (shortCircuit cx site op left right) (IsOperand cx) := by
  unfold shortCircuit
  refine Gives.bind (Gives.lift fun _ h ↦ condition_eq h hl.2) fun l ⟨hl', hlc⟩ ↦ ?_
  dsimp only
  split
  · exact gives_literal _ _
  · refine Gives.bind hr fun r hr ↦ Gives.bind (gives_requireValue r) fun _ hv ↦ ?_
    refine Gives.bind (Gives.lift fun _ h ↦ condition_eq h hv) fun a ⟨hr', hrc⟩ ↦ ?_
    split
    · exact gives_literal _ _
    · exact gives_binaryNode site (hl' ▸ hl.1) (hr' ▸ hr) ⟨hlc, hrc, rfl⟩

theorem gives_unaryNode {op : UnaryOp} {operand : Node} {c : Fragment} {kind : Prim} (site : Site)
    (h : operand.Resolved cx) (hc : Node.Converts cx (.mk operand c) (.prim kind))
    (hk : kind.isRanked) (hop : op = .not ↔ kind = .boolean) :
    Gives (push site { Facts.of operand with ty := .prim kind }
      (.unary · op (.mk operand c) kind)) (IsOperand cx) := by
  refine gives_push fun info hi ↦ ?_
  obtain ⟨hty, hm, he⟩ : info.ty = .prim kind ∧ info.monitoring = operand.info.monitoring ∧
      info.evaluable = operand.info.evaluable := by
    simpa [NodeInfo.facts, Facts.of] using hi
  exact ⟨⟨⟨hm, he, hty, hc, hk, hop⟩, h⟩, rfl⟩

theorem gives_unary {operand : Node} (site : Site) (op : UnaryOp) (h : IsOperand cx operand) :
    Gives (unary cx site op operand) (IsOperand cx) := by
  unfold unary
  cases op with
  | not =>
    refine Gives.bind (Gives.lift fun _ he ↦ condition_eq he h.2) fun a ⟨ha, hc⟩ ↦ ?_
    obtain ⟨node, c⟩ := a
    obtain rfl : node = operand := ha
    split
    · exact gives_literal _ _
    · exact gives_unaryNode site h.1 hc rfl (by simp)
  | neg =>
    dsimp only
    split
    · exact .fail _
    · next c hc =>
      split
      · exact gives_literal _ _
      · split at hc
        · cases hc
        · cases hc
        · split at hc
          · cases hc
          · next hk => exact gives_unaryNode site h.1 ⟨h.2, hc⟩ (Prim.isRanked_ofRank _) (by simpa using hk)

theorem arithmetic_or_comparison {op : BinaryOp} (h : op.category ≠ .shortCircuit)
    (h' : op.category ≠ .equality) : op.category = .arithmetic ∨ op.category = .comparison := by
  cases op <;> simp_all [BinaryOp.category]

mutual

theorem gives_expr (outer : Option Span) : (e : Expr) → Gives (expr cx outer e) (Node.Resolved cx)
  | .literal s value => (gives_literal _ _).mono fun _ h ↦ h.1
  | .ident s name => (gives_ident _ _).orSpan _
  | .field s receiver name =>
    .orSpan _ <| (gives_expr none receiver).bind fun _ h ↦
      (gives_field _ _ h).mono fun _ h ↦ h.1
  | .call s receiver name args =>
    .orSpan _ <| (gives_expr none receiver).bind fun _ h ↦ (gives_values args).bind fun _ hn ↦
      (gives_call _ _ h hn).mono fun _ h ↦ h.1
  | .construct s typeName args =>
    .orSpan _ <| (gives_values args).bind fun _ hn ↦
      (gives_construct _ _ hn).mono fun _ h ↦ h.1
  | .index s receiver position =>
    .orSpan _ <| (gives_expr none receiver).bind fun r h ↦ (gives_requireValue r).bind fun _ hv ↦
      (gives_expr none position).bind fun i hi ↦ (gives_requireValue i).bind fun _ hv' ↦
      (gives_index _ ⟨h, hv⟩ ⟨hi, hv'⟩).mono fun _ h ↦ h.1
  | .binary s op left right => by
    refine .orSpan _ <| (gives_expr none left).bind fun l h ↦ (gives_requireValue l).bind
      fun _ hv ↦ ?_
    split
    · exact (gives_shortCircuit _ ⟨h, hv⟩ (gives_expr none right)).mono fun _ h ↦ h.1
    · next hs =>
      refine (gives_expr none right).bind fun r hr ↦ (gives_requireValue r).bind fun _ hv' ↦ ?_
      split
      · next he => exact (gives_equality _ ⟨h, hv⟩ ⟨hr, hv'⟩ he).mono fun _ h ↦ h.1
      · next he =>
        exact (gives_numeric _ ⟨h, hv⟩ ⟨hr, hv'⟩ (arithmetic_or_comparison hs he)).mono
          fun _ h ↦ h.1
  | .unary s op operand =>
    .orSpan _ <| (gives_expr none operand).bind fun o h ↦ (gives_requireValue o).bind fun _ hv ↦
      (gives_unary _ _ ⟨h, hv⟩).mono fun _ h ↦ h.1
  | .paren s inner => gives_expr _ inner

theorem gives_values : (es : List Expr) →
    Gives (values cx es) (fun nodes ↦ ∀ n ∈ nodes, IsOperand cx n)
  | [] => .pure (by simp)
  | e :: rest =>
    (gives_expr none e).bind fun n h ↦ (gives_requireValue n).bind fun _ hv ↦
      (gives_values rest).bind fun nodes hn ↦ .pure (by
        intro m hm
        rcases List.mem_cons.mp hm with rfl | hm
        · exact ⟨h, hv⟩
        · exact hn m hm)

end

/-- Every node of a tree agrees with what it is made of, and the root stands for a value. -/
theorem Tree.build_resolved {tree : Tree} (h : Tree.build cx = .ok tree) :
    IsOperand cx tree.root := by
  obtain ⟨⟨root, size⟩, hroot, h⟩ := except_bind_ok h
  cases h
  have hg : Gives (do
      let root ← Build.expr cx none cx.parsed.root
      Build.requireValue root
      return root : Build Node) (IsOperand cx) :=
    (gives_expr none _).bind fun n h ↦ (gives_requireValue n).bind fun _ hv ↦ .pure ⟨h, hv⟩
  exact hg 0 root size hroot

end

namespace Coercion

theorem isPlain_default {ty : Ty} {ops : List Op} (h : defaultValue? ty = some ops) :
    ops.all Op.isPlain := by
  unfold defaultValue? at h
  split at h <;> cases h <;> rfl

theorem isPlain_parse (p : Prim) : (parse p).isPlain := by
  cases p <;> rfl

/-- The instructions that conversions are made of. -/
inductive Converting (model : TypeModel) : Op → Prop
  | toStr : Converting model .toStr
  | parse (p : Prim) : Converting model (parse p)
  | box (p : Prim) : Converting model (.box p)
  | unbox (p : Prim) : Converting model (.unbox p)
  | convert (p q : Prim) : Converting model (.convert p q)
  | enumValueOf (c : ClassId) : Converting model (.enumValueOf c)
  | valueOf {target : Ty} {m : MethodInfo} : valueOf? model target = some m →
    Converting model (.invokeStatic m.id 1)

theorem converting_cast {model : TypeModel} {p q : Prim} {ops : List Op} (h : cast? p q = some ops) :
    ∀ op ∈ ops, Converting model op := by
  unfold cast? at h
  split at h
  · cases h
    exact nofun
  · split at h <;> cases h
    exact List.forall_mem_singleton.mpr (.convert p q)

theorem converting_conversion {model : TypeModel} {source target : Ty} {ops : List Op}
    (h : conversion? model source target = some ops) : ∀ op ∈ ops, Converting model op := by
  have hone {op : Op} (h : Converting model op) : ∀ o ∈ [op], Converting model o :=
    List.forall_mem_singleton.mpr h
  unfold conversion? at h
  split at h
  · cases h
  · cases h
  · cases h
  · cases h
    exact hone .toStr
  · cases h
    exact hone (.parse _)
  · cases h
    exact List.forall_mem_cons.mpr ⟨.parse _, hone (.box _)⟩
  · split at h
    · cases h
      exact hone (.enumValueOf _)
    · obtain ⟨m, hm, rfl⟩ := Option.map_eq_some_iff.mp h
      exact hone (.valueOf hm)
  · exact converting_cast h
  · obtain ⟨ops', h', rfl⟩ := Option.map_eq_some_iff.mp h
    exact List.forall_mem_cons.mpr ⟨.unbox _, converting_cast h'⟩
  · obtain ⟨ops', h', rfl⟩ := Option.map_eq_some_iff.mp h
    exact List.forall_mem_append.mpr ⟨converting_cast h', hone (.box _)⟩
  · obtain ⟨ops', h', rfl⟩ := Option.map_eq_some_iff.mp h
    exact List.forall_mem_cons.mpr
      ⟨.unbox _, List.forall_mem_append.mpr ⟨converting_cast h', hone (.box _)⟩⟩
  · split at h
    · cases h
      exact hone (.box _)
    · cases h
  · cases h

theorem isPlain_conversion {model : TypeModel} {source target : Ty} {ops : List Op}
    (h : conversion? model source target = some ops) : ops.all Op.isPlain := by
  refine List.all_eq_true.mpr fun op hop ↦ ?_
  cases converting_conversion h op hop with
  | parse p => exact isPlain_parse p
  | _ => rfl

/-- Conversions use no storage of a binding. -/
theorem isPlain_coerce {model : TypeModel} {source target : Ty} {c : Fragment}
    (h : coerce? model source target = some c) : c.isPlain := by
  unfold coerce? at h
  split at h
  · cases h; rfl
  · split at h
    · obtain ⟨ops, ho, rfl⟩ := Option.map_eq_some_iff.mp h
      exact Bool.and_eq_true_iff.mpr ⟨rfl, isPlain_default ho⟩
    · split at h
      · cases h
      · next convert hc =>
        split at h
        · obtain ⟨ops, ho, rfl⟩ := Option.map_eq_some_iff.mp h
          exact Bool.and_eq_true_iff.mpr ⟨isPlain_conversion hc, isPlain_default ho⟩
        · cases h
          exact isPlain_conversion hc

end Coercion

namespace Node

variable {cx : BuildContext}

section

variable {P : Fragment → Prop} (hP : ∀ {s t : Ty} {c}, Coercion.coerce? cx.model s t = some c → P c)

include hP

theorem forall_of_converts {args : List Arg} {params : List Ty}
    (h : List.Forall₂ (fun a ty ↦ Converts cx a ty ∧ a.node.ty ≠ .void) args params) :
    ∀ a ∈ args, P a.coercion := by
  induction h with
  | nil => simp
  | cons h _ ih =>
    intro a ha
    rcases List.mem_cons.mp ha with rfl | ha
    · exact hP h.1.2
    · exact ih a ha

theorem PlanFits.forall {op : BinaryOp} {left right : Arg} {ty : Ty} {plan : Plan}
    (h : PlanFits cx op left right ty plan) : P left.coercion ∧ P right.coercion := by
  cases plan with
  | arithmetic => exact ⟨hP h.2.2.1.2, hP h.2.2.2.1.2⟩
  | compare => exact ⟨hP h.2.1.2, hP h.2.2.1.2⟩
  | concat | refEquality =>
    obtain ⟨-, -, hl, hr, -⟩ := h
    have hempty : P .empty := hP (if_pos (cx.model.isAssignable_refl .str))
    rw [hl, hr]
    exact ⟨hempty, hempty⟩
  | shortCircuit => exact ⟨hP h.1.2, hP h.2.1.2⟩

mutual

/-- What holds of all conversions holds of those in a tree. -/
theorem Resolved.forall_coercions : (n : Node) → n.Resolved cx → ∀ c ∈ n.coercions, P c
  | literal .., _ | scopeRead .., _ | typeRef .., _ => by simp [coercions]
  | access _ receiver member, h => by
    intro c hc
    rcases List.mem_append.mp hc with hc | hc
    · exact Resolved.forall_coercions receiver h.2.1 c hc
    · exact member_forall_coercions member h.1.1 h.2.2 c hc
  | construct _ m args, h => args_forall_coercions args h.1.2.1 h.2
  | binary _ op (.mk left c) (.mk right c') plan, h => by
    intro d hd
    have hplan := h.1.1.forall hP
    simp only [coercions, List.mem_append, List.mem_cons, List.not_mem_nil, or_false] at hd
    rcases hd with (hd | hd) | rfl | rfl
    · exact Resolved.forall_coercions left h.2.1 d hd
    · exact Resolved.forall_coercions right h.2.2 d hd
    · exact hplan.1
    · exact hplan.2
  | unary _ op (.mk operand c) kind, h => by
    intro d hd
    rcases List.mem_append.mp hd with hd | hd
    · exact Resolved.forall_coercions operand h.2 d hd
    · obtain rfl := List.mem_singleton.mp hd
      exact hP h.1.2.2.2.1.2

theorem member_forall_coercions {receiver : Node} {ty : Ty} : (m : Member) →
    MemberFits cx receiver ty m → memberForall (Fits cx) m → ∀ c ∈ memberCoercions m, P c
  | .property _, _, _ | .staticField _, _, _ => by simp [memberCoercions]
  | .method _ args, hf, h => args_forall_coercions args hf.2.2.1 h
  | .staticCall _ args, hf, h => by
    obtain ⟨_, _, _, -, -, hp, -⟩ := hf
    exact args_forall_coercions args hp h
  | .index (.mk node c) reading, hf, h => by
    intro d hd
    rcases List.mem_append.mp hd with hd | hd
    · exact Resolved.forall_coercions node h d hd
    · obtain rfl := List.mem_singleton.mp hd
      cases reading with
      | chars => exact hP hf.2.2.1.2
      | method m => exact forall_of_converts hP hf.2.2.1 _ List.mem_cons_self

theorem args_forall_coercions : (args : List Arg) → {params : List Ty} →
    List.Forall₂ (fun a ty ↦ Converts cx a ty ∧ a.node.ty ≠ .void) args params →
    argsForall (Fits cx) args → ∀ c ∈ argCoercions args, P c
  | [], _, _, _ => by simp [argCoercions]
  | .mk node c :: rest, _, .cons hc hrest, h => by
    intro d hd
    rcases List.mem_append.mp hd with hd | hd
    · exact Resolved.forall_coercions node h.1 d hd
    · rcases List.mem_cons.mp hd with rfl | hd
      · exact hP hc.1.2
      · exact args_forall_coercions rest hrest h.2 d hd

end

end

theorem Converts.isPlain {a : Arg} {ty : Ty} (h : Converts cx a ty) : a.coercion.isPlain :=
  Coercion.isPlain_coerce h.2

theorem Passes.isPlain {args : List Arg} {m : MethodInfo} (h : Passes cx args m) :
    ∀ a ∈ args, a.coercion.isPlain := forall_of_converts Coercion.isPlain_coerce h

theorem Resolved.isPlain (n : Node) (h : n.Resolved cx) : ∀ c ∈ n.coercions, c.isPlain :=
  Resolved.forall_coercions Coercion.isPlain_coerce n h

theorem memberIsPlain {receiver : Node} {ty : Ty} (m : Member) (hf : MemberFits cx receiver ty m)
    (h : memberForall (Fits cx) m) : ∀ c ∈ memberCoercions m, c.isPlain :=
  member_forall_coercions Coercion.isPlain_coerce m hf h

theorem argsIsPlain (args : List Arg) {params : List Ty}
    (hp : List.Forall₂ (fun a ty ↦ Converts cx a ty ∧ a.node.ty ≠ .void) args params)
    (h : argsForall (Fits cx) args) : ∀ c ∈ argCoercions args, c.isPlain :=
  args_forall_coercions Coercion.isPlain_coerce args hp h

/-- Every captured loadable is a name in scope. -/
def InScope (cx : BuildContext) (s : Resumable) : Prop :=
  ∀ l ∈ s.storage.captured, ∃ name, cx.scope.lookup? name = some (.bound l)

theorem InScope.newSlots {s : Resumable} (h : InScope cx s) (n : Nat) :
    InScope cx (Resumable.newSlots n s).2 := by
  rw [Renders.newSlots_eq]
  exact h

mutual

theorem Resolved.inScope : (n : Node) → n.Resolved cx → (s : Resumable) → InScope cx s →
    InScope cx (n.render .resumable s).2
  | literal .., _, _, hs | typeRef .., _, _, hs | scopeRead _ (.pending _), _, _, hs => hs
  | scopeRead _ (.bound l), h, s, hs => by
    intro k hk
    obtain ⟨⟨name, hname⟩, -⟩ := h
    have hk : k ∈ (Storage.capture l s.storage).2.captured := hk
    unfold Storage.capture at hk
    split at hk
    · exact hs k hk
    · rcases List.mem_append.mp hk with hk | hk
      · exact hs k hk
      · obtain rfl := List.mem_singleton.mp hk
        exact ⟨name, hname⟩
  | access _ receiver member, h, s, hs =>
    memberInScope member h.2.2 _ (Resolved.inScope receiver h.2.1 s hs)
  | construct _ m args, h, s, hs => by
    rw [render_construct]
    exact (argsInScope args h.2 s hs).newSlots _
  | binary info op (.mk left c) (.mk right c') plan, h, s, hs => by
    have hl := Resolved.inScope left h.2.1 s hs
    by_cases hp : plan = .shortCircuit
    · subst hp
      rw [render_shortCircuit]
      by_cases hm : 0 < right.monitoring
      · simp only [hm]
        exact Resolved.inScope right h.2.2 (Layout.inside (left.render .resumable s).2) hl
      · simp only [hm]
        exact Resolved.inScope right h.2.2 _ hl
    · rw [render_binary _ _ _ _ _ _ _ _ hp]
      exact (Resolved.inScope right h.2.2 _ hl).newSlots _
  | unary _ op (.mk operand c) kind, h, s, hs => Resolved.inScope operand h.2 s hs

theorem memberInScope : (m : Member) → memberForall (Fits cx) m → (s : Resumable) → InScope cx s →
    InScope cx (renderMember .resumable m s).2
  | .property p, _, s, hs => by
    rw [renderMember_property]
    split <;> exact hs
  | .staticField _, _, _, hs => hs
  | .method method args, h, s, hs => by
    rw [renderMember_method]
    exact (argsInScope args h s hs).newSlots _
  | .staticCall method args, h, s, hs => by
    rw [renderMember_staticCall]
    exact (argsInScope args h s hs).newSlots _
  | .index (.mk node c) reading, h, s, hs => by
    rw [renderMember_index]
    exact (Resolved.inScope node h s hs).newSlots _

theorem argsInScope : (args : List Arg) → argsForall (Fits cx) args → (s : Resumable) →
    InScope cx s → InScope cx (renderArgs .resumable args s).2
  | [], _, _, hs => hs
  | .mk node _ :: rest, h, s, hs => argsInScope rest h.2 _ (Resolved.inScope node h.1 s hs)

end

end Node

end LiveBinding
