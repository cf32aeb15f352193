import LiveBinding.Proofs.Folding

namespace LiveBinding

namespace Expr

mutual

/-- The literals in an expression. -/
def literals : Expr → List Literal
  | literal _ value => [value]
  | ident _ _ => []
  | field _ receiver _ => literals receiver
  | call _ receiver _ args => literals receiver ++ literalsOf args
  | construct _ _ args => literalsOf args
  | index _ receiver position => literals receiver ++ literals position
  | binary _ _ left right => literals left ++ literals right
  | unary _ _ operand => literals operand
  | paren _ inner => literals inner

def literalsOf : List Expr → List Literal
  | [] => []
  | e :: rest => literals e ++ literalsOf rest

end

end Expr

/-- There is no text among some literals. -/
def Textless (literals : List Literal) : Prop := ∀ v ∈ literals, v.isText = false

theorem Textless.append {as bs : List Literal} (h : Textless (as ++ bs)) : Textless as ∧ Textless bs :=
  List.forall_mem_append.mp h

/-- The same context, in which literals are computed with or left alone. -/
def BuildContext.folding (cx : BuildContext) (fold : Bool) : BuildContext := { cx with fold }

namespace Node

/-- The type in front of a static member. -/
def owner? : Node → Option Ty
  | typeRef _ ty => some ty
  | _ => none

/-- A literal is not text, and it is of its type. -/
def Clear (n : Node) : Prop := ∀ v, n.literal? = some v → v.isText = false ∧ n.ty = .ofLiteral v

theorem Clear.rank? {n : Node} (h : n.Clear) : Build.rank? n = n.ty.rank? := by
  unfold Build.rank?
  split
  · next v hv =>
    obtain ⟨ht, hty⟩ := h v hv
    rw [Literal.numericView?_eq ht, Option.bind_some, Literal.rank?_eq, hty]
  · rfl

theorem Clear.concatenates {n : Node} (h : n.Clear) : Build.concatenates n = decide (n.ty = .str) := by
  unfold Build.concatenates
  split
  · next text hv => cases (h _ hv).1
  · exact Bool.and_true _

/-- A boolean literal is not converted where a boolean is needed. -/
theorem Clear.coerce_boolean {n : Node} {b : Bool} {model : TypeModel} {c : Fragment} (h : n.Clear)
    (hb : n.literal? = some (.boolean b)) (hc : Coercion.coerce? model n.ty .boolean = some c) :
    c = .empty := by
  rw [(h _ hb).2] at hc
  exact Option.some.inj (hc.symm.trans (Coercion.coerce?_self ..))

/-- A node of a tree in which literals are computed with stands for one of a tree in which they are
left alone: it means the same in every host. -/
structure Folds (n m : Node) : Prop where
  ty : n.ty = m.ty
  owner : n.owner? = m.owner?
  evaluable : m.info.evaluable → n.info.evaluable
  clear : n.Clear
  known : ∀ v, m.literal? = some v → n.literal? = some v
  eval : ∀ rd env, n.eval rd env = m.eval rd env

/-- So do the arguments of a call, by the same conversions. -/
def ArgsFold (as bs : List Arg) : Prop :=
  List.Forall₂ (fun a b ↦ a.node.Folds b.node ∧ a.coercion = b.coercion) as bs

theorem eval_literal {n : Node} {v : Literal} (h : n.literal? = some v) (rd : Reading)
    (env : Loadable → Value) : n.eval rd env = pure (.ofLiteral v) := by
  cases n <;> cases h
  rfl

theorem evalArgs_of_fold {as bs : List Arg} (h : ArgsFold as bs) (rd : Reading) (env : Loadable → Value) :
    evalArgs rd env as = evalArgs rd env bs := by
  induction h with
  | nil => rfl
  | @cons a b as bs hab _ ih =>
    obtain ⟨n, c⟩ := a
    obtain ⟨m, c'⟩ := b
    obtain ⟨hn, rfl⟩ : n.Folds m ∧ c = c' := hab
    simp only [evalArgs, hn.eval rd env, ih]

theorem isValue_eq_owner? (n : Node) : n.isValue = n.owner?.isNone := by cases n <;> rfl

namespace Folds

variable {n m : Node} (h : n.Folds m)
include h

theorem clear_right : m.Clear := fun v hv ↦ h.ty ▸ h.clear v (h.known v hv)

theorem rank? : Build.rank? n = Build.rank? m := by
  rw [h.clear.rank?, h.clear_right.rank?, h.ty]

theorem concatenates : Build.concatenates n = Build.concatenates m := by
  rw [h.clear.concatenates, h.clear_right.concatenates, h.ty]

theorem isValue : n.isValue = m.isValue := by
  rw [isValue_eq_owner?, isValue_eq_owner?, h.owner]

end Folds

end Node

namespace Build

variable {α β γ δ : Type}

/-- Whatever two builds come to is related. -/
def Agrees (x : Build α) (y : Build β) (R : α → β → Prop) : Prop :=
  ∀ n a n' k b k', x n = .ok (a, n') → y k = .ok (b, k') → R a b

namespace Agrees

variable {x : Build α} {y : Build β} {R : α → β → Prop}

theorem of_gives {P : α → Prop} {Q : β → Prop} (hx : Gives x P) (hy : Gives y Q)
    (h : ∀ a b, P a → Q b → R a b) : Agrees x y R :=
  fun n a n' k b k' ha hb ↦ h a b (hx n a n' ha) (hy k b k' hb)

theorem bind {f : α → Build γ} {g : β → Build δ} {S : γ → δ → Prop} (h : Agrees x y R)
    (hf : ∀ a b, R a b → Agrees (f a) (g b) S) : Agrees (x >>= f) (y >>= g) S := by
  intro n c n' k d k' hc hd
  simp only [Bind.bind, StateT.bind] at hc hd
  obtain ⟨⟨a, n₁⟩, ha, hc⟩ := except_bind_ok hc
  obtain ⟨⟨b, k₁⟩, hb, hd⟩ := except_bind_ok hd
  exact hf a b (h n a n₁ k b k₁ ha hb) n₁ c n' k₁ d k' hc hd

theorem pure {a : α} {b : β} (h : R a b) : Agrees (Pure.pure a) (Pure.pure b) R := by
  rintro n a n' k b k' ⟨⟩ ⟨⟩
  exact h

theorem fail_left (e : CompileError) : Agrees (Build.fail e) y R := by
  rintro n a n' k b k' ⟨⟩

theorem fail_right (e : CompileError) : Agrees x (Build.fail e) R := by
  rintro n a n' k b k' - ⟨⟩

theorem lift {e : Except CompileError α} {e' : Except CompileError β}
    (h : ∀ a b, e = .ok a → e' = .ok b → R a b) : Agrees (liftM e) (liftM e') R :=
  of_gives (Gives.lift fun _ ha ↦ ha) (Gives.lift fun _ hb ↦ hb) h

theorem orSpan (span span' : Span) (h : Agrees x y R) :
    Agrees (Build.orSpan span x) (Build.orSpan span' y) R := by
  intro n a n' k b k' ha hb
  simp only [Build.orSpan] at ha hb
  split at ha
  · next hx =>
    split at hb
    · next hy => exact h n a n' k b k' (hx.trans ha) (hy.trans hb)
    · cases hb
  · cases ha

end Agrees

variable {site : Site}

theorem agrees_push {facts facts' : Facts} {make make' : NodeInfo → Node} {R : Node → Node → Prop}
    (h : ∀ info info' : NodeInfo, info.facts = facts → info'.facts = facts' → info.name = info'.name →
      R (make info) (make' info')) : Agrees (push site facts make) (push site facts' make') R := by
  rintro n a n' k b k' ⟨⟩ ⟨⟩
  exact h _ _ rfl rfl rfl

theorem agrees_access {n m : Node} {a b : Member} {facts facts' : Facts} (hn : n.Folds m)
    (hm : ∀ rd env v, Node.evalMember rd env v a = Node.evalMember rd env v b)
    (hty : facts.ty = facts'.ty) (he : facts'.evaluable → facts.evaluable) :
    Agrees (access site n a facts) (access site m b facts') Node.Folds := by
  refine Agrees.bind (R := fun _ _ ↦ True) (fun _ _ _ _ _ _ _ _ ↦ trivial) fun _ _ _ ↦ agrees_push ?_
  rintro info info' rfl rfl -
  refine ⟨hty, rfl, he, nofun, nofun, fun rd env ↦ ?_⟩
  simp only [Node.eval, hn.eval rd env, hm rd env]

theorem agrees_requireValue (n m : Node) :
    Agrees (requireValue n) (requireValue m) fun _ _ ↦ n.isValue ∧ m.isValue :=
  Agrees.of_gives (gives_requireValue n) (gives_requireValue m) fun _ _ hn hm ↦ ⟨hn, hm⟩

theorem agrees_literal {v : Literal} (hv : v.isText = false) :
    Agrees (literal site v) (literal site v) Node.Folds := by
  refine agrees_push fun info info' hi hi' _ ↦ ?_
  have hty : info.ty = .ofLiteral v := congrArg Facts.ty hi
  have hty' : info'.ty = .ofLiteral v := congrArg Facts.ty hi'
  have hev : info.evaluable = true := congrArg Facts.evaluable hi
  refine ⟨hty.trans hty'.symm, rfl, fun _ ↦ hev, ?_, fun _ h ↦ h, fun _ _ ↦ rfl⟩
  rintro v ⟨⟩
  exact ⟨hv, hty⟩

variable {cx : BuildContext} {n m : Node}

theorem agrees_ident (name : String) :
    Agrees (ident (cx.folding true) site name) (ident (cx.folding false) site name) Node.Folds := by
  simp only [ident, BuildContext.folding]
  cases cx.scope.lookup? name with
  | some entry =>
    refine agrees_push fun info info' hi hi' hname ↦ ?_
    have hfacts : info.facts = info'.facts := hi.trans hi'.symm
    refine ⟨congrArg Facts.ty hfacts, rfl, fun he ↦ (congrArg Facts.evaluable hfacts).trans he,
      by rintro _ ⟨⟩, by rintro _ ⟨⟩, fun rd env ↦ ?_⟩
    cases entry with
    | bound l => rfl
    | pending t => simp only [Node.eval, hname]
  | none =>
    dsimp only
    cases cx.model.resolveType name with
    | some ty =>
      refine agrees_push fun info info' hi hi' _ ↦ ?_
      have hfacts : info.facts = info'.facts := hi.trans hi'.symm
      exact ⟨congrArg Facts.ty hfacts, rfl, fun he ↦ (congrArg Facts.evaluable hfacts).trans he,
        by rintro _ ⟨⟩, by rintro _ ⟨⟩, fun _ _ ↦ rfl⟩
    | none => exact .fail_left _

theorem field_of_isValue (h : n.isValue) (cx : BuildContext) (site : Site) (name : String) :
    field cx site n name =
      match cx.model.property n.ty name with
      | some p => access site n (.property p)
          ⟨p.ty, n.monitoring + if p.flags.observable then 1 else 0, n.info.evaluable⟩
      | none => fail (Problem.noApplicableMember .property name (cx.model.display n.ty)) := by
  cases n <;> first | rfl | cases h

theorem call_of_isValue (h : n.isValue) (cx : BuildContext) (site : Site) (name : String)
    (args : List Node) :
    call cx site n name args = (do
      let (method, args, facts) ← select cx .method name n.ty
        (cx.model.methods n.ty name args.length) (Facts.of n) args
      access site n (.method method args) facts) := by
  cases n <;> first | rfl | cases h

end Build

namespace Node

/-- Two nodes that stand for each other are both values, or they are both the same type. -/
theorem Folds.cases_owner {n m : Node} (h : n.Folds m) :
    (n.isValue ∧ m.isValue) ∨ ∃ i i' t, n = .typeRef i t ∧ m = .typeRef i' t := by
  have howner := h.owner
  cases n with
  | typeRef i t =>
    cases m with
    | typeRef i' t' =>
      obtain rfl : t = t' := Option.some.inj howner
      exact .inr ⟨i, i', t, rfl, rfl⟩
    | _ => cases howner
  | _ =>
    cases m with
    | typeRef => cases howner
    | _ => exact .inl ⟨rfl, rfl⟩

end Node

namespace Build

variable {site : Site} {cx : BuildContext} {n m : Node}

theorem agrees_field (h : n.Folds m) (name : String) :
    Agrees (field (cx.folding true) site n name) (field (cx.folding false) site m name)
      Node.Folds := by
  obtain ⟨hn, hm⟩ | ⟨i, i', t, rfl, rfl⟩ := h.cases_owner
  · rw [field_of_isValue hn, field_of_isValue hm, h.ty]
    simp only [BuildContext.folding]
    cases cx.model.property m.ty name with
    | some p => exact agrees_access h (fun _ _ _ ↦ rfl) rfl h.evaluable
    | none => exact .fail_left _
  · simp only [field, BuildContext.folding]
    cases cx.model.staticField t name with
    | some f => exact agrees_access h (fun _ _ _ ↦ rfl) rfl h.evaluable
    | none => exact .fail_left _

/-- What is passed on of the arguments of a call. -/
theorem agrees_arguments {method : MethodInfo} {ns ms : List Node} (h : List.Forall₂ Node.Folds ns ms)
    {params : List Ty} {facts facts' f f' : Facts} {as bs : List Arg}
    (ha : arguments (cx.folding true) method facts ns params = .ok (as, f))
    (hb : arguments (cx.folding false) method facts' ms params = .ok (bs, f'))
    (hty : facts.ty = facts'.ty) (he : facts'.evaluable → facts.evaluable) :
    Node.ArgsFold as bs ∧ f.ty = f'.ty ∧ (f'.evaluable → f.evaluable) := by
  induction h generalizing params facts facts' as bs with
  | nil =>
    cases ha; cases hb
    exact ⟨.nil, hty, he⟩
  | @cons n m ns ms hnm _ ih =>
    cases params with
    | nil =>
      cases ha; cases hb
      exact ⟨.nil, hty, he⟩
    | cons param params =>
      obtain ⟨c, hc, ha⟩ := except_bind_ok ha
      obtain ⟨⟨as, f₁⟩, has, ha⟩ := except_bind_ok ha
      obtain ⟨c', hc', hb⟩ := except_bind_ok hb
      obtain ⟨⟨bs, f₁'⟩, hbs, hb⟩ := except_bind_ok hb
      cases ha; cases hb
      have hcc : c = c' := by
        rw [hnm.ty] at hc
        exact Except.ok.inj (hc.symm.trans hc')
      have he' : (facts'.join (.of m) method.ret).evaluable →
          (facts.join (.of n) method.ret).evaluable := by
        simp only [Facts.join, Bool.and_eq_true]
        exact fun h ↦ ⟨he h.1, hnm.evaluable h.2⟩
      obtain ⟨hfold, hrest⟩ := ih has hbs rfl he'
      exact ⟨.cons ⟨hnm, hcc⟩ hfold, hrest⟩

theorem map_ty_eq {ns ms : List Node} (h : List.Forall₂ Node.Folds ns ms) :
    ns.map Node.ty = ms.map Node.ty := by
  induction h with
  | nil => rfl
  | cons h _ ih => rw [List.map_cons, List.map_cons, h.ty, ih]

/-- The same method is chosen, with the same conversions. -/
theorem agrees_select {kind : MemberKind} {name : String} {owner : Ty} {candidates : List MethodInfo}
    {ns ms : List Node} (h : List.Forall₂ Node.Folds ns ms) {facts facts' f f' : Facts}
    {a b : MethodInfo} {as bs : List Arg} (he : facts'.evaluable → facts.evaluable)
    (ha : select (cx.folding true) kind name owner candidates facts ns = .ok (a, as, f))
    (hb : select (cx.folding false) kind name owner candidates facts' ms = .ok (b, bs, f')) :
    a = b ∧ Node.ArgsFold as bs ∧ f.ty = f'.ty ∧ (f'.evaluable → f.evaluable) := by
  obtain ⟨a', ha', ha⟩ := except_bind_ok ha
  obtain ⟨⟨as', fa⟩, has, ha⟩ := except_bind_ok ha
  obtain ⟨b', hb', hb⟩ := except_bind_ok hb
  obtain ⟨⟨bs', fb⟩, hbs, hb⟩ := except_bind_ok hb
  cases ha; cases hb
  rw [map_ty_eq h] at ha'
  obtain rfl : a = b := Except.ok.inj (ha'.symm.trans hb')
  exact ⟨rfl, agrees_arguments h has hbs rfl he⟩

theorem agrees_call {ns ms : List Node} (h : n.Folds m) (hargs : List.Forall₂ Node.Folds ns ms)
    (name : String) :
    Agrees (call (cx.folding true) site n name ns) (call (cx.folding false) site m name ms)
      Node.Folds := by
  have hlen := hargs.length_eq
  obtain ⟨hn, hm⟩ | ⟨i, i', t, rfl, rfl⟩ := h.cases_owner
  · rw [call_of_isValue hn, call_of_isValue hm, h.ty, hlen]
    refine Agrees.bind (Agrees.lift fun _ _ ha hb ↦ agrees_select hargs h.evaluable ha hb) ?_
    rintro ⟨a, as, f⟩ ⟨b, bs, f'⟩ ⟨rfl, has, hty, he⟩
    refine agrees_access h (fun rd env v ↦ ?_) hty he
    simp only [Node.evalMember, Node.evalArgs_of_fold has, List.Forall₂.length_eq has]
  · simp only [call, hlen]
    refine Agrees.bind (Agrees.lift fun _ _ ha hb ↦ agrees_select hargs h.evaluable ha hb) ?_
    rintro ⟨a, as, f⟩ ⟨b, bs, f'⟩ ⟨rfl, has, hty, he⟩
    refine agrees_access h (fun rd env v ↦ ?_) hty he
    simp only [Node.evalMember, Node.evalArgs_of_fold has, List.Forall₂.length_eq has]

theorem agrees_construct {ns ms : List Node} (hargs : List.Forall₂ Node.Folds ns ms) (name : String) :
    Agrees (construct (cx.folding true) site name ns) (construct (cx.folding false) site name ms)
      Node.Folds := by
  have hlen := hargs.length_eq
  simp only [construct, hlen, BuildContext.folding]
  cases cx.model.resolveType name with
  | none => exact .fail_left _
  | some owner =>
    refine Agrees.bind (Agrees.lift fun _ _ ha hb ↦ agrees_select hargs id ha hb) ?_
    rintro ⟨a, as, f⟩ ⟨b, bs, f'⟩ ⟨rfl, has, hty, he⟩
    refine agrees_push fun info info' hi hi' _ ↦ ?_
    have hty : info.ty = info'.ty := (congrArg Facts.ty hi).trans (hty.trans (congrArg Facts.ty hi').symm)
    refine ⟨hty, rfl, fun h ↦ ?_, nofun, nofun, fun rd env ↦ ?_⟩
    · exact (congrArg Facts.evaluable hi).trans (he ((congrArg Facts.evaluable hi').symm.trans h))
    · simp only [Node.eval, Node.evalArgs_of_fold has, List.Forall₂.length_eq has]

theorem agrees_indexByMethod {i j : Node} (h : n.Folds m) (hi : i.Folds j) :
    Agrees (indexByMethod (cx.folding true) site n i) (indexByMethod (cx.folding false) site m j)
      Node.Folds := by
  have hargs : List.Forall₂ Node.Folds [i] [j] := .cons hi .nil
  have hty : (Facts.of n).ty = (Facts.of m).ty := h.ty
  simp only [indexByMethod, hty]
  refine Agrees.bind (Agrees.lift fun _ _ ha hb ↦ agrees_select hargs h.evaluable ha hb) ?_
  rintro ⟨a, as, f⟩ ⟨b, bs, f'⟩ ⟨rfl, has, hty, he⟩
  cases has with
  | nil => exact .fail_left _
  | @cons a b as bs hab has =>
    cases has with
    | nil =>
      obtain ⟨a, c⟩ := a
      obtain ⟨b, c'⟩ := b
      obtain ⟨hab, rfl⟩ : a.Folds b ∧ c = c' := hab
      refine agrees_access h (fun rd env v ↦ ?_) hty he
      simp only [Node.evalMember, hab.eval rd env]
    | cons => exact .fail_left _

theorem indexChars_of_clear (h : n.Clear) (cx : BuildContext) (site : Site) (i : Node) :
    indexChars cx site n i =
      match charCoercion? cx i with
      | none => fail ⟨.illegalIndex i.info.name, some i.info.span, none⟩
      | some c => access site n (.index (.mk i c) .chars) ((Facts.of n).join (.of i) .str) := by
  unfold indexChars
  cases charCoercion? cx i with
  | none => rfl
  | some c =>
    dsimp only
    split
    · next text k hconst _ =>
      have hlit : n.literal? = some (.string text) := (Option.ite_none_right_eq_some.mp hconst).2
      cases (h _ hlit).1
    · rfl

theorem agrees_indexChars {i j : Node} (h : n.Folds m) (hi : i.Folds j) :
    Agrees (indexChars (cx.folding true) site n i) (indexChars (cx.folding false) site m j)
      Node.Folds := by
  rw [indexChars_of_clear h.clear, indexChars_of_clear h.clear_right]
  cases hc : charCoercion? (cx.folding true) i with
  | none => exact .fail_left _
  | some c =>
    cases hc' : charCoercion? (cx.folding false) j with
    | none => exact .fail_right _
    | some c' =>
      have hcoerce := charCoercion_eq hc
      rw [hi.ty] at hcoerce
      obtain rfl : c = c' := Option.some.inj (hcoerce.symm.trans (charCoercion_eq hc'))
      refine agrees_access h (fun rd env v ↦ ?_) rfl ?_
      · simp only [Node.evalMember, hi.eval rd env]
      · simp only [Facts.join, Bool.and_eq_true]
        exact fun he ↦ ⟨h.evaluable he.1, hi.evaluable he.2⟩

/-- An index that is built is built by one of the two ways to read it. -/
theorem index_eq_ok {i a : Node} {k k' : Nat} (h : Build.index cx site n i k = .ok (a, k')) :
    (if n.ty = .str then indexChars cx site n i else indexByMethod cx site n i) k = .ok (a, k') := by
  unfold Build.index at h
  cases hk : (literalIndex? i).bind Literal.toInt64? with
  | none => rwa [hk] at h
  | some x =>
    rw [hk] at h
    by_cases hneg : x.toInt < 0
    · simp only [if_pos hneg] at h
      cases h
    · simp only [if_neg hneg] at h
      exact h

theorem agrees_index {i j : Node} (h : n.Folds m) (hi : i.Folds j) :
    Agrees (Build.index (cx.folding true) site n i) (Build.index (cx.folding false) site m j)
      Node.Folds := by
  intro k a k' l b l' ha hb
  have ha := index_eq_ok ha
  have hb := index_eq_ok hb
  rw [h.ty] at ha
  by_cases hs : m.ty = .str
  · rw [if_pos hs] at ha hb
    exact agrees_indexChars h hi k a k' l b l' ha hb
  · rw [if_neg hs] at ha hb
    exact agrees_indexByMethod h hi k a k' l b l' ha hb

theorem agrees_binaryNode {op : BinaryOp} {l r l' r' : Node} {c c' : Fragment} {plan : Plan} {ty : Ty}
    (hl : l.Folds l') (hr : r.Folds r') :
    Agrees (binaryNode site op (.mk l c) (.mk r c') plan ty)
      (binaryNode site op (.mk l' c) (.mk r' c') plan ty) Node.Folds := by
  refine agrees_push fun info info' hi hi' _ ↦ ?_
  refine ⟨(congrArg Facts.ty hi).trans (congrArg Facts.ty hi').symm, rfl, fun he ↦ ?_, nofun, nofun,
    fun rd env ↦ ?_⟩
  · have he' : (l'.info.evaluable && r'.info.evaluable) = true :=
      (congrArg Facts.evaluable hi').symm.trans he
    rw [Bool.and_eq_true] at he'
    refine (congrArg Facts.evaluable hi).trans ?_
    show (l.info.evaluable && r.info.evaluable) = true
    rw [hl.evaluable he'.1, hr.evaluable he'.2]
    rfl
  · simp only [Node.eval, hl.eval rd env, hr.eval rd env]

/-- A value that is computed already stands for an operation that is run. -/
theorem agrees_computed {facts : Facts} {make : NodeInfo → Node} {v : Literal} (hv : v.isText = false)
    (hty : facts.ty = .ofLiteral v)
    (hmake : ∀ info, (make info).info = info ∧ (make info).owner? = none ∧ (make info).literal? = none)
    (heval : ∀ info rd env, (make info).eval rd env = pure (.ofLiteral v)) :
    Agrees (literal site v) (push site facts make) Node.Folds := by
  refine agrees_push fun info info' hi hi' _ ↦ ?_
  obtain ⟨hinfo, howner, hlit⟩ := hmake info'
  have hleft : info.ty = .ofLiteral v := congrArg Facts.ty hi
  have hright : (make info').ty = .ofLiteral v := by
    rw [Node.ty, hinfo, ← hty]
    exact congrArg Facts.ty hi'
  refine ⟨hleft.trans hright.symm, howner.symm, fun _ ↦ congrArg Facts.evaluable hi, ?_, ?_,
    fun rd env ↦ (heval info' rd env).symm⟩
  · rintro v ⟨⟩
    exact ⟨hv, hleft⟩
  · intro v hv
    rw [hlit] at hv
    cases hv

/-- What operands that are converted to a common kind come from. -/
theorem promoted_mk {op : BinaryOp} {l r : Node} {kind : Prim} {a : Arg}
    (h : promoted cx op l r n kind = .ok a) (hn : n.isValue) :
    ∃ c, a = .mk n c ∧ Coercion.coerce? cx.model n.ty (.prim kind) = some c := by
  obtain ⟨hnode, -, hc⟩ := promoted_eq h hn
  obtain ⟨a, c⟩ := a
  obtain rfl : a = n := hnode
  exact ⟨c, rfl, hc⟩

theorem foldPair?_eq_some {l r : Node} {f : Literal → Literal → Option Literal} {v : Literal}
    (h : foldPair? cx l r f = some v) :
    ∃ a b, l.literal? = some a ∧ r.literal? = some b ∧ f a b = some v := by
  unfold foldPair? at h
  split at h
  · next a b ha hb =>
    exact ⟨a, b, (Option.ite_none_right_eq_some.mp ha).2, (Option.ite_none_right_eq_some.mp hb).2, h⟩
  · cases h

/-- Operands of a kind, and what is computed of them. -/
theorem agrees_operation {op : BinaryOp} {l r l' r' : Node} {kind : Prim} {plan : Plan} {ty : Ty}
    {f : Literal → Literal → Option Literal} (hl : l.Folds l') (hr : r.Folds r') (hvl : l.isValue)
    (hvr : r.isValue) (hplan : plan ≠ .shortCircuit) (hf : Fold.Computes (plan.ops op) kind ty f) :
    Agrees
      (do
        let a ← promoted (cx.folding true) op l r l kind
        let b ← promoted (cx.folding true) op l r r kind
        match foldPair? (cx.folding true) l r f with
        | some value => literal site value
        | none => binaryNode site op a b plan ty)
      (do
        let a ← promoted (cx.folding false) op l' r' l' kind
        let b ← promoted (cx.folding false) op l' r' r' kind
        match foldPair? (cx.folding false) l' r' f with
        | some value => literal site value
        | none => binaryNode site op a b plan ty) Node.Folds := by
  refine Agrees.bind (Agrees.lift fun a a' ha ha' ↦ And.intro (promoted_mk ha hvl)
    (promoted_mk ha' (hl.isValue ▸ hvl))) ?_
  rintro a a' ⟨⟨c, rfl, hc⟩, ⟨c₁, rfl, hc₁⟩⟩
  refine Agrees.bind (Agrees.lift fun b b' hb hb' ↦ And.intro (promoted_mk hb hvr)
    (promoted_mk hb' (hr.isValue ▸ hvr))) ?_
  rintro b b' ⟨⟨d, rfl, hd⟩, ⟨d₁, rfl, hd₁⟩⟩
  rw [hl.ty] at hc
  rw [hr.ty] at hd
  obtain rfl : c = c₁ := Option.some.inj (hc.symm.trans hc₁)
  obtain rfl : d = d₁ := Option.some.inj (hd.symm.trans hd₁)
  cases hfold : foldPair? (cx.folding true) l r f with
  | none => exact agrees_binaryNode hl hr
  | some v =>
    obtain ⟨a, b, ha, hb, hab⟩ := foldPair?_eq_some hfold
    obtain ⟨hat, haty⟩ := hl.clear a ha
    obtain ⟨hbt, hbty⟩ := hr.clear b hb
    obtain ⟨hv, rfl, a', b', ha', hb', hresult⟩ := hf a b v hab hat hbt
    rw [← hl.ty, haty] at hc
    rw [← hr.ty, hbty] at hd
    refine agrees_computed hv rfl (fun _ ↦ ⟨rfl, rfl, rfl⟩) fun info rd env ↦ ?_
    simp only [Node.eval, ← hl.eval rd env, ← hr.eval rd env, Node.eval_literal ha, Node.eval_literal hb,
      pure_bind, if_neg hplan, Fold.apply_operand? rd hc hat ha', Fold.apply_operand? rd hd hbt hb',
      hresult rd]

theorem agrees_concat {l r l' r' : Node} (hl : l.Folds l') (hr : r.Folds r')
    (hs : concatenates l || concatenates r) :
    Agrees (concat (cx.folding true) site l r) (concat (cx.folding false) site l' r') Node.Folds := by
  unfold concat
  split
  · next a b ha hb =>
    -- literals that are no text are not joined
    have hno {n : Node} {v : Literal} (hn : n.Clear) (hv : constant? (cx.folding true) n = some v) :
        concatenates n = false := by
      obtain ⟨ht, hty⟩ := hn v hv
      rw [hn.concatenates, hty]
      cases v with
      | string => cases ht
      | _ => rfl
    rw [hno hl.clear ha, hno hr.clear hb] at hs
    cases hs
  · exact agrees_binaryNode hl hr

theorem agrees_numeric {op : BinaryOp} {l r l' r' : Node} (hl : l.Folds l') (hr : r.Folds r')
    (hvl : l.isValue) (hvr : r.isValue) :
    Agrees (numeric (cx.folding true) site op l r) (numeric (cx.folding false) site op l' r')
      Node.Folds := by
  have hpromote : promote l r = promote l' r' := by rw [promote, promote, hl.rank?, hr.rank?]
  unfold numeric
  rw [← hl.concatenates, ← hr.concatenates, ← hpromote]
  by_cases hs : op = .add && (concatenates l || concatenates r)
  · rw [if_pos hs, if_pos hs]
    exact agrees_concat hl hr (Bool.and_eq_true _ _ ▸ hs).2
  · rw [if_neg hs, if_neg hs]
    dsimp only
    by_cases hk : promote l r = .boolean
    · rw [if_pos hk, if_pos hk]
      exact Agrees.bind (R := fun _ _ ↦ False) (.fail_left _) fun _ _ h ↦ h.elim
    · rw [if_neg hk, if_neg hk]
      by_cases hc : op.category = .comparison
      · simp only [if_pos hc]
        exact agrees_operation hl hr hvl hvr nofun (Fold.computes_compare op _)
      · simp only [if_neg hc]
        exact agrees_operation hl hr hvl hvr nofun (Fold.computes_arithmetic op _)

theorem agrees_equality {op : BinaryOp} {l r l' r' : Node} (hl : l.Folds l') (hr : r.Folds r')
    (hvl : l.isValue) (hvr : r.isValue) (hop : op.category = .equality) :
    Agrees (equality (cx.folding true) site op l r) (equality (cx.folding false) site op l' r')
      Node.Folds := by
  have hpromote : promote l r = promote l' r' := by rw [promote, promote, hl.rank?, hr.rank?]
  unfold equality
  rw [← hl.ty, ← hr.ty, ← hpromote]
  dsimp only
  split
  · exact .fail_left _
  · split
    · exact agrees_operation hl hr hvl hvr (by rintro ⟨⟩) (Fold.computes_compare op _)
    · split
      · exact .fail_left _
      · cases hfold : foldPair? (cx.folding true) l r (Fold.references? op) with
        | none => exact agrees_binaryNode hl hr
        | some v =>
          obtain ⟨a, b, ha, hb, hab⟩ := foldPair?_eq_some hfold
          obtain ⟨hv, hty, hresult⟩ := Fold.references?_eq hab (hl.clear a ha).1 hop
          refine agrees_computed hv hty.symm (fun _ ↦ ⟨rfl, rfl, rfl⟩) fun info rd env ↦ ?_
          simp only [Node.eval, ← hl.eval rd env, ← hr.eval rd env, Node.eval_literal ha,
            Node.eval_literal hb, pure_bind, if_neg (show Plan.refEquality ≠ .shortCircuit by rintro ⟨⟩),
            Fragment.apply_empty, hresult rd]

theorem condition_mk {symbol : String} {a : Arg} (h : condition cx symbol n = .ok a) (hn : n.isValue) :
    ∃ c, a = .mk n c ∧ Coercion.coerce? cx.model n.ty .boolean = some c := by
  obtain ⟨hnode, -, hc⟩ := condition_eq h hn
  obtain ⟨a, c⟩ := a
  obtain rfl : a = n := hnode
  exact ⟨c, rfl, hc⟩

theorem constantBool?_eq {b : Bool} (hn : n.Clear) (h : constantBool? cx n = some b) :
    n.literal? = some (.boolean b) := by
  unfold constantBool? at h
  split at h
  · next x hx =>
    obtain ⟨v, hv, hx⟩ := Option.bind_eq_some_iff.mp hx
    have hlit : n.literal? = some v := (Option.ite_none_right_eq_some.mp hv).2
    rw [Literal.numericView?_eq (hn v hlit).1] at hx
    cases hx; cases h
    exact hlit
  · cases h

/-- A left operand that decides stands for an operation that skips its right operand. -/
theorem agrees_decided {op : BinaryOp} {l l' : Node} {b : Bool} {right : Build Node} {c : Fragment}
    (hl : l.Folds l') (hb : l.literal? = some (.boolean b)) (hd : op.decidedBy = some b)
    (hc : Coercion.coerce? cx.model l.ty .boolean = some c) :
    Agrees (literal site (.boolean b))
      (do
        let r ← right
        requireValue r
        let r ← liftM (condition cx op.symbol r)
        binaryNode site op (.mk l' c) r .shortCircuit .boolean) Node.Folds := by
  obtain rfl := hl.clear.coerce_boolean hb hc
  have hskips : op.skips b := by
    cases op <;> cases hd <;> rfl
  have hany {α : Type} (x : Build α) : Gives x fun _ ↦ True := fun _ _ _ _ ↦ trivial
  have hright : Gives (do
      let r ← right
      requireValue r
      let r ← liftM (condition cx op.symbol r)
      binaryNode site op (.mk l' .empty) r .shortCircuit .boolean) fun m ↦
        ∃ info r, m = .binary info op (.mk l' .empty) r .shortCircuit ∧ info.ty = .boolean :=
    (hany _).bind fun _ _ ↦ (hany _).bind fun _ _ ↦ (hany _).bind fun r _ ↦
      gives_push fun info hi ↦ ⟨info, r, rfl, congrArg Facts.ty hi⟩
  refine Agrees.of_gives (P := fun n ↦ ∃ info, n = .literal info (.boolean b) ∧
    info.facts = .fixed .boolean) (gives_push fun info hi ↦ ⟨info, rfl, hi⟩) hright ?_
  rintro _ _ ⟨info, rfl, hi⟩ ⟨info', ⟨r, c'⟩, rfl, hty⟩
  have hty' : info.ty = .boolean := congrArg Facts.ty hi
  refine ⟨hty'.trans hty.symm, rfl, fun _ ↦ congrArg Facts.evaluable hi, ?_, nofun, fun rd env ↦ ?_⟩
  · rintro v ⟨⟩
    exact ⟨rfl, hty'⟩
  · simp only [Node.eval, ← hl.eval rd env, Node.eval_literal hb, pure_bind, Fragment.apply_empty]
    show pure _ = (if op.skips b then _ else _)
    rw [if_pos hskips]

/-- Both operands are literals. -/
theorem agrees_booleans {op : BinaryOp} {l l' r r' : Node} {a b : Bool} {c d : Fragment}
    (hl : l.Folds l') (hr : r.Folds r') (ha : l.literal? = some (.boolean a))
    (hb : r.literal? = some (.boolean b)) (hop : op.category = .shortCircuit)
    (hc : Coercion.coerce? cx.model l.ty .boolean = some c)
    (hd : Coercion.coerce? cx.model r.ty .boolean = some d) :
    Agrees (literal site (.boolean (if op = .and then a && b else a || b)))
      (binaryNode site op (.mk l' c) (.mk r' d) .shortCircuit .boolean) Node.Folds := by
  obtain rfl := hl.clear.coerce_boolean ha hc
  obtain rfl := hr.clear.coerce_boolean hb hd
  refine agrees_computed rfl rfl (fun _ ↦ ⟨rfl, rfl, rfl⟩) fun info rd env ↦ ?_
  simp only [Node.eval, ← hl.eval rd env, ← hr.eval rd env, Node.eval_literal ha, Node.eval_literal hb,
    pure_bind, Fragment.apply_empty]
  cases op with
  | and | or => cases a <;> rfl
  | _ => cases hop

theorem agrees_shortCircuit {op : BinaryOp} {l l' : Node} {x y : Build Node} (hl : l.Folds l')
    (hv : l.isValue) (hop : op.category = .shortCircuit) (hxy : Agrees x y Node.Folds) :
    Agrees (shortCircuit (cx.folding true) site op l x) (shortCircuit (cx.folding false) site op l' y)
      Node.Folds := by
  unfold shortCircuit
  refine Agrees.bind (Agrees.lift fun a a' ha ha' ↦ And.intro (condition_mk ha hv)
    (condition_mk ha' (hl.isValue ▸ hv))) ?_
  rintro a a' ⟨⟨c, rfl, hc⟩, ⟨c', rfl, hc'⟩⟩
  have hcl := hc
  rw [hl.ty] at hcl
  obtain rfl : c = c' := Option.some.inj (hcl.symm.trans hc')
  have hoff (n : Node) : constantBool? (cx.folding false) n = none := rfl
  simp only [hoff, Option.isSome_none, Bool.false_and, Bool.false_eq_true, if_false]
  split
  · next hdecided =>
    obtain ⟨b, hb⟩ := Option.isSome_iff_exists.mp (Bool.and_eq_true _ _ ▸ hdecided).1
    have hd : some b = op.decidedBy := hb ▸ of_decide_eq_true (Bool.and_eq_true _ _ ▸ hdecided).2
    rw [hb, show decide (some b = some true) = b by cases b <;> rfl]
    exact agrees_decided hl (constantBool?_eq hl.clear hb) hd.symm hc
  · refine hxy.bind fun r r' hr ↦ (agrees_requireValue r r').bind fun _ _ hvr ↦ ?_
    refine Agrees.bind (Agrees.lift fun a a' ha ha' ↦ And.intro (condition_mk ha hvr.1)
      (condition_mk ha' hvr.2)) ?_
    rintro a a' ⟨⟨d, rfl, hd⟩, ⟨d', rfl, hd'⟩⟩
    have hdr := hd
    rw [hr.ty] at hdr
    obtain rfl : d = d' := Option.some.inj (hdr.symm.trans hd')
    split
    · next a b ha hb =>
      exact agrees_booleans hl hr (constantBool?_eq hl.clear ha) (constantBool?_eq hr.clear hb) hop hc hd
    · exact agrees_binaryNode hl hr

/-- The operand is converted in the same way, if the operation is not computed. -/
theorem agrees_unaryNode {op : UnaryOp} {c : Fragment} {kind : Prim} {ty : Ty} (h : n.Folds m) :
    Agrees (push site { Facts.of n with ty } (.unary · op (.mk n c) kind))
      (push site { Facts.of m with ty } (.unary · op (.mk m c) kind)) Node.Folds := by
  refine agrees_push fun info info' hi hi' _ ↦ ?_
  refine ⟨(congrArg Facts.ty hi).trans (congrArg Facts.ty hi').symm, rfl, fun he ↦ ?_, nofun, nofun,
    fun rd env ↦ ?_⟩
  · exact (congrArg Facts.evaluable hi).trans (h.evaluable ((congrArg Facts.evaluable hi').symm.trans he))
  · simp only [Node.eval, h.eval rd env]

theorem agrees_not (h : n.Folds m) (hv : n.isValue) :
    Agrees (unary (cx.folding true) site .not n) (unary (cx.folding false) site .not m) Node.Folds := by
  unfold unary
  refine Agrees.bind (Agrees.lift fun a a' ha ha' ↦ And.intro (condition_mk ha hv)
    (condition_mk ha' (h.isValue ▸ hv))) ?_
  rintro a a' ⟨⟨c, rfl, hc⟩, ⟨c', rfl, hc'⟩⟩
  have hcn := hc
  rw [h.ty] at hcn
  obtain rfl : c = c' := Option.some.inj (hcn.symm.trans hc')
  have hoff : constantBool? (cx.folding false) m = none := rfl
  rw [hoff]
  cases hb : constantBool? (cx.folding true) n with
  | none => exact agrees_unaryNode h
  | some b =>
    have hlit := constantBool?_eq h.clear hb
    obtain rfl := h.clear.coerce_boolean hlit hc
    refine agrees_computed rfl rfl (fun _ ↦ ⟨rfl, rfl, rfl⟩) fun info rd env ↦ ?_
    simp only [Node.eval, ← h.eval rd env, Node.eval_literal hlit, pure_bind, Fragment.apply_empty]
    rfl

theorem agrees_neg (h : n.Folds m) :
    Agrees (unary (cx.folding true) site .neg n) (unary (cx.folding false) site .neg m) Node.Folds := by
  have hoff : constant? (cx.folding false) m = none := rfl
  have hmodel (fold : Bool) : (cx.folding fold).model = cx.model := rfl
  simp only [unary, hoff, hmodel, Option.bind_none, ← h.ty, ← h.rank?]
  split
  · exact .fail_left _
  · next c hc =>
    cases hneg : (constant? (cx.folding true) n).bind (Fold.negate? (.ofRank (.promote (rank? n) none))) with
    | none => exact agrees_unaryNode h
    | some v =>
      obtain ⟨l, hl, hv⟩ := Option.bind_eq_some_iff.mp hneg
      have hlit : n.literal? = some l := hl
      obtain ⟨ht, hty⟩ := h.clear l hlit
      obtain ⟨hvty, l', hl', hresult⟩ := Fold.computes_negate hv ht
      have hcoerce : Coercion.coerce? cx.model (.ofLiteral l)
          (.prim (.ofRank (.promote (rank? n) none))) = some c := by
        rw [← hty]
        split at hc
        · cases hc
        · cases hc
        · exact (Option.ite_none_left_eq_some.mp hc).2
      refine agrees_computed (Fold.isText_of_prim hvty) hvty.symm (fun _ ↦ ⟨rfl, rfl, rfl⟩)
        fun info rd env ↦ ?_
      simp only [Node.eval, ← h.eval rd env, Node.eval_literal hlit, pure_bind,
        Fold.apply_operand? rd hcoerce ht hl']
      exact hresult rd

open LiveBinding.Expr in
mutual

/-- The nodes of an expression without text stand for each other. -/
theorem agrees_expr (outer : Option Span) : (e : Expr) → Textless (literals e) →
    Agrees (expr (cx.folding true) outer e) (expr (cx.folding false) outer e) Node.Folds
  | .literal s value, h => agrees_literal (h value List.mem_cons_self)
  | .ident s name, _ => (agrees_ident name).orSpan _ _
  | .field s receiver name, h =>
    .orSpan _ _ <| (agrees_expr none receiver h).bind fun _ _ hr ↦ agrees_field hr name
  | .call s receiver name args, h =>
    .orSpan _ _ <| (agrees_expr none receiver h.append.1).bind fun _ _ hr ↦
      (agrees_values args h.append.2).bind fun _ _ ha ↦ agrees_call hr ha name
  | .construct s typeName args, h =>
    .orSpan _ _ <| (agrees_values args h).bind fun _ _ ha ↦ agrees_construct ha typeName
  | .index s receiver position, h =>
    .orSpan _ _ <| (agrees_expr none receiver h.append.1).bind fun r r' hr ↦
      (agrees_requireValue r r').bind fun _ _ _ ↦
      (agrees_expr none position h.append.2).bind fun i i' hi ↦
      (agrees_requireValue i i').bind fun _ _ _ ↦ agrees_index hr hi
  | .binary s op left right, h => by
    refine .orSpan _ _ <| (agrees_expr none left h.append.1).bind fun l l' hl ↦
      (agrees_requireValue l l').bind fun _ _ hvl ↦ ?_
    by_cases hs : op.category = .shortCircuit
    · rw [if_pos hs, if_pos hs]
      exact agrees_shortCircuit hl hvl.1 hs (agrees_expr none right h.append.2)
    · rw [if_neg hs, if_neg hs]
      refine (agrees_expr none right h.append.2).bind fun r r' hr ↦
        (agrees_requireValue r r').bind fun _ _ hvr ↦ ?_
      by_cases he : op.category = .equality
      · rw [if_pos he, if_pos he]
        exact agrees_equality hl hr hvl.1 hvr.1 he
      · rw [if_neg he, if_neg he]
        exact agrees_numeric hl hr hvl.1 hvr.1
  | .unary s .not operand, h =>
    .orSpan _ _ <| (agrees_expr none operand h).bind fun o o' ho ↦
      (agrees_requireValue o o').bind fun _ _ hv ↦ agrees_not ho hv.1
  | .unary s .neg operand, h =>
    .orSpan _ _ <| (agrees_expr none operand h).bind fun o o' ho ↦
      (agrees_requireValue o o').bind fun _ _ _ ↦ agrees_neg ho
  | .paren s inner, h => agrees_expr _ inner h

theorem agrees_values : (es : List Expr) → Textless (literalsOf es) →
    Agrees (values (cx.folding true) es) (values (cx.folding false) es) (List.Forall₂ Node.Folds)
  | [], _ => .pure .nil
  | e :: rest, h =>
    (agrees_expr none e h.append.1).bind fun n n' hn ↦ (agrees_requireValue n n').bind fun _ _ _ ↦
      (agrees_values rest h.append.2).bind fun _ _ hrest ↦ .pure (.cons hn hrest)

end

end Build

/-- What the nodes of an expression have in common with literals computed and with literals left alone,
the roots of its trees have in common. -/
theorem Tree.build_agrees {cx : BuildContext} {folded plain : Tree} {R : Node → Node → Prop}
    (h : Build.Agrees (Build.expr (cx.folding true) none cx.parsed.root)
      (Build.expr (cx.folding false) none cx.parsed.root) R)
    (hfolded : Tree.build (cx.folding true) = .ok folded)
    (hplain : Tree.build (cx.folding false) = .ok plain) : R folded.root plain.root := by
  obtain ⟨⟨root, size⟩, hroot, hbuild⟩ := except_bind_ok hfolded
  cases hbuild
  obtain ⟨⟨root', size'⟩, hroot', hbuild⟩ := except_bind_ok hplain
  cases hbuild
  have hagrees : Build.Agrees (do
      let root ← Build.expr (cx.folding true) none cx.parsed.root
      Build.requireValue root
      return root : Build Node) (do
      let root ← Build.expr (cx.folding false) none cx.parsed.root
      Build.requireValue root
      return root : Build Node) R :=
    h.bind fun n n' hn ↦ (Build.agrees_requireValue n n').bind fun _ _ _ ↦ .pure hn
  exact hagrees 0 root size 0 root' size' hroot hroot'

/-- A tree in which literals are computed with means what the tree means in which they are left
alone. -/
theorem Tree.build_folds {cx : BuildContext} {folded plain : Tree}
    (htext : Textless cx.parsed.root.literals) (hfolded : Tree.build (cx.folding true) = .ok folded)
    (hplain : Tree.build (cx.folding false) = .ok plain) : folded.root.Folds plain.root :=
  build_agrees (Build.agrees_expr none _ htext) hfolded hplain

end LiveBinding
