import LiveBinding.Proofs.Conversion

namespace LiveBinding

/-- Reads a property, through its cell if it is observable. -/
def Reading.read (rd : Reading) (p : PropertyInfo) (v : Value) : Effect Value := .of do
  let o ← v.receiver p.name
  if p.flags.observable then rd.value <$> rd.cell o p.name else rd.property o p.name

namespace Node

variable (rd : Reading) (env : Loadable → Value)

mutual

/-- The value of a node, where `env` gives those of the names in scope. -/
def eval : Node → Effect Value
  | literal _ value => pure (.ofLiteral value)
  | scopeRead _ (.bound l) => pure (env l)
  | scopeRead info (.pending _) => .fail (.fault ("`" ++ info.name ++ "` is not loadable yet"))
  | typeRef _ _ => pure .null
  | access _ receiver member => do
    let v ← eval receiver
    evalMember v member
  | construct _ m args => do
    let vs ← evalArgs args
    rd.result [.construct m.id args.length] vs.reverse
  | binary _ op (.mk left c) (.mk right c') plan => do
    let a ← eval left >>= c.apply rd
    if plan = .shortCircuit then
      let t ← Effect.of (Stop.raise a.toBool)
      if op.skips t then pure a else eval right >>= c'.apply rd
    else
      let b ← eval right >>= c'.apply rd
      rd.result (plan.ops op) [b, a]
  | unary _ op (.mk operand c) kind => do
    let a ← eval operand >>= c.apply rd
    rd.result [op.op kind] [a]

/-- The value of a member of a receiver. -/
def evalMember (v : Value) : Member → Effect Value
  | .property p => rd.read p v
  | .staticField f => rd.result [.getStatic f.id] []
  | .method m args => do
    let vs ← evalArgs args
    rd.result [.invoke m.id args.length] (vs.reverse ++ [v])
  | .staticCall m args => do
    let vs ← evalArgs args
    rd.result [.invokeStatic m.id args.length] vs.reverse
  | .index (.mk node c) reading => do
    let i ← eval node >>= c.apply rd
    rd.result [reading.op] [i, v]

def evalArgs : List Arg → Effect (List Value)
  | [] => pure []
  | .mk node c :: rest => do
    let v ← eval node >>= c.apply rd
    let vs ← evalArgs rest
    return v :: vs

end

end Node

theorem Yields.bindEffect {α β : Type} {P : α → Prop} {Q : β → Prop} {allowed : Stop → Prop}
    {x : Effect α} {f : α → Effect β} (hx : Yields P allowed x.result)
    (hf : ∀ a, P a → Yields Q allowed (f a).result) : Yields Q allowed (x >>= f).result := by
  cases hr : x.result with
  | error e =>
    rw [Effect.bind_of_error f hr]
    exact .error (hx.2 e hr)
  | ok a =>
    rw [Effect.bind_of_ok f hr]
    exact hf a (hx.1 a hr)

/-- Only classes have properties. -/
theorem Registry.property_class {r : Registry} {t : Ty} {name : String} {p : PropertyInfo}
    (h : r.model.property t name = some p) : ∃ c, t = .class c := by
  cases t with
  | «class» c => exact ⟨c, rfl⟩
  | _ => simp [model, lineage, List.findSome?, propertyOf?] at h

namespace Reading

variable {rd : Reading} {classes : ObjectId → Option ClassId} {allowed : Stop → Prop}
variable (hrd : rd.Conforms classes allowed)
include hrd

theorem yields_read {t : Ty} {v : Value} {name : String} {p : PropertyInfo}
    (hp : rd.registry.model.property t name = some p) (hv : rd.registry.HasTy classes t v) :
    Yields (rd.registry.HasTy classes p.ty) allowed (rd.read p v).result := by
  obtain ⟨c, rfl⟩ := Registry.property_class hp
  rcases hv with rfl | ⟨o, d, rfl, ho, hc⟩ | ⟨d, e, rfl, he, hc⟩
  · exact .error (hrd.benign _ rfl)
  · show Yields _ _ (if p.flags.observable then rd.value <$> rd.cell o p.name
      else rd.property o p.name)
    by_cases hobs : p.flags.observable
    · obtain ⟨x, hx, ht⟩ := hrd.observed o d c name p ho hc hp hobs
      rw [if_pos hobs, hx]
      exact .ok ht
    · rw [if_neg hobs]
      exact hrd.plain o d c name p ho hc hp (by simpa using hobs)
  · exact .error (hrd.enums d c name p he hc hp)

theorem leaves_invoke {m : MethodInfo} {receiver : Value} {args : List Value}
    (hd : ∃ d ∈ rd.registry.methods, d.info = m) (hs : m.flags.static = false)
    (hr : rd.registry.HasTy classes m.owner receiver)
    (ha : List.Forall₂ (rd.registry.HasTy classes) m.params args) :
    rd.Leaves [.invoke m.id args.length] (args.reverse ++ [receiver])
      (rd.registry.HasTy classes m.ret) allowed := by
  have hlen : args.length = args.reverse.length := args.length_reverse.symm
  have hop (σ : List Value) : rd.op (.invoke m.id args.length) (args.reverse ++ [receiver] ++ σ) =
      if receiver.isNull then
        .fail (.nullReference ("call of " ++ Problem.tick (rd.registry.methodName m.id)))
      else (· :: σ) <$> rd.call m.id (receiver :: args) := by
    rw [List.append_assoc, List.singleton_append]
    simp only [op, List.length_append, List.length_reverse]
    rw [if_neg (by omega), hlen, List.drop_left, List.take_left, List.reverse_reverse]
  have hall (σ : List Value) (st : Store) :
      rd.all [.invoke m.id args.length] ⟨args.reverse ++ [receiver] ++ σ, st⟩ =
      (⟨·, st⟩) <$> rd.op (.invoke m.id args.length) (args.reverse ++ [receiver] ++ σ) :=
    bind_pure _
  by_cases hnull : receiver.isNull
  · refine .of_eq (x := .fail (.nullReference ("call of " ++
      Problem.tick (rd.registry.methodName m.id)))) (fun σ st ↦ ?_) (.error (hrd.benign _ rfl))
    rw [hall, hop, if_pos hnull]
    rfl
  · refine .of_eq (x := rd.call m.id (receiver :: args)) (fun σ st ↦ ?_) ?_
    · rw [hall, hop, if_neg hnull, Functor.map_map]
    · refine yields_call hrd hd ?_
      rw [MethodInfo.Takes, if_neg (by simp [hs])]
      exact ⟨receiver, args, rfl, fun h ↦ hnull (h ▸ rfl), hr, ha⟩

theorem leaves_construct {m : MethodInfo} {args : List Value}
    (hd : ∃ d ∈ rd.registry.methods, d.info = m) (hs : m.flags.static)
    (ha : List.Forall₂ (rd.registry.HasTy classes) m.params args) :
    rd.Leaves [.construct m.id args.length] args.reverse (rd.registry.HasTy classes m.ret)
      allowed := by
  have h := leaves_invokeStatic hrd hd hs ha
  exact ⟨h.all_eq, h.yields⟩

end Reading

namespace Node

variable {rd : Reading} {env : Loadable → Value} {classes : ObjectId → Option ClassId}
variable {allowed : Stop → Prop} {cx : BuildContext}

/-- No name without a value is read, or reading one is allowed to fail. -/
def Settled (allowed : Stop → Prop) (evaluable : Bool) : Prop :=
  evaluable ∨ ∀ message, allowed (.error (.fault message))

theorem Settled.and {a b : Bool} (h : Settled allowed (a && b)) : Settled allowed a ∧ Settled allowed b := by
  rcases h with h | h
  · rw [Bool.and_eq_true] at h
    exact ⟨.inl h.1, .inl h.2⟩
  · exact ⟨.inr h, .inr h⟩

/-- The names in scope have values of their types. -/
def TypedScope (r : Registry) (classes : ObjectId → Option ClassId) (scope : Scope)
    (env : Loadable → Value) : Prop :=
  ∀ name l, scope.lookup? name = some (.bound l) → r.HasTy classes l.ty (env l)

/-- The instructions of a plan are one on both operands and others that go on from its result. -/
theorem PlanFits.typed {r : Registry} {op : BinaryOp} {left right : Arg} {ty : Ty}
    {plan : Plan} (h : PlanFits cx op left right ty plan) (hp : plan ≠ .shortCircuit)
    (hm : cx.model = r.model) :
    ∃ s t u o list, plan.ops op = o :: list ∧ left.coercion.Coerces r left.node.ty s ∧
      right.coercion.Coerces r right.node.ty t ∧ left.node.isValue ∧ right.node.isValue ∧
      Op.Typed r o [t, s] u ∧ Op.Chain r list u ty := by
  have hrefl (t : Ty) : Op.Chain r [] t t := .nil (TypeModel.isAssignable_refl _ t)
  have hkeep (t : Ty) : Fragment.Coerces r .empty t t := .ops (hrefl t)
  have hconverts {a : Arg} {t : Ty} (h : Converts cx a t) : a.coercion.Coerces r a.node.ty t :=
    Coercion.coerces_of_coerce? (hm ▸ h.2)
  have hnumeric {k : Prim} (h : k ≠ .boolean) : k.isNumeric := by simpa [Prim.isNumeric] using h
  cases plan with
  | arithmetic kind =>
    obtain ⟨hop, ⟨hr, hk⟩, hl, hr', rfl⟩ := h
    exact ⟨_, _, _, _, _, rfl, hconverts hl, hconverts hr', hl.1, hr'.1, .arith hop hr (hnumeric hk), hrefl _⟩
  | compare kind =>
    obtain ⟨hop, hl, hr, rfl⟩ := h
    exact ⟨_, _, _, _, _, rfl, hconverts hl, hconverts hr, hl.1, hr.1,
      .cmp (hop.imp_left fun h ↦ ⟨h.1, hnumeric h.2⟩), hrefl _⟩
  | concat =>
    obtain ⟨hl, hr, hl', hr', rfl⟩ := h
    exact ⟨_, _, _, _, _, rfl, hl' ▸ hkeep _, hr' ▸ hkeep _, hl, hr, .concat _ _, hrefl _⟩
  | refEquality =>
    obtain ⟨hl, hr, hl', hr', rfl⟩ := h
    obtain ⟨list, hlist, hchain⟩ : ∃ list, Plan.refEquality.ops op = .refEq :: list ∧
        Op.Chain r list .boolean .boolean := by
      simp only [Plan.ops]
      split
      · exact ⟨[.not], rfl, .op .not (hrefl _)⟩
      · exact ⟨[], rfl, hrefl _⟩
    exact ⟨_, _, _, _, list, hlist, hl' ▸ hkeep _, hr' ▸ hkeep _, hl, hr, .refEq _ _, hchain⟩
  | shortCircuit => exact absurd rfl hp

/-- The instructions of a plan on operands that are converted for it. -/
theorem PlanFits.leaves (hrd : rd.Conforms classes allowed) {op : BinaryOp} {left right : Arg}
    {ty : Ty} {plan : Plan} (h : PlanFits cx op left right ty plan) (hp : plan ≠ .shortCircuit)
    (hm : cx.model = rd.registry.model) :
    ∃ s t, left.coercion.Coerces rd.registry left.node.ty s ∧
      right.coercion.Coerces rd.registry right.node.ty t ∧ left.node.isValue ∧
      right.node.isValue ∧ ∀ a b, rd.registry.HasTy classes s a → rd.registry.HasTy classes t b →
        rd.Leaves (plan.ops op) [b, a] (rd.registry.HasTy classes ty) allowed := by
  obtain ⟨s, t, u, o, list, hops, hcl, hcr, hvl, hvr, ho, hchain⟩ := h.typed hp hm
  refine ⟨s, t, hcl, hcr, hvl, hvr, fun a b ha hb ↦ ?_⟩
  rw [hops]
  exact Reading.leaves_typedChain hrd ho hchain (.cons hb (.cons ha .nil))

theorem Fits.unary_leaves (hrd : rd.Conforms classes allowed) {info : NodeInfo} {op : UnaryOp}
    {operand : Arg} {kind : Prim} (h : Fits cx (unary info op operand kind)) {a : Value}
    (ha : rd.registry.HasTy classes (.prim kind) a) :
    rd.Leaves [op.op kind] [a] (rd.registry.HasTy classes info.ty) allowed := by
  obtain ⟨-, -, hty, -, hr, hop⟩ := h
  rw [hty]
  cases op with
  | not =>
    obtain rfl := hop.mp rfl
    exact Reading.leaves_typed hrd .not (.cons ha .nil)
  | neg =>
    have hk : kind ≠ .boolean := fun h ↦ nomatch hop.mpr h
    exact Reading.leaves_typed hrd (.neg hr (by simpa [Prim.isNumeric] using hk)) (.cons ha .nil)

/-- The instruction of an index, which is converted for it. -/
theorem MemberFits.index_leaves (hrd : rd.Conforms classes allowed)
    (hm : cx.model = rd.registry.model) {receiver : Node} {ty : Ty} {a : Arg}
    {reading : IndexAccess} (h : MemberFits cx receiver ty (.index a reading)) {v : Value}
    (hv : receiver.isValue → rd.registry.HasTy classes receiver.ty v) :
    receiver.isValue ∧ ∃ t, Converts cx a t ∧ ∀ i, rd.registry.HasTy classes t i →
      rd.Leaves [reading.op] [i, v] (rd.registry.HasTy classes ty) allowed := by
  cases reading with
  | chars =>
    obtain ⟨hr, hs, hc, rfl⟩ := h
    exact ⟨hr, _, hc, fun i hi ↦
      Reading.leaves_typed hrd .charAt (.cons hi (.cons (hs ▸ hv hr) .nil))⟩
  | method m =>
    obtain ⟨hr, hmem, hp, rfl⟩ := h
    rw [hm] at hmem
    obtain ⟨hd, ho, -, hs⟩ := Registry.mem_methods hmem
    obtain ⟨param, rest, ⟨hc, -⟩, hnil, hparams⟩ := List.forall₂_cons_left_iff.mp hp
    cases hnil
    exact ⟨hr, _, hc, fun i hi ↦ Reading.leaves_invoke hrd hd hs
      ((hv hr).assign (Registry.isAssignable_of_mem_lineage ho))
      (hparams ▸ .cons hi .nil : List.Forall₂ _ m.params [i])⟩

section

variable (hrd : rd.Conforms classes allowed) (hm : cx.model = rd.registry.model)
include hrd hm

theorem yields_apply {a : Arg} {ty : Ty} (h : Converts cx a ty)
    (hn : Yields (rd.registry.HasTy classes a.node.ty) allowed (a.node.eval rd env).result) :
    Yields (rd.registry.HasTy classes ty) allowed
      (a.node.eval rd env >>= a.coercion.apply rd).result :=
  hn.bindEffect fun _ hv ↦ ((Coercion.coerces_of_coerce? (hm ▸ h.2)).sound hrd hv).2

variable (henv : TypedScope rd.registry classes cx.scope env)
include henv

set_option linter.unusedSectionVars false

mutual

/-- A node has a value of its type, or fails as it is allowed to. -/
theorem yields_eval : (n : Node) → n.Resolved cx → n.isValue → Settled allowed n.info.evaluable →
    Yields (rd.registry.HasTy classes n.ty) allowed (n.eval rd env).result
  | literal info value, h, _, _ => by
    have hty : info.ty = .ofLiteral value := congrArg Facts.ty h
    show Yields (rd.registry.HasTy classes info.ty) _ _
    rw [hty]
    exact .ok (.ofLiteral value)
  | scopeRead info (.bound l), h, _, _ => by
    obtain ⟨⟨name, hname⟩, hf⟩ := h
    have hty : info.ty = l.ty := congrArg Facts.ty hf
    show Yields (rd.registry.HasTy classes info.ty) _ _
    rw [hty]
    exact .ok (henv name l hname)
  | scopeRead info (.pending t), h, _, he => by
    have hf : info.evaluable = false := congrArg Facts.evaluable h.2
    refine .error (he.resolve_left ?_ _)
    rw [show (scopeRead info (.pending t)).info.evaluable = false from hf]
    exact Bool.false_ne_true
  | typeRef .., _, hv, _ => nomatch hv
  | access info receiver member, h, _, he => by
    obtain ⟨⟨hf, -, hev⟩, hr, hmem⟩ := h
    have he : Settled allowed (receiver.info.evaluable && memberEvaluable member) := hev ▸ he
    replace he := he.and
    by_cases hv : receiver.isValue
    · exact (yields_eval receiver hr hv he.1).bindEffect fun v hv ↦
        yields_evalMember member hf hmem he.2 fun _ ↦ hv
    · cases receiver with
      | typeRef i owner =>
        show Yields _ _ (pure Value.null >>= fun v ↦ evalMember rd env v member).result
        rw [pure_bind]
        exact yields_evalMember member hf hmem he.2 fun h ↦ absurd h hv
      | _ => exact absurd rfl hv
  | construct info m args, h, _, he => by
    obtain ⟨⟨⟨owner, hc⟩, hp, hf⟩, ha⟩ := h
    have hty : info.ty = m.ret := congrArg Facts.ty hf
    have hev : info.evaluable = argsEvaluable args := congrArg Facts.evaluable hf
    show Yields (rd.registry.HasTy classes info.ty) _ _
    rw [hty]
    rw [hm] at hc
    obtain ⟨hd, -, hs⟩ := Registry.mem_constructors hc
    refine (yields_evalArgs args hp ha (hev ▸ he)).bindEffect fun vs hvs ↦ ?_
    have hl := Reading.leaves_construct hrd hd hs hvs
    rw [show args.length = vs.length from hp.length_eq.trans hvs.length_eq]
    exact hl.yields
  | binary info op (.mk left c) (.mk right c') plan, h, _, he => by
    obtain ⟨⟨hplan, -, hev⟩, hl, hr⟩ := h
    have he : Settled allowed (left.info.evaluable && right.info.evaluable) := hev ▸ he
    obtain ⟨hel, her⟩ := he.and
    unfold eval
    by_cases hp : plan = .shortCircuit
    · subst hp
      obtain ⟨hcl, hcr, hty⟩ := hplan
      show Yields (rd.registry.HasTy classes info.ty) _ _
      rw [hty]
      refine (yields_apply hrd hm hcl (yields_eval left hl hcl.1 hel)).bindEffect
        fun a ha ↦ ?_
      obtain ⟨b, rfl⟩ := Value.bool_of_prim? ha
      rw [if_pos rfl]
      show Yields _ _ (if op.skips b then pure (.bool b) else eval rd env right >>= c'.apply rd).result
      split
      · exact .ok rfl
      · exact yields_apply hrd hm hcr (yields_eval right hr hcr.1 her)
    · obtain ⟨s, t, hcl, hcr, hvl, hvr, hleaves⟩ := hplan.leaves hrd hp hm
      simp only [if_neg hp]
      refine Yields.bindEffect (P := rd.registry.HasTy classes s) ?_ fun a ha ↦
        Yields.bindEffect (P := rd.registry.HasTy classes t) ?_ fun b hb ↦ (hleaves a b ha hb).yields
      · exact (yields_eval left hl hvl hel).bindEffect fun _ hv ↦ (hcl.sound hrd hv).2
      · exact (yields_eval right hr hvr her).bindEffect fun _ hv ↦ (hcr.sound hrd hv).2
  | unary info op (.mk operand c) kind, h, _, he => by
    obtain ⟨hf, ho⟩ := h
    have hc := hf.2.2.2.1
    have hev : info.evaluable = operand.info.evaluable := hf.2.1
    exact (yields_apply hrd hm hc (yields_eval operand ho hc.1 (hev ▸ he))).bindEffect
      fun a ha ↦ (hf.unary_leaves hrd ha).yields

theorem yields_evalMember {receiver : Node} {ty : Ty} {v : Value} : (m : Member) →
    MemberFits cx receiver ty m → memberForall (Fits cx) m → Settled allowed (memberEvaluable m) →
    (receiver.isValue → rd.registry.HasTy classes receiver.ty v) →
    Yields (rd.registry.HasTy classes ty) allowed (evalMember rd env v m).result
  | .property p, hf, _, _, hv => by
    obtain ⟨hr, ⟨name, hp⟩, rfl⟩ := hf
    rw [hm] at hp
    exact Reading.yields_read hrd hp (hv hr)
  | .staticField f, hf, _, _, _ => by
    obtain ⟨_, owner, name, -, hfield, rfl⟩ := hf
    rw [hm] at hfield
    exact (Reading.leaves_typed hrd (.getStatic hfield) .nil).yields
  | .method m args, hf, h, he, hv => by
    obtain ⟨hr, ⟨name, hmem⟩, hp, rfl⟩ := hf
    rw [hm] at hmem
    obtain ⟨hd, ho, -, hs⟩ := Registry.mem_methods hmem
    refine (yields_evalArgs args hp h he).bindEffect fun vs hvs ↦ ?_
    rw [show args.length = vs.length from hp.length_eq.trans hvs.length_eq]
    exact (Reading.leaves_invoke hrd hd hs
      ((hv hr).assign (Registry.isAssignable_of_mem_lineage ho)) hvs).yields
  | .staticCall m args, hf, h, he, _ => by
    obtain ⟨_, owner, name, -, hmem, hp, rfl⟩ := hf
    rw [hm] at hmem
    obtain ⟨hd, -, hs⟩ := Registry.mem_staticMethods hmem
    refine (yields_evalArgs args hp h he).bindEffect fun vs hvs ↦ ?_
    rw [show args.length = vs.length from hp.length_eq.trans hvs.length_eq]
    exact (Reading.leaves_invokeStatic hrd hd hs hvs).yields
  | .index (.mk node c) reading, hf, h, he, hv => by
    obtain ⟨-, t, hc, hl⟩ := MemberFits.index_leaves hrd hm hf hv
    exact (yields_apply hrd hm hc (yields_eval node h hc.1 he)).bindEffect fun i hi ↦
      (hl i hi).yields

theorem yields_evalArgs {params : List Ty} : (args : List Arg) →
    List.Forall₂ (fun a ty ↦ Converts cx a ty ∧ a.node.ty ≠ .void) args params →
    argsForall (Fits cx) args → Settled allowed (argsEvaluable args) →
    Yields (List.Forall₂ (rd.registry.HasTy classes) params) allowed (evalArgs rd env args).result
  | [], hp, _, _ => by
    cases hp
    exact .ok .nil
  | .mk node c :: rest, hp, h, he => by
    obtain ⟨param, params, ⟨hc, -⟩, hrest, rfl⟩ := List.forall₂_cons_left_iff.mp hp
    rw [argsEvaluable, List.all_cons] at he
    replace he := he.and
    refine (yields_apply hrd hm hc (yields_eval node h.1 hc.1 he.1)).bindEffect fun v hv ↦ ?_
    exact (yields_evalArgs rest hrest h.2 he.2).bindEffect fun vs hvs ↦ .ok (.cons hv hvs)

end

end

end Node

end LiveBinding
