import LiveBinding.Proofs.Direct
import LiveBinding.Proofs.Judgement

namespace LiveBinding

/-- A strategy whose code has the types of what it renders, in environments of some kind. What is
known of the last state is known of those before. -/
structure Strategy.Types {S : Type} (st : Strategy S) (r : Registry) (scope : Scope) (K : Env → Prop)
    (strict : Prop) (good : S → Prop) : Prop where
  node : ∀ n : Node, (∀ c ∈ n.coercions, c.isPlain) → ∀ s, good (n.render st s).2 → good s
  member : ∀ m, (∀ c ∈ Node.memberCoercions m, c.isPlain) → ∀ s,
    good (Node.renderMember st m s).2 → good s
  args : ∀ args, (∀ c ∈ Node.argCoercions args, c.isPlain) → ∀ s,
    good (Node.renderArgs st args s).2 → good s
  operands_back : ∀ {os t}, good (st.operands os t).2 → good t
  loadScope : ∀ {name l s}, scope.lookup? name = some (.bound l) → good (st.loadScope l s).2 →
    (st.loadScope l s).1.Produces r K False [] [l.ty]
  observe : ∀ {c name p} s, r.model.property (.class c) name = some p → p.flags.observable →
    (st.observe p.name s).1.Produces r K strict [.class c] [p.ty]
  noOperands : ∀ t, (st.operands [] t).1 = .empty
  operands : ∀ {o os ins u ts} t, o.code.Produces r K (strict ∧ o.monitored) ins [u] →
    List.Forall₂ (Operand.Produces r K strict) os ts →
    (st.operands (o :: os) t).1.Produces r K (strict ∧ (o :: os).any Operand.monitored) ins
      (ts.reverse ++ [u])
  shortCircuit : ∀ {op left right monitored listens s},
    good (st.shortCircuit op left right monitored s).2 → (strict ∧ monitored → listens) →
    (∀ s, good (right s).2 → good s) → (good s → left.Produces r K listens [] [.boolean]) →
    (∀ s, good (right s).2 → (right s).1.Produces r K (strict ∧ monitored) [] [.boolean]) →
    (st.shortCircuit op left right monitored s).1.Produces r K listens [] [.boolean]

namespace Strategy.Types

open Node

variable {S : Type} {st : Strategy S} {r : Registry} {scope : Scope} {K : Env → Prop}
variable {strict : Prop} {good : S → Prop} (h : st.Types r scope K strict good)
include h

theorem produces_operands {os : List Operand} {ts : List Ty}
    (hos : List.Forall₂ (Operand.Produces r K strict) os ts) (t : S) :
    (st.operands os t).1.Produces r K (strict ∧ os.any Operand.monitored) [] ts.reverse := by
  cases hos with
  | nil =>
    rw [h.noOperands]
    exact .empty
  | cons ho hos =>
    rw [List.reverse_cons]
    exact h.operands t ho hos

/-- Operands on top of a receiver that is on the stack already. -/
theorem produces_behind {os : List Operand} {ts : List Ty}
    (hos : List.Forall₂ (Operand.Produces r K strict) os ts) (u : Ty) (t : S) :
    (st.operands (.onStack :: os) t).1.Produces r K (strict ∧ os.any Operand.monitored) [u]
      (ts.reverse ++ [u]) :=
  h.operands (o := .onStack) t .empty hos

end Strategy.Types

namespace Node

open Fragment

variable {r : Registry} {K : Env → Prop} {cx : BuildContext}

/-- What a node leaves on the stack: its value, or nothing for a type. -/
def outs (n : Node) : List Ty := if n.isValue then [n.ty] else []

theorem outs_of_isValue {n : Node} (h : n.isValue) : n.outs = [n.ty] := if_pos h

theorem Fits.unary_typed {info : NodeInfo} {op : UnaryOp} {operand : Arg} {kind : Prim}
    (h : Fits cx (unary info op operand kind)) :
    Op.Typed r (op.op kind) [.prim kind] info.ty := by
  obtain ⟨-, -, hty, -, hr, hop⟩ := h
  rw [hty]
  cases op with
  | not =>
    obtain rfl := hop.mp rfl
    exact .not
  | neg =>
    have hk : kind ≠ .boolean := fun h ↦ nomatch hop.mpr h
    exact .neg hr (by simpa [Prim.isNumeric] using hk)

section

variable {S : Type} {st : Strategy S} {strict : Prop} {good : S → Prop}
variable (hm : cx.model = r.model) (hst : st.Types r cx.scope K strict good)
include hm

theorem produces_convert {n : Node} {c f : Fragment} {t : Ty} {listens : Prop} (hv : n.isValue)
    (hc : Coercion.coerce? cx.model n.ty t = some c) (hf : f.Produces r K listens [] n.outs) :
    (f ++ c).Produces r K listens [] [t] := by
  rw [outs_of_isValue hv] at hf
  exact hf.append (.of_coerces (Coercion.isPlain_coerce hc) (Coercion.coerces_of_coerce? (hm ▸ hc)))

include hst

mutual

/-- The code of a node leaves a value of its type. If the node listens, there is nothing else on the
stack. -/
theorem produces : (n : Node) → n.Resolved cx → n.info.evaluable → (s : S) →
    good (n.render st s).2 → (n.render st s).1.Produces r K (strict ∧ 0 < n.monitoring) [] n.outs
  | literal info value, h, _, s, _ => by
    have hty : info.ty = .ofLiteral value := congrArg Facts.ty h
    show Produces r K _ _ [] [info.ty]
    rw [hty]
    cases value with
    | null => exact .of_op rfl .pushNull
    | string text => exact .of_op rfl (.pushStr text)
    | int n => exact .of_op rfl (.pushInt n)
    | long n => exact .of_op rfl (.pushLong n)
    | float x => exact .of_op rfl (.pushFloat x)
    | double x => exact .of_op rfl (.pushDouble x)
    | boolean b => exact .of_op rfl (.pushBool b)
  | scopeRead info (.bound l), h, _, s, hg => by
    obtain ⟨⟨name, hname⟩, hf⟩ := h
    have hty : info.ty = l.ty := congrArg Facts.ty hf
    show Produces r K _ _ [] [info.ty]
    rw [hty]
    exact (hst.loadScope hname hg).mono False.elim
  | scopeRead info (.pending t), h, he, _, _ => by
    have hf : info.evaluable = false := congrArg Facts.evaluable h.2
    have he : info.evaluable = true := he
    rw [hf] at he
    cases he
  | typeRef .., _, _, _, _ => .empty
  | access info receiver member, h, he, s, hg => by
    obtain ⟨⟨hf, hmon, hev⟩, hr, hmem⟩ := h
    have he : (receiver.info.evaluable && memberEvaluable member) = true := hev ▸ he
    rw [Bool.and_eq_true] at he
    have hmon : (access info receiver member).monitoring =
      receiver.monitoring + memberReads member := hmon
    have hg' := hst.member member (memberIsPlain member hf hmem) _ hg
    have hreceiver := produces receiver hr he.1 s hg'
    obtain ⟨ins, hins, hmember⟩ := produces_member member hf hmem he.2 _ hg
    rw [hmon]
    exact ((hins _ _ hreceiver).mono (And.imp_right fun h ↦ by omega)).append
      (hmember.mono (And.imp_right fun h ↦ by omega))
  | construct info m args, h, he, s, hg => by
    obtain ⟨⟨⟨owner, hc⟩, hp, hf⟩, ha⟩ := h
    have hty : info.ty = m.ret := congrArg Facts.ty hf
    have hev : info.evaluable = argsEvaluable args := congrArg Facts.evaluable hf
    have hmon : info.monitoring = argReads args := congrArg Facts.monitoring hf
    rw [hm] at hc
    obtain ⟨hd, -, hs⟩ := Registry.mem_constructors hc
    show Produces r K (strict ∧ 0 < info.monitoring) _ [] [info.ty]
    rw [render_construct] at hg ⊢
    have hargs := hst.produces_operands
      (produces_args args hp ha (hev ▸ he) s (hst.operands_back hg)) (renderArgs st args s).2
    rw [any_monitored, decide_eq_true_eq] at hargs
    rw [hty, hmon]
    exact hargs.append (.of_gives rfl fun _ _ _ ↦ .construct hd hs hp.length_eq)
  | binary info op (.mk left c) (.mk right c') plan, h, he, s, hg => by
    have hplain := Resolved.isPlain _ h
    obtain ⟨⟨hplan, hmon, hev⟩, hl, hr⟩ := h
    have he : (left.info.evaluable && right.info.evaluable) = true := hev ▸ he
    rw [Bool.and_eq_true] at he
    obtain ⟨hel, her⟩ := he
    have hmon : info.monitoring = left.monitoring + right.monitoring := hmon
    have hback := hst.node right (fun d hd ↦ hplain d (by simp [coercions, hd]))
    show Produces r K (strict ∧ 0 < info.monitoring) _ [] [info.ty]
    rw [hmon]
    by_cases hp : plan = .shortCircuit
    · subst hp
      obtain ⟨hcl, hcr, hty⟩ := hplan
      rw [render_shortCircuit] at hg ⊢
      rw [hty]
      refine hst.shortCircuit hg (And.imp_right fun h ↦ ?_) hback (fun hg ↦ ?_) fun s hg ↦ ?_
      · have := of_decide_eq_true h
        omega
      · exact produces_convert hm hcl.1 hcl.2
          ((produces left hl hel s hg).mono (And.imp_right fun h ↦ Nat.add_pos_left h _))
      · exact produces_convert hm hcr.1 hcr.2
          ((produces right hr her s hg).mono (And.imp_right decide_eq_true))
    · obtain ⟨t, u, v, o, list, hops, hcl, hcr, hvl, hvr, ho, hchain⟩ := hplan.typed hp hm
      rw [render_binary _ _ _ _ _ _ _ _ hp] at hg ⊢
      have hg₂ := hst.operands_back hg
      have hplain' := hplain c (by simp [coercions])
      have hplain'' := hplain c' (by simp [coercions])
      have hleft := produces left hl hel s (hback _ hg₂)
      have hright := produces right hr her _ hg₂
      rw [outs_of_isValue (n := left) hvl] at hleft
      rw [outs_of_isValue (n := right) hvr] at hright
      have hfirst : Operand.Produces r K strict ⟨(left.render st s).1 ++ c, decide (0 < left.monitoring)⟩ t :=
        (hleft.mono (And.imp_right decide_eq_true)).append (.of_coerces hplain' hcl)
      have hsecond : Operand.Produces r K strict ⟨(right.render st (left.render st s).2).1 ++ c',
          decide (0 < right.monitoring)⟩ u :=
        (hright.mono (And.imp_right decide_eq_true)).append (.of_coerces hplain'' hcr)
      have hboth := hst.produces_operands (.cons hfirst (.cons hsecond .nil))
        (right.render st (left.render st s).2).2
      refine (hboth.mono (And.imp_right fun h ↦ ?_)).append ?_
      · simp only [List.any_cons, List.any_nil, Bool.or_false, Bool.or_eq_true,
          decide_eq_true_eq] at h
        omega
      · rw [hops]
        refine .of_typed (slots_of_isPlain ?_) fun env D Γ _ ↦ typed_of_typedChain ho hchain
        rw [← hops]
        exact isPlain_plan op plan
  | unary info op (.mk operand c) kind, h, he, s, hg => by
    obtain ⟨hf, ho⟩ := h
    have hc := hf.2.2.2.1
    have hev : info.evaluable = operand.info.evaluable := hf.2.1
    have hmon : info.monitoring = operand.monitoring := hf.1
    show Produces r K (strict ∧ 0 < info.monitoring) _ [] [info.ty]
    rw [hmon]
    exact (produces_convert hm hc.1 hc.2 (produces operand ho (hev ▸ he) s hg)).append
      (.of_op (isPlain_unary op kind) hf.unary_typed)

/-- The code of a member takes what its receiver leaves, as a value of the type it belongs to. -/
theorem produces_member {receiver : Node} {ty : Ty} : (m : Member) →
    MemberFits cx receiver ty m → memberForall (Fits cx) m → memberEvaluable m → (s : S) →
    good (renderMember st m s).2 →
    ∃ ins, (∀ f listens, Produces r K listens f [] receiver.outs → Produces r K listens f [] ins) ∧
      (renderMember st m s).1.Produces r K (strict ∧ 0 < memberReads m) ins [ty]
  | .property p, hf, _, _, s, _ => by
    obtain ⟨hr, ⟨name, hp⟩, rfl⟩ := hf
    rw [hm] at hp
    rw [outs_of_isValue hr]
    obtain ⟨c, hc⟩ := Registry.property_class hp
    rw [hc] at hp ⊢
    refine ⟨[.class c], fun _ _ h ↦ h, ?_⟩
    rw [renderMember_property]
    split
    · next hobs => exact (hst.observe s hp hobs).mono fun h ↦ ⟨h, by simp [memberReads, hobs]⟩
    · exact .of_gives rfl fun _ _ _ ↦ .property hp
  | .staticField f, hf, _, _, _, _ => by
    obtain ⟨_, owner, name, rfl, hfield, rfl⟩ := hf
    rw [hm] at hfield
    exact ⟨[], fun _ _ h ↦ h, .of_op rfl (.getStatic hfield)⟩
  | .method m args, hf, h, he, s, hg => by
    obtain ⟨hr, ⟨name, hmem⟩, hp, rfl⟩ := hf
    rw [hm] at hmem
    obtain ⟨hd, ho, -, hs⟩ := Registry.mem_methods hmem
    rw [outs_of_isValue hr]
    rw [renderMember_method] at hg ⊢
    have hargs := hst.produces_behind
      (produces_args args hp h he s (hst.operands_back hg)) m.owner (renderArgs st args s).2
    rw [any_monitored, decide_eq_true_eq] at hargs
    exact ⟨[m.owner], fun _ _ h ↦ h.assign (Registry.isAssignable_of_mem_lineage ho),
      hargs.append (.of_gives rfl fun _ _ _ ↦ .invoke hd hs hp.length_eq)⟩
  | .staticCall m args, hf, h, he, s, hg => by
    obtain ⟨_, owner, name, rfl, hmem, hp, rfl⟩ := hf
    rw [hm] at hmem
    obtain ⟨hd, -, hs⟩ := Registry.mem_staticMethods hmem
    rw [renderMember_staticCall] at hg ⊢
    have hargs := hst.produces_operands
      (produces_args args hp h he s (hst.operands_back hg)) (renderArgs st args s).2
    rw [any_monitored, decide_eq_true_eq] at hargs
    exact ⟨[], fun _ _ h ↦ h,
      hargs.append (.of_gives rfl fun _ _ _ ↦ .invokeStatic hd hs hp.length_eq)⟩
  | .index (.mk node c) .chars, hf, h, he, s, hg => by
    obtain ⟨hr, hs, hc, rfl⟩ := hf
    rw [outs_of_isValue hr, hs]
    rw [renderMember_index] at hg ⊢
    have hindex : Operand.Produces r K strict ⟨(node.render st s).1 ++ c, decide (0 < node.monitoring)⟩ .int :=
      produces_convert hm hc.1 hc.2
        ((produces node h he s (hst.operands_back hg)).mono (And.imp_right decide_eq_true))
    have hboth := hst.produces_behind (.cons hindex .nil) .str (node.render st s).2
    refine ⟨[.str], fun _ _ h ↦ h, (hboth.mono (And.imp_right fun h ↦ ?_)).append (.of_op rfl .charAt)⟩
    simpa [memberReads, Arg.node] using h
  | .index (.mk node c) (.method m), hf, h, he, s, hg => by
    obtain ⟨hr, hmem, hp, rfl⟩ := hf
    rw [hm] at hmem
    obtain ⟨hd, ho, -, hs⟩ := Registry.mem_methods hmem
    obtain ⟨param, rest, ⟨hc, -⟩, hnil, hparams⟩ := List.forall₂_cons_left_iff.mp hp
    cases hnil
    rw [outs_of_isValue hr]
    rw [renderMember_index] at hg ⊢
    have hindex : Operand.Produces r K strict ⟨(node.render st s).1 ++ c, decide (0 < node.monitoring)⟩
        param :=
      produces_convert hm hc.1 hc.2
        ((produces node h he s (hst.operands_back hg)).mono (And.imp_right decide_eq_true))
    have hboth := hst.produces_behind (.cons hindex .nil) m.owner (node.render st s).2
    have hcall (env : Env) (D : List Nat) : Op.Gives r env D (.invoke m.id 1) ([param].reverse ++ [m.owner])
        m.ret := by
      rw [← hparams]
      exact .invoke hd hs (by rw [hparams]; rfl)
    refine ⟨[m.owner], fun _ _ h ↦ h.assign (Registry.isAssignable_of_mem_lineage ho),
      (hboth.mono (And.imp_right fun h ↦ ?_)).append (.of_gives rfl fun env D _ ↦ hcall env D)⟩
    simpa [memberReads, Arg.node] using h

theorem produces_args {params : List Ty} : (args : List Arg) →
    List.Forall₂ (fun a ty ↦ Converts cx a ty ∧ a.node.ty ≠ .void) args params →
    argsForall (Fits cx) args → argsEvaluable args → (s : S) → good (renderArgs st args s).2 →
    List.Forall₂ (Operand.Produces r K strict) (renderArgs st args s).1 params
  | [], hp, _, _, _, _ => by
    cases hp
    exact .nil
  | .mk node c :: rest, hp, h, he, s, hg => by
    obtain ⟨param, params, ⟨hc, -⟩, hrest, rfl⟩ := List.forall₂_cons_left_iff.mp hp
    rw [argsEvaluable, List.all_cons, Bool.and_eq_true] at he
    have hg' := hst.args rest (argsIsPlain rest hrest h.2) _ hg
    refine .cons ?_ (produces_args rest hrest h.2 he.2 _ hg)
    exact produces_convert hm hc.1 hc.2 ((produces node h.1 he.1 s hg').mono (And.imp_right decide_eq_true))

end

end

end Node

namespace Strategy

/-- The capture that a name shares is found in the last state too. -/
theorem findIdx?_of_keeping {l : Loadable} {s : Resumable} {captured : List Loadable}
    (hg : Keeping captured (resumable.loadScope l s).2) :
    captured.findIdx? (·.id == l.id) = some (Storage.capture l s.storage).1 := by
  have hg : (Storage.capture l s.storage).2.captured <+: captured := hg
  unfold Storage.capture at hg ⊢
  split at hg
  · next slot hslot =>
    obtain ⟨rest, rfl⟩ := hg
    simp only [List.findIdx?_append, hslot]
    rfl
  · next hnone =>
    obtain ⟨rest, rfl⟩ := hg
    simp only [List.append_assoc, List.findIdx?_append, hnone]
    simp [Storage.captures]

theorem back_inOrder {s t : Resumable} {fs : List Fragment} (h : InOrder Renders s fs t)
    {captured : List Loadable} (hg : Keeping captured t) : Keeping captured s := by
  induction fs generalizing s with
  | nil => exact (h : s = t) ▸ hg
  | cons f fs ih =>
    obtain ⟨u, hf, h⟩ := h
    exact hf.captured.trans (ih h)

/-- The captures of a binding have the types of the names in scope that share them. -/
def Covers (scope : Scope) (captured : List Loadable) (env : Env) : Prop :=
  env.stateful ∧ ∀ name l slot, scope.lookup? name = some (.bound l) →
    captured.findIdx? (·.id == l.id) = some slot → env.captures slot l.ty

theorem types_resumable (r : Registry) (scope : Scope) (captured : List Loadable) :
    resumable.Types r scope (Covers scope captured) True (Keeping captured) where
  node n h s hg := (n.renders h s).captured.trans hg
  member m h s hg := (Node.rendersMember m h s).captured.trans hg
  args args h s hg := back_inOrder (Node.rendersArgs args h s) hg
  operands_back {os t} hg := by
    have hg : Keeping captured (Resumable.newSlots _ t).2 := hg
    rw [Renders.newSlots_eq] at hg
    exact hg
  loadScope {name l s} hname hg :=
    .of_gives rfl fun _ _ hK ↦
      .capture hK.1 (hK.2 name l _ hname (findIdx?_of_keeping hg))
  observe {_ _ p} s hp hobs D := by
    refine ⟨[((Resumable.newPoint s).1.handle, .handle p.ty D)], rfl, fun env hK hA Γ hΓ ↦ ?_⟩
    obtain rfl := hΓ trivial
    exact .observe hK.1 hp hobs (hA _ List.mem_cons_self)
  noOperands _ := rfl
  operands t ho hos := Fragment.produces_operands (fun _ h ↦ h.1) ho hos t
  shortCircuit {op left right monitored listens s} hg hl hback hleft hright := by
    cases monitored with
    | false =>
      have hg : Keeping captured (right s).2 := hg
      exact (hleft (hback s hg)).shortCircuit op ((hright s hg).mono hl)
    | true =>
      have hg : Keeping captured (right (Layout.inside s)).2 := hg
      exact (hleft (hback (Layout.inside s) hg)).branch op _ _ _ (fun _ h ↦ h.1)
        ((hright _ hg).mono hl) (hl ⟨trivial, rfl⟩)

/-- The code of the scope loads values of the types of the names. -/
def Loads (scope : Scope) (env : Env) : Prop :=
  ∀ name l, scope.lookup? name = some (.bound l) → env.loads l.load l.ty

theorem types_direct (r : Registry) {scope : Scope}
    (hplain : ∀ name l, scope.lookup? name = some (.bound l) → l.load.isPlain) :
    direct.Types r scope (Loads scope) False fun _ ↦ True where
  node _ _ _ _ := trivial
  member _ _ _ _ := trivial
  args _ _ _ _ := trivial
  operands_back _ := trivial
  loadScope {name l _} hname _ :=
    .of_typed (Fragment.slots_of_isPlain (hplain name l hname)) fun _ _ _ hK ↦
      .load (hplain name l hname) (hK name l hname)
  observe _ hp _ := .of_gives rfl fun _ _ _ ↦ .property hp
  noOperands _ := rfl
  operands _ ho hos :=
    Fragment.produces_concat_first (ho.mono fun h ↦ h.1.elim) hos fun _ _ ↦ And.left
  shortCircuit {op _ _ _ _ s} _ hl _ hleft hright :=
    (hleft trivial).shortCircuit op ((hright s trivial).mono hl)

end Strategy

namespace Node

open Fragment

variable {r : Registry} {cx : BuildContext} {n : Node}

/-- The code of a dynamic binding has the type of its expression, for some use of its slots. -/
theorem Resolved.exists_slots (h : n.Resolved cx) (hm : cx.model = r.model) (hv : n.isValue)
    (he : n.info.evaluable) {env : Env}
    (hK : ∀ slots, Strategy.Covers cx.scope (n.render .resumable .start).2.storage.captured
      { env with slots }) :
    ∃ slots, Typed r { env with slots } [] (n.render .resumable .start).1 [] [n.ty] := by
  have hp := produces hm (Strategy.types_resumable r cx.scope _) n h he .start List.prefix_rfl
  rw [outs_of_isValue hv] at hp
  refine hp.exists_slots ?_ hK
  have hslots := (n.renders (Resolved.isPlain n h) .start).slots
  exact hslots.nodup_iff.mpr List.nodup_range'

/-- The code of a static binding has the type of its expression. -/
theorem Resolved.typed_direct (h : n.Resolved cx) (hm : cx.model = r.model) (hv : n.isValue)
    (he : n.info.evaluable) {env : Env} (hK : Strategy.Loads cx.scope env)
    (hplain : ∀ name l, cx.scope.lookup? name = some (.bound l) → l.load.isPlain) :
    Typed r env [] n.renderDirect [] [n.ty] := by
  have hp := produces hm (Strategy.types_direct r hplain) n h he () trivial
  rw [outs_of_isValue hv] at hp
  obtain ⟨A, hA, ht⟩ := hp []
  rw [slots_of_isPlain (direct_composable composable_isPlain hplain n h)] at hA
  obtain rfl := List.map_eq_nil_iff.mp hA
  exact ht env hK nofun [] fun _ ↦ rfl

end Node

end LiveBinding
