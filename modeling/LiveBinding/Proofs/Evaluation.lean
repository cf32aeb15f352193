import LiveBinding.Proofs.Meaning

namespace LiveBinding

/-- Two computations end alike, and if `k` asks for that they make the same calls. -/
def Effect.Rel {α β : Type} (k : Prop) (P : α → β → Prop) (x : Effect α) (y : Effect β) : Prop :=
  (k → x.calls = y.calls) ∧
    ((∃ a b, x.result = .ok a ∧ y.result = .ok b ∧ P a b) ∨
      ∃ e, x.result = .error e ∧ y.result = .error e)

namespace Effect.Rel

variable {α β γ δ : Type} {k : Prop} {P : α → β → Prop} {Q : γ → δ → Prop}
variable {x : Effect α} {y : Effect β}

theorem of_ok {a : α} {b : β} (hx : x.result = .ok a) (hy : y.result = .ok b) (h : P a b)
    (hc : k → x.calls = y.calls) : Rel k P x y := ⟨hc, .inl ⟨a, b, hx, hy, h⟩⟩

theorem pure {a : α} {b : β} (h : P a b) : Rel k P (Pure.pure a) (Pure.pure b) :=
  of_ok rfl rfl h fun _ ↦ rfl

theorem fail (e : RuntimeError) : Rel k P (Effect.fail e) (Effect.fail e) :=
  ⟨fun _ ↦ rfl, .inr ⟨_, rfl, rfl⟩⟩

/-- A computation is followed by another one that goes on from related results. -/
theorem bind {f : α → Effect γ} {g : β → Effect δ} (h : Rel k P x y)
    (hf : ∀ a b, x.result = .ok a → y.result = .ok b → P a b → Rel k Q (f a) (g b)) :
    Rel k Q (x >>= f) (y >>= g) := by
  obtain ⟨hc, ⟨a, b, hx, hy, hp⟩ | ⟨e, hx, hy⟩⟩ := h
  · obtain ⟨hc', h'⟩ := hf a b hx hy hp
    rw [bind_of_ok f hx, bind_of_ok g hy]
    exact ⟨fun hk ↦ congr_arg₂ _ (hc hk) (hc' hk), h'⟩
  · rw [bind_of_error f hx, bind_of_error g hy]
    exact ⟨hc, .inr ⟨e, rfl, rfl⟩⟩

theorem of_left_ok (h : Rel k P x y) {a : α} (hx : x.result = .ok a) :
    ∃ b, y.result = .ok b ∧ P a b := by
  obtain ⟨-, ⟨a', b, ha, hb, hp⟩ | ⟨e, he, -⟩⟩ := h
  · rw [hx] at ha
    cases ha
    exact ⟨b, hb, hp⟩
  · rw [hx] at he
    cases he

theorem of_left_error (h : Rel k P x y) {e : Stop} (hx : x.result = .error e) :
    y.result = .error e := by
  obtain ⟨-, ⟨a, b, ha, -⟩ | ⟨e', he, hy⟩⟩ := h
  · rw [hx] at ha
    cases ha
  · rw [hx] at he
    cases he
    exact hy

theorem mono {P' : α → β → Prop} (h : Rel k P x y)
    (hp : ∀ a b, x.result = .ok a → y.result = .ok b → P a b → P' a b) : Rel k P' x y := by
  refine ⟨h.1, h.2.imp_left ?_⟩
  rintro ⟨a, b, hx, hy, hab⟩
  exact ⟨a, b, hx, hy, hp a b hx hy hab⟩

/-- A result is the image of one of the same computation. -/
theorem map_left (f : β → α) (y : Effect β) : Rel k (fun a b ↦ a = f b) (f <$> y) y := by
  cases hy : y.result with
  | error e => exact ⟨fun _ ↦ by rw [map_of_error f hy], .inr ⟨e, by rw [map_of_error f hy], hy⟩⟩
  | ok b =>
    rw [map_of_ok f hy]
    exact of_ok rfl hy rfl fun _ ↦ rfl

end Effect.Rel

/-- Code that starts on the stack `ρ` comes to what `e` does, and if that is a result it leaves the
stack that `τ` makes of it. -/
def Fragment.Turns {α : Type} (k : Prop) (rd : Reading) (f : Fragment) (ρ : List Value)
    (τ : α → List Value) (e : Effect α) : Prop :=
  ∀ st, Effect.Rel k (fun c a ↦ c.stack = τ a) (f.den rd ⟨ρ, st⟩) e

namespace Fragment.Turns

variable {α β : Type} {k : Prop} {rd : Reading} {f g : Fragment} {ρ : List Value}
variable {τ : α → List Value} {υ : β → List Value} {e : Effect α}

theorem append {h : α → Effect β} (hf : Turns k rd f ρ τ e)
    (hg : ∀ a, e.result = .ok a → Turns k rd g (τ a) υ (h a)) : Turns k rd (f ++ g) ρ υ (e >>= h) := by
  intro st
  refine (hf st).bind fun c a _ ha hc ↦ ?_
  obtain ⟨σ, st'⟩ := c
  obtain rfl : σ = τ a := hc
  exact hg a ha st'

theorem map {g : α → β} (h : Turns k rd f ρ (fun a ↦ υ (g a)) e) :
    Turns k rd f ρ υ (e >>= fun a ↦ pure (g a)) := by
  intro st
  have hb := (h st).bind (Q := fun c b ↦ c.stack = υ b) (f := pure) (g := fun a ↦ pure (g a))
    fun c a _ _ hc ↦ .pure hc
  rwa [bind_pure] at hb

theorem of_map {g : α → β} (h : Turns k rd f ρ υ (e >>= fun a ↦ pure (g a))) :
    Turns k rd f ρ (fun a ↦ υ (g a)) e := by
  intro st
  obtain ⟨hc, hr⟩ := h st
  cases he : e.result with
  | error e' =>
    rw [Effect.bind_of_error _ he] at hc hr
    refine ⟨hc, .inr ?_⟩
    rcases hr with ⟨c, b, -, hb, -⟩ | ⟨e'', hx, hy⟩
    · cases hb
    · cases hy
      exact ⟨_, hx, he⟩
  | ok a =>
    rw [Effect.bind_of_ok _ he] at hc hr
    refine ⟨fun hk ↦ (hc hk).trans (List.append_nil _), .inl ?_⟩
    rcases hr with ⟨c, b, hx, hb, hcb⟩ | ⟨e'', -, hy⟩
    · cases hb
      exact ⟨c, a, hx, he, hcb⟩
    · cases hy

theorem empty (a : α) (h : ρ = τ a) : Turns k rd .empty ρ τ (pure a) := fun _ ↦ .pure h

theorem of_leaves {list : List Op} {vs σ : List Value} {P : Value → Prop} {allowed : Stop → Prop}
    (h : rd.Leaves list vs P allowed) :
    Turns k rd (.ops list) (vs ++ σ) (· :: σ) (rd.result list vs) := by
  intro st
  show Effect.Rel _ _ (rd.all list ⟨vs ++ σ, st⟩) _
  rw [h.all_eq]
  exact (Effect.Rel.map_left _ _).mono fun c v _ _ hc ↦ hc ▸ rfl

variable {classes : ObjectId → Option ClassId} {allowed : Stop → Prop}

theorem of_coerces {c : Fragment} {s t : Ty} {v : Value} {σ : List Value}
    (hrd : rd.Conforms classes allowed) (h : c.Coerces rd.registry s t)
    (hv : rd.registry.HasTy classes s v) :
    Turns k rd c (v :: σ) (· :: σ) (c.apply rd v) := by
  intro st
  rw [(h.sound hrd hv).1]
  exact (Effect.Rel.map_left _ _).mono fun c v _ _ hc ↦ hc ▸ rfl

/-- The left operand of `&&` or `||`, which decides or is followed by the right one. -/
theorem fork {op : BinaryOp} {σ : List Value} {b : Bool} {decided undecided : Config → Effect Config}
    {right : Effect Value} {st : Store}
    (hd : Effect.Rel k (fun c v ↦ c.stack = v :: σ) (decided ⟨.bool b :: σ, st⟩) (pure (.bool b)))
    (hu : Effect.Rel k (fun c v ↦ c.stack = v :: σ) (undecided ⟨σ, st⟩) right) :
    Effect.Rel k (fun c v ↦ c.stack = v :: σ)
      (Config.fork op decided undecided ⟨.bool b :: σ, st⟩)
      (do
        let t ← Effect.of (Stop.raise (Value.bool b).toBool)
        if op.skips t then pure (.bool b) else right) := by
  rw [Config.fork_of_toBool (t := b) rfl]
  show Effect.Rel _ _ _ (if op.skips b then pure (.bool b) else right)
  split
  · exact hd
  · exact hu

end Fragment.Turns

/-- Some computations one after the other. -/
def Effect.each {α : Type} : List (Effect α) → Effect (List α)
  | [] => pure []
  | e :: es => do
    let a ← e
    let as ← each es
    return a :: as

theorem Effect.each_one_eq_ok {α : Type} {e : Effect α} {as : List α}
    (h : (each [e]).result = .ok as) : ∃ a, e.result = .ok a ∧ as = [a] := by
  obtain ⟨a, ha, h⟩ := result_bind_eq_ok.mp h
  obtain ⟨as', hn, h⟩ := result_bind_eq_ok.mp h
  cases hn
  cases h
  exact ⟨a, ha, rfl⟩

theorem Effect.each_two_eq_ok {α : Type} {e e' : Effect α} {as : List α}
    (h : (each [e, e']).result = .ok as) :
    ∃ a b, e.result = .ok a ∧ e'.result = .ok b ∧ as = [a, b] := by
  obtain ⟨a, ha, h⟩ := result_bind_eq_ok.mp h
  obtain ⟨as', hr, h⟩ := result_bind_eq_ok.mp h
  obtain ⟨b, hb, rfl⟩ := each_one_eq_ok hr
  cases h
  exact ⟨a, b, ha, hb, rfl⟩

/-- An operand comes to its value. One that is monitored may need an empty stack. -/
def Operand.Comes (k : Prop) (rd : Reading) (o : Operand) (e : Effect Value) : Prop :=
  ∀ σ, (rd.strict → o.monitored → σ = []) → o.code.Turns k rd σ (· :: σ) e

/-- A strategy whose code comes to the values that are read. What is rendered goes from one state to
another one, and what is known of the last one is known of those before. -/
structure Strategy.Faithful {S : Type} (st : Strategy S) (k : Prop) (rd : Reading)
    (classes : ObjectId → Option ClassId) (scope : Scope) (env : Loadable → Value)
    (rel : S → Fragment → S → Prop) (good : S → Prop) : Prop where
  back : ∀ {s f t}, rel s f t → good t → good s
  plain : ∀ s {f}, f.isPlain → rel s f s
  append : ∀ {s t u f g}, rel s f t → rel t g u → rel s (f ++ g) u
  node : ∀ n : Node, (∀ c ∈ n.coercions, c.isPlain) → ∀ s, rel s (n.render st s).1 (n.render st s).2
  member : ∀ m, (∀ c ∈ Node.memberCoercions m, c.isPlain) → ∀ s,
    rel s (Node.renderMember st m s).1 (Node.renderMember st m s).2
  args : ∀ args, (∀ c ∈ Node.argCoercions args, c.isPlain) → ∀ s,
    InOrder rel s ((Node.renderArgs st args s).1.map Operand.code) (Node.renderArgs st args s).2
  operands_back : ∀ {os t}, good (st.operands os t).2 → good t
  loadScope : ∀ {name l s}, scope.lookup? name = some (.bound l) → good (st.loadScope l s).2 →
    ∀ σ, (st.loadScope l s).1.Turns k rd σ (· :: σ) (pure (env l))
  observe : ∀ {t name p v σ} s, rd.registry.model.property t name = some p →
    rd.registry.HasTy classes t v → p.flags.observable → (rd.strict → σ = []) →
    (st.observe p.name s).1.Turns k rd (v :: σ) (· :: σ) (rd.read p v)
  noOperands : ∀ t, (st.operands [] t).1 = .empty
  operands : ∀ {s t o os e es ρ σ}, InOrder rel s ((o :: os).map Operand.code) t →
    o.code.Turns k rd ρ (· :: σ) e → List.Forall₂ (Operand.Comes k rd) os es →
    (rd.strict → (o :: os).any Operand.monitored → σ = []) →
    (st.operands (o :: os) t).1.Turns k rd ρ (fun vs ↦ vs.reverse ++ σ) (.each (e :: es))
  shortCircuit : ∀ {op left right monitored s σ e e'},
    (∀ s, rel s (right s).1 (right s).2) → good (st.shortCircuit op left right monitored s).2 →
    (rd.strict → monitored → σ = []) → (good s → left.Turns k rd σ (· :: σ) e) →
    (∀ a, e.result = .ok a → ∃ b, a = .bool b) →
    (∀ s, good (right s).2 → (right s).1.Turns k rd σ (· :: σ) e') →
    (st.shortCircuit op left right monitored s).1.Turns k rd σ (· :: σ) do
      let a ← e
      let t ← Effect.of (Stop.raise a.toBool)
      if op.skips t then pure a else e'

namespace Strategy.Faithful

variable {S : Type} {st : Strategy S} {k : Prop} {rd : Reading} {scope : Scope}
variable {classes : ObjectId → Option ClassId} {env : Loadable → Value}
variable {rel : S → Fragment → S → Prop} {good : S → Prop} (h : st.Faithful k rd classes scope env rel good)
include h

theorem back_inOrder {s t : S} {fs : List Fragment} (hfs : InOrder rel s fs t) (hg : good t) :
    good s := by
  induction fs generalizing s with
  | nil => exact (hfs : s = t) ▸ hg
  | cons f fs ih =>
    obtain ⟨u, hf, hfs⟩ := hfs
    exact h.back hf (ih hfs)

/-- Operands that come to their values one after the other. -/
theorem turns_operands {s t : S} {os : List Operand} {es : List (Effect Value)} {σ : List Value}
    (hos : InOrder rel s (os.map Operand.code) t) (hes : List.Forall₂ (Operand.Comes k rd) os es)
    (hσ : rd.strict → os.any Operand.monitored → σ = []) :
    (st.operands os t).1.Turns k rd σ (fun vs ↦ vs.reverse ++ σ) (.each es) := by
  cases hes with
  | nil =>
    rw [h.noOperands]
    exact .empty _ rfl
  | cons ho hes =>
    refine h.operands hos (ho σ fun hs hm ↦ hσ hs ?_) hes hσ
    rw [List.any_cons, hm, Bool.true_or]

/-- Operands behind a receiver that is on the stack already. -/
theorem turns_behind {s t : S} {os : List Operand} {es : List (Effect Value)} {σ : List Value}
    (v : Value) (hos : InOrder rel s (os.map Operand.code) t)
    (hes : List.Forall₂ (Operand.Comes k rd) os es)
    (hσ : rd.strict → os.any Operand.monitored → σ = []) :
    (st.operands (.onStack :: os) t).1.Turns k rd (v :: σ) (fun vs ↦ vs.reverse ++ [v] ++ σ)
      (.each es) := by
  have hv := h.operands (o := .onStack) (e := pure v) ⟨s, h.plain s rfl, hos⟩ (.empty v rfl) hes hσ
  simp only [Effect.each, pure_bind] at hv
  have hof := Fragment.Turns.of_map (g := (v :: ·)) hv
  simp only [List.reverse_cons] at hof
  exact hof

end Strategy.Faithful

namespace Node

variable {k : Prop} {rd : Reading} {env : Loadable → Value}
variable {classes : ObjectId → Option ClassId} {allowed : Stop → Prop} {cx : BuildContext}

/-- What stands on the stack for a receiver: its value, or nothing for a type. -/
def pushed (receiver : Node) (v : Value) (σ : List Value) : List Value :=
  if receiver.isValue then v :: σ else σ

theorem pushed_of_isValue {n : Node} (h : n.isValue) (v : Value) (σ : List Value) :
    n.pushed v σ = v :: σ := if_pos h

theorem turns_getProperty {p : PropertyInfo} {v : Value} {σ : List Value}
    (h : p.flags.observable → ∀ o, v = .object o → rd.property o p.name = rd.value <$> rd.cell o p.name) :
    (Fragment.op (.getProperty p.name)).Turns k rd (v :: σ) (· :: σ) (rd.read p v) := by
  intro st
  have hden : (Fragment.op (.getProperty p.name)).den rd ⟨v :: σ, st⟩ =
      (⟨· :: σ, st⟩) <$> Effect.of (do rd.property (← v.receiver p.name) p.name) := by
    show ((⟨·, st⟩ : List Value → Config) <$> Effect.of (rd.simple (.getProperty p.name) (v :: σ))) >>=
      pure = _
    rw [bind_pure]
    simp only [Reading.simple]
    cases v.receiver p.name with
    | error e => rfl
    | ok o =>
      show (_ <$> Effect.of (_ <$> rd.property o p.name)) = _ <$> Effect.of (rd.property o p.name)
      cases rd.property o p.name <;> rfl
  have hread : rd.read p v = Effect.of (do rd.property (← v.receiver p.name) p.name) := by
    unfold Reading.read
    by_cases hobs : p.flags.observable
    · cases v with
      | object o =>
        show Effect.of (if p.flags.observable then _ else _) = Effect.of (rd.property o p.name)
        rw [if_pos hobs, h hobs o rfl]
      | _ => rfl
    · simp only [hobs]
      rfl
  rw [hden, hread]
  exact (Effect.Rel.map_left _ _).mono fun c v _ _ hc ↦ hc ▸ rfl

theorem any_monitored {S : Type} {st : Strategy S} (args : List Arg) (s : S) :
    (renderArgs st args s).1.any Operand.monitored = decide (0 < argReads args) := by
  induction args generalizing s with
  | nil => rfl
  | cons a rest ih =>
    obtain ⟨node, c⟩ := a
    have ih := ih (node.render st s).2
    show (decide (0 < node.monitoring) || (renderArgs st rest _).1.any Operand.monitored) = _
    rw [ih, ← Bool.decide_or]
    simp only [argReads, List.map_cons, List.sum_cons, Arg.node]
    exact decide_eq_decide.mpr (by omega)

theorem evalArgs_eq (args : List Arg) :
    evalArgs rd env args =
      .each (args.map fun a ↦ a.node.eval rd env >>= a.coercion.apply rd) := by
  induction args with
  | nil => rfl
  | cons a rest ih =>
    obtain ⟨node, c⟩ := a
    simp only [evalArgs, ih, List.map_cons, Effect.each]
    rfl

end Node

namespace Strategy.Faithful

open Node

variable {S : Type} {st : Strategy S} {k : Prop} {rd : Reading} {scope : Scope}
variable {classes : ObjectId → Option ClassId} {env : Loadable → Value}
variable {rel : S → Fragment → S → Prop} {good : S → Prop}
variable (h : st.Faithful k rd classes scope env rel good) {args : List Arg} {s : S} {σ : List Value}
variable (hplain : ∀ c ∈ argCoercions args, c.isPlain)
variable (hσ : rd.strict → 0 < argReads args → σ = [])
variable (hcomes : List.Forall₂ (Operand.Comes k rd) (renderArgs st args s).1
  (args.map fun a ↦ a.node.eval rd env >>= a.coercion.apply rd))
include h hplain hσ hcomes

theorem turns_args :
    (st.operands (renderArgs st args s).1 (renderArgs st args s).2).1.Turns k rd σ
      (fun vs ↦ vs.reverse ++ σ) (evalArgs rd env args) := by
  rw [evalArgs_eq]
  refine h.turns_operands (h.args args hplain s) hcomes fun hs hm ↦ hσ hs ?_
  rwa [any_monitored, decide_eq_true_eq] at hm

theorem turns_argsBehind (v : Value) :
    (st.operands (.onStack :: (renderArgs st args s).1) (renderArgs st args s).2).1.Turns k rd (v :: σ)
      (fun vs ↦ vs.reverse ++ [v] ++ σ) (evalArgs rd env args) := by
  rw [evalArgs_eq]
  refine h.turns_behind v (h.args args hplain s) hcomes fun hs hm ↦ hσ hs ?_
  rwa [any_monitored, decide_eq_true_eq] at hm

end Strategy.Faithful

namespace Node

variable {k : Prop} {rd : Reading} {env : Loadable → Value}
variable {classes : ObjectId → Option ClassId} {allowed : Stop → Prop} {cx : BuildContext}

section

variable (hrd : rd.Conforms classes allowed) (hm : cx.model = rd.registry.model)
variable (henv : TypedScope rd.registry classes cx.scope env)
variable {S : Type} {st : Strategy S} {rel : S → Fragment → S → Prop} {good : S → Prop}
variable (hst : st.Faithful k rd classes cx.scope env rel good)
include hrd hm henv

theorem turns_convert {n : Node} {c f : Fragment} {t : Ty} {ρ σ : List Value}
    (h : n.Resolved cx) (hv : n.isValue) (he : Settled allowed n.info.evaluable)
    (hc : c.Coerces rd.registry n.ty t)
    (hf : f.Turns k rd ρ (n.pushed · σ) (n.eval rd env)) :
    (f ++ c).Turns k rd ρ (· :: σ) (n.eval rd env >>= c.apply rd) := by
  refine hf.append fun v hr ↦ ?_
  rw [pushed_of_isValue hv]
  exact .of_coerces hrd hc ((yields_eval hrd hm henv n h hv he).1 v hr)

include hst

mutual

/-- The code of a node comes to its value. -/
theorem turns_node : (n : Node) → n.Resolved cx → Settled allowed n.info.evaluable → (s : S) →
    good (n.render st s).2 → (σ : List Value) → (rd.strict → 0 < n.monitoring → σ = []) →
    (n.render st s).1.Turns k rd σ (n.pushed · σ) (n.eval rd env)
  | literal info value, _, _, _, _, σ, _ => by
    intro store
    refine .of_ok (a := ⟨.ofLiteral value :: σ, store⟩) ?_ rfl rfl fun _ ↦ ?_ <;> cases value <;> rfl
  | scopeRead info (.bound l), h, _, _, hg, σ, _ => by
    obtain ⟨⟨name, hname⟩, -⟩ := h
    exact hst.loadScope hname hg σ
  | scopeRead info (.pending t), _, _, _, _, _, _ => fun _ ↦ .fail _
  | typeRef .., _, _, _, _, σ, _ => .empty _ rfl
  | access info receiver member, h, he, s, hg, σ, hσ => by
    obtain ⟨⟨hf, hmon, hev⟩, hr, hmem⟩ := h
    have he : Settled allowed (receiver.info.evaluable && memberEvaluable member) := hev ▸ he
    obtain ⟨her, hem⟩ := he.and
    replace hσ : rd.strict → 0 < receiver.monitoring + memberReads member → σ = [] := hmon ▸ hσ
    have hg' := hst.back (hst.member member (memberIsPlain member hf hmem) _) hg
    refine (turns_node receiver hr her s hg' σ fun hs hp ↦ hσ hs (by omega)).append fun v hv ↦ ?_
    exact turns_member member hf hmem hem _ hg σ (fun hs hp ↦ hσ hs (by omega)) v fun hval ↦
      (yields_eval hrd hm henv receiver hr hval her).1 v hv
  | construct info m args, h, he, s, hg, σ, hσ => by
    obtain ⟨⟨⟨owner, hc⟩, hp, hf⟩, ha⟩ := h
    have hev : info.evaluable = argsEvaluable args := congrArg Facts.evaluable hf
    have hmon : info.monitoring = argReads args := congrArg Facts.monitoring hf
    replace hσ : rd.strict → 0 < argReads args → σ = [] := hmon ▸ hσ
    rw [hm] at hc
    obtain ⟨hd, -, hs⟩ := Registry.mem_constructors hc
    rw [render_construct] at hg ⊢
    have hargs := hst.turns_args (argsIsPlain args hp ha) hσ
      (comes_args args hp ha (hev ▸ he) s (hst.operands_back hg))
    refine hargs.append fun vs hvs ↦ ?_
    have hvs := (yields_evalArgs hrd hm henv args hp ha (hev ▸ he)).1 vs hvs
    have hl := Reading.leaves_construct hrd hd hs hvs
    rw [show args.length = vs.length from hp.length_eq.trans hvs.length_eq]
    exact .of_leaves hl
  | binary info op (.mk left c) (.mk right c') plan, h, he, s, hg, σ, hσ => by
    have hplain := Resolved.isPlain _ h
    obtain ⟨⟨hplan, hmon, hev⟩, hl, hr⟩ := h
    have he : Settled allowed (left.info.evaluable && right.info.evaluable) := hev ▸ he
    obtain ⟨hel, her⟩ := he.and
    replace hσ : rd.strict → 0 < left.monitoring + right.monitoring → σ = [] := hmon ▸ hσ
    have hinl := hst.node left (fun d hd ↦ hplain d (by simp [coercions, hd]))
    have hinr := hst.node right (fun d hd ↦ hplain d (by simp [coercions, hd]))
    have hcp (s : S) := hst.plain s (hplain c (by simp [coercions]))
    have hcp' (s : S) := hst.plain s (hplain c' (by simp [coercions]))
    show Fragment.Turns _ _ _ _ (· :: σ) _
    unfold eval
    by_cases hp : plan = .shortCircuit
    · subst hp
      obtain ⟨hcl, hcr, -⟩ := hplan
      have hcl' := Coercion.coerces_of_coerce? (hm ▸ hcl.2)
      have hcr' := Coercion.coerces_of_coerce? (hm ▸ hcr.2)
      rw [render_shortCircuit] at hg ⊢
      simp only [if_pos]
      refine hst.shortCircuit (fun s ↦ hst.append (hinr s) (hcp' _)) hg
        (fun hs hp ↦ hσ hs (by have := of_decide_eq_true hp; omega)) (fun hg ↦ ?_) (fun a ha ↦ ?_)
        fun s hg ↦ ?_
      · exact turns_convert hrd hm henv hl hcl.1 hel hcl'
          (turns_node left hl hel s hg σ fun hs hp ↦ hσ hs (by omega))
      · exact Value.bool_of_prim?
          ((yields_apply hrd hm hcl (yields_eval hrd hm henv left hl hcl.1 hel)).1 a ha)
      · exact turns_convert hrd hm henv hr hcr.1 her hcr'
          (turns_node right hr her s hg σ fun hs hp ↦ hσ hs (by omega))
    · obtain ⟨t, u, hcl, hcr, hvl, hvr, hleaves⟩ := hplan.leaves hrd hp hm
      rw [render_binary _ _ _ _ _ _ _ _ hp] at hg ⊢
      simp only [if_neg hp]
      have hg₂ := hst.operands_back hg
      have hg₁ := hst.back (hinr _) hg₂
      have hleft : Operand.Comes k rd ⟨(left.render st s).1 ++ c, decide (0 < left.monitoring)⟩
          (left.eval rd env >>= c.apply rd) := fun σ hσ ↦
        turns_convert hrd hm henv hl hvl hel hcl
          (turns_node left hl hel s hg₁ σ fun hs hp ↦ hσ hs (decide_eq_true hp))
      have hright : Operand.Comes k rd ⟨(right.render st (left.render st s).2).1 ++ c',
          decide (0 < right.monitoring)⟩ (right.eval rd env >>= c'.apply rd) := fun σ hσ ↦
        turns_convert hrd hm henv hr hvr her hcr
          (turns_node right hr her _ hg₂ σ fun hs hp ↦ hσ hs (decide_eq_true hp))
      have hturns := @Strategy.Faithful.turns_operands _ _ _ _ _ _ _ _ _ hst _ _ [_, _] _ σ
        ⟨_, hst.append (hinl s) (hcp _), _, hst.append (hinr _) (hcp' _), rfl⟩
        (.cons hleft (.cons hright .nil)) fun hs hp ↦ hσ hs (by
          simp only [List.any_cons, List.any_nil, Bool.or_false, Bool.or_eq_true,
            decide_eq_true_eq] at hp
          omega)
      have heval : (do
          let a ← left.eval rd env >>= c.apply rd
          let b ← right.eval rd env >>= c'.apply rd
          rd.result (plan.ops op) [b, a]) =
          Effect.each [left.eval rd env >>= c.apply rd, right.eval rd env >>= c'.apply rd] >>=
            fun vs ↦ rd.result (plan.ops op) vs.reverse := by
        simp [Effect.each]
      rw [heval]
      refine hturns.append fun vs hvs ↦ ?_
      obtain ⟨a, b, ha, hb, rfl⟩ := Effect.each_two_eq_ok hvs
      refine .of_leaves (hleaves a b ?_ ?_)
      · exact ((yields_eval hrd hm henv left hl hvl hel).bindEffect fun _ hv ↦
          (hcl.sound hrd hv).2).1 a ha
      · exact ((yields_eval hrd hm henv right hr hvr her).bindEffect fun _ hv ↦
          (hcr.sound hrd hv).2).1 b hb
  | unary info op (.mk operand c) kind, h, he, s, hg, σ, hσ => by
    obtain ⟨hf, ho⟩ := h
    have hc := hf.2.2.2.1
    have hev : info.evaluable = operand.info.evaluable := hf.2.1
    have he : Settled allowed operand.info.evaluable := hev ▸ he
    have hmon : info.monitoring = operand.monitoring := hf.1
    have hc' := Coercion.coerces_of_coerce? (hm ▸ hc.2)
    refine (turns_convert hrd hm henv ho hc.1 he hc'
      (turns_node operand ho he s hg σ (hmon ▸ hσ))).append fun a ha ↦ ?_
    have ha := (yields_apply hrd hm hc (yields_eval hrd hm henv operand ho hc.1 he)).1 a ha
    exact .of_leaves (hf.unary_leaves hrd ha)

theorem turns_member {receiver : Node} {ty : Ty} : (m : Member) →
    MemberFits cx receiver ty m → memberForall (Fits cx) m → Settled allowed (memberEvaluable m) → (s : S) →
    good (renderMember st m s).2 → (σ : List Value) → (rd.strict → 0 < memberReads m → σ = []) →
    (v : Value) → (receiver.isValue → rd.registry.HasTy classes receiver.ty v) →
    (renderMember st m s).1.Turns k rd (receiver.pushed v σ) (· :: σ) (evalMember rd env v m)
  | .property p, hf, _, _, s, _, σ, hσ, v, hv => by
    obtain ⟨hr, ⟨name, hp⟩, rfl⟩ := hf
    rw [hm] at hp
    rw [pushed_of_isValue hr, renderMember_property]
    split
    · next hobs => exact hst.observe s hp (hv hr) hobs fun hs ↦ hσ hs (by simp [memberReads, hobs])
    · next hobs => exact turns_getProperty fun h ↦ absurd h hobs
  | .staticField f, hf, _, _, _, _, σ, _, v, _ => by
    obtain ⟨_, owner, name, rfl, hfield, rfl⟩ := hf
    rw [hm] at hfield
    exact .of_leaves (Reading.leaves_typed hrd (.getStatic hfield) .nil)
  | .method m args, hf, h, he, s, hg, σ, hσ, v, hv => by
    obtain ⟨hr, ⟨name, hmem⟩, hp, rfl⟩ := hf
    rw [hm] at hmem
    obtain ⟨hd, ho, -, hs⟩ := Registry.mem_methods hmem
    rw [pushed_of_isValue hr]
    rw [renderMember_method] at hg ⊢
    have hargs := hst.turns_argsBehind (argsIsPlain args hp h) hσ
      (comes_args args hp h he s (hst.operands_back hg)) v
    refine hargs.append fun vs hvs ↦ ?_
    have hvs := (yields_evalArgs hrd hm henv args hp h he).1 vs hvs
    rw [show args.length = vs.length from hp.length_eq.trans hvs.length_eq]
    exact .of_leaves (Reading.leaves_invoke hrd hd hs
      ((hv hr).assign (Registry.isAssignable_of_mem_lineage ho)) hvs)
  | .staticCall m args, hf, h, he, s, hg, σ, hσ, v, _ => by
    obtain ⟨_, owner, name, rfl, hmem, hp, rfl⟩ := hf
    rw [hm] at hmem
    obtain ⟨hd, -, hs⟩ := Registry.mem_staticMethods hmem
    rw [renderMember_staticCall] at hg ⊢
    have hargs := hst.turns_args (argsIsPlain args hp h) hσ
      (comes_args args hp h he s (hst.operands_back hg))
    refine hargs.append fun vs hvs ↦ ?_
    have hvs := (yields_evalArgs hrd hm henv args hp h he).1 vs hvs
    rw [show args.length = vs.length from hp.length_eq.trans hvs.length_eq]
    exact .of_leaves (Reading.leaves_invokeStatic hrd hd hs hvs)
  | .index (.mk node c) reading, hf, h, he, s, hg, σ, hσ, v, hv => by
    obtain ⟨hr, t, hc, hleaves⟩ := MemberFits.index_leaves hrd hm hf hv
    rw [pushed_of_isValue hr]
    rw [renderMember_index] at hg ⊢
    have hc' := Coercion.coerces_of_coerce? (hm ▸ hc.2)
    have hg' := hst.operands_back hg
    have hcomes : Operand.Comes k rd ⟨(node.render st s).1 ++ c, decide (0 < node.monitoring)⟩
        (node.eval rd env >>= c.apply rd) := fun σ hσ ↦
      turns_convert hrd hm henv h hc.1 he hc'
        (turns_node node h he s hg' σ fun hs hp ↦ hσ hs (decide_eq_true hp))
    have hin : rel s ((node.render st s).1 ++ c) (node.render st s).2 :=
      hst.append (hst.node node (Resolved.isPlain node h) s) (hst.plain _ hc.isPlain)
    have hturns := @Strategy.Faithful.turns_behind _ _ _ _ _ _ _ _ _ hst _ _ [_] _ σ v
      ⟨_, hin, rfl⟩ (.cons hcomes .nil)
      fun hs hp ↦ hσ hs (by simpa [memberReads, Arg.node] using hp)
    have heval : evalMember rd env v (.index (.mk node c) reading) =
        Effect.each [node.eval rd env >>= c.apply rd] >>= fun vs ↦
          rd.result [reading.op] (vs.reverse ++ [v]) := by
      simp [evalMember, Effect.each]
    rw [heval]
    refine hturns.append fun vs hvs ↦ ?_
    obtain ⟨i, hi, rfl⟩ := Effect.each_one_eq_ok hvs
    exact .of_leaves (hleaves i ((yields_apply hrd hm hc (yields_eval hrd hm henv node h hc.1 he)).1 i hi))

theorem comes_args {params : List Ty} : (args : List Arg) →
    List.Forall₂ (fun a ty ↦ Converts cx a ty ∧ a.node.ty ≠ .void) args params →
    argsForall (Fits cx) args → Settled allowed (argsEvaluable args) → (s : S) →
    good (renderArgs st args s).2 →
    List.Forall₂ (Operand.Comes k rd) (renderArgs st args s).1
      (args.map fun a ↦ a.node.eval rd env >>= a.coercion.apply rd)
  | [], _, _, _, _, _ => .nil
  | .mk node c :: rest, hp, h, he, s, hg => by
    obtain ⟨param, params, ⟨hc, -⟩, hrest, rfl⟩ := List.forall₂_cons_left_iff.mp hp
    rw [argsEvaluable, List.all_cons] at he
    replace he := he.and
    have hc' := Coercion.coerces_of_coerce? (hm ▸ hc.2)
    have hplain := argsIsPlain rest hrest h.2
    have hg' : good (node.render st s).2 := hst.back_inOrder (hst.args rest hplain _) hg
    refine .cons (fun σ hσ ↦ ?_) (comes_args rest hrest h.2 he.2 _ hg)
    exact turns_convert hrd hm henv h.1 hc.1 he.1 hc'
      (turns_node node h.1 he.1 s hg' σ fun hs hp ↦ hσ hs (decide_eq_true hp))

end

end

end Node

end LiveBinding
