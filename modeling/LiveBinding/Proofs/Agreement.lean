import LiveBinding.Proofs.Meaning

namespace LiveBinding

/-- Reads a place: a local, a capture, a slot, a property or a cell. -/
def Op.readsPlace : Op → Bool
  | .loadLocal _ | .loadCapture _ | .loadScratch _ | .storeScratch _ | .getProperty _
  | .getObservable _ | .observableValue => true
  | _ => false

/-- Two readings of the same host give the same for everything that is of a declared type. They may
differ in the locals and captures, and in what they make of cells. -/
structure Reading.Agrees (rd rd' : Reading) (classes : ObjectId → Option ClassId) : Prop where
  registry : rd'.registry = rd.registry
  text : ∀ v, v.isCell = false → rd'.text v = rd.text v
  cell : rd'.cell = rd.cell
  value : rd'.value = rd.value
  plain : ∀ o d c name p, classes o = some d → rd.registry.model.isSubclass d c →
    rd.registry.model.property (.class c) name = some p → p.flags.observable = false →
    rd'.property o p.name = rd.property o p.name
  answer : ∀ m args, (∀ v ∈ args, v.isCell = false) → rd'.answer m args = rd.answer m args

theorem Effect.bind_congr_of {α β : Type} {x : Effect α} {f g : α → Effect β}
    (h : ∀ a, x.result = .ok a → f a = g a) : x >>= f = x >>= g := by
  cases hx : x.result with
  | error e => rw [bind_of_error f hx, bind_of_error g hx]
  | ok a => rw [bind_of_ok f hx, bind_of_ok g hx, h a hx]

theorem Registry.HasTy.isCell_of_forall₂ {r : Registry} {classes : ObjectId → Option ClassId}
    {ts : List Ty} {vs : List Value} (h : List.Forall₂ (r.HasTy classes) ts vs) :
    ∀ v ∈ vs, v.isCell = false := by
  induction h with
  | nil => exact fun _ h ↦ nomatch h
  | cons hv _ ih => exact List.forall_mem_cons.mpr ⟨hv.isCell, ih⟩

namespace Reading.Agrees

variable {rd rd' : Reading} {classes : ObjectId → Option ClassId} (ha : rd.Agrees rd' classes)
include ha

theorem simple_eq {op : Op} (hop : op.readsPlace = false) {σ : List Value}
    (hσ : ∀ v ∈ σ, v.isCell = false) : rd'.simple op σ = rd.simple op σ := by
  cases op with
  | loadLocal | loadCapture | loadScratch | storeScratch | getProperty | getObservable
  | observableValue => cases hop
  | getStatic f =>
    simp only [simple, ha.registry]
  | concat =>
    rcases σ with _ | ⟨b, _ | ⟨a, σ⟩⟩
    · rfl
    · rfl
    · simp only [simple, ha.text a (hσ a (by simp)), ha.text b (hσ b (by simp))]
  | toStr =>
    rcases σ with _ | ⟨a, σ⟩
    · rfl
    · simp only [simple, ha.text a (hσ a (by simp))]
  | enumValueOf c =>
    rcases σ with _ | ⟨a, σ⟩
    · rfl
    · simp only [simple, ha.registry]
  | _ => rcases σ with _ | ⟨a, _ | ⟨b, σ⟩⟩ <;> rfl

theorem call_eq (m : MethodId) {args : List Value} (hargs : ∀ v ∈ args, v.isCell = false) :
    rd'.call m args = rd.call m args := by
  rw [call, call, ha.answer m args hargs]

theorem op_eq {op : Op} (hop : op.readsPlace = false) {σ : List Value}
    (hσ : ∀ v ∈ σ, v.isCell = false) : rd'.op op σ = rd.op op σ := by
  have htake (n : Nat) : ∀ v ∈ (σ.take n).reverse, v.isCell = false := fun v hv ↦
    hσ v (List.mem_of_mem_take (List.mem_reverse.mp hv))
  cases op with
  | invoke m argc =>
    simp only [Reading.op, ha.registry]
    split
    · rfl
    · cases hd : σ.drop argc with
      | nil => rfl
      | cons v rest =>
        have hv : v.isCell = false := hσ v (List.mem_of_mem_drop (hd ▸ List.mem_cons_self))
        dsimp only
        rw [ha.call_eq m (List.forall_mem_cons.mpr ⟨hv, htake argc⟩)]
  | invokeStatic m argc | construct m argc =>
    simp only [Reading.op]
    rw [ha.call_eq m (htake argc)]
  | _ => exact congrArg Effect.of (ha.simple_eq hop hσ)

theorem ordinary_eq {op : Op} (hop : op.readsPlace = false) {c : Config}
    (hσ : ∀ v ∈ c.stack, v.isCell = false) : rd'.ordinary op c = rd.ordinary op c := by
  have hl (n : Nat) : op ≠ .loadScratch n := fun h ↦ by rw [h] at hop; cases hop
  have hs (n : Nat) : op ≠ .storeScratch n := fun h ↦ by rw [h] at hop; cases hop
  rw [Reading.ordinary_eq hl hs, Reading.ordinary_eq hl hs, ha.op_eq hop hσ]

/-- An instruction on operands that are no cells. -/
theorem result_eq {op : Op} (hop : op.readsPlace = false) {vs : List Value}
    (hvs : ∀ v ∈ vs, v.isCell = false) : rd'.result [op] vs = rd.result [op] vs := by
  simp only [result, Reading.all, ha.ordinary_eq hop (c := ⟨vs, _⟩) hvs]

theorem result_plan (plan : Plan) (op : BinaryOp) {a b : Value} (hv : a.isCell = false)
    (hv' : b.isCell = false) : rd'.result (plan.ops op) [b, a] = rd.result (plan.ops op) [b, a] := by
  have hvs : ∀ v ∈ [b, a], v.isCell = false := by simp [hv, hv']
  cases plan with
  | arithmetic | compare | concat => exact ha.result_eq rfl hvs
  | refEquality =>
    simp only [Plan.ops]
    split <;> rfl
  | shortCircuit => rfl

end Reading.Agrees

theorem Op.Typed.readsPlace {r : Registry} {op : Op} {ins : List Ty} {out : Ty}
    (h : Op.Typed r op ins out) : op.readsPlace = false := by
  cases h with
  | parse p => cases p <;> rfl
  | _ => rfl

namespace Reading.Agrees

variable {rd rd' : Reading} {classes : ObjectId → Option ClassId} {allowed : Stop → Prop}
variable (hrd : rd.Conforms classes allowed) (ha : rd.Agrees rd' classes)
include hrd ha

/-- The conversion of a value that is of its type. -/
theorem all_chain {list : List Op} {s t : Ty} (h : Op.Chain rd.registry list s t) {v : Value}
    (hv : rd.registry.HasTy classes s v) (st : Store) :
    rd'.all list ⟨[v], st⟩ = rd.all list ⟨[v], st⟩ := by
  have hstack {v : Value} {s : Ty} (hv : rd.registry.HasTy classes s v) :
      ∀ u ∈ (⟨[v], st⟩ : Config).stack, u.isCell = false := by
    simpa using hv.isCell
  -- one instruction leaves a value that is of its type again
  have hstep {op : Op} {v : Value} {P : Value → Prop} {ops : List Op} (hop : op.readsPlace = false)
      (hv : v.isCell = false) (hl : rd.Leaves [op] [v] P allowed)
      (hrest : ∀ u, P u → rd'.all ops ⟨[u], st⟩ = rd.all ops ⟨[u], st⟩) :
      rd'.all (op :: ops) ⟨[v], st⟩ = rd.all (op :: ops) ⟨[v], st⟩ := by
    have hall : rd.ordinary op ⟨[v], st⟩ = (⟨[·], st⟩) <$> rd.result [op] [v] := by
      have h := hl.all_eq [] st
      rw [Reading.all, show rd.all [] = pure from rfl, bind_pure] at h
      exact h
    rw [Reading.all, Reading.all, ha.ordinary_eq hop (c := ⟨[v], st⟩) (by simpa using hv), hall,
      bind_map_left, bind_map_left]
    exact Effect.bind_congr_of fun u hu ↦ hrest u (hl.yields.1 u hu)
  induction h generalizing v with
  | nil => rfl
  | op hop _ ih =>
    exact hstep hop.readsPlace hv.isCell (Reading.leaves_typed hrd hop (.cons hv .nil)) fun _ ↦ ih
  | @call m _ _ _ hd hs hp _ ih =>
    have hargs : List.Forall₂ (rd.registry.HasTy classes) m.params [v] := hp ▸ .cons hv .nil
    exact hstep rfl hv.isCell (Reading.leaves_invokeStatic hrd hd hs hargs) fun _ ↦ ih

theorem all_source {list : List Op} {t : Ty} (h : Op.Source rd.registry list t) (st : Store) :
    rd'.all list ⟨[], st⟩ = rd.all list ⟨[], st⟩ := by
  obtain ⟨hop, hc⟩ := h
  have hl := Reading.leaves_typed hrd hop .nil
  have hall := hl.all_eq [] st
  rw [Reading.all, show rd.all [] = pure from rfl, bind_pure] at hall
  rw [Reading.all, Reading.all, ha.ordinary_eq hop.readsPlace (c := ⟨[], st⟩) (by simp),
    show rd.ordinary _ ⟨[], st⟩ = _ from hall, bind_map_left, bind_map_left]
  exact Effect.bind_congr_of fun u hu ↦ all_chain hrd ha hc (hl.yields.1 u hu) st

theorem apply_eq {c : Fragment} {s t : Ty} (h : c.Coerces rd.registry s t) {v : Value}
    (hv : rd.registry.HasTy classes s v) : c.apply rd' v = c.apply rd v := by
  unfold Fragment.apply
  cases h with
  | ops hc => exact congrArg _ (all_chain hrd ha hc hv _)
  | ofNull hs => exact congrArg _ (all_source hrd ha hs _)
  | guarded hc hs =>
    simp only [Fragment.den]
    split
    · exact congrArg _ (all_source hrd ha hs _)
    · exact congrArg _ (all_chain hrd ha hc hv _)

omit hrd in
theorem read_eq {t : Ty} {v : Value} {name : String} {p : PropertyInfo}
    (hp : rd.registry.model.property t name = some p) (hv : rd.registry.HasTy classes t v) :
    rd'.read p v = rd.read p v := by
  obtain ⟨c, rfl⟩ := Registry.property_class hp
  unfold Reading.read
  rw [ha.cell, ha.value]
  by_cases hobs : p.flags.observable
  · simp only [hobs, if_true]
  rcases hv with rfl | ⟨o, d, rfl, ho, hc⟩ | ⟨d, e, rfl, -⟩
  · rfl
  · simp only [hobs, Value.receiver, bind, Except.bind]
    rw [if_neg (by simp), if_neg (by simp), ha.plain o d c name p ho hc hp (by simpa using hobs)]
  · rfl

end Reading.Agrees

namespace Node

variable {rd rd' : Reading} {env : Loadable → Value} {classes : ObjectId → Option ClassId}
variable {allowed : Stop → Prop} {cx : BuildContext}
variable (hrd : rd.Conforms classes allowed) (ha : rd.Agrees rd' classes)
variable (hm : cx.model = rd.registry.model) (henv : TypedScope rd.registry classes cx.scope env)
include hrd ha

theorem bind_apply_eq {n : Node} {c : Fragment} {t : Ty} (hc : c.Coerces rd.registry n.ty t)
    (hn : Yields (rd.registry.HasTy classes n.ty) allowed (n.eval rd env).result)
    (heq : n.eval rd' env = n.eval rd env) :
    (n.eval rd' env >>= c.apply rd') = n.eval rd env >>= c.apply rd := by
  rw [heq]
  exact Effect.bind_congr_of fun v hv ↦ ha.apply_eq hrd hc (hn.1 v hv)

include hm henv

set_option linter.unusedSectionVars false

mutual

/-- The value of a node is the same in every reading of the host. -/
theorem eval_eq : (n : Node) → n.Resolved cx → Settled allowed n.info.evaluable →
    n.eval rd' env = n.eval rd env
  | literal .., _, _ => rfl
  | scopeRead _ (.bound _), _, _ => rfl
  | scopeRead _ (.pending _), _, _ => rfl
  | typeRef .., _, _ => rfl
  | access info receiver member, h, he => by
    obtain ⟨⟨hf, -, hev⟩, hr, hmem⟩ := h
    have he : Settled allowed (receiver.info.evaluable && memberEvaluable member) := hev ▸ he
    obtain ⟨her, hem⟩ := he.and
    unfold eval
    rw [eval_eq receiver hr her]
    refine Effect.bind_congr_of fun v hv ↦ evalMember_eq member hf hmem hem fun hval ↦ ?_
    exact (yields_eval hrd hm henv receiver hr hval her).1 v hv
  | construct info m args, h, he => by
    obtain ⟨⟨-, hp, hf⟩, hargs⟩ := h
    have hev : info.evaluable = argsEvaluable args := congrArg Facts.evaluable hf
    have he : Settled allowed (argsEvaluable args) := hev ▸ he
    unfold eval
    rw [evalArgs_congr args hp hargs he]
    refine Effect.bind_congr_of fun vs hvs ↦ ha.result_eq rfl fun v hv ↦ ?_
    have hvs := (yields_evalArgs hrd hm henv args hp hargs he).1 vs hvs
    exact Registry.HasTy.isCell_of_forall₂ hvs v (List.mem_reverse.mp hv)
  | binary info op (.mk left c) (.mk right c') plan, h, he => by
    obtain ⟨⟨hplan, -, hev⟩, hl, hr⟩ := h
    have he : Settled allowed (left.info.evaluable && right.info.evaluable) := hev ▸ he
    obtain ⟨hel, her⟩ := he.and
    unfold eval
    by_cases hp : plan = .shortCircuit
    · subst hp
      obtain ⟨hcl, hcr, -⟩ := hplan
      have hl' := bind_apply_eq (n := left) (c := c) hrd ha (Coercion.coerces_of_coerce? (hm ▸ hcl.2))
        (yields_eval hrd hm henv left hl hcl.1 hel) (eval_eq left hl hel)
      have hr' := bind_apply_eq (n := right) (c := c') hrd ha (Coercion.coerces_of_coerce? (hm ▸ hcr.2))
        (yields_eval hrd hm henv right hr hcr.1 her) (eval_eq right hr her)
      rw [hl']
      simp only [if_true, hr']
    · obtain ⟨s, t, hcl, hcr, hvl, hvr, -⟩ := hplan.leaves hrd hp hm
      have hyl := yields_eval hrd hm henv left hl hvl hel
      have hyr := yields_eval hrd hm henv right hr hvr her
      rw [bind_apply_eq (n := left) (c := c) hrd ha hcl hyl (eval_eq left hl hel)]
      simp only [if_neg hp]
      rw [bind_apply_eq (n := right) (c := c') hrd ha hcr hyr (eval_eq right hr her)]
      refine Effect.bind_congr_of fun a ha' ↦ Effect.bind_congr_of fun b hb ↦ ha.result_plan plan op ?_ ?_
      · exact ((hyl.bindEffect fun _ hv ↦ (hcl.sound hrd hv).2).1 a ha').isCell
      · exact ((hyr.bindEffect fun _ hv ↦ (hcr.sound hrd hv).2).1 b hb).isCell
  | unary info op (.mk operand c) kind, h, he => by
    obtain ⟨hf, ho⟩ := h
    have hc := hf.2.2.2.1
    have hev : info.evaluable = operand.info.evaluable := hf.2.1
    have he : Settled allowed operand.info.evaluable := hev ▸ he
    have hy := yields_eval hrd hm henv operand ho hc.1 he
    unfold eval
    rw [bind_apply_eq (n := operand) (c := c) hrd ha (Coercion.coerces_of_coerce? (hm ▸ hc.2)) hy
      (eval_eq operand ho he)]
    refine Effect.bind_congr_of fun a ha' ↦ ha.result_eq (by cases op <;> rfl) ?_
    simpa using ((yields_apply hrd hm hc hy).1 a ha').isCell

theorem evalMember_eq {receiver : Node} {ty : Ty} {v : Value} : (m : Member) →
    MemberFits cx receiver ty m → memberForall (Fits cx) m → Settled allowed (memberEvaluable m) →
    (receiver.isValue → rd.registry.HasTy classes receiver.ty v) →
    evalMember rd' env v m = evalMember rd env v m
  | .property p, hf, _, _, hv => by
    obtain ⟨hr, ⟨name, hp⟩, -⟩ := hf
    rw [hm] at hp
    exact ha.read_eq hp (hv hr)
  | .staticField f, _, _, _, _ => ha.result_eq rfl (by simp)
  | .method m args, hf, h, he, hv => by
    obtain ⟨hr, -, hp, -⟩ := hf
    unfold evalMember
    rw [evalArgs_congr args hp h he]
    refine Effect.bind_congr_of fun vs hvs ↦ ha.result_eq rfl fun u hu ↦ ?_
    have hvs := (yields_evalArgs hrd hm henv args hp h he).1 vs hvs
    rcases List.mem_append.mp hu with hu | hu
    · exact Registry.HasTy.isCell_of_forall₂ hvs u (List.mem_reverse.mp hu)
    · rw [List.mem_singleton.mp hu]
      exact (hv hr).isCell
  | .staticCall m args, hf, h, he, _ => by
    obtain ⟨_, _, _, -, -, hp, -⟩ := hf
    unfold evalMember
    rw [evalArgs_congr args hp h he]
    refine Effect.bind_congr_of fun vs hvs ↦ ha.result_eq rfl fun u hu ↦ ?_
    have hvs := (yields_evalArgs hrd hm henv args hp h he).1 vs hvs
    exact Registry.HasTy.isCell_of_forall₂ hvs u (List.mem_reverse.mp hu)
  | .index (.mk node c) reading, hf, h, he, hv => by
    obtain ⟨hr, t, hc, -⟩ := MemberFits.index_leaves hrd hm hf hv
    have hy := yields_eval hrd hm henv node h hc.1 he
    unfold evalMember
    rw [bind_apply_eq (n := node) (c := c) hrd ha (Coercion.coerces_of_coerce? (hm ▸ hc.2)) hy
      (eval_eq node h he)]
    refine Effect.bind_congr_of fun i hi ↦ ha.result_eq (by cases reading <;> rfl) ?_
    simp only [List.mem_cons, List.not_mem_nil, or_false, forall_eq_or_imp, forall_eq]
    exact ⟨((yields_apply hrd hm hc hy).1 i hi).isCell, (hv hr).isCell⟩

theorem evalArgs_congr {params : List Ty} : (args : List Arg) →
    List.Forall₂ (fun a ty ↦ Converts cx a ty ∧ a.node.ty ≠ .void) args params →
    argsForall (Fits cx) args → Settled allowed (argsEvaluable args) →
    evalArgs rd' env args = evalArgs rd env args
  | [], _, _, _ => rfl
  | .mk node c :: rest, hp, h, he => by
    obtain ⟨param, params, ⟨hc, -⟩, hrest, rfl⟩ := List.forall₂_cons_left_iff.mp hp
    rw [argsEvaluable, List.all_cons] at he
    replace he := he.and
    unfold evalArgs
    rw [bind_apply_eq (n := node) (c := c) hrd ha (Coercion.coerces_of_coerce? (hm ▸ hc.2))
      (yields_eval hrd hm henv node h.1 hc.1 he.1) (eval_eq node h.1 he.1),
      evalArgs_congr rest hrest h.2 he.2]

end

end Node

end LiveBinding
