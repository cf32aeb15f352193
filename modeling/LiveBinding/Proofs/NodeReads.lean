import LiveBinding.Proofs.Reads

namespace LiveBinding

open Fragment

/-- Reads a property by its name. -/
def Op.readsProperty : Op → Bool
  | .getProperty _ => true
  | _ => false

theorem Op.readsProperty_of_readsPlace {op : Op} (h : op.readsPlace = false) :
    op.readsProperty = false := by
  cases op <;> first | rfl | exact h

theorem Op.Chain.readsProperty {r : Registry} {list : List Op} {s t : Ty} (h : Chain r list s t) :
    ∀ op ∈ list, op.readsProperty = false := by
  induction h with
  | nil => simp
  | op hop _ ih => exact List.forall_mem_cons.mpr ⟨readsProperty_of_readsPlace hop.readsPlace, ih⟩
  | call _ _ _ _ ih => exact List.forall_mem_cons.mpr ⟨rfl, ih⟩

theorem Op.Source.readsProperty {r : Registry} {list : List Op} {t : Ty} (h : Source r list t) :
    ∀ op ∈ list, op.readsProperty = false := by
  obtain ⟨hop, hc⟩ := h
  exact List.forall_mem_cons.mpr
    ⟨readsProperty_of_readsPlace hop.readsPlace, hc.readsProperty⟩

theorem Reading.cellRead_eq_none (rd : Reading) {op : Op} (h : op.readsProperty = false) (σ : List Value) :
    rd.cellRead op σ = none := by
  cases op <;> first | rfl | exact nomatch h

namespace Fragment

/-- Reads no property. -/
def isBlind : Fragment → Bool
  | ops list => list.all fun op ↦ !op.readsProperty
  | append f g | nullGuard f g | shortCircuit _ f g | branch _ f g .. => f.isBlind && g.isBlind
  | flagTest _ | flagAssign .. => true
  | observe .. => false

/-- Code that starts on the stack `ρ` reads some cells, whatever is stored. -/
def Reads (rd : Reading) (f : Fragment) (ρ : List Value) (cells : List CellId) : Prop :=
  ∀ st, f.cellsRead rd ⟨ρ, st⟩ = cells

namespace Reads

variable {α : Type} {k : Prop} {rd : Reading} {f g : Fragment} {ρ : List Value}

theorem of_isBlind (h : f.isBlind) (ρ : List Value) : f.Reads rd ρ [] := by
  intro st
  generalize (⟨ρ, st⟩ : Config) = c
  induction f generalizing c with
  | ops list =>
    induction list generalizing c with
    | nil => rfl
    | cons op list ih =>
      simp only [isBlind, List.all_cons, Bool.and_eq_true, Bool.not_eq_true'] at h ih
      simp only [cellsRead, Reading.cellsRead, Reading.cellRead_eq_none rd h.1, Option.toList_none,
        List.nil_append]
      exact (Effect.after_congr fun c _ ↦ ih h.2 c).trans Effect.after_nil
  | append f g ih ih' =>
    rw [isBlind, Bool.and_eq_true] at h
    rw [cellsRead, ih h.1, Effect.after_congr fun c _ ↦ ih' h.2 c, Effect.after_nil, List.nil_append]
  | nullGuard f g ih ih' =>
    rw [isBlind, Bool.and_eq_true] at h
    obtain ⟨_ | ⟨v, σ⟩, st⟩ := c
    · rfl
    · rw [cellsRead, ih h.1, ih' h.2, ite_self]
  | shortCircuit op f g ih ih' | branch op f g _ _ _ ih ih' =>
    rw [isBlind, Bool.and_eq_true] at h
    rw [cellsRead, ih h.1, List.nil_append]
    refine (Effect.after_congr fun c _ ↦ ?_).trans Effect.after_nil
    obtain ⟨_ | ⟨v, σ⟩, st⟩ := c
    · rfl
    · simp only [Config.readsBehind, ih' h.2, ite_self, Effect.after_nil]
  | flagTest | flagAssign => rfl
  | observe => cases h

theorem append {τ : α → List Value} {e : Effect α} {cells : List CellId} {behind : α → List CellId}
    (hf : f.Reads rd ρ cells) (ht : f.Turns k rd ρ τ e)
    (hg : ∀ a, e.result = .ok a → g.Reads rd (τ a) (behind a)) :
    (f ++ g).Reads rd ρ (cells ++ e.after behind) := by
  intro st
  show f.cellsRead rd ⟨ρ, st⟩ ++ (f.den rd ⟨ρ, st⟩).after (g.cellsRead rd) = _
  rw [hf st, (ht st).after fun c a _ ha hc ↦ ?_]
  obtain ⟨σ, st'⟩ := c
  obtain rfl : σ = τ a := hc
  exact hg a ha st'

theorem append_isBlind {cells : List CellId} (hf : f.Reads rd ρ cells) (hg : g.isBlind) :
    (f ++ g).Reads rd ρ cells := by
  intro st
  show f.cellsRead rd ⟨ρ, st⟩ ++ (f.den rd ⟨ρ, st⟩).after (g.cellsRead rd) = _
  rw [hf st, Effect.after_congr fun c _ ↦ of_isBlind hg c.stack c.store, Effect.after_nil, List.append_nil]

/-- The left operand of `&&` or `||`, which decides or is followed by the right one. -/
theorem decide {op : BinaryOp} {e : Effect Value} {cells cells' : List CellId}
    {undecided : Config → List CellId} (hf : f.Reads rd ρ cells) (ht : f.Turns k rd ρ (· :: ρ) e)
    (hu : ∀ st, undecided ⟨ρ, st⟩ = cells') (st : Store) :
    f.cellsRead rd ⟨ρ, st⟩ ++ (f.den rd ⟨ρ, st⟩).after (Config.readsBehind op undecided) =
      cells ++ e.after fun a ↦ (Effect.of (Stop.raise a.toBool)).after fun b ↦
        if op.skips b then [] else cells' := by
  rw [hf st, (ht st).after fun c a _ _ hc ↦ ?_]
  obtain ⟨τ, st'⟩ := c
  obtain rfl : τ = a :: ρ := hc
  simp only [Config.readsBehind, hu]

end Reads

theorem isBlind_ops {list : List Op} (h : ∀ op ∈ list, op.readsProperty = false) : (ops list).isBlind := by
  simpa [isBlind] using h

/-- Conversions read no property. -/
theorem Coerces.isBlind {r : Registry} {c : Fragment} {s t : Ty} (h : c.Coerces r s t) : c.isBlind := by
  cases h with
  | ops hc => exact isBlind_ops hc.readsProperty
  | ofNull hs => exact isBlind_ops (List.forall_mem_cons.mpr ⟨rfl, hs.readsProperty⟩)
  | guarded hc hs =>
    exact Bool.and_eq_true_iff.mpr
      ⟨isBlind_ops hc.readsProperty, isBlind_ops hs.readsProperty⟩

end Fragment

/-- What is read by computations one after the other, each of them given with what it reads. -/
def Effect.gather {α β : Type} : List (Effect α × List β) → List β
  | [] => []
  | (e, bs) :: rest => bs ++ e.after fun _ ↦ gather rest

theorem Effect.gather_one {α β : Type} (e : Effect α) (bs : List β) : gather [(e, bs)] = bs := by
  simp only [gather, after_nil, List.append_nil]

namespace Node

variable (rd : Reading) (env : Loadable → Value)

mutual

/-- The cells that evaluating a node reads through observable properties, in order. -/
def cellsRead : Node → List CellId
  | literal .. | scopeRead .. | typeRef .. => []
  | access _ receiver member =>
    cellsRead receiver ++ (receiver.eval rd env).after fun v ↦ memberCells v member
  | construct _ _ args => Effect.gather (argsCells args)
  | binary _ op (.mk left c) (.mk right c') plan =>
    if plan = .shortCircuit then
      cellsRead left ++ (left.eval rd env >>= c.apply rd).after fun a ↦
        (Effect.of (Stop.raise a.toBool)).after fun b ↦ if op.skips b then [] else cellsRead right
    else
      Effect.gather [(left.eval rd env >>= c.apply rd, cellsRead left),
        (right.eval rd env >>= c'.apply rd, cellsRead right)]
  | unary _ _ (.mk operand _) _ => cellsRead operand

/-- The cells that a member of a receiver reads. -/
def memberCells (v : Value) : Member → List CellId
  | .property p => (rd.cellRead (.getProperty p.name) [v]).toList
  | .staticField _ => []
  | .method _ args | .staticCall _ args => Effect.gather (argsCells args)
  | .index (.mk node _) _ => cellsRead node

/-- The values of arguments, each with what it reads. -/
def argsCells : List Arg → List (Effect Value × List CellId)
  | [] => []
  | .mk node c :: rest => (node.eval rd env >>= c.apply rd, cellsRead node) :: argsCells rest

end

end Node

/-- An operand comes to its value and reads some cells meanwhile. -/
def Operand.Shows (k : Prop) (rd : Reading) (o : Operand) (x : Effect Value × List CellId) : Prop :=
  o.Comes k rd x.1 ∧ ∀ σ, o.code.Reads rd σ x.2

/-- A strategy whose code reads what its nodes read. What is rendered goes from one state to another
one, and what is known of the last one is known of those before. -/
structure Strategy.Attentive {S : Type} (st : Strategy S) (k : Prop) (rd : Reading) (scope : Scope)
    (rel : S → Fragment → S → Prop) (good : S → Prop) : Prop where
  loadScope : ∀ {name l} s, scope.lookup? name = some (.bound l) →
    ∀ σ, (st.loadScope l s).1.Reads rd σ []
  observe : ∀ p s v σ, (st.observe p s).1.Reads rd (v :: σ) (rd.cellRead (.getProperty p) [v]).toList
  noOperands : ∀ t, (st.operands [] t).1 = .empty
  operands : ∀ {o os x xs ρ σ} t, o.code.Turns k rd ρ (· :: σ) x.1 → o.code.Reads rd ρ x.2 →
    List.Forall₂ (Operand.Shows k rd) os xs →
    (st.operands (o :: os) t).1.Reads rd ρ (Effect.gather (x :: xs))
  shortCircuit : ∀ {op left right monitored s σ e cells cells'}, (∀ s, rel s (right s).1 (right s).2) →
    good (st.shortCircuit op left right monitored s).2 →
    (good s → left.Turns k rd σ (· :: σ) e ∧ left.Reads rd σ cells) →
    (∀ s, good (right s).2 → (right s).1.Reads rd σ cells') →
    (st.shortCircuit op left right monitored s).1.Reads rd σ (cells ++ e.after fun a ↦
      (Effect.of (Stop.raise a.toBool)).after fun b ↦ if op.skips b then [] else cells')

section

variable {k : Prop} {rd : Reading} {σ ρ : List Value}

theorem reads_concat {os : List Operand} {xs : List (Effect Value × List CellId)}
    (h : List.Forall₂ (Operand.Shows k rd) os xs) (hs : rd.strict = false) (σ : List Value) :
    (Fragment.concat (os.map Operand.code)).Reads rd σ (Effect.gather xs) := by
  induction h generalizing σ with
  | nil => exact fun _ ↦ rfl
  | @cons o x os xs ho _ ih =>
    exact (ho.2 σ).append (ho.1 σ fun h ↦ by simp [hs] at h) fun v _ ↦ ih (v :: σ)

theorem isBlind_push (value : Literal) : (Fragment.op value.push).isBlind := by
  cases value <;> rfl

theorem isBlind_plan (op : BinaryOp) (plan : Plan) : (Fragment.ops (plan.ops op)).isBlind := by
  cases plan with
  | refEquality =>
    simp only [Plan.ops]
    split <;> rfl
  | _ => rfl

end

namespace Strategy

theorem attentive_direct {k : Prop} {rd : Reading} {scope : Scope} (hs : rd.strict = false)
    (hl : ∀ name l, scope.lookup? name = some (.bound l) → ∀ σ, l.load.Reads rd σ []) :
    direct.Attentive k rd scope (fun _ _ _ ↦ True) fun _ ↦ True where
  loadScope _ hname := hl _ _ hname
  observe p s v σ st := by
    show (rd.cellRead (.getProperty p) (v :: σ)).toList ++ Effect.after _ (rd.cellsRead []) = _
    rw [show rd.cellsRead [] = fun _ ↦ [] from rfl, Effect.after_nil, List.append_nil]
    cases v <;> rfl
  noOperands _ := rfl
  operands _ ht hr hos := hr.append ht fun v _ ↦ reads_concat hos hs _
  shortCircuit {op left right monitored s σ e cells cells'} _ _ hl hr :=
    (hl trivial).2.decide (hl trivial).1 (hr s trivial)

end Strategy

namespace Resumable

variable {k : Prop} {rd : Reading} {o : Operand} {os : List Operand} {x : Effect Value × List CellId}
variable {xs ys : List (Effect Value × List CellId)} {gs : List Fragment} {ρ σ : List Value}

theorem reads_loads {cells : List CellId} (h : ∀ σ, (Fragment.concat gs).Reads rd σ cells)
    (slots : List Nat) (σ : List Value) :
    (Fragment.concat (slots.map (fun n ↦ Fragment.op (.loadScratch n)) ++ gs)).Reads rd σ cells := by
  induction slots generalizing σ with
  | nil => exact h σ
  | cons n slots ih => exact fun st ↦ ih (st (.slot n) :: σ) st

/-- Operands that are set aside read what they read, one after the other. -/
theorem reads_stores {slots : List Nat} (ht : o.code.Turns k rd ρ (· :: σ) x.1)
    (hr : o.code.Reads rd ρ x.2) (hos : List.Forall₂ (Operand.Shows k rd) os xs)
    (hlen : os.length = slots.length) (hs : rd.strict = false)
    (hgs : (Fragment.concat gs).Reads rd σ (Effect.gather ys)) (n : Nat) :
    (Fragment.concat (((o :: os).zip (n :: slots)).map (fun (o, n) ↦ o.code ++ Fragment.op (.storeScratch n)) ++
      gs)).Reads rd ρ (Effect.gather (x :: xs ++ ys)) := by
  have hstore {o : Operand} {x : Effect Value × List CellId} {ρ : List Value} (n : Nat)
      (ht : o.code.Turns k rd ρ (· :: σ) x.1) :
      (o.code ++ .op (.storeScratch n)).Turns k rd ρ (fun _ ↦ σ) x.1 := by
    rw [← bind_pure x.1]
    exact ht.append fun v _ _ ↦ .pure rfl
  induction hos generalizing o x n slots ρ with
  | nil => exact (hr.append_isBlind rfl).append (hstore n ht) fun _ _ ↦ hgs
  | @cons p y os xs hp hos ih =>
    obtain _ | ⟨m, slots⟩ := slots
    · cases hlen
    refine (hr.append_isBlind rfl).append (hstore n ht) fun _ _ ↦ ?_
    exact ih (hp.1 σ fun h ↦ by simp [hs] at h) (hp.2 σ) (by simpa using hlen) m

theorem reads_spill {slots : List Nat} (ht : o.code.Turns k rd ρ (· :: σ) x.1)
    (hr : o.code.Reads rd ρ x.2) (hos : List.Forall₂ (Operand.Shows k rd) os xs)
    (hlen : slots.length ≤ (o :: os).length) (hs : rd.strict = false) :
    (spill (o :: os) slots).Reads rd ρ (Effect.gather (x :: xs)) := by
  obtain _ | ⟨n, slots⟩ := slots
  · exact hr.append ht fun v _ ↦ reads_concat hos hs _
  have hle : slots.length ≤ os.length := by simpa using hlen
  have hzip : (o :: os).zip (n :: slots) = (o :: os.take slots.length).zip (n :: slots) := by
    have h := @List.zip_append _ _ (os.take slots.length) (os.drop slots.length) slots []
      (by rw [List.length_take, Nat.min_eq_left hle])
    rw [List.append_nil, List.zip_nil_right, List.append_nil, List.take_append_drop] at h
    rw [List.zip_cons_cons, List.zip_cons_cons, h]
  have hrest := reads_loads (fun σ ↦ reads_concat (List.forall₂_drop slots.length hos) hs σ) (n :: slots) σ
  have hreads := reads_stores ht hr (List.forall₂_take slots.length hos)
    (by rw [List.length_take, Nat.min_eq_left hle]) hs hrest n
  rw [List.cons_append, List.take_append_drop] at hreads
  rw [spill, hzip, List.append_assoc]
  exact hreads

end Resumable

theorem Strategy.attentive_resumable {k : Prop} {rd : Reading} {scope : Scope}
    {captured : List Loadable} (hs : rd.strict = false) :
    resumable.Attentive k rd scope Renders (Keeping captured) where
  loadScope _ _ σ := .of_isBlind rfl σ
  observe p s v σ st := by
    show (rd.cellRead (.getProperty p) (v :: σ)).toList = _
    cases v <;> rfl
  noOperands _ := rfl
  operands {o os x xs ρ σ} t ht hr hos := by
    show (Resumable.spill (o :: os) (Resumable.newSlots (Resumable.spilled (o :: os)) t).1).Reads rd ρ _
    refine Resumable.reads_spill ht hr hos ?_ hs
    rw [Renders.newSlots_eq]
    simpa using Renders.spilled_le (o :: os)
  shortCircuit {op left right monitored s σ e cells cells'} hin hg hl hr := by
    cases monitored with
    | false =>
      have hg : Keeping captured (right s).2 := hg
      have hl := hl ((hin s).captured.trans hg)
      exact hl.2.decide hl.1 (hr s hg)
    | true =>
      have hg : Keeping captured (right (Layout.inside s)).2 := hg
      have hl := hl ((hin (Layout.inside s)).captured.trans hg)
      exact hl.2.decide hl.1 fun st ↦ hr _ hg _

namespace Strategy.Attentive

variable {S : Type} {st : Strategy S} {k : Prop} {rd : Reading} {scope : Scope}
variable {rel : S → Fragment → S → Prop} {good : S → Prop} {os : List Operand}
variable {xs : List (Effect Value × List CellId)} (h : st.Attentive k rd scope rel good)
include h

theorem reads_operands (hs : rd.strict = false) (hos : List.Forall₂ (Operand.Shows k rd) os xs)
    (t : S) (σ : List Value) : (st.operands os t).1.Reads rd σ (Effect.gather xs) := by
  cases hos with
  | nil =>
    rw [h.noOperands]
    exact .of_isBlind rfl σ
  | cons ho hos => exact h.operands t (ho.1 σ fun hstrict ↦ by simp [hs] at hstrict) (ho.2 σ) hos

/-- Operands behind a receiver that is on the stack already. -/
theorem reads_behind (hos : List.Forall₂ (Operand.Shows k rd) os xs) (t : S) (v : Value)
    (σ : List Value) : (st.operands (.onStack :: os) t).1.Reads rd (v :: σ) (Effect.gather xs) :=
  h.operands (x := (pure v, [])) t (.empty v rfl) (.of_isBlind rfl _) hos

end Strategy.Attentive

namespace Node

variable {k : Prop} {rd₀ rd : Reading} {env : Loadable → Value}
variable {classes : ObjectId → Option ClassId} {allowed : Stop → Prop} {cx : BuildContext}
variable (hrd₀ : rd₀.Conforms classes allowed) (hrd : rd.Conforms classes allowed)
variable (ha : rd₀.Agrees rd classes) (hm : cx.model = rd₀.registry.model)
variable (henv : TypedScope rd₀.registry classes cx.scope env) (hs : rd.strict = false)
variable {S : Type} {st : Strategy S} {rel : S → Fragment → S → Prop} {good : S → Prop}
variable (hst : st.Faithful k rd classes cx.scope env rel good) (hat : st.Attentive k rd cx.scope rel good)
include hrd₀ hrd ha hm henv hs hst

omit hrd₀ hrd ha hm henv hs hst in
theorem MemberFits.index_converts {receiver : Node} {ty : Ty} {a : Arg} {reading : IndexAccess}
    (h : MemberFits cx receiver ty (.index a reading)) : receiver.isValue ∧ ∃ t, Converts cx a t := by
  cases reading with
  | chars => exact ⟨h.1, _, h.2.2.1⟩
  | method m =>
    obtain ⟨hr, -, hp, -⟩ := h
    obtain ⟨_, _, ⟨hc, -⟩, -⟩ := List.forall₂_cons_left_iff.mp hp
    exact ⟨hr, _, hc⟩

theorem turns_agrees (n : Node) (hn : n.Resolved cx) (he : Settled allowed n.info.evaluable) (s : S)
    (hg : good (n.render st s).2) (σ : List Value) :
    (n.render st s).1.Turns k rd σ (n.pushed · σ) (n.eval rd₀ env) := by
  rw [← eval_eq hrd₀ ha hm henv n hn he]
  exact turns_node hrd (ha.registry ▸ hm) (ha.registry ▸ henv) hst n hn he s hg σ
    fun h ↦ by simp [hs] at h

/-- A node with a conversion behind it, as an operand. -/
theorem shows_operand {n : Node} {c : Fragment} {t : Ty} (hn : n.Resolved cx) (hv : n.isValue)
    (he : Settled allowed n.info.evaluable) (hc : c.Coerces rd₀.registry n.ty t) {s : S}
    (hg : good (n.render st s).2) (hreads : ∀ σ, (n.render st s).1.Reads rd σ (n.cellsRead rd₀ env))
    (monitored : Bool) :
    Operand.Shows k rd ⟨(n.render st s).1 ++ c, monitored⟩
      (n.eval rd₀ env >>= c.apply rd₀, n.cellsRead rd₀ env) := by
  refine ⟨fun σ _ ↦ ?_, fun σ ↦ (hreads σ).append_isBlind hc.isBlind⟩
  have hturns := turns_agrees hrd₀ hrd ha hm henv hs hst n hn he s hg σ
  refine hturns.append fun v hr ↦ ?_
  have htyped := (yields_eval hrd₀ hm henv n hn hv he).1 v hr
  rw [pushed_of_isValue hv, ← ha.apply_eq hrd₀ hc htyped]
  exact .of_coerces hrd (ha.registry ▸ hc) (ha.registry ▸ htyped)

include hat

set_option linter.unusedSectionVars false

mutual

/-- The code of a node reads the cells that the node reads. -/
theorem reads_node : (n : Node) → n.Resolved cx → Settled allowed n.info.evaluable → (s : S) →
    good (n.render st s).2 → (σ : List Value) → (n.render st s).1.Reads rd σ (n.cellsRead rd₀ env)
  | literal _ value, _, _, _, _, σ => .of_isBlind (isBlind_push value) σ
  | scopeRead _ (.bound l), h, _, s, _, σ => by
    obtain ⟨⟨name, hname⟩, -⟩ := h
    exact hat.loadScope s hname σ
  | scopeRead _ (.pending _), _, _, _, _, σ => .of_isBlind rfl σ
  | typeRef .., _, _, _, _, σ => .of_isBlind rfl σ
  | access info receiver member, h, he, s, hg, σ => by
    obtain ⟨⟨hf, hmon, hev⟩, hr, hmem⟩ := h
    have he : Settled allowed (receiver.info.evaluable && memberEvaluable member) := hev ▸ he
    obtain ⟨her, hem⟩ := he.and
    have hg' := hst.back (hst.member member (memberIsPlain member hf hmem) _) hg
    exact (reads_node receiver hr her s hg' σ).append
      (turns_agrees hrd₀ hrd ha hm henv hs hst receiver hr her s hg' σ)
      fun v _ ↦ reads_member member hf hmem hem _ hg σ v
  | construct info m args, h, he, s, hg, σ => by
    obtain ⟨⟨-, hp, hf⟩, hargs⟩ := h
    have hev : info.evaluable = argsEvaluable args := congrArg Facts.evaluable hf
    rw [render_construct] at hg ⊢
    exact (hat.reads_operands hs (shows_args args hp hargs (hev ▸ he) s (hst.operands_back hg)) _
      σ).append_isBlind rfl
  | binary info op (.mk left c) (.mk right c') plan, h, he, s, hg, σ => by
    have hplain := Resolved.isPlain _ h
    obtain ⟨⟨hplan, -, hev⟩, hl, hr⟩ := h
    have he : Settled allowed (left.info.evaluable && right.info.evaluable) := hev ▸ he
    obtain ⟨hel, her⟩ := he.and
    have hinl := hst.node left (fun d hd ↦ hplain d (by simp [coercions, hd]))
    have hinr := hst.node right (fun d hd ↦ hplain d (by simp [coercions, hd]))
    unfold cellsRead
    by_cases hp : plan = .shortCircuit
    · subst hp
      obtain ⟨hcl, hcr, -⟩ := hplan
      have hcl' := Coercion.coerces_of_coerce? (hm ▸ hcl.2)
      have hcr' := Coercion.coerces_of_coerce? (hm ▸ hcr.2)
      rw [render_shortCircuit] at hg ⊢
      simp only [if_pos]
      refine hat.shortCircuit (fun s ↦ hst.append (hinr s) (hst.plain _ hcr.isPlain)) hg
        (fun hg ↦ ?_) fun s hg ↦ ?_
      · have hleft := shows_operand hrd₀ hrd ha hm henv hs hst hl hcl.1 hel hcl' hg
          (reads_node left hl hel s hg) false
        exact ⟨hleft.1 σ fun _ ↦ nofun, hleft.2 σ⟩
      · exact (reads_node right hr her s hg σ).append_isBlind hcr'.isBlind
    · obtain ⟨t, u, hcl, hcr, hvl, hvr, -⟩ := hplan.leaves hrd₀ hp hm
      rw [render_binary _ _ _ _ _ _ _ _ hp] at hg ⊢
      simp only [if_neg hp]
      have hg₂ := hst.operands_back hg
      have hg₁ := hst.back (hinr _) hg₂
      have hleft := shows_operand hrd₀ hrd ha hm henv hs hst hl hvl hel hcl hg₁
        (reads_node left hl hel s hg₁) (decide (0 < left.monitoring))
      have hright := shows_operand hrd₀ hrd ha hm henv hs hst hr hvr her hcr hg₂
        (reads_node right hr her _ hg₂) (decide (0 < right.monitoring))
      exact (hat.reads_operands hs (.cons hleft (.cons hright .nil)) _ σ).append_isBlind
        (isBlind_plan op plan)
  | unary info op (.mk operand c) kind, h, he, s, hg, σ => by
    obtain ⟨hf, ho⟩ := h
    have hc := Coercion.coerces_of_coerce? (hm ▸ hf.2.2.2.1.2)
    have hev : info.evaluable = operand.info.evaluable := hf.2.1
    exact ((reads_node operand ho (hev ▸ he) s hg σ).append_isBlind hc.isBlind).append_isBlind
      (by cases op <;> rfl)

theorem reads_member {receiver : Node} {ty : Ty} : (m : Member) →
    MemberFits cx receiver ty m → memberForall (Fits cx) m → Settled allowed (memberEvaluable m) →
    (s : S) → good (renderMember st m s).2 → (σ : List Value) → (v : Value) →
    (renderMember st m s).1.Reads rd (receiver.pushed v σ) (memberCells rd₀ env v m)
  | .property p, hf, _, _, s, _, σ, v => by
    rw [pushed_of_isValue hf.1, renderMember_property]
    have hcell : rd₀.cellRead (.getProperty p.name) [v] = rd.cellRead (.getProperty p.name) [v] := by
      cases v <;> simp only [Reading.cellRead, ha.cell]
    rw [memberCells, hcell]
    split
    · exact hat.observe p.name s v σ
    · intro store
      show (rd.cellRead (.getProperty p.name) (v :: σ)).toList ++ Effect.after _ (rd.cellsRead []) = _
      rw [show rd.cellsRead [] = fun _ ↦ [] from rfl, Effect.after_nil, List.append_nil]
      cases v <;> rfl
  | .staticField f, _, _, _, _, _, _, _ => .of_isBlind rfl _
  | .method m args, hf, h, he, s, hg, σ, v => by
    obtain ⟨hr, -, hp, -⟩ := hf
    rw [pushed_of_isValue hr]
    rw [renderMember_method] at hg ⊢
    exact (hat.reads_behind (shows_args args hp h he s (hst.operands_back hg)) _ v σ).append_isBlind rfl
  | .staticCall m args, hf, h, he, s, hg, σ, v => by
    obtain ⟨_, _, _, -, -, hp, -⟩ := hf
    rw [renderMember_staticCall] at hg ⊢
    exact (hat.reads_operands hs (shows_args args hp h he s (hst.operands_back hg)) _ _).append_isBlind rfl
  | .index (.mk node c) reading, hf, h, he, s, hg, σ, v => by
    obtain ⟨hr, t, hc⟩ := hf.index_converts
    rw [pushed_of_isValue hr]
    rw [renderMember_index] at hg ⊢
    have hc' := Coercion.coerces_of_coerce? (hm ▸ hc.2)
    have hg' := hst.operands_back hg
    have hnode := shows_operand hrd₀ hrd ha hm henv hs hst h hc.1 he hc' hg'
      (reads_node node h he s hg') (decide (0 < node.monitoring))
    rw [memberCells, ← Effect.gather_one (node.eval rd₀ env >>= c.apply rd₀) (node.cellsRead rd₀ env)]
    exact (hat.reads_behind (.cons hnode .nil) (node.render st s).2 v σ).append_isBlind
      (by cases reading <;> rfl)

theorem shows_args {params : List Ty} : (args : List Arg) →
    List.Forall₂ (fun a ty ↦ Converts cx a ty ∧ a.node.ty ≠ .void) args params →
    argsForall (Fits cx) args → Settled allowed (argsEvaluable args) → (s : S) →
    good (renderArgs st args s).2 →
    List.Forall₂ (Operand.Shows k rd) (renderArgs st args s).1 (argsCells rd₀ env args)
  | [], _, _, _, _, _ => .nil
  | .mk node c :: rest, hp, h, he, s, hg => by
    obtain ⟨param, params, ⟨hc, -⟩, hrest, rfl⟩ := List.forall₂_cons_left_iff.mp hp
    rw [argsEvaluable, List.all_cons] at he
    replace he := he.and
    have hc' := Coercion.coerces_of_coerce? (hm ▸ hc.2)
    have hplain := argsIsPlain rest hrest h.2
    have hg' : good (node.render st s).2 := hst.back_inOrder (hst.args rest hplain _) hg
    exact .cons (shows_operand hrd₀ hrd ha hm henv hs hst h.1 hc.1 he.1 hc' hg'
      (reads_node node h.1 he.1 s hg') _) (shows_args rest hrest h.2 he.2 _ hg)

end

end Node

end LiveBinding
