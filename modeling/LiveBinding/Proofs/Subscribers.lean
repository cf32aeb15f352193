import LiveBinding.Proofs.Incremental
import LiveBinding.Proofs.NodeReads

namespace LiveBinding

open Exec Fragment

/-- The cell that a value refers to. -/
def Value.cell? : Value → Option CellId
  | .cell c => some c
  | _ => none

theorem Value.cell?_ofCell? (c : Option CellId) : (Value.ofCell? c).cell? = c := by
  cases c <;> rfl

namespace Reading

variable {rd : Reading}

/-- The guarded reading leaves an instruction open that reads a cell. -/
theorem cellRead_of_guarded {op : Op} {c c' : Config} (h : (rd.guarded.ordinary op c).result = .ok c') :
    rd.cellRead op c.stack = none := by
  cases op with
  | getProperty p =>
    obtain ⟨_ | ⟨v, σ⟩, st⟩ := c
    · rfl
    cases v with
    | object o =>
      cases hc : rd.cell o p with
      | error e => simp only [cellRead, hc, Except.toOption]
      | ok d =>
        have hopen : rd.guarded.property o p = .error .exhausted := if_pos (by rw [hc]; rfl)
        have h : ((⟨·, st⟩ : List Value → Config) <$>
          Effect.of ((· :: σ) <$> rd.guarded.property o p)).result = .ok c' := h
        rw [hopen] at h
        cases h
    | _ => rfl
  | _ => rfl

theorem cellsRead_of_guarded {list : List Op} {c c' : Config}
    (h : (rd.guarded.all list c).result = .ok c') : rd.cellsRead list c = [] := by
  induction list generalizing c with
  | nil => rfl
  | cons op list ih =>
    obtain ⟨c₁, h₁, h⟩ := Effect.result_bind_eq_ok.mp h
    have heq := (rd.ordinary_guarded op c).eq_of_ne (by simp [h₁])
    rw [cellsRead, cellRead_of_guarded h₁, Effect.after_of_ok (heq ▸ h₁), ih h]
    rfl

end Reading

namespace Fragment

open Config

variable {rd : Reading} {f : Fragment} (hstrict : rd.strict = false)
include hstrict

theorem ok_of_guarded {c c' : Config} (h : (f.den rd.guarded c).result = .ok c') :
    (f.den rd c).result = .ok c' :=
  (den_guarded hstrict f c).eq_of_ne (by simp [h]) ▸ h

/-- Code without points reads no cell, if the guarded reading does not leave it open. -/
theorem cellsRead_of_points {c c' : Config} (hp : f.points = [])
    (h : (f.den rd.guarded c).result = .ok c') : f.cellsRead rd c = [] := by
  induction f generalizing c c' with
  | ops list => exact Reading.cellsRead_of_guarded h
  | flagTest | flagAssign => rfl
  | observe => simp [points] at hp
  | append f g ih ih' =>
    rw [points, List.append_eq_nil_iff] at hp
    obtain ⟨c₁, h₁, h⟩ := Effect.result_bind_eq_ok.mp h
    rw [cellsRead, ih hp.1 h₁, Effect.after_of_ok (ok_of_guarded hstrict h₁), ih' hp.2 h, List.nil_append]
  | nullGuard f g ih ih' =>
    rw [points, List.append_eq_nil_iff] at hp
    obtain ⟨_ | ⟨v, σ⟩, st⟩ := c
    · rfl
    · simp only [den] at h
      rw [cellsRead]
      split at h
      · next hv => rw [if_pos hv, ih' hp.2 h]
      · next hv => rw [if_neg hv, ih hp.1 h]
  | shortCircuit op f g ih ih' | branch op f g _ _ _ ih ih' =>
    rw [points, List.append_eq_nil_iff] at hp
    obtain ⟨c₁, h₁, h⟩ := Effect.result_bind_eq_ok.mp h
    obtain ⟨v, σ, t, hv, ht, h⟩ := fork_eq_ok h
    obtain ⟨σ₁, st₁⟩ := c₁
    obtain rfl : σ₁ = v :: σ := hv
    rw [cellsRead, ih hp.1 h₁, Effect.after_of_ok (ok_of_guarded hstrict h₁), readsBehind_of_toBool ht,
      List.nil_append]
    split
    · rfl
    · next hskip =>
      rw [if_neg hskip] at h
      exact ih' hp.2 h

/-- Where evaluating changes nothing, the points listen to what is read, in order: those that are
skipped to nothing. -/
theorem cellsRead_of_noop (hs : f.Sequential) {c : Config} {σ : List Value}
    (h : (f.den rd.guarded c).result = .ok ⟨σ, c.store⟩) :
    f.cellsRead rd c = f.points.filterMap fun p ↦ (c.store p.loc).cell? := by
  induction f generalizing c σ with
  | ops | flagTest | flagAssign => exact cellsRead_of_points hstrict rfl h
  | nullGuard f g =>
    have hp : (nullGuard f g).points = [] := by rw [points, hs.1.1, hs.1.2, List.append_nil]
    rw [cellsRead_of_points hstrict hp h, hp]
    rfl
  | observe property p =>
    obtain ⟨v, o, d, hstack, ho, hd, hp⟩ := noop_observe rfl h
    obtain ⟨σ₀, st⟩ := c
    obtain rfl : σ₀ = [v] := hstack
    have hread : rd.cellRead (.getProperty property) [v] = some d := by
      cases v with
      | object o' =>
        cases ho
        have hd : rd.cell o property = .ok d := hd
        simp [Reading.cellRead, hd, Except.toOption]
      | _ => cases ho
    have hp : st p.loc = .cell d := hp
    simp only [cellsRead, hread, points, List.filterMap_cons, hp, Value.cell?, List.filterMap_nil,
      Option.toList_some]
  | append f g ih ih' =>
    obtain ⟨σ₁, hf, hg⟩ := noop_append hs h
    rw [cellsRead, points, List.filterMap_append, ih hs.1 hf, Effect.after_of_ok (ok_of_guarded hstrict hf),
      ih' hs.2.1 hg]
  | shortCircuit op f g ih ih' =>
    obtain ⟨σ₁, hf, hfork⟩ := noop_shortCircuit hs h
    obtain ⟨v, σ', t, hv, ht, hfork⟩ := fork_eq_ok hfork
    obtain rfl : σ₁ = v :: σ' := hv
    rw [cellsRead, points, hs.2.2.1, List.append_nil, ih hs.1 hf,
      Effect.after_of_ok (ok_of_guarded hstrict hf), readsBehind_of_toBool ht]
    by_cases hskip : op.skips t
    · rw [if_pos hskip, List.append_nil]
    · rw [if_neg hskip] at hfork ⊢
      rw [cellsRead_of_points hstrict hs.2.2.1 hfork, List.append_nil]
  | branch op f g flag counter ps ih ih' =>
    obtain ⟨v, σ₁, t, hf, ht, hrest⟩ := noop_branch hs h
    rw [cellsRead, points, List.filterMap_append, ih hs.1 hf,
      Effect.after_of_ok (ok_of_guarded hstrict hf), readsBehind_of_toBool ht]
    congr 1
    by_cases hskip : op.skips t
    · -- skipping has cleared every point of the right operand, or else it would change something
      rw [if_pos hskip] at hrest ⊢
      symm
      rw [List.filterMap_eq_nil_iff]
      intro p hp
      rw [(off_of_skip hrest).2 p (hs.2.2.1.symm.subset hp)]
      rfl
    · rw [if_neg hskip] at hrest ⊢
      obtain ⟨hflag, hg⟩ := hrest
      have hset : Config.setFlag flag true ⟨σ₁, c.store⟩ = ⟨σ₁, c.store⟩ := by
        simp only [Config.setFlag, ← hflag, Function.update_eq_self]
      rw [hset]
      exact ih' (c := ⟨σ₁, c.store⟩) hs.2.1 hg

end Fragment

/-- How many listeners a binding has on a cell. -/
def World.subscriptions (w : World) (i : InstanceId) (c : CellId) : Nat :=
  ((w.cell? c).map (·.subscriptions i)).getD 0

/-- Steps that listen once each are as many as the listeners of their binding, whoever else listens. -/
theorem Cell.subscriptions_eq {cell : Cell} {i : InstanceId} {c : CellId} {on : Nat → Option CellId}
    {steps : List Nat} (hsteps : steps.Nodup) (hon : ∀ k, on k = some c → k ∈ steps)
    (honce : ∀ k, cell.listeners.countP (·.isBinding i k) = if on k = some c then 1 else 0) :
    cell.subscriptions i = (steps.filterMap on).count c := by
  have hcount (k : Nat) :
      (Listener.stepsOf i cell.listeners).count k = if on k = some c then 1 else 0 := by
    rw [← honce k, Listener.count_stepsOf]
  -- the steps of the listeners are those that listen here, in another order
  have hperm : (Listener.stepsOf i cell.listeners).Perm (steps.filter fun k ↦ on k = some c) := by
    refine (List.perm_ext_iff_of_nodup (List.nodup_iff_count_le_one.mpr fun k ↦ ?_)
      (hsteps.filter _)).mpr fun k ↦ ?_
    · rw [hcount]
      split <;> omega
    · rw [← List.count_pos_iff, hcount, List.mem_filter, decide_eq_true_eq]
      by_cases hk : on k = some c <;> simp [hk, hon]
  rw [subscriptions, ← Listener.length_stepsOf, hperm.length_eq, ← List.countP_eq_length_filter, List.count,
    List.countP_filterMap]
  refine List.countP_congr fun k _ ↦ ?_
  cases on k <;> simp

namespace Deployment

variable {D : Deployment} {w : World} {s : Instance} {on : Nat → Option CellId}

namespace Sound

variable (h : D.Sound w s on)
include h

/-- Where the value of the binding is up to date, its steps listen to what its code reads. -/
theorem cellsRead_code {σ : List Value}
    (hden : (D.code.den (D.reading w) ⟨[], D.store s⟩).result = .ok ⟨σ, D.store s⟩) :
    D.code.cellsRead (w.reading D.registry (asked D.answer) [] D.captures) ⟨[], D.store s⟩ =
      D.body.steps.filterMap on := by
  rw [cellsRead_of_noop rfl D.sequential_code hden, D.points_code, steps, List.filterMap_map]
  refine List.filterMap_congr fun p hp ↦ ?_
  show (D.store s p.loc).cell? = on p.step
  rw [h.store_point hp, Value.cell?_ofCell?]

/-- The listeners on a cell are those of the steps that listen to it. -/
theorem subscriptions_eq (c : CellId) : w.subscriptions D.id c = (D.body.steps.filterMap on).count c := by
  rw [World.subscriptions]
  cases hcell : w.cell? c with
  | none =>
    have hnone : (D.body.steps.filterMap on).count c = 0 := by
      rw [List.count_eq_zero, List.mem_filterMap]
      rintro ⟨k, -, hk⟩
      have hlt := h.tracks.exist k c hk
      simp [World.cell?, Array.getElem?_eq_getElem hlt] at hcell
    exact hnone.symm
  | some cell =>
    refine Cell.subscriptions_eq ?_ (fun k hk ↦ (h.listens k c hk).1) fun k ↦ ?_
    · rw [D.compiles.steps_eq]
      exact List.nodup_range'
    · have hlistening := h.tracks.listening k c
      rwa [World.listening, hcell] at hlistening

end Sound

/-- No step of the table listens but those of the code. -/
theorem filterMap_steps (h : D.Sound w s on) : D.artifact.steps.filterMap on = D.body.steps.filterMap on := by
  have h0 : on 0 = none := by
    rw [Option.eq_none_iff_forall_ne_some]
    intro c hc
    have hmem := (h.listens 0 c hc).1
    rw [D.compiles.steps_eq, List.mem_range'_1] at hmem
    omega
  have hnext := D.compiles.renders.nextStep
  have hsteps := D.compiles.steps_eq
  rw [D.compiles.steps, Resumable.steps, hsteps, hnext, List.range_eq_range', Nat.add_comm,
    show Resumable.start.nextStep = 1 from rfl, List.range'_succ, List.filterMap_cons, h0]

end Deployment

/-- The code of a loadable reads no cell through a property, whatever the cells hold. -/
def Loadable.ReadsNoCell (r : Registry) (answer : MethodId → List Value → Except RuntimeError Value)
    (w : World) (l : Loadable) : Prop :=
  ∀ w' : World, w'.objects = w.objects → ∀ σ,
    l.load.Reads (w'.reading r (asked answer) w.frame #[]) σ []

namespace World.Suits

variable {r : Registry} {answer : MethodId → List Value → Except RuntimeError Value}
variable {cx : BuildContext} {env : Loadable → Value} {w : World} {n : Node} {c : Fragment} {ty : Ty}
variable (h : w.Suits r answer cx.scope env) (hm : cx.model = r.model) (hn : IsOperand cx n)
variable (hc : c.Coerces r n.ty ty)
include h hm hn hc

/-- The code that keeps the parts of the value reads the cells that the node reads. -/
theorem reads_resumable : ((n.render .resumable .start).1 ++ c).Reads (w.reading r (asked answer) []
    ((n.render .resumable .start).2.storage.captured.map env).toArray) []
      (n.cellsRead (w.reading r (asked answer) w.frame #[]) env) := by
  have hin : Node.InScope cx (n.render .resumable .start).2 :=
    Node.Resolved.inScope n hn.1 .start fun l hl ↦ absurd hl List.not_mem_nil
  have hst : Strategy.resumable.Faithful True _ w.classOf cx.scope env Renders
      (Strategy.Keeping (n.render .resumable .start).2.storage.captured) :=
    Strategy.faithful_resumable (h.captures _ hin (w.reading r (asked answer) [] _) rfl)
  have hreads := Node.reads_node (h.conforms.reading w.frame #[]) (h.conforms.reading [] _)
    ((SameHeap.refl w).agrees r (asked answer) w.frame [] #[] _ w.classOf) hm h.typed rfl hst
    (Strategy.attentive_resumable rfl) n hn.1 (.inr fun _ ↦ nofun) .start (List.prefix_refl _) []
  exact hreads.append_isBlind hc.isBlind

/-- So does the code that reads everything every time. -/
theorem reads_direct {k : Prop}
    (hloads : cx.scope.Loads k (w.reading r (asked answer) w.frame #[]) env)
    (hblind : ∀ name l, cx.scope.lookup? name = some (.bound l) →
      ∀ σ, l.load.Reads (w.reading r (asked answer) w.frame #[]) σ []) :
    (n.renderDirect ++ c).Reads (w.reading r (asked answer) w.frame #[]) []
      (n.cellsRead (w.reading r (asked answer) w.frame #[]) env) := by
  have hrd := h.conforms.reading w.frame #[]
  have hreads := Node.reads_node hrd hrd
    ((SameHeap.refl w).agrees r (asked answer) w.frame w.frame #[] #[] w.classOf) hm h.typed rfl
    (Strategy.faithful_direct rfl hloads (h.conforms.through _ _)) (Strategy.attentive_direct rfl hblind) n
    hn.1 (.inr fun _ ↦ nofun) () trivial []
  exact hreads.append_isBlind hc.isBlind

/-- Evaluating a node once reads the cells that the node reads. -/
theorem evaluationReads_eq {k : Prop}
    (hloads : cx.scope.Loads k (w.reading r (asked answer) w.frame #[]) env)
    (hplain : ∀ name l, cx.scope.lookup? name = some (.bound l) → l.load.isPlain)
    (hblind : ∀ name l, cx.scope.lookup? name = some (.bound l) →
      ∀ σ, l.load.Reads (w.reading r (asked answer) w.frame #[]) σ []) {R : Routine}
    (hR : Assembler.Assembles (((n.renderDirect ++ c).emit none .empty).emit .return) R) {v : Value}
    (hv : (n.meaning r answer env w c).result = .ok v) :
    ∃ N, ∀ fuel ≥ N, (evaluate r fuel R w).1 = .ok v ∧
      evaluationReads r fuel R w = n.cellsRead (w.reading r (asked answer) w.frame #[]) env := by
  have hcode : (n.renderDirect ++ c).isPlain :=
    isPlain_append (Node.direct_composable composable_isPlain hplain n hn.1) hc.isPlain
  obtain ⟨N, hN⟩ := h.evaluate_eq hm hn hc hloads hplain hR
  obtain ⟨d, hd⟩ : ∃ d, ((n.renderDirect ++ c).den (w.reading r (asked answer) w.frame #[])
      ⟨[], fun _ ↦ .null⟩).result = .ok d := by
    obtain ⟨-, ⟨d, _, hd, -⟩ | ⟨e, -, he⟩⟩ := h.turns_direct hm hn hc hloads fun _ ↦ .null
    · exact ⟨d, hd⟩
    · cases hv.symm.trans he
  refine ⟨max N R.size, fun fuel hfuel ↦ ?_⟩
  have hvalue := (hN fuel (.inl (by omega))).1.trans hv
  refine ⟨hvalue, ?_⟩
  rw [LiveBinding.evaluationReads_eq h.functional hR hcode _ hd (by omega) (by simp [hvalue])]
  exact h.reads_direct hm hn hc hloads hblind _

end World.Suits

section

variable {cx : BuildContext} {env : Loadable → Value} {r : Registry} {w w' : World} {n : Node}
variable {answer : MethodId → List Value → Except RuntimeError Value} {c : Fragment} {ty : Ty}
variable (hw : w.Admits r answer cx.scope env) (hm : cx.model = r.model) (hn : IsOperand cx n)
variable (hc : c.Coerces r n.ty ty) {layout : FlagLayout} {artifact : Artifact}
variable (compiles : Compiles (n.render .resumable .start).1 c (n.render .resumable .start).2 layout
  artifact) (ordered : Ordered .start (n.render .resumable .start).1 (n.render .resumable .start).2)
variable (few : (n.render .resumable .start).1.points.length < 2 ^ 31) {methods : Array MethodDef}
variable (model : Registry.model { r with methods } = r.model) {D : Deployment}
variable (hD : D = n.deploy compiles ordered few r methods model answer env w)
include hw hm hn hc hD

/-- A settled binding listens to the cells that its expression reads, once for every read. -/
theorem Node.deploy_subscriptions (h : D.Pending True [] w') : ∃ on : Nat → Option CellId,
    (∀ k c, w'.listening D.id k c = if on k = some c then 1 else 0) ∧
    artifact.steps.filterMap on = n.cellsRead (w'.reading r (asked answer) w'.frame #[]) env ∧
    ∀ c, w'.subscriptions D.id c =
      (n.cellsRead (w'.reading r (asked answer) w'.frame #[]) env).count c := by
  have hd := Node.deploy_determined hw hm hn hc compiles ordered few model hD
  obtain ⟨s, on, v, ls, u, hs, -, -, -, hden⟩ := h.settled hd
  have hcode : D.code.cellsRead (w'.reading D.registry (asked D.answer) [] D.captures) ⟨[], D.store s⟩ =
      n.cellsRead (w'.reading r (asked answer) w'.frame #[]) env := by
    have hconforms := hs.conforms
    have hobjects := hs.objects
    subst hD
    exact (hw.suits_of_objects hconforms hobjects).reads_resumable hm hn hc _
  have hreads := hcode.symm.trans (hs.cellsRead_code hden)
  have hsteps : artifact.steps.filterMap on = D.body.steps.filterMap on := by
    rw [← Deployment.filterMap_steps hs, hD]
    rfl
  exact ⟨on, hs.tracks.listening, hsteps.trans hreads.symm, fun c ↦ hreads ▸ hs.subscriptions_eq c⟩

end

namespace Sample

/-- A name that stands for an object, which reads a property of the object before that. -/
def peeking : Loadable where
  id := ⟨0⟩
  name := "x"
  ty := .class ⟨0⟩
  load := .ops [.loadLocal 0, .getProperty "next", .pop, .loadLocal 0]

/-- The third box refers to another one as soon as the number of the first one is set. -/
def repointing : Listener := .callback fun _ ↦ .set ⟨2⟩ "peer" (.object ⟨1⟩) (.done ())

/-- `x.next.p` -/
def readNextP : ParsedExpr :=
  ⟨"x.next.p", .field ⟨0, 8⟩ (.field ⟨0, 6⟩ (.ident ⟨0, 1⟩ "x") "next") "p", 0⟩

/-- `x.p + x.peer.p` -/
def readPeerP : ParsedExpr :=
  ⟨"x.p + x.peer.p", .binary ⟨0, 14⟩ .add (.field ⟨0, 3⟩ (.ident ⟨0, 1⟩ "x") "p")
    (.field ⟨6, 14⟩ (.field ⟨6, 12⟩ (.ident ⟨6, 7⟩ "x") "peer") "p"), 0⟩

/-- A binding is made in a world and a property is set. After that the binding does not listen to a cell
as many times as evaluating its expression reads the cell. -/
structure Miscounts (cx : CompileContext) (r : Registry) (scope : Scope) (parsed : ParsedExpr) (w : World)
    (o : ObjectId) (property : String) (v : Value) (c : CellId) (subscribed read : Nat) : Prop extends
    Compiled cx scope parsed where
  declared : w.isDeclared r
  runs : let made := createInstance r 60 (bindingOf cx (treeOf cx scope parsed)).artifact w
    let changed := setProperty r 60 o property v made.2
    made.1 = .ok ⟨w.instances.size⟩ ∧ (made.2.observable? o property).isSome ∧ changed.1 = .ok () ∧
      (evaluate r 60 (routineOf (treeOf cx scope parsed)) changed.2).1.isOk
  counts : let changed := (setProperty r 60 o property v
      (createInstance r 60 (bindingOf cx (treeOf cx scope parsed)).artifact w).2).2
    changed.subscriptions ⟨w.instances.size⟩ c = subscribed ∧
      (evaluationReads r 60 (routineOf (treeOf cx scope parsed)) changed).count c = read
  differs : subscribed ≠ read

end Sample

end LiveBinding
