import LiveBinding.Proofs.Bookkeeping
import LiveBinding.Proofs.StackMap
import LiveBinding.Proofs.Strategies

namespace LiveBinding

namespace Fragment

variable {f g : Fragment} {d e m : Nat}

/-- Run at one depth, the code of a fragment is balanced and leaves the stack at another. -/
def Lifts (f : Fragment) (d e : Nat) : Prop := f.WellStacked d ∧ f.leaves d = e

namespace Lifts

theorem empty (d : Nat) : Fragment.empty.Lifts d d := ⟨trivial, rfl⟩

theorem append (h : f.Lifts d m) (h' : g.Lifts m e) : (f ++ g).Lifts d e := by
  obtain ⟨hb, rfl⟩ := h
  exact ⟨⟨hb, h'.1⟩, h'.2⟩

theorem op {o : Op} (h : o.pops ≤ d) (he : o.after d = e) : (Fragment.op o).Lifts d e :=
  ⟨⟨h, trivial⟩, he⟩

theorem cons {o : Op} {list : List Op} (h : o.pops ≤ d) (h' : (ops list).Lifts (o.after d) e) :
    (ops (o :: list)).Lifts d e := ⟨⟨h, h'.1⟩, h'.2⟩

theorem nullGuard (h : f.Lifts (d + 1) e) (h' : g.Lifts d e) : (nullGuard f g).Lifts (d + 1) e :=
  ⟨⟨Nat.succ_pos d, h.1, h'.1, h'.2.trans h.2.symm⟩, h.2⟩

theorem shortCircuit (op : BinaryOp) (h : f.Lifts d (e + 1)) (h' : g.Lifts e (e + 1)) :
    (shortCircuit op f g).Lifts d (e + 1) := by
  refine ⟨?_, h.2⟩
  simp only [WellStacked, h.2, Nat.add_sub_cancel]
  exact ⟨h.1, Nat.succ_pos e, h'⟩

theorem branch (op : BinaryOp) (flag counter : Nat) (points : List SavePoint)
    (h : f.Lifts d (e + 1)) (h' : g.Lifts e (e + 1)) :
    (branch op f g flag counter points).Lifts d (e + 1) := shortCircuit op h h'

theorem concat_append {fs gs : List Fragment} (h : (concat fs).Lifts d m)
    (h' : (concat gs).Lifts m e) : (concat (fs ++ gs)).Lifts d e := by
  induction fs generalizing d with
  | nil =>
    obtain rfl : d = m := h.2
    exact h'
  | cons f fs ih => exact append ⟨h.1.1, rfl⟩ (ih ⟨h.1.2, h.2⟩)

end Lifts

end Fragment

/-- The instruction puts one value in place of another. -/
def Op.IsUnary (op : Op) : Prop := op.pops = 1 ∧ op.pushes = 1

namespace Coercion

open Fragment

theorem lifts_unary {list : List Op} (h : ∀ op ∈ list, op.IsUnary) (d : Nat) :
    (ops list).Lifts (d + 1) (d + 1) := by
  induction list with
  | nil => exact .empty (d + 1)
  | cons op list ih =>
    rw [List.forall_mem_cons] at h
    obtain ⟨⟨hpops, hpushes⟩, h⟩ := h
    have hafter : op.after (d + 1) = d + 1 := by rw [Op.after, hpops, hpushes, Nat.add_sub_cancel]
    exact .cons (by omega) (by rw [hafter]; exact ih h)

theorem lifts_default {ty : Ty} {list : List Op} (h : defaultValue? ty = some list) (d : Nat) :
    (ops list).Lifts d (d + 1) := by
  unfold defaultValue? at h
  split at h <;> cases h <;>
    simp [Lifts, Op.after]

theorem isUnary_conversion {model : TypeModel} {source target : Ty} {list : List Op}
    (h : conversion? model source target = some list) : ∀ op ∈ list, op.IsUnary := by
  intro op hop
  cases converting_conversion h op hop with
  | parse p => cases p <;> exact ⟨rfl, rfl⟩
  | _ => exact ⟨rfl, rfl⟩

/-- A conversion puts one value in place of another. -/
theorem lifts_coerce {model : TypeModel} {source target : Ty} {c : Fragment}
    (h : coerce? model source target = some c) (d : Nat) : c.Lifts (d + 1) (d + 1) := by
  unfold coerce? at h
  split at h
  · cases h
    exact .empty (d + 1)
  · split at h
    · obtain ⟨list, hlist, rfl⟩ := Option.map_eq_some_iff.mp h
      exact .cons (Nat.le_add_left 1 d) (lifts_default hlist d)
    · split at h
      · cases h
      · next convert hc =>
        split at h
        · obtain ⟨list, hlist, rfl⟩ := Option.map_eq_some_iff.mp h
          exact .nullGuard (lifts_unary (isUnary_conversion hc) d) (lifts_default hlist d)
        · cases h
          exact lifts_unary (isUnary_conversion hc) d

end Coercion

open Fragment

/-- The code of an operand puts a value on the stack. Where it listens, that is all there is. -/
def Operand.Lifts (o : Operand) : Prop := ∀ d, (o.monitored → d = 0) → o.code.Lifts d (d + 1)

namespace Resumable

variable {o : Operand} {os : List Operand} {a d : Nat}

theorem lifts_rest (h : ∀ p ∈ os, p.Lifts) (hm : ∀ p ∈ os, p.monitored = false) :
    (concat (os.map Operand.code)).Lifts d (d + os.length) := by
  induction os generalizing d with
  | nil => exact .empty d
  | cons o os ih =>
    rw [List.forall_mem_cons] at h hm
    have hrest := ih h.2 hm.2 (d := d + 1)
    rw [Nat.add_assoc, Nat.add_comm 1] at hrest
    exact (h.1 d (by simp [hm.1])).append hrest

theorem lifts_loads (slots : List Nat) :
    (concat (slots.map fun slot ↦ .op (.loadScratch slot))).Lifts d (d + slots.length) := by
  induction slots generalizing d with
  | nil => exact .empty d
  | cons n slots ih =>
    have hrest := ih (d := d + 1)
    rw [Nat.add_assoc, Nat.add_comm 1] at hrest
    exact Lifts.append (.op (Nat.zero_le d) rfl) hrest

/-- Operands that are set aside leave the stack as it is. -/
theorem lifts_stores (h : ∀ p ∈ os, p.Lifts) (hm : ∀ p ∈ os, p.monitored → d = 0) (slots : List Nat) :
    (concat ((os.zip slots).map fun p ↦ p.1.code ++ .op (.storeScratch p.2))).Lifts d d := by
  induction os generalizing slots with
  | nil => exact .empty d
  | cons o os ih =>
    rw [List.forall_mem_cons] at h hm
    cases slots with
    | nil => exact .empty d
    | cons n slots =>
      exact ((h.1 d hm.1).append (.op (o := .storeScratch n) (Nat.le_add_left 1 d) rfl)).append
        (ih h.2 hm.2 slots)

/-- The operands of an operation end up on the stack. If one of them listens, nothing else may lie
beneath, and what was there on top is set aside with the first operand. -/
theorem lifts_operands (ho : o.code.Lifts a (d + 1)) (hos : ∀ p ∈ os, p.Lifts)
    (hm : (o :: os).any Operand.monitored → d = 0) (t : Resumable) :
    (Strategy.resumable.operands (o :: os) t).1.Lifts a (d + 1 + os.length) := by
  show (spill (o :: os) (newSlots (spilled (o :: os)) t).1).Lifts a _
  rw [Renders.newSlots_eq]
  obtain ⟨n, hn, hspilled, -, hrest⟩ := spilled_spec (o :: os)
  rw [hspilled]
  by_cases hone : n ≤ 1
  · rw [if_pos hone]
    have hquiet : ∀ p ∈ os, p.monitored = false := fun p hp ↦ hrest p <| by
      obtain _ | _ | n := n
      · exact List.mem_cons_of_mem _ hp
      · exact hp
      · omega
    exact ho.append (lifts_rest hos hquiet)
  · rw [if_neg hone]
    obtain ⟨n, rfl⟩ : ∃ m, n = m + 1 := ⟨n - 1, by omega⟩
    have hlen : n ≤ os.length := by simpa using hn
    rw [List.range'_succ]
    generalize hslots : List.range' (t.storage.scratch + 1) n = slots
    have hlength : slots.length = n := by rw [← hslots, List.length_range']
    have hzero : ∀ p ∈ os, p.monitored → d = 0 := fun p hp hmon ↦
      hm (List.any_eq_true.mpr ⟨p, List.mem_cons_of_mem _ hp, hmon⟩)
    have hstores : (concat (((o :: os).zip (t.storage.scratch :: slots)).map fun p ↦
        p.1.code ++ .op (.storeScratch p.2))).Lifts a d :=
      (ho.append (.op (o := .storeScratch _) (Nat.le_add_left 1 d) rfl)).append
        (lifts_stores hos hzero slots)
    have hloads := lifts_loads (t.storage.scratch :: slots) (d := d)
    have hdrop := lifts_rest (d := d + (slots.length + 1))
      (fun p hp ↦ hos p (List.mem_of_mem_drop hp)) (hlength.symm ▸ hrest)
    have hend : d + (slots.length + 1) + (os.drop slots.length).length = d + 1 + os.length := by
      rw [List.length_drop]
      omega
    rw [hend] at hdrop
    exact Lifts.concat_append (Lifts.concat_append hstores hloads) hdrop

theorem lifts_all (hos : ∀ p ∈ os, p.Lifts) (hm : os.any Operand.monitored → d = 0) (t : Resumable) :
    (Strategy.resumable.operands os t).1.Lifts d (d + os.length) := by
  cases os with
  | nil => exact .empty d
  | cons o os =>
    have hfirst := hos o List.mem_cons_self d fun h ↦ hm (by simp [h])
    have hall := lifts_operands hfirst (fun p hp ↦ hos p (List.mem_cons_of_mem _ hp)) hm t
    rwa [Nat.add_assoc, Nat.add_comm 1] at hall

/-- What is on the stack already counts as the first operand. -/
theorem lifts_onStack (hos : ∀ p ∈ os, p.Lifts) (hm : os.any Operand.monitored → d = 0)
    (t : Resumable) :
    (Strategy.resumable.operands (.onStack :: os) t).1.Lifts (d + 1) (d + 1 + os.length) :=
  lifts_operands (o := .onStack) (.empty (d + 1)) hos hm t

end Resumable

/-- An argument is a value, and its conversion puts one value in place of another. -/
def Arg.Lifts (a : Arg) : Prop := a.node.isValue ∧ ∀ d, a.coercion.Lifts (d + 1) (d + 1)

theorem Arg.Lifts.operand {n : Node} {c : Fragment} {s : Resumable} (h : (Arg.mk n c).Lifts)
    (hn : ∀ d, (0 < n.monitoring → d = 0) → (n.render .resumable s).1.Lifts d (d + n.isValue.toNat)) :
    Operand.Lifts ⟨(n.render .resumable s).1 ++ c, 0 < n.monitoring⟩ := by
  intro d hd
  have hnode := hn d fun h ↦ hd (decide_eq_true h)
  rw [show n.isValue = true from h.1] at hnode
  exact hnode.append (h.2 d)

namespace Node

variable {cx : BuildContext}

theorem Converts.lifts {a : Arg} {ty : Ty} (h : Converts cx a ty) : a.Lifts :=
  ⟨h.1, Coercion.lifts_coerce h.2⟩

theorem Passes.lifts {args : List Arg} {m : MethodInfo} (h : Passes cx args m) :
    ∀ a ∈ args, a.Lifts := by
  unfold Passes at h
  generalize m.params = params at h
  induction h with
  | nil => exact nofun
  | cons h _ ih => exact List.forall_mem_cons.mpr ⟨h.1.lifts, ih⟩

theorem PlanFits.lifts {op : BinaryOp} {left right : Arg} {ty : Ty} {plan : Plan}
    (h : PlanFits cx op left right ty plan) : left.Lifts ∧ right.Lifts := by
  cases plan with
  | arithmetic kind => exact ⟨h.2.2.1.lifts, h.2.2.2.1.lifts⟩
  | compare kind => exact ⟨h.2.1.lifts, h.2.2.1.lifts⟩
  | shortCircuit => exact ⟨h.1.lifts, h.2.1.lifts⟩
  | concat | refEquality =>
    obtain ⟨hl, hr, hc, hc', -⟩ := h
    exact ⟨⟨hl, fun d ↦ hc ▸ .empty (d + 1)⟩, hr, fun d ↦ hc' ▸ .empty (d + 1)⟩

theorem length_renderArgs {σ : Type} (st : Strategy σ) (args : List Arg) (s : σ) :
    (renderArgs st args s).1.length = args.length := by
  induction args generalizing s with
  | nil => rfl
  | cons a args ih =>
    obtain ⟨node, c⟩ := a
    exact congrArg Nat.succ (ih _)

/-- If an argument listens, it reads an observable property. -/
theorem argReads_pos {σ : Type} {st : Strategy σ} {args : List Arg} {s : σ}
    (h : (renderArgs st args s).1.any Operand.monitored) : 0 < argReads args := by
  induction args generalizing s with
  | nil => cases h
  | cons a args ih =>
    obtain ⟨node, c⟩ := a
    have hsum : argReads (.mk node c :: args) = node.monitoring + argReads args := by
      simp [argReads, Arg.node]
    rcases Bool.or_eq_true_iff.mp h with h | h
    · have := of_decide_eq_true h
      omega
    · have := ih h
      omega

theorem lifts_push (value : Literal) (d : Nat) : (Fragment.op value.push).Lifts d (d + 1) := by
  cases value <;> exact .op (Nat.zero_le d) rfl

theorem lifts_plan {op : BinaryOp} {plan : Plan} (h : plan ≠ .shortCircuit) (d : Nat) :
    (Fragment.ops (plan.ops op)).Lifts (d + 2) (d + 1) := by
  cases plan with
  | shortCircuit => exact absurd rfl h
  | refEquality =>
    simp only [Plan.ops]
    split <;>
      simp [Lifts, Op.after]
  | _ => simp [Plan.ops, Lifts, Op.after]

theorem lifts_unary (op : UnaryOp) (kind : Prim) (d : Nat) :
    (Fragment.op (op.op kind)).Lifts (d + 1) (d + 1) := by
  cases op <;> exact .op (Nat.le_add_left 1 d) rfl

mutual

/-- The code of a node puts its value on the stack. If the node listens, there is nothing else. A
type has no value. -/
theorem lifts : (n : Node) → n.Resolved cx → (s : Resumable) → (d : Nat) →
    (0 < n.monitoring → d = 0) → (n.render .resumable s).1.Lifts d (d + n.isValue.toNat)
  | literal _ value, _, s, d, _ => lifts_push value d
  | scopeRead _ (.bound l), _, s, d, _ => .op (Nat.zero_le d) rfl
  | scopeRead _ (.pending _), _, s, d, _ => .op (Nat.zero_le d) rfl
  | typeRef _ _, _, s, d, _ => .empty d
  | access info receiver member, h, s, d, hd => by
    obtain ⟨⟨hf, hmon, -⟩, hr, hm⟩ := h
    have hd : receiver.monitoring + memberReads member > 0 → d = 0 := hmon ▸ hd
    exact (lifts receiver hr s d fun h ↦ hd (by omega)).append
      (liftsMember member hf hm _ d fun h ↦ hd (by omega))
  | construct info method args, h, s, d, hd => by
    obtain ⟨⟨-, hp, hf⟩, ha⟩ := h
    have hmon : info.monitoring = argReads args := congrArg Facts.monitoring hf
    have hargs := Resumable.lifts_all (liftsArgs args hp.lifts ha s)
      (fun h ↦ hd ((argReads_pos h).trans_eq hmon.symm)) (renderArgs .resumable args s).2
    rw [length_renderArgs] at hargs
    rw [render_construct]
    exact hargs.append (.op (Nat.le_add_left _ d) (by simp [Op.after, isValue]))
  | binary info op (.mk left c) (.mk right c') plan, h, s, d, hd => by
    obtain ⟨⟨hf, hmon, -⟩, hl, hr⟩ := h
    obtain ⟨hfl, hfr⟩ := hf.lifts
    have hzero : 0 < left.monitoring + right.monitoring → d = 0 := fun h ↦ hd (h.trans_eq hmon.symm)
    have hleft := hfl.operand (s := s) fun d hd ↦ lifts left hl s d hd
    have hright (t : Resumable) := hfr.operand (s := t) fun d hd ↦ lifts right hr t d hd
    by_cases hp : plan = .shortCircuit
    · subst hp
      rw [render_shortCircuit]
      have hfirst := hleft d fun h ↦ hzero (Nat.add_pos_left (of_decide_eq_true h) _)
      have hsecond (t : Resumable) := hright t d fun h ↦
        hzero (Nat.add_pos_right _ (of_decide_eq_true h))
      by_cases hm : 0 < right.monitoring
      · simp only [hm]
        exact hfirst.branch op _ _ _ (hsecond _)
      · simp only [hm]
        exact hfirst.shortCircuit op (hsecond _)
    · rw [render_binary _ _ _ _ _ _ _ _ hp]
      have hmonitored : ([⟨(left.render .resumable s).1 ++ c, 0 < left.monitoring⟩,
          ⟨(right.render .resumable (left.render .resumable s).2).1 ++ c', 0 < right.monitoring⟩] :
          List Operand).any Operand.monitored → d = 0 := fun h ↦ hzero (by
        simp only [List.any_cons, List.any_nil, Bool.or_false, Bool.or_eq_true,
          decide_eq_true_eq] at h
        omega)
      have hboth := Resumable.lifts_all
        (List.forall_mem_cons.mpr ⟨hleft, List.forall_mem_singleton.mpr (hright _)⟩) hmonitored
        (right.render .resumable (left.render .resumable s).2).2
      exact hboth.append (lifts_plan hp d)
  | unary info op (.mk operand c) kind, h, s, d, hd => by
    obtain ⟨⟨hmon, -, -, hc, -⟩, ho⟩ := h
    have hoperand := hc.lifts.operand (s := s) (fun d hd ↦ lifts operand ho s d hd) d
      fun h ↦ hd ((of_decide_eq_true h).trans_eq hmon.symm)
    exact hoperand.append (lifts_unary op kind d)

theorem liftsMember {receiver : Node} {ty : Ty} : (m : Member) →
    MemberFits cx receiver ty m → memberForall (Fits cx) m → (s : Resumable) → (d : Nat) →
    (0 < memberReads m → d = 0) →
    (renderMember .resumable m s).1.Lifts (d + receiver.isValue.toNat) (d + 1)
  | .property p, ⟨hv, _⟩, _, s, d, hd => by
    rw [renderMember_property, hv]
    split
    · next ho =>
      obtain rfl : d = 0 := hd (by simp [memberReads, ho])
      exact ⟨rfl, rfl⟩
    · exact .op (Nat.le_add_left 1 d) rfl
  | .staticField f, ⟨_, _, _, hv, _⟩, _, s, d, _ => by
    rw [hv]
    exact .op (Nat.zero_le d) rfl
  | .method m args, hf, h, s, d, hd => by
    obtain ⟨hv, -, hp, -⟩ := hf
    have hargs := Resumable.lifts_onStack (liftsArgs args hp.lifts h s)
      (fun h ↦ hd (argReads_pos h)) (renderArgs .resumable args s).2
    rw [length_renderArgs] at hargs
    rw [renderMember_method, hv]
    exact hargs.append (.op (by simp only [Op.pops]; omega) (by
      simp only [Op.after, Op.pops, Op.pushes]
      omega))
  | .staticCall m args, hf, h, s, d, hd => by
    obtain ⟨_, _, _, hv, -, hp, -⟩ := hf
    have hargs := Resumable.lifts_all (liftsArgs args hp.lifts h s)
      (fun h ↦ hd (argReads_pos h)) (renderArgs .resumable args s).2
    rw [length_renderArgs] at hargs
    rw [renderMember_staticCall, hv]
    exact hargs.append (.op (Nat.le_add_left _ d) (by simp [Op.after]))
  | .index (.mk node c) reading, hf, h, s, d, hd => by
    obtain ⟨hv, hc⟩ : receiver.isValue ∧ (Arg.mk node c).Lifts := by
      cases reading with
      | chars => exact ⟨hf.1, hf.2.2.1.lifts⟩
      | method m => exact ⟨hf.1, hf.2.2.1.lifts _ List.mem_cons_self⟩
    have hindex := hc.operand (s := s) fun d hd ↦ lifts node h s d hd
    have hboth := Resumable.lifts_onStack (List.forall_mem_singleton.mpr hindex)
      (fun h ↦ hd (by simpa [memberReads, Arg.node] using h)) (node.render .resumable s).2
    rw [renderMember_index, hv]
    exact hboth.append (by cases reading <;> exact .op (Nat.le_add_left 2 d) rfl)

theorem liftsArgs : (args : List Arg) → (∀ a ∈ args, a.Lifts) → argsForall (Fits cx) args →
    (s : Resumable) → ∀ o ∈ (renderArgs .resumable args s).1, o.Lifts
  | [], _, _, s => nofun
  | .mk node c :: rest, hp, h, s => by
    rw [List.forall_mem_cons] at hp
    exact List.forall_mem_cons.mpr ⟨hp.1.operand fun d hd ↦ lifts node h.1 s d hd,
      liftsArgs rest hp.2 h.2 (node.render .resumable s).2⟩

end

end Node

namespace CompileContext

open Exec Fragment

variable {cx : CompileContext} {scope : Scope} {parsed : ParsedExpr} {tree : Tree}

/-- Every instruction of an update routine has one depth of the stack, whichever way control comes to
it: it finds its operands there, and where it passes control to is at the depth that it leaves. Steps
resume and updates end with an empty stack, only the result lies there when it is published, and the
two sides of every operator and of every guard meet at one depth. So no run finds the stack at
another depth. Scope loads are not in the routine: it reads what was captured. -/
theorem stack_depths_agree {target : Option BindingTarget} {b : DynamicBinding}
    (htree : cx.buildTree scope parsed = .ok tree)
    (hcompile : cx.compileArtifact tree target = .ok b) :
    let rendered := tree.root.render .resumable .start
    let R := b.artifact.update
    ∃ coercion, Targets cx tree (target.map BindingTarget.ty) coercion ∧
      let code := updateRoutine rendered.2 b.artifact.flags rendered.1 coercion
      let at_ := fun k ↦ code.keyTarget R (.step k)
      code.finish = .ok R ∧ ∃ depth : Nat → Nat, R.StackMap depth ∧
      (∀ k ∈ b.artifact.steps, ∃ p, (code.keyed.lookup (.step k)).map R.target = some p ∧
        depth p = 0) ∧
      (∃ p, (code.keyed.lookup .exit).map R.target = some p ∧ depth p = 0) ∧
      (∃ start middle stop, CodeAt R at_ (some b.artifact.flags) rendered.1 start middle ∧
        CodeAt R at_ (some b.artifact.flags) coercion middle stop ∧
        R.ops[stop]? = some .publish ∧ depth stop = 1 ∧
        rendered.1.Meets R depth at_ (some b.artifact.flags) start middle ∧
        coercion.Meets R depth at_ (some b.artifact.flags) middle stop) ∧
      ∀ (r : Registry) (update : Updater) (fuel : Nat) (frame : Frame) (n : Nat) (m m' : Machine),
        m.pc = 0 → m.stack = [] → Executes r update fuel frame R n m m' →
        m'.stack.length = depth m'.pc := by
  intro rendered R
  obtain ⟨hres, hvalue⟩ := Tree.build_resolved htree
  obtain ⟨coercion, ht, -, hc⟩ := compileArtifact_eq hcompile (Node.Resolved.isPlain tree.root hres)
  obtain ⟨fault, middle, stop, hp⟩ := hc.positions
  have hbody := Node.lifts tree.root hres .start 0 fun _ ↦ rfl
  rw [hvalue] at hbody
  have hcoercion : coercion.Lifts 1 1 := by
    cases target with
    | none => exact (show coercion = .empty from ht) ▸ .empty 1
    | some t => exact Coercion.lifts_coerce ht 0
  obtain ⟨depth, hmap, hsteps, hexit, hmeets, hmeets'⟩ :=
    hc.exists_stackMap hp hbody.1 hbody.2 hcoercion.1 hcoercion.2
  rw [hc.flags]
  refine ⟨coercion, ht, hc.update.finish, depth, hmap, fun k hk ↦ ?_, ?_, ?_, ?_⟩
  · exact ⟨_, hc.map_target_step.mpr ⟨hk, rfl⟩, hsteps k (hc.mem_steps.mp hk)⟩
  · exact ⟨_, hc.map_target_exit.mpr rfl, hexit⟩
  · have hpublish := hp.publishAt.head
    exact ⟨fault + 1, middle, stop, hp.bodyAt, hp.coercionAt, hpublish,
      (hmap.levels _ _ hpublish).publishes rfl, hmeets, hmeets'⟩
  · intro r update fuel frame n m m' hpc hstack hrun
    refine hmap.length_stack hrun ?_
    rw [hstack, hpc, hmap.enters]
    rfl

end CompileContext

open Sample CompileContext in
/-- Both operands of a conjunction listen to a property. Its steps resume at 8, 24 and 48, and 64 is
the exit. -/
theorem stack_depths_agree_conjunction :
    ∃ depth : Nat → Nat, binding.artifact.update.StackMap depth ∧
      (∀ pc ∈ [8, 24, 48, 64], depth pc = 0) ∧
      ∃ stop, binding.artifact.update.ops[stop]? = some .publish ∧ depth stop = 1 := by
  obtain ⟨coercion, ht, -, depth, hmap, hsteps, ⟨exit, hexit, hzero⟩,
    ⟨-, -, stop, -, -, hpublish, hone, -⟩, -⟩ := stack_depths_agree buildTree_eq compileArtifact_eq
  obtain rfl : coercion = .empty := ht
  have hdepth (k pc : Nat) (hk : k ∈ binding.artifact.steps)
      (hpc : ((updateRoutine (tree.root.render .resumable .start).2 binding.artifact.flags
        (tree.root.render .resumable .start).1 .empty).keyed.lookup (.step k)).map
        binding.artifact.update.target = some pc) : depth pc = 0 := by
    obtain ⟨p, hp, hd⟩ := hsteps k hk
    obtain rfl : p = pc := Option.some.inj (hp.symm.trans hpc)
    exact hd
  obtain rfl : exit = 64 := Option.some.inj (hexit.symm.trans (by decide +kernel))
  have hstart := hdepth 0 8 (by decide +kernel) (by decide +kernel)
  have hleft := hdepth 1 24 (by decide +kernel) (by decide +kernel)
  have hright := hdepth 2 48 (by decide +kernel) (by decide +kernel)
  refine ⟨depth, hmap, ?_, stop, hpublish, hone⟩
  simp [hstart, hleft, hright, hzero]

end LiveBinding
