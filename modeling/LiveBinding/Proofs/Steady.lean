import LiveBinding.Proofs.FoldedBinding
import LiveBinding.Proofs.Incremental
import LiveBinding.Proofs.LiteralText

namespace LiveBinding

open Exec Fragment

/-- What is read of a world by code that is run outside of a binding. -/
abbrev World.seen (r : Registry) (answer : MethodId → List Value → Except RuntimeError Value)
    (w : World) : Reading := w.reading r (asked answer) w.frame #[]

/-- Code is run in a world on a stack. The host may have recorded something since. -/
abbrev World.Runs (w : World) (m : Machine) (σ : List Value) : Prop := Evaluating w m ⟨σ, fun _ ↦ .null⟩

/-- Code that is run outside of a binding on the stack `ρ` comes to an outcome if it has enough steps:
it leaves the stack that `τ` makes of a result, or it fails. -/
def Fragment.Ends {α : Type} (r : Registry) (w : World) (f : Fragment) (ρ : List Value)
    (τ : α → List Value) (x : Except RuntimeError α) : Prop :=
  ∃ N, ∀ fuel ≥ N, ∀ m, w.Runs m ρ →
    let o := f.run r (updateInstance r fuel) fuel { locals := w.frame } none m
    (∃ a, x = .ok a ∧ o.result = .ok () ∧ w.Runs o.machine (τ a)) ∨
      ∃ e, x = .error e ∧ o.result = .error (.error e)

theorem Stop.exists_raise {α : Type} {y : Except Stop α} (h : y ≠ .error .exhausted) :
    ∃ x, y = Stop.raise x := by
  rcases y with (e | _) | a
  · exact ⟨.error e, rfl⟩
  · exact absurd rfl h
  · exact ⟨.ok a, rfl⟩

namespace Fragment.Ends

variable {α β : Type} {r : Registry} {w : World} {f g : Fragment} {ρ σ : List Value}
variable {τ : α → List Value} {υ : β → List Value} {x : Except RuntimeError α}
variable {answer : MethodId → List Value → Except RuntimeError Value}

/-- Plain code ends as it means to. -/
theorem of_turns (hr : r.Functional w.objects answer) (hf : f.isPlain) {e : Effect α}
    (h : f.Turns False (w.seen r answer) ρ τ e) (hx : e.result = Stop.raise x) : f.Ends r w ρ τ x := by
  have hrel := h fun _ ↦ .null
  -- what code means does not depend on the fuel, so that one bound is enough for all calls
  obtain ⟨N, hN⟩ := hr.exists_enough (f.den (w.seen r answer) ⟨ρ, fun _ ↦ .null⟩).calls
  refine ⟨N, fun fuel hfuel m hm ↦ ?_⟩
  have hfollows : (f.run r (updateInstance r fuel) fuel { locals := w.frame } none m).Follows _
      (Evaluating w) [] _ (f.den (w.seen r answer) ⟨ρ, fun _ ↦ .null⟩) :=
    @follows_plain r _ _ { locals := w.frame } w _ #[] _ _ (Evaluating.relates w)
      (hr.answers (updateInstance r fuel) fuel) none _ hf m _ hm
  have hends := hfollows.ends fun he ↦
    Stop.raise_ne_exhausted x (hx.symm.trans (hrel.of_left_error he))
  obtain ⟨-, call, hcall, hnot⟩ | ⟨-, ⟨c, hc, ho, hrun⟩ | ⟨s, hs, ho⟩⟩ := hends
  · exact absurd (hN _ fuel hfuel call hcall) hnot
  · obtain ⟨a, ha, hstack⟩ := hrel.of_left_ok hc
    refine .inl ⟨a, ?_, ho, hrun.stack.trans hstack, hrun.world⟩
    rcases x with _ | b
    · cases hx.symm.trans ha
    · cases hx.symm.trans ha
      rfl
  · have hs' := hx.symm.trans (hrel.of_left_error hs)
    rcases x with e | _
    · cases hs'
      exact .inr ⟨e, rfl, ho⟩
    · cases hs'

theorem empty (a : α) (h : ρ = τ a) : Fragment.empty.Ends r w ρ τ (.ok a) :=
  ⟨0, fun _ _ _ hm ↦ .inl ⟨a, rfl, rfl, h ▸ hm⟩⟩

theorem append {h : α → Except RuntimeError β} (hf : f.Ends r w ρ τ x)
    (hg : ∀ a, x = .ok a → g.Ends r w (τ a) υ (h a)) : (f ++ g).Ends r w ρ υ (x >>= h) := by
  obtain ⟨N, hN⟩ := hf
  cases x with
  | error e =>
    refine ⟨N, fun fuel hfuel m hm ↦ .inr ⟨e, rfl, ?_⟩⟩
    obtain ⟨_, ha, -⟩ | ⟨_, he, ho⟩ := hN fuel hfuel m hm
    · cases ha
    · cases he
      exact (congrArg Outcome.result (andThen_of_error ho)).trans ho
  | ok a =>
    obtain ⟨M, hM⟩ := hg a rfl
    refine ⟨max N M, fun fuel hfuel m hm ↦ ?_⟩
    intro o
    obtain ⟨_, ha, ho, hrun⟩ | ⟨_, he, -⟩ := hN fuel (by omega) m hm
    · cases ha
      have heq : o = _ := andThen_of_ok ho
      rw [heq]
      exact hM fuel (by omega) _ hrun
    · cases he

theorem map {k : α → β} (h : f.Ends r w ρ (fun a ↦ υ (k a)) x) : f.Ends r w ρ υ (x.map k) := by
  obtain ⟨N, hN⟩ := h
  refine ⟨N, fun fuel hfuel m hm ↦ ?_⟩
  obtain ⟨a, rfl, ho, hrun⟩ | ⟨e, rfl, ho⟩ := hN fuel hfuel m hm
  · exact .inl ⟨k a, rfl, ho, hrun⟩
  · exact .inr ⟨e, rfl, ho⟩

/-- The left operand of `&&` or `||`, which decides or is followed by the right one. -/
theorem shortCircuit {op : BinaryOp} {x y : Except RuntimeError Value} (hf : f.Ends r w σ (· :: σ) x)
    (hx : ∀ a, x = .ok a → ∃ b, a = .bool b) (hg : g.Ends r w σ (· :: σ) y) :
    (Fragment.shortCircuit op f g).Ends r w σ (· :: σ)
      (x >>= fun a ↦ a.toBool >>= fun b ↦ if op.skips b then pure a else y) := by
  obtain ⟨N, hN⟩ := hf
  obtain ⟨M, hM⟩ := hg
  refine ⟨max N M, fun fuel hfuel m hm ↦ ?_⟩
  intro o
  obtain ⟨a, rfl, ho, hrun⟩ | ⟨e, rfl, ho⟩ := hN fuel (by omega) m hm
  · obtain ⟨b, rfl⟩ := hx a rfl
    have heq : o = _ := andThen_of_ok ho
    have hchoice : ((.ok (.bool b) : Except RuntimeError Value) >>= fun a ↦ a.toBool >>= fun b ↦
        if op.skips b then pure a else y) = if op.skips b then .ok (.bool b) else y := rfl
    rw [heq, decide_eq hrun.stack, hchoice]
    by_cases hb : op.skips b
    · simp only [Value.toBool, hb, if_true]
      exact .inl ⟨.bool b, rfl, rfl, rfl, hrun.world⟩
    · simp only [Value.toBool, hb, Bool.false_eq_true, if_false]
      exact hM fuel (by omega) _ ⟨rfl, hrun.world⟩
  · exact .inr ⟨e, rfl, (congrArg Outcome.result (andThen_of_error ho)).trans ho⟩

/-- A routine of the code comes to what the code does. -/
theorem evaluate_eq {x : Except RuntimeError Value} {R : Routine} (h : f.Ends r w [] (fun v ↦ [v]) x)
    (hf : f.isStraight) (hR : Assembler.Assembles ((f.emit none .empty).emit .return) R) :
    ∃ N, ∀ fuel ≥ N, (evaluate r fuel R w).1 = Stop.raise x := by
  obtain ⟨N, hN⟩ := h
  refine ⟨N + R.size, fun fuel hfuel ↦ ?_⟩
  have hfin : Finishes r (updateInstance r fuel) fuel { locals := w.frame } R _ { world := w } _ :=
    finishes_fragment hR hf w
  obtain ⟨⟨pc, hexec⟩, -⟩ := hfin (fuel - R.size)
  rw [Nat.sub_add_cancel (by omega)] at hexec
  obtain ⟨v, rfl, ho, hrun⟩ | ⟨e, rfl, ho⟩ := hN fuel (by omega) { world := w } ⟨rfl, w.events, rfl⟩
  · simp only [evaluate, Run.bind_apply, Run.view_apply, runRoutine_ok hexec ho, hrun.stack]
    rfl
  · exact evaluate_error (runRoutine_error hexec ho fun _ _ ↦ rfl)

end Fragment.Ends

/-- Code comes to the same outcome in two worlds. A result has a property. -/
def Fragment.Steady {α : Type} (r : Registry) (w w' : World) (f : Fragment) (ρ : List Value)
    (τ : α → List Value) (P : α → Prop) : Prop :=
  ∃ x, f.Ends r w ρ τ x ∧ f.Ends r w' ρ τ x ∧ ∀ a, x = .ok a → P a

namespace Fragment.Steady

variable {α β : Type} {r : Registry} {w w' : World} {f g : Fragment} {ρ σ : List Value}
variable {τ : α → List Value} {υ : β → List Value} {P : α → Prop} {Q : β → Prop}

theorem empty (a : α) (h : ρ = τ a) (ha : P a) : Fragment.empty.Steady r w w' ρ τ P :=
  ⟨.ok a, .empty a h, .empty a h, fun _ hb ↦ Except.ok.inj hb ▸ ha⟩

theorem append (hf : f.Steady r w w' ρ τ P) (hg : ∀ a, P a → g.Steady r w w' (τ a) υ Q) :
    (f ++ g).Steady r w w' ρ υ Q := by
  obtain ⟨x, hx, hx', hP⟩ := hf
  cases x with
  | error e =>
    exact ⟨.error e, hx.append (h := fun _ ↦ .error e) nofun, hx'.append (h := fun _ ↦ .error e) nofun,
      nofun⟩
  | ok a =>
    obtain ⟨y, hy, hy', hQ⟩ := hg a (hP a rfl)
    refine ⟨y, hx.append (h := fun _ ↦ y) fun b hb ↦ ?_, hx'.append (h := fun _ ↦ y) fun b hb ↦ ?_, hQ⟩
    · exact Except.ok.inj hb ▸ hy
    · exact Except.ok.inj hb ▸ hy'

theorem map {k : α → β} (h : f.Steady r w w' ρ (fun a ↦ υ (k a)) P) (hk : ∀ a, P a → Q (k a)) :
    f.Steady r w w' ρ υ Q := by
  obtain ⟨x, hx, hx', hP⟩ := h
  refine ⟨x.map k, hx.map, hx'.map, fun b hb ↦ ?_⟩
  obtain ⟨a, ha, rfl⟩ := map_eq_ok hb
  exact hk a (hP a ha)

theorem mono {P' : α → Prop} (h : f.Steady r w w' ρ τ P) (hP : ∀ a, P a → P' a) :
    f.Steady r w w' ρ τ P' := by
  obtain ⟨x, hx, hx', hy⟩ := h
  exact ⟨x, hx, hx', fun a ha ↦ hP a (hy a ha)⟩

/-- The left operand of `&&` or `||`, which decides in both worlds or in none of them. -/
theorem shortCircuit {op : BinaryOp} {P : Value → Prop} (hP : ∀ v, P v → ∃ b, v = .bool b)
    (hf : f.Steady r w w' σ (· :: σ) P) (hg : g.Steady r w w' σ (· :: σ) P) :
    (Fragment.shortCircuit op f g).Steady r w w' σ (· :: σ) P := by
  obtain ⟨x, hx, hx', hPx⟩ := hf
  obtain ⟨y, hy, hy', hPy⟩ := hg
  have hbool (v : Value) (hv : x = .ok v) : ∃ b, v = .bool b := hP v (hPx v hv)
  refine ⟨_, hx.shortCircuit hbool hy, hx'.shortCircuit hbool hy', fun v hv ↦ ?_⟩
  obtain ⟨a, ha, hv⟩ := except_bind_ok hv
  obtain ⟨b, -, hv⟩ := except_bind_ok hv
  split at hv
  · cases hv
    exact hPx v ha
  · exact hPy v hv

/-- The first operand may be on the stack already. -/
theorem onStack (hf : f.Steady r w w' ρ τ P) : (Operand.onStack.code ++ f).Steady r w w' ρ τ P :=
  (empty (α := Unit) (P := fun _ ↦ True) () rfl trivial).append fun _ _ ↦ hf

/-- Operands one after the other. -/
theorem concat {T : β → Value → Prop} {fs : List Fragment} {ts : List β}
    (h : List.Forall₂ (fun f t ↦ ∀ σ, f.Steady r w w' σ (· :: σ) (T t)) fs ts) (σ : List Value) :
    (Fragment.concat fs).Steady r w w' σ (fun vs ↦ vs.reverse ++ σ) (List.Forall₂ T ts) := by
  induction h generalizing σ with
  | nil => exact .empty [] rfl .nil
  | @cons f t fs ts hf _ ih =>
    refine (hf σ).append fun v hv ↦ .map (k := (v :: ·)) ?_ fun vs hvs ↦ .cons hv hvs
    simp only [List.reverse_cons, List.append_assoc, List.singleton_append]
    exact ih (v :: σ)

end Fragment.Steady

/-- Two hosts that conform, over the same objects and with the same frame. Their cells may hold
different values. -/
structure World.Twins (r : Registry) (answer : MethodId → List Value → Except RuntimeError Value)
    (w w' : World) : Prop where
  functional : r.Functional w.objects answer
  conforms : w.Conforms r answer
  conforms' : w'.Conforms r answer
  objects : w'.objects = w.objects
  frame : w'.frame = w.frame

namespace Reading

variable (rd : Reading) (values : CellId → Value)

/-- What cells hold is read at points only. -/
theorem all_value (list : List Op) (c : Config) :
    { rd with value := values }.all list c = rd.all list c := by
  have hop (op : Op) (c : Config) : { rd with value := values }.ordinary op c = rd.ordinary op c := by
    cases op <;> rfl
  induction list generalizing c with
  | nil => rfl
  | cons op list ih =>
    rw [all, all, hop]
    exact bind_congr ih

theorem result_value (list : List Op) (vs : List Value) :
    { rd with value := values }.result list vs = rd.result list vs :=
  congrArg _ (all_value rd values list _)

theorem apply_value {r : Registry} {c : Fragment} {s t : Ty} (h : c.Coerces r s t) (v : Value) :
    c.apply { rd with value := values } v = c.apply rd v := by
  unfold Fragment.apply
  cases h with
  | ops | ofNull => exact congrArg _ (all_value rd values _ _)
  | guarded =>
    simp only [Fragment.den]
    split <;> exact congrArg _ (all_value rd values _ _)

end Reading

namespace World.Twins

variable {r : Registry} {answer : MethodId → List Value → Except RuntimeError Value} {w w' : World}
variable (h : w.Twins r answer w')
include h

theorem classOf : w'.classOf = w.classOf := by
  funext o
  simp only [World.classOf, World.object?, h.objects]

theorem seen : (w.seen r answer).Conforms w.classOf (· ≠ .exhausted) := h.conforms.reading w.frame #[]

theorem seen' : (w'.seen r answer).Conforms w.classOf (· ≠ .exhausted) :=
  h.classOf ▸ h.conforms'.reading w'.frame #[]

/-- What is read of the two hosts is the same, but for what cells hold. -/
theorem agrees : (w.seen r answer).Agrees { w'.seen r answer with value := w.cellValue } w.classOf where
  registry := rfl
  text v hv := by simp only [World.reading, text_of_objects h.objects r hv]
  cell := by
    funext o p
    simp only [World.reading, observable?, slot?, object?, h.objects]
  value := rfl
  plain o d c name p hd hc hp hobs := by
    have hslot' : w'.slot? o p.name = w.slot? o p.name := by simp only [slot?, object?, h.objects]
    simp only [World.reading, World.get?, hslot']
    cases hslot : w.slot? o p.name with
    | none => rfl
    | some slot =>
      obtain ⟨v, rfl, -⟩ := h.conforms.plain o d c name p hd hc hp hobs slot hslot
      rfl
  answer _ _ _ := rfl

variable {α : Type} {f c : Fragment} {ρ σ : List Value} {τ : α → List Value} {P : α → Prop}

/-- Plain code that comes to one and the same in both hosts. -/
theorem of_turns (hf : f.isPlain) {e e' : Effect α} (ht : f.Turns False (w.seen r answer) ρ τ e)
    (ht' : f.Turns False (w'.seen r answer) ρ τ e') (he : e' = e)
    (hy : Yields P (· ≠ .exhausted) e.result) : f.Steady r w w' ρ τ P := by
  subst he
  obtain ⟨x, hx⟩ := Stop.exists_raise fun he ↦ hy.2 _ he rfl
  refine ⟨x, .of_turns h.functional hf ht hx, .of_turns (h.objects ▸ h.functional) hf ht' hx, ?_⟩
  rintro a rfl
  exact hy.1 a hx

/-- Instructions that leave the same result in both hosts. -/
theorem leaves {list : List Op} (vs : List Value) {P : Value → Prop} (hlist : list.all Op.isPlain)
    (hl : ∀ u : World, (u.seen r answer).Conforms w.classOf (· ≠ .exhausted) →
      (u.seen r answer).Leaves list vs P (· ≠ .exhausted))
    (heq : { w'.seen r answer with value := w.cellValue }.result list vs =
      (w.seen r answer).result list vs) :
    (Fragment.ops list).Steady r w w' (vs ++ σ) (· :: σ) P :=
  h.of_turns hlist (.of_leaves (hl w h.seen)) (.of_leaves (hl w' h.seen'))
    ((Reading.result_value ..).symm.trans heq) (hl w h.seen).yields

theorem source {list : List Op} {t : Ty} (hs : Op.Source r list t) :
    (Fragment.ops list).Steady r w w' σ (· :: σ) (r.HasTy w.classOf t) :=
  h.leaves [] hs.isPlain (fun _ hu ↦ Reading.leaves_source hu hs)
    (congrArg _ (h.agrees.all_source h.seen hs _))

theorem coerces {s t : Ty} {v : Value} (hc : c.Coerces r s t) (hv : r.HasTy w.classOf s v) :
    c.Steady r w w' (v :: σ) (· :: σ) (r.HasTy w.classOf t) :=
  h.of_turns hc.isPlain (.of_coerces h.seen hc hv) (.of_coerces h.seen' hc hv)
    ((Reading.apply_value _ _ hc v).symm.trans (h.agrees.apply_eq h.seen hc hv)) (hc.sound h.seen hv).2

/-- One instruction on operands that are of declared types. -/
theorem instruction {op : Op} {vs : List Value} {ts : List Ty} {P : Value → Prop} (hop : op.isPlain)
    (hread : op.readsPlace = false) (hvs : List.Forall₂ (r.HasTy w.classOf) ts vs)
    (hl : ∀ u : World, (u.seen r answer).Conforms w.classOf (· ≠ .exhausted) →
      (u.seen r answer).Leaves [op] vs.reverse P (· ≠ .exhausted)) :
    (Fragment.op op).Steady r w w' (vs.reverse ++ σ) (· :: σ) P := by
  have hcells := Registry.HasTy.isCell_of_forall₂ hvs
  refine h.leaves _ ?_ hl (h.agrees.result_eq hread fun v hv ↦ hcells v (List.mem_reverse.mp hv))
  rw [List.all_cons, hop]
  rfl

/-- A call on a receiver and arguments that are of declared types. -/
theorem invoke {m : MethodInfo} {t : Ty} {name : String} {arity : Nat} {v : Value} {vs : List Value}
    (hm : m ∈ r.model.methods t name arity) (hv : r.HasTy w.classOf t v)
    (hvs : List.Forall₂ (r.HasTy w.classOf) m.params vs) :
    (Fragment.op (.invoke m.id vs.length)).Steady r w w' (vs.reverse ++ v :: σ) (· :: σ)
      (r.HasTy w.classOf m.ret) := by
  obtain ⟨hd, ho, -, hs⟩ := Registry.mem_methods hm
  have hstack : vs.reverse ++ v :: σ = (v :: vs).reverse ++ σ := by simp
  have hreceiver := hv.assign (Registry.isAssignable_of_mem_lineage ho)
  rw [hstack]
  refine h.instruction rfl rfl (.cons hreceiver hvs) fun u hu ↦ ?_
  rw [List.reverse_cons]
  exact Reading.leaves_invoke hu hd hs hreceiver hvs

/-- A property that is not observable. -/
theorem property {t : Ty} {name : String} {p : PropertyInfo} {v : Value}
    (hp : r.model.property t name = some p) (hobs : p.flags.observable = false)
    (hv : r.HasTy w.classOf t v) :
    (Fragment.op (.getProperty p.name)).Steady r w w' (v :: σ) (· :: σ) (r.HasTy w.classOf p.ty) := by
  have hplain {q : Prop} (ho : p.flags.observable) : q := by
    rw [hobs] at ho
    cases ho
  have hread : (w'.seen r answer).read p v = (w.seen r answer).read p v := by
    rw [← h.agrees.read_eq hp hv]
    simp only [Reading.read, hobs, Bool.false_eq_true, if_false]
  exact h.of_turns rfl (Node.turns_getProperty hplain) (Node.turns_getProperty hplain) hread
    (Reading.yields_read h.seen hp hv)

end World.Twins

/-- The code of a loadable does the same in two worlds: it pushes one and the same value of the declared
type, or it fails with one and the same error. -/
structure Loadable.Steady (r : Registry) (w w' : World) (l : Loadable) : Prop where
  straight : l.load.isStraight
  steady : ∀ σ, l.load.Steady r w w' σ (· :: σ) (r.HasTy w.classOf l.ty)

namespace Node

variable {r : Registry} {answer : MethodId → List Value → Except RuntimeError Value} {w w' : World}
variable {cx : BuildContext} (h : w.Twins r answer w') (hm : cx.model = r.model)
variable (hl : ∀ name l, cx.scope.lookup? name = some (.bound l) → l.Steady r w w')
include h

theorem steady_convert {n : Node} {c f : Fragment} {t : Ty} {σ : List Value} (hv : n.isValue)
    (hc : c.Coerces r n.ty t)
    (hf : f.Steady r w w' σ (n.pushed · σ) fun v ↦ n.isValue → r.HasTy w.classOf n.ty v) :
    (f ++ c).Steady r w w' σ (· :: σ) (r.HasTy w.classOf t) := by
  refine hf.append fun v ht ↦ ?_
  rw [pushed_of_isValue hv]
  exact h.coerces hc (ht hv)

include hm hl

set_option linter.unusedSectionVars false

mutual

/-- A node that reads nothing observable comes to the same in both hosts. -/
theorem steady_node : (n : Node) → n.Resolved cx → n.monitoring = 0 → (σ : List Value) →
    (n.render .direct ()).1.Steady r w w' σ (n.pushed · σ) fun v ↦ n.isValue → r.HasTy w.classOf n.ty v
  | literal info value, hr, _, σ => by
    have hty : info.ty = .ofLiteral value := congrArg Facts.ty hr
    have hturns (u : World) : (Fragment.op value.push).Turns False (u.seen r answer) σ (· :: σ)
        (pure (.ofLiteral value)) := by
      intro store
      refine .of_ok (a := ⟨.ofLiteral value :: σ, store⟩) ?_ rfl rfl nofun
      cases value <;> rfl
    refine h.of_turns (isPlain_push value) (hturns w) (hturns w') rfl (.ok fun _ ↦ ?_)
    show r.HasTy w.classOf info.ty _
    rw [hty]
    exact .ofLiteral value
  | scopeRead info (.bound l), hr, _, σ => by
    obtain ⟨⟨name, hname⟩, hf⟩ := hr
    have hty : info.ty = l.ty := congrArg Facts.ty hf
    refine ((hl name l hname).steady σ).mono fun v hv _ ↦ ?_
    show r.HasTy w.classOf info.ty v
    rwa [hty]
  | scopeRead info (.pending t), _, _, σ =>
    h.of_turns rfl (fun _ ↦ .fail _) (fun _ ↦ .fail _) rfl (.error nofun)
  | typeRef .., _, _, σ => .empty .null rfl nofun
  | access info receiver member, hr, hn, σ => by
    obtain ⟨⟨hf, hmon, -⟩, hreceiver, hmember⟩ := hr
    have hsum : receiver.monitoring + memberReads member = 0 := hmon.symm.trans hn
    refine (steady_node receiver hreceiver (by omega) σ).append fun v hv ↦ ?_
    exact (steady_member member hf hmember (by omega) v hv σ).mono fun v hv _ ↦ hv
  | construct info m args, hr, hn, σ => by
    obtain ⟨⟨⟨owner, hc⟩, hp, hf⟩, ha⟩ := hr
    have hty : info.ty = m.ret := congrArg Facts.ty hf
    have hmon : info.monitoring = argReads args := congrArg Facts.monitoring hf
    rw [hm] at hc
    obtain ⟨hd, -, hs⟩ := Registry.mem_constructors hc
    rw [render_construct]
    refine (Steady.concat (steady_args args hp ha (hmon.symm.trans hn)) σ).append fun vs hvs ↦ ?_
    rw [show args.length = vs.length from hp.length_eq.trans hvs.length_eq]
    refine Steady.mono (P := r.HasTy w.classOf m.ret) ?_ fun v hv _ ↦ ?_
    · exact h.instruction rfl rfl hvs fun u hu ↦ Reading.leaves_construct hu hd hs hvs
    · show r.HasTy w.classOf info.ty v
      rwa [hty]
  | binary info op (.mk left c) (.mk right c') plan, hr, hn, σ => by
    obtain ⟨⟨hplan, hmon, -⟩, hleft, hright⟩ := hr
    have hsum : left.monitoring + right.monitoring = 0 := hmon.symm.trans hn
    refine Steady.mono (P := r.HasTy w.classOf info.ty) ?_ fun v hv _ ↦ hv
    by_cases hp : plan = .shortCircuit
    · subst hp
      obtain ⟨hcl, hcr, hty⟩ := hplan
      rw [render_shortCircuit, hty]
      refine Steady.shortCircuit (fun v hv ↦ Value.bool_of_prim? hv) ?_ ?_
      · exact steady_convert h hcl.1 (Coercion.coerces_of_coerce? (hm ▸ hcl.2))
          (steady_node left hleft (by omega) σ)
      · exact steady_convert h hcr.1 (Coercion.coerces_of_coerce? (hm ▸ hcr.2))
          (steady_node right hright (by omega) σ)
    · obtain ⟨s, t, u, o, list, hops, hcl, hcr, hvl, hvr, ho, hchain⟩ := hplan.typed hp hm
      rw [render_binary _ _ _ _ _ _ _ _ hp]
      have hoperands : List.Forall₂ (fun f t ↦ ∀ σ, f.Steady r w w' σ (· :: σ) (r.HasTy w.classOf t))
          [(left.render .direct ()).1 ++ c, (right.render .direct ()).1 ++ c'] [s, t] :=
        .cons (fun σ ↦ steady_convert h hvl hcl (steady_node left hleft (by omega) σ))
          (.cons (fun σ ↦ steady_convert h hvr hcr (steady_node right hright (by omega) σ)) .nil)
      refine (Steady.concat hoperands σ).append fun vs hvs ↦ ?_
      obtain ⟨a, _, ha, hrest, rfl⟩ := List.forall₂_cons_left_iff.mp hvs
      obtain ⟨b, _, hb, hnil, rfl⟩ := List.forall₂_cons_left_iff.mp hrest
      cases hnil
      refine h.leaves [b, a] (isPlain_plan op plan) (fun u hu ↦ ?_)
        (h.agrees.result_plan plan op ha.isCell hb.isCell)
      rw [hops]
      exact Reading.leaves_typedChain hu ho hchain (.cons hb (.cons ha .nil))
  | unary info op (.mk operand c) kind, hr, hn, σ => by
    obtain ⟨hf, ho⟩ := hr
    have hmon : info.monitoring = operand.monitoring := hf.1
    have hc := hf.2.2.2.1
    refine Steady.mono (P := r.HasTy w.classOf info.ty) ?_ fun v hv _ ↦ hv
    refine (steady_convert h hc.1 (Coercion.coerces_of_coerce? (hm ▸ hc.2))
      (steady_node operand ho (hmon.symm.trans hn) σ)).append fun v hv ↦ ?_
    have hop : (op.op kind).isPlain ∧ (op.op kind).readsPlace = false := by
      cases op <;> exact ⟨rfl, rfl⟩
    exact h.instruction hop.1 hop.2 (.cons hv .nil) fun u hu ↦ hf.unary_leaves hu hv

theorem steady_member {receiver : Node} {ty : Ty} : (m : Member) → MemberFits cx receiver ty m →
    memberForall (Fits cx) m → memberReads m = 0 → (v : Value) →
    (receiver.isValue → r.HasTy w.classOf receiver.ty v) → (σ : List Value) →
    (renderMember .direct m ()).1.Steady r w w' (receiver.pushed v σ) (· :: σ) (r.HasTy w.classOf ty)
  | .property p, hf, _, hn, v, hv, σ => by
    obtain ⟨hr, ⟨name, hp⟩, rfl⟩ := hf
    rw [hm] at hp
    have hobs : p.flags.observable = false := by simpa [memberReads] using hn
    rw [pushed_of_isValue hr, renderMember_property, if_neg (by simp [hobs])]
    exact h.property hp hobs (hv hr)
  | .staticField f, hf, _, _, v, _, σ => by
    obtain ⟨_, owner, name, rfl, hfield, rfl⟩ := hf
    rw [hm] at hfield
    exact h.source (.mk (.getStatic hfield) (.nil (TypeModel.isAssignable_refl _ _)))
  | .method m args, hf, ha, hn, v, hv, σ => by
    obtain ⟨hr, ⟨name, hmem⟩, hp, rfl⟩ := hf
    rw [hm] at hmem
    rw [pushed_of_isValue hr, renderMember_method]
    refine (Steady.concat (steady_args args hp ha hn) (v :: σ)).onStack.append fun vs hvs ↦ ?_
    rw [show args.length = vs.length from hp.length_eq.trans hvs.length_eq]
    exact h.invoke hmem (hv hr) hvs
  | .staticCall m args, hf, ha, hn, v, _, σ => by
    obtain ⟨_, owner, name, rfl, hmem, hp, rfl⟩ := hf
    rw [hm] at hmem
    obtain ⟨hd, -, hs⟩ := Registry.mem_staticMethods hmem
    rw [renderMember_staticCall]
    refine (Steady.concat (steady_args args hp ha hn) σ).append fun vs hvs ↦ ?_
    rw [show args.length = vs.length from hp.length_eq.trans hvs.length_eq]
    exact h.instruction rfl rfl hvs fun u hu ↦ Reading.leaves_invokeStatic hu hd hs hvs
  | .index (.mk node c) reading, hf, ha, hn, v, hv, σ => by
    rw [renderMember_index]
    have hindex {t : Ty} (hc : Converts cx (.mk node c) t) :
        (Fragment.concat [Operand.onStack.code, (node.render .direct ()).1 ++ c]).Steady r w w' (v :: σ)
          (fun vs ↦ vs.reverse ++ v :: σ) (List.Forall₂ (r.HasTy w.classOf) [t]) :=
      (Steady.concat (.cons (fun σ ↦ steady_convert h hc.1 (Coercion.coerces_of_coerce? (hm ▸ hc.2))
        (steady_node node ha hn σ)) .nil) (v :: σ)).onStack
    cases reading with
    | chars =>
      obtain ⟨hr, hs, hc, rfl⟩ := hf
      rw [pushed_of_isValue hr]
      refine (hindex hc).append fun vs hvs ↦ ?_
      obtain ⟨i, _, hi, hnil, rfl⟩ := List.forall₂_cons_left_iff.mp hvs
      cases hnil
      have hv := hs ▸ hv hr
      exact h.instruction rfl rfl (.cons hv (.cons hi .nil)) fun u hu ↦
        Reading.leaves_typed hu .charAt (.cons hi (.cons hv .nil))
    | method m =>
      obtain ⟨hr, hmem, hp, rfl⟩ := hf
      obtain ⟨param, _, ⟨hc, -⟩, hnil, hparams⟩ := List.forall₂_cons_left_iff.mp hp
      cases hnil
      rw [hm] at hmem
      rw [pushed_of_isValue hr]
      refine (hindex hc).append fun vs hvs ↦ ?_
      have hlength : vs.length = 1 := hvs.length_eq.symm
      rw [← hparams] at hvs
      have hinvoke := h.invoke (σ := σ) hmem (hv hr) hvs
      rwa [hlength] at hinvoke

theorem steady_args {params : List Ty} : (args : List Arg) →
    List.Forall₂ (fun a ty ↦ Converts cx a ty ∧ a.node.ty ≠ .void) args params →
    argsForall (Fits cx) args → argReads args = 0 →
    List.Forall₂ (fun f t ↦ ∀ σ, f.Steady r w w' σ (· :: σ) (r.HasTy w.classOf t))
      ((renderArgs .direct args ()).1.map Operand.code) params
  | [], hp, _, _ => by
    cases hp
    exact .nil
  | .mk node c :: rest, hp, ha, hn => by
    obtain ⟨param, params, ⟨hc, -⟩, hrest, rfl⟩ := List.forall₂_cons_left_iff.mp hp
    have hsum : node.monitoring + argReads rest = 0 := hn
    refine .cons (fun σ ↦ ?_) (steady_args rest hrest ha.2 (by omega))
    exact steady_convert h hc.1 (Coercion.coerces_of_coerce? (hm ▸ hc.2))
      (steady_node node ha.1 (by omega) σ)

end

end Node

namespace Coercion

open Op

variable {r : Registry} {text : String} {t : Ty} {p : Prim} {ops : List Op}

theorem source_constant (h : constant? text p = some ops) {rest : List Op} (hr : Chain r rest (.prim p) t) :
    Source r (ops ++ rest) t := by
  unfold constant? at h
  split at h
  case h_2 =>
    split at h <;> cases h
    exact .mk (.pushChar _) hr
  case h_7 =>
    obtain ⟨x, -, h⟩ := Option.bind_eq_some_iff.mp h
    dsimp only at h
    split at h <;> cases h
    exact .mk (.pushFloat _) hr
  all_goals obtain ⟨x, -, rfl⟩ := Option.map_eq_some_iff.mp h
  · exact .mk (.pushBool _) hr
  · exact .mk (.pushInt _) (.op (.convert rfl rfl) hr)
  · exact .mk (.pushInt _) (.op (.convert rfl rfl) hr)
  · exact .mk (.pushInt _) hr
  · exact .mk (.pushLong _) hr
  · exact .mk (.pushDouble _) hr

/-- The type of what text means at a target is one that the target takes, or the one that the static
field of a constant is declared with. -/
def TypeOfText (r : Registry) (t u : Ty) : Prop :=
  r.model.isAssignable u t ∨ ∃ c names name f, t = .class c ∧
    r.model.enumConstants (.class c) = some names ∧ name ∈ names ∧
    r.model.staticField (.class c) name = some f ∧ u = f.ty

/-- What the text of an attribute means is pushed. The field of a constant may be declared with another
type than the class has. -/
theorem source_ofText {c : Fragment} (h : ofText? r.model text t = some c) :
    ∃ list u, c = .ops list ∧ Source r list u ∧ TypeOfText r t u := by
  have hself (t : Ty) : r.model.isAssignable t t := TypeModel.isAssignable_refl _ t
  have hrefl (t : Ty) : Chain r [] t t := .nil (hself t)
  unfold ofText? at h
  split at h
  · cases h
    exact ⟨_, _, rfl, .mk (.pushStr _) (hrefl _), .inl (hself _)⟩
  · cases h
    exact ⟨_, _, rfl, .mk (.pushStr _) (hrefl _), .inl rfl⟩
  · obtain ⟨list, hlist, rfl⟩ := Option.map_eq_some_iff.mp h
    exact ⟨list, _, rfl, by simpa using source_constant hlist (hrefl _), .inl (hself _)⟩
  · obtain ⟨list, hlist, rfl⟩ := Option.map_eq_some_iff.mp h
    exact ⟨_, _, rfl, source_constant hlist (.op (.box _) (hrefl _)), .inl (hself _)⟩
  · next k =>
    split at h
    · next names hnames =>
      obtain ⟨f, hf, rfl⟩ := Option.map_eq_some_iff.mp h
      obtain ⟨name, hname, hfield⟩ := Option.bind_eq_some_iff.mp hf
      exact ⟨_, _, rfl, .mk (.getStatic hfield) (hrefl _), .inr ⟨k, names, name, f, rfl, hnames,
        mem_of_matchConstant? hname, hfield, rfl⟩⟩
    · obtain ⟨m, hm, rfl⟩ := Option.map_eq_some_iff.mp h
      have hp := List.find?_some hm
      simp only [Bool.and_eq_true, beq_iff_eq] at hp
      obtain ⟨hd, ha, hs⟩ := Registry.mem_staticMethods (List.mem_of_find?_eq_some hm)
      obtain ⟨x, hx⟩ := List.length_eq_one_iff.mp ha
      have hparams : m.params = [.str] := by
        rw [hx] at hp ⊢
        rw [Option.some.inj hp.1.2]
      exact ⟨_, _, rfl, .mk (.pushStr _) (.call hd hs hparams (.nil hp.2)), .inl (hself _)⟩
  · cases h
  · cases h

end Coercion

theorem Fragment.composable_isStraight : Composable (fun f ↦ f.isStraight) where
  plain _ h := (Layout.plain .start h).straight
  append f g hf hg := by
    show (f.isStraight && g.isStraight) = true
    rw [hf, hg]
    rfl
  shortCircuit op f g hf hg := by
    show (f.isStraight && g.isStraight) = true
    rw [hf, hg]
    rfl

namespace CompileContext

variable {cx : CompileContext} {scope : Scope} {target : Option BindingTarget} {b : StaticBinding}
variable {source : String} {parsed : ParsedExpr} {tree : Tree}

/-- A static binding is a text that is pushed, or a tree that reads nothing observable. -/
theorem compileBinding_static {r : Registry} (hm : cx.model = r.model)
    (h : cx.compileBinding source scope target = .ok (.static b)) :
    (∃ list u, b.code = .ops list ∧ Op.Source r list u ∧ Coercion.TypeOfText r b.ty u) ∨
      ∃ parsed tree, cx.buildTree scope parsed = .ok tree ∧ tree.root.info.evaluable ∧
        tree.root.monitoring = 0 ∧ cx.renderStatic tree (target.map BindingTarget.ty) = .ok b := by
  have h := mapError_eq_ok h
  obtain ⟨content, -, h⟩ := except_bind_ok h
  cases content with
  | literal text =>
    left
    cases target with
    | none =>
      cases h
      have hrefl := TypeModel.isAssignable_refl r.model .str
      exact ⟨_, _, rfl, .mk (.pushStr text) (.nil hrefl), .inl hrefl⟩
    | some t =>
      obtain ⟨c, hc, hb⟩ := map_eq_ok h
      cases hb
      exact Coercion.source_ofText (hm ▸ requireText_eq hc)
  | expression parsed =>
    obtain ⟨tree, htree, h⟩ := except_bind_ok h
    unfold compileTree at h
    split at h
    · cases h
    · next he =>
      split at h
      · next hstatic =>
        obtain ⟨b', hb, hs⟩ := map_eq_ok h
        cases hs
        exact .inr ⟨parsed, tree, htree, by simpa using he, by simpa [Tree.isStatic] using hstatic, hb⟩
      · obtain ⟨d, -, hd⟩ := map_eq_ok h
        cases hd

/-- A tree that reads nothing observable and has no target is rendered as it is. -/
theorem compileBinding_of_tree (hparse : parseAttribute source = .ok (.expression parsed))
    (htree : cx.buildTree scope parsed = .ok tree) (he : tree.root.info.evaluable) (hs : tree.isStatic) :
    cx.compileBinding source scope none = .ok (.static ⟨tree.ty, tree.root.renderDirect⟩) := by
  simp only [compileBinding, hparse, htree, compileTree, he, hs, bind, Except.bind, Bool.not_true,
    Bool.false_eq_true, if_false, if_true]
  rfl

section

variable {r : Registry} {answer : MethodId → List Value → Except RuntimeError Value} {w w' : World}
variable (hm : cx.model = r.model) (hw : w.Twins r answer w')
include hm hw

theorem steady_renderStatic {target : Option Ty}
    (hn : IsOperand ⟨cx.model, scope, parsed, cx.fold⟩ tree.root) (hroot : tree.root.monitoring = 0)
    (hl : ∀ name l, scope.lookup? name = some (.bound l) → l.Steady r w w')
    (h : cx.renderStatic tree target = .ok b) :
    ∃ ty, b.code.Steady r w w' [] (fun v ↦ [v]) (r.HasTy w.classOf ty) := by
  have hbody := @Node.steady_node r answer w w' ⟨cx.model, scope, parsed, cx.fold⟩ hw hm hl tree.root hn.1
    hroot []
  have hcoerced {ty : Ty} (h : (Coercion.require cx.model tree.ty ty).map
      (fun c ↦ StaticBinding.mk ty (tree.root.renderDirect ++ c)) = .ok b) :
      b.code.Steady r w w' [] (fun v ↦ [v]) (r.HasTy w.classOf ty) := by
    obtain ⟨c, hc, rfl⟩ := map_eq_ok h
    exact Node.steady_convert hw hn.2 (Coercion.coerces_of_coerce? (hm ▸ require_eq hc)) hbody
  unfold renderStatic at h
  split at h
  · cases h
    have hpushed : (tree.root.pushed · []) = fun v ↦ [v] :=
      funext fun v ↦ Node.pushed_of_isValue hn.2 v []
    exact ⟨tree.ty, (hpushed ▸ hbody).mono fun v hv ↦ hv hn.2⟩
  · split at h
    · split at h
      · exact ⟨_, hcoerced h⟩
      · obtain ⟨c, hc, rfl⟩ := map_eq_ok h
        obtain ⟨list, u, rfl, hs, -⟩ := Coercion.source_ofText (hm ▸ requireText_eq hc)
        exact ⟨u, hw.source hs⟩
    · exact ⟨_, hcoerced h⟩

/-- A static binding does not go stale: it evaluates to the same value, or fails with the same error,
whatever the cells of its host hold. -/
theorem static_steady {R : Routine} (h : cx.compileBinding source scope target = .ok (.static b))
    (hR : b.routine = .ok R)
    (hl : ∀ name l, scope.lookup? name = some (.bound l) → l.Steady r w w') :
    ∃ x, ∃ N, ∀ fuel ≥ N, (evaluate r fuel R w).1 = Stop.raise x ∧
      (evaluate r fuel R w').1 = Stop.raise x := by
  obtain ⟨hstraight, ty, x, hx, hx', -⟩ : b.code.isStraight ∧
      ∃ ty, b.code.Steady r w w' [] (fun v ↦ [v]) (r.HasTy w.classOf ty) := by
    obtain ⟨list, u, hcode, hs, -⟩ | ⟨parsed, tree, htree, -, hroot, hb⟩ := compileBinding_static hm h
    · have hplain : (Fragment.ops list).isPlain := hs.isPlain
      rw [hcode]
      exact ⟨(Layout.plain .start hplain).straight, u, hw.source hs⟩
    · have hn := Tree.build_resolved htree
      refine ⟨composable_renderStatic composable_isStraight hn.1 (fun name l hname ↦ ?_) hb,
        steady_renderStatic hm hw hn hroot hl hb⟩
      exact (hl name l hname).straight
  have hassembles := assemble_eq hR
  obtain ⟨N, hN⟩ := hx.evaluate_eq hstraight hassembles
  obtain ⟨M, hM⟩ := hx'.evaluate_eq hstraight hassembles
  exact ⟨x, max N M, fun fuel hfuel ↦ ⟨hN fuel (by omega), hM fuel (by omega)⟩⟩

end

end CompileContext

/-- The code of a name does the same in two hosts if what the name stands for does not depend on cells. -/
theorem Loadable.Gives.steady {r : Registry} {answer : MethodId → List Value → Except RuntimeError Value}
    {w w' : World} {l : Loadable} {v : Value} (hgives : l.Gives r answer w.frame (·.objects = w.objects) v)
    (hw : w.Twins r answer w') (hv : r.HasTy w.classOf l.ty v) : l.Steady r w w' := by
  refine ⟨(Layout.plain .start hgives.plain).straight, fun σ ↦ ?_⟩
  have hturns := hgives.turns w' hw.objects σ
  rw [← hw.frame] at hturns
  exact hw.of_turns hgives.plain (hgives.turns w rfl σ) hturns rfl (.ok hv)

namespace Sample

/-- `Box.pick(x) == x` -/
def pickedSame : String := "$\x7bBox.pick(x) == x\x7d"

theorem twins_box (m n : Int32) : (box m).Twins picking picking.answer (box n) :=
  ⟨functional_picking _, conforms_box m, conforms_box n, rfl, rfl⟩

/-- A static binding evaluates to different values in two worlds that are as they are declared and differ
in what cells hold. -/
structure GoesStale (cx : CompileContext) (r : Registry) (scope : Scope) (source : String) (w w' : World)
    (v v' : Value) : Prop where
  compiled : ∃ b R, cx.compileBinding source scope none = .ok (.static b) ∧ b.routine = .ok R ∧
    (evaluate r 60 R w).1 = .ok v ∧ (evaluate r 60 R w').1 = .ok v'
  silent : r.methods = #[]
  declared : w.isDeclared r ∧ w'.isDeclared r
  objects : w'.objects = w.objects
  frame : w'.frame = w.frame
  differs : ¬v.same v'

end Sample

open Sample CompileContext in
theorem static_steady_picked :
    let tree := treeOf pickingContext scope (expressionOf pickedSame)
    pickingContext.compileBinding pickedSame scope none = .ok (.static ⟨tree.ty, tree.root.renderDirect⟩) ∧
      ∃ x, ∃ N, ∀ fuel ≥ N, (evaluate picking fuel (routineOf tree) (box 1)).1 = Stop.raise x ∧
        (evaluate picking fuel (routineOf tree) (box 2)).1 = Stop.raise x := by
  intro tree
  have htree : pickingContext.buildTree scope (expressionOf pickedSame) = .ok tree :=
    treeOf_eq (by decide +kernel)
  have hcompiled := compileBinding_of_tree (expressionOf_eq (by decide +kernel)) htree (by decide +kernel)
    (by decide +kernel)
  exact ⟨hcompiled, static_steady rfl (twins_box 1 2) hcompiled (routineOf_eq (by decide +kernel))
    fun _ _ hl ↦ (gives_scope rfl hl).steady (twins_box 1 2) ((serves_box 1).typed _ _ hl)⟩

open Sample CompileContext in
/-- A name that stands for what a cell holds makes a static binding stale. So does an object that is not
of its declared type, and keeps in a cell what that type declares as not observable. -/
theorem static_stale_following :
    GoesStale linkedContext linked (Scope.empty.bind following) "$\x7bx\x7d" chain
      (chain.modifyCell ⟨5⟩ ({ · with value := .object ⟨1⟩ })) (.object ⟨0⟩) (.object ⟨1⟩) ∧
    GoesStale mixedContext mixed (Scope.empty.bind (.local ⟨0⟩ "x" (.class ⟨1⟩) 0)) "$\x7bx.p\x7d" (box 1)
      (box 2) (.int 1) (.int 2) := by
  constructor
  all_goals
    exact ⟨⟨_, _, compileBinding_of_tree (expressionOf_eq (by decide +kernel))
      (treeOf_eq (by decide +kernel)) (by decide +kernel) (by decide +kernel),
      routineOf_eq (by decide +kernel), by decide +kernel, by decide +kernel⟩, rfl, by decide +kernel, rfl, rfl,
      by decide +kernel⟩

end LiveBinding
