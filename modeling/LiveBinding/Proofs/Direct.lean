import LiveBinding.Proofs.Loading

namespace LiveBinding

open Exec Fragment

namespace Fragment

theorem isPlain_append {f g : Fragment} (hf : f.isPlain) (hg : g.isPlain) : (f ++ g).isPlain := by
  show (f.isPlain && g.isPlain) = true
  rw [hf, hg]
  rfl

/-- A property that plain code has, and other code has if its parts do. -/
structure Composable (P : Fragment → Prop) : Prop where
  plain : ∀ f, f.isPlain → P f
  append : ∀ f g, P f → P g → P (f ++ g)
  shortCircuit : ∀ op f g, P f → P g → P (.shortCircuit op f g)

theorem composable_isPlain : Composable (fun f ↦ f.isPlain) where
  plain _ h := h
  append _ _ := isPlain_append
  shortCircuit _ _ _ hf hg := isPlain_append hf hg

theorem Composable.concat {P : Fragment → Prop} (hP : Composable P) {fs : List Fragment}
    (h : ∀ f ∈ fs, P f) : P (concat fs) := by
  induction fs with
  | nil => exact hP.plain _ rfl
  | cons f fs ih =>
    exact hP.append f _ (h f List.mem_cons_self) (ih fun g hg ↦ h g (List.mem_cons_of_mem _ hg))

end Fragment

namespace Node

variable {cx : BuildContext} {P : Fragment → Prop} (hP : Composable P)
variable (hload : ∀ name l, cx.scope.lookup? name = some (.bound l) → P l.load)
include hP hload

set_option linter.unusedSectionVars false

mutual

/-- Code that reads everything every time is made of plain code and of the code of loadables. -/
theorem direct_composable : (n : Node) → n.Resolved cx → P (n.render .direct ()).1
  | literal _ value, _ => hP.plain _ (isPlain_push value)
  | scopeRead _ (.bound l), h => by
    obtain ⟨⟨name, hname⟩, -⟩ := h
    exact hload name l hname
  | scopeRead _ (.pending _), _ => hP.plain _ rfl
  | typeRef _ _, _ => hP.plain _ rfl
  | access _ receiver member, h =>
    hP.append _ _ (direct_composable receiver h.2.1) (direct_composableMember member h.1.1 h.2.2)
  | construct info method args, h => by
    obtain ⟨⟨-, hp, -⟩, ha⟩ := h
    exact hP.append _ _ (hP.concat (direct_composableArgs args hp.isPlain ha)) (hP.plain _ rfl)
  | binary info op (.mk left c) (.mk right c') plan, h => by
    have hplain := Resolved.isPlain _ h
    obtain ⟨-, hl, hr⟩ := h
    have hleft : P ((left.render .direct ()).1 ++ c) :=
      hP.append _ _ (direct_composable left hl) (hP.plain c (hplain c (by simp [coercions])))
    have hright : P ((right.render .direct ()).1 ++ c') :=
      hP.append _ _ (direct_composable right hr) (hP.plain c' (hplain c' (by simp [coercions])))
    by_cases hp : plan = .shortCircuit
    · subst hp
      rw [render_shortCircuit]
      exact hP.shortCircuit op _ _ hleft hright
    · rw [render_binary _ _ _ _ _ _ _ _ hp]
      exact hP.append _ _ (hP.append _ _ hleft (hP.append _ _ hright (hP.plain _ rfl)))
        (hP.plain _ (isPlain_plan op plan))
  | unary _ op (.mk operand c) kind, h =>
    hP.append _ _ (hP.append _ _ (direct_composable operand h.2)
      (hP.plain c (Resolved.isPlain _ h c (by simp [coercions])))) (hP.plain _ (isPlain_unary op kind))

theorem direct_composableMember {receiver : Node} {ty : Ty} : (m : Member) →
    MemberFits cx receiver ty m → memberForall (Fits cx) m → P (renderMember .direct m ()).1
  | .property p, _, _ => by
    rw [renderMember_property]
    split <;> exact hP.plain _ rfl
  | .staticField _, _, _ => hP.plain _ rfl
  | .method method args, hf, h => by
    obtain ⟨-, -, hp, -⟩ := hf
    exact hP.append _ _ (hP.append _ _ (hP.plain _ rfl)
      (hP.concat (direct_composableArgs args hp.isPlain h))) (hP.plain _ rfl)
  | .staticCall method args, hf, h => by
    obtain ⟨-, -, -, -, -, hp, -⟩ := hf
    exact hP.append _ _ (hP.concat (direct_composableArgs args hp.isPlain h)) (hP.plain _ rfl)
  | .index (.mk node c) reading, hf, h => by
    have hc := memberIsPlain _ hf h c (by simp [memberCoercions])
    refine hP.append _ _ (hP.append _ _ (hP.plain _ rfl) (hP.append _ _ (hP.append _ _
      (direct_composable node h) (hP.plain c hc)) (hP.plain _ rfl))) (hP.plain _ ?_)
    cases reading <;> rfl

theorem direct_composableArgs : (args : List Arg) → (∀ a ∈ args, a.coercion.isPlain) →
    argsForall (Fits cx) args → ∀ f ∈ (renderArgs .direct args ()).1.map Operand.code, P f
  | [], _, _ => fun _ h ↦ nomatch h
  | .mk node _ :: rest, hp, h => List.forall_mem_cons.mpr
    ⟨hP.append _ _ (direct_composable node h.1) (hP.plain _ (hp _ List.mem_cons_self)),
      direct_composableArgs rest (fun a ha ↦ hp a (List.mem_cons_of_mem _ ha)) h.2⟩

end

end Node

/-- The calls that evaluating a routine makes. -/
def evaluationCalls (r : Registry) (fuel : Nat) (R : Routine) (w : World) : List Call :=
  history r (updateInstance r fuel) fuel { locals := w.frame } R fuel { world := w }

theorem evaluate_error {r : Registry} {fuel : Nat} {R : Routine} {w : World} {x : Stop}
    (h : (runRoutine r (updateInstance r fuel) fuel { locals := w.frame } R w).1 = .error x) :
    (evaluate r fuel R w).1 = .error x := by
  simp only [evaluate, Run.bind_apply, Run.view_apply]
  rcases hx : runRoutine r (updateInstance r fuel) fuel { locals := w.frame } R w with ⟨a, w'⟩
  rw [hx] at h
  obtain rfl : a = .error x := h
  rfl

/-- What evaluating plain code comes to, if the code does what a computation does. -/
theorem evaluate_of_follows {r : Registry} {fuel : Nat} {w : World} {f : Fragment} {R : Routine}
    {enough : MethodId → List Value → Prop} {st : Store} {e : Effect Config}
    (hR : Assembler.Assembles ((f.emit none .empty).emit .return) R) (hf : f.isPlain)
    (hfollows : (f.run r (updateInstance r fuel) fuel { locals := w.frame } none
      { world := w }).Follows enough (Evaluating w) [] st e)
    (hends : e.result ≠ .error .exhausted) (hpush : ∀ c, e.result = .ok c → c.stack ≠ [])
    (hfuel : (R.size ≤ fuel ∧ ∀ call ∈ e.calls, enough call.method call.args) ∨
      (evaluate r fuel R w).1 ≠ .error .exhausted) :
    evaluationCalls r fuel R w = e.calls ∧
    ((∃ v σ st, e.result = .ok ⟨v :: σ, st⟩ ∧ (evaluate r fuel R w).1 = .ok v) ∨
      ∃ x, e.result = .error (.error x) ∧ (evaluate r fuel R w).1 = .error (.error x)) := by
  have hfin : Finishes r (updateInstance r fuel) fuel { locals := w.frame } R _ { world := w } _ :=
    finishes_fragment hR (Layout.plain .start hf).straight w
  obtain ⟨⟨pc, hexec⟩, hcalls⟩ := hfin.execute_of (hfuel.imp And.left fun hne h ↦ hne (evaluate_error h))
  obtain ⟨hx, call, hcall, hnot⟩ | ⟨hcalls', ⟨c, hok, ho, hrun⟩ | ⟨x, hx, ho⟩⟩ := hfollows.ends hends
  · obtain ⟨-, henough⟩ | hne := hfuel
    · exact absurd (henough call hcall) hnot
    · refine absurd (evaluate_error (runRoutine_exhausted ?_)) hne
      rw [hexec]
      simp only [Exec.answer, hx]
  · obtain ⟨_ | ⟨v, σ⟩, st'⟩ := c
    · exact absurd rfl (hpush _ hok)
    refine ⟨hcalls.trans hcalls', .inl ⟨v, σ, st', hok, ?_⟩⟩
    simp only [evaluate, Run.bind_apply, Run.view_apply, runRoutine_ok hexec ho, hrun.stack]
    rfl
  · obtain ⟨x⟩ | _ := x
    · exact ⟨hcalls.trans hcalls', .inr ⟨x, hx, evaluate_error (runRoutine_error hexec ho fun _ _ ↦ rfl)⟩⟩
    · exact absurd hx hends

/-- In a host whose methods are functions, evaluating plain code comes to what the code means. -/
theorem evaluate_follows {r : Registry} {fuel : Nat} {w : World} {f : Fragment} {R : Routine}
    {answer : MethodId → List Value → Except RuntimeError Value} (hr : r.Functional w.objects answer)
    (hR : Assembler.Assembles ((f.emit none .empty).emit .return) R) (hf : f.isPlain) (st : Store)
    {e : Effect Config} (he : f.den (w.reading r (asked answer) w.frame #[]) ⟨[], st⟩ = e)
    (hends : e.result ≠ .error .exhausted) (hpush : ∀ c, e.result = .ok c → c.stack ≠ [])
    (hfuel : (R.size ≤ fuel ∧ ∀ call ∈ e.calls, Registry.Functional.Enough r (updateInstance r fuel) fuel
        w.objects call.method call.args) ∨ (evaluate r fuel R w).1 ≠ .error .exhausted) :
    evaluationCalls r fuel R w = e.calls ∧
    ((∃ v σ st, e.result = .ok ⟨v :: σ, st⟩ ∧ (evaluate r fuel R w).1 = .ok v) ∨
      ∃ x, e.result = .error (.error x) ∧ (evaluate r fuel R w).1 = .error (.error x)) := by
  have hfollows : (f.run r (updateInstance r fuel) fuel { locals := w.frame } none
      { world := w }).Follows _ (Evaluating w) [] st
        (f.den (w.reading r (asked answer) w.frame #[]) ⟨[], st⟩) :=
    @follows_plain r _ _ { locals := w.frame } w _ #[] _ _ (Evaluating.relates w)
      (hr.answers (updateInstance r fuel) fuel) none _ hf { world := w } ⟨[], st⟩
      ⟨rfl, w.events, rfl⟩
  rw [he] at hfollows
  exact evaluate_of_follows hR hf hfollows hends hpush hfuel

/-- A host without methods. -/
def Registry.mute (r : Registry) : Registry := { r with methods := #[] }

theorem Registry.functional_mute (r : Registry) (objects : Array HostObject) :
    r.mute.Functional objects r.mute.answer :=
  functional (fun _ hd ↦ absurd hd (Array.not_mem_empty _)) objects

/-- What is read of a world by code that calls nothing. -/
def World.still (r : Registry) (w : World) : Reading :=
  w.reading r.mute (asked r.mute.answer) w.frame #[]

/-- In every host, evaluating code that calls nothing comes to what the code means. -/
theorem evaluate_silent {r : Registry} {fuel : Nat} {w : World} {f : Fragment} {R : Routine}
    (hR : Assembler.Assembles ((f.emit none .empty).emit .return) R) (hf : f.isSilent)
    {x : Except RuntimeError Value}
    (hx : f.Turns True (w.still r) [] (fun v ↦ [v]) (.of (Stop.raise x))) (hfuel : R.size ≤ fuel) :
    (evaluate r fuel R w).1 = Stop.raise x := by
  have hplain := isPlain_of_isSilent hf
  have hfollows : (f.run r (updateInstance r fuel) fuel { locals := w.frame } none
      { world := w }).Follows _ (Evaluating w) [] _ (f.den (w.still r) ⟨[], fun _ ↦ .null⟩) :=
    run_methods hf r #[] .. ▸ @follows_plain r.mute _ _ { locals := w.frame } w _ #[] _ _
      (Evaluating.relates w) ((r.functional_mute w.objects).answers (updateInstance r fuel) fuel) none _
      hplain { world := w } ⟨[], fun _ ↦ .null⟩ ⟨rfl, w.events, rfl⟩
  obtain ⟨hcalls, hresult⟩ := hx fun _ ↦ .null
  generalize f.den (w.still r) ⟨[], fun _ ↦ .null⟩ = e at hfollows hcalls hresult
  have hnone : e.calls = [] := hcalls trivial
  have heval (hends : e.result ≠ .error .exhausted) (hpush : ∀ c, e.result = .ok c → c.stack ≠ []) :=
    (evaluate_of_follows hR hplain hfollows hends hpush (.inl ⟨hfuel, by simp [hnone]⟩)).2
  obtain ⟨c, v, hc, hv, hstack⟩ | ⟨s, he, hs⟩ := hresult
  · obtain ⟨v', σ, st, hok, heval⟩ | ⟨_, herr, -⟩ := heval (by simp [hc]) fun d hd ↦ by
      cases hc.symm.trans hd
      simp [hstack]
    · cases hc.symm.trans hok
      obtain ⟨rfl, -⟩ := List.cons.inj hstack
      exact heval.trans hv.symm
    · cases hc.symm.trans herr
  · have hends : e.result ≠ .error .exhausted := by
      rw [he]
      rintro ⟨⟩
      exact Stop.raise_ne_exhausted x hs
    obtain ⟨v, σ, st, hok, -⟩ | ⟨_, herr, heval⟩ := heval hends fun d hd ↦ by
      cases he.symm.trans hd
    · cases he.symm.trans hok
    · cases he.symm.trans herr
      exact heval.trans hs.symm

end LiveBinding
