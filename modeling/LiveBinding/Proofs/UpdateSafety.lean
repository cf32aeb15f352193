import LiveBinding.Proofs.CodeSafety

namespace LiveBinding

open Exec

/-- Plain code listens to nothing and has no branches. -/
theorem Fragment.within_of_isPlain {f : Fragment} (h : f.isPlain) (body : Fragment) : f.Within body := by
  have hslots := slots_of_isPlain h
  refine ⟨fun p hp ↦ ?_, hslots ▸ List.nil_subset _, ?_⟩
  · have hmem := f.points_subset_slots (List.mem_map_of_mem hp)
    rw [hslots] at hmem
    cases hmem
  · induction f with
    | ops => exact List.nil_subset _
    | append f g ih ih' | nullGuard f g ih ih' | shortCircuit _ f g ih ih' =>
      simp only [isPlain, Bool.and_eq_true] at h
      exact List.append_subset.mpr
        ⟨ih h.1 (slots_of_isPlain h.1), ih' h.2 (slots_of_isPlain h.2)⟩
    | flagTest | flagAssign | observe | branch => cases h

variable {r : Registry} {E : RuntimeError → Prop} {w₀ : World}

namespace Contracts

variable {Θ : Contracts r E w₀} {i : InstanceId} {C : Contract r E w₀} {w : World} {frame : Frame}

/-- A binding is there. -/
def Found (i : InstanceId) (w : World) : Prop := ∃ s, w.instance? i = some s

/-- The result of a binding is not locked. -/
def Unlocked (i : InstanceId) (w : World) : Prop :=
  ∃ s, w.instance? i = some s ∧ ((w.cell? s.result).map Cell.isLocked).getD false = false

theorem stable_found : Θ.Stable (Found i) := fun _ _ hw ⟨s, hs⟩ ↦
  have ⟨s', hs', _⟩ := hw.kept i s hs
  ⟨s', hs'⟩

section

variable {update : Updater} {fuel : Nat} (hr : r.Conforms E w₀) (hu : Θ.Updates update)
variable (hb : frame.binding = some i) (hC : Θ i = some C)

/-- An instruction that runs host code on the world. -/
theorem runs_lift {op : Op} {P Q : World → List Value → Prop}
    (h : ∀ m, Θ.Sound m.world → P m.world m.stack → ∃ (x : Run Unit) (m' : Machine)
      (P' Q' : World → Prop), step r update fuel frame default op m = lift x m' ∧
        m'.world = m.world ∧ Θ.Stable P' ∧ Θ.Stable Q' ∧ Θ.Safely P' x (fun _ ↦ Q') ∧
        P' m.world ∧ ∀ w, Θ.Grows m.world w → Q' w → Q w m'.stack) :
    Θ.Runs P (runOp r update fuel frame op) Q := by
  intro w₁ m hm
  obtain ⟨x, m', P', Q', hstep, hworld, hP', hQ', hsafe, hpre, hpost⟩ := h m hm.1.sound hm.2
  have hrun := hsafe.holding m'.stack hP' (fun _ ↦ hQ') m'.world m'.world
    ⟨(hworld ▸ hm.1.sound).since, hworld ▸ hpre⟩
  simp only [runOp, hstep, lift]
  rcases hx : Run.holding m'.stack x m'.world with ⟨(e | -) | u, w'⟩ <;> rw [hx] at hrun
  · exact ⟨⟨hrun.1.sound, hm.1.grows.trans (hworld ▸ hrun.1.grows)⟩, hrun.2⟩
  · trivial
  · have hgrows : Θ.Grows m.world w' := hworld ▸ hrun.1.grows
    exact ⟨⟨hrun.1.sound, hm.1.grows.trans hgrows⟩, hpost w' hgrows hrun.2⟩

include hb hC

theorem serves_contract : Θ.Serves frame C.env where
  binding _ := ⟨i, C, hb, hC, rfl⟩
  loads f t h := absurd h (C.unloaded f t)

theorem belongs_contract {f : Fragment} (hf : f.Within C.body) : Θ.Belongs frame (some C.layout) f := by
  intro j D hj hD
  obtain rfl : j = i := Option.some.inj (hj.symm.trans hb)
  obtain rfl : D = C := Option.some.inj (hD.symm.trans hC)
  exact ⟨rfl, hf⟩

include hu

/-- Publishing a value of the type of the binding. -/
theorem runs_publish :
    Θ.Runs (Θ.Holds frame [] [C.ty]) (runOps r update fuel frame [.publish])
      fun w _ ↦ Found i w ∧ Θ.Published w i := by
  refine Runs.andThen (runs_lift fun m hw hm ↦ ?_) .skip
  obtain ⟨v, τ, hv, -, hstack⟩ := List.forall₂_cons_left_iff.mp hm.typed
  obtain ⟨s, hs⟩ := hm.ready.found i hb
  refine ⟨_, { m with stack := τ }, _, _, ?_, rfl, ?_, fun _ _ hw h ↦ hw.published i h,
    safely_publish (c := s.result) hu fuel hC, ⟨?_, hv⟩, fun w hw h ↦ ⟨stable_found _ _ hw ⟨s, hs⟩, h⟩⟩
  · have hs' : ({ m with stack := τ } : Machine).world.instance? i = some s := hs
    simp only [step, bind_apply, pop_apply, hstack, state_apply hb hs']
  · exact stable_later fun u u' hu h ↦ ⟨hu.result i s.result h.1, hu.hasTy h.2⟩
  · rw [World.resultCell?, hs]
    rfl

/-- Giving back the lock. -/
theorem runs_lockRelease {Q : World → Prop} (hQ : Θ.Stable Q) :
    Θ.Runs (fun w _ ↦ Found i w ∧ Q w) (runOps r update fuel frame [.lockRelease]) fun w _ ↦ Q w := by
  refine Runs.andThen (runs_lift fun m hw hm ↦ ?_) .skip
  obtain ⟨⟨s, hs⟩, hq⟩ := hm
  refine ⟨_, { m with locks := m.locks.pred }, _, _, ?_, rfl, stable_free, stable_const,
    safely_unlockCell hu fuel s.result, hw.free hs hC, fun w hw _ ↦ hQ _ _ hw hq⟩
  simp only [step, bind_apply, state_apply hb hs]
  rfl

omit hu

/-- Taking a lock. -/
theorem runs_lockAcquire :
    Θ.Runs (Θ.Holds frame [] []) (runOps r update fuel frame [.lockAcquire]) (Θ.Holds frame [] []) := by
  refine Runs.andThen (.ok fun m hw hm ↦ ?_) .skip
  obtain ⟨s, hs⟩ := hm.ready.found i hb
  have hchange : Θ.Change m.world (m.world.modifyCell s.result Cell.lock) :=
    .modifyCell hw.later.declared (fun _ ↦ rfl)
      (fun j t ht hj halive heq ↦ absurd heq (hw.free hs hC j t ht hj halive)) fun _ _ _ ↦ .inl
  obtain ⟨hsound, hgrows⟩ := hw.change hchange
  exact ⟨_, does_lockAcquire hb hs, hsound, hgrows, hm.grows hgrows⟩

include hr hu

/-- Evaluating from a step on publishes a value of the type of the binding. -/
theorem runs_evaluateFrom {k : Nat} (hk : k = 0 ∨ k ∈ C.body.steps) :
    Θ.Runs (Θ.Holds frame [] [])
      (evaluateFrom r update fuel frame C.layout C.body C.coercion k)
      fun w _ ↦ Found i w ∧ Θ.Published w i := by
  have hserve := serves_contract hb hC
  have hplain := Fragment.within_of_isPlain C.compiles.plain C.body
  have hbelongs : Θ.Belongs frame (some C.layout) (C.body ++ C.coercion) :=
    belongs_contract hb hC ⟨List.append_subset.mpr ⟨fun _ ↦ id, hplain.points⟩,
      List.append_subset.mpr ⟨fun _ ↦ id, hplain.slots⟩,
      List.append_subset.mpr ⟨fun _ ↦ id, hplain.branches⟩⟩
  have hcode : Θ.Runs (Θ.Holds frame [] [])
      ((if k = 0 then C.body.run r update fuel frame (some C.layout)
        else C.body.resume r update fuel frame (some C.layout) k).andThen
        (C.coercion.run r update fuel frame (some C.layout)))
      (Θ.Holds frame ([] ++ (C.body ++ C.coercion).stored) [C.ty]) := by
    by_cases hk0 : k = 0
    · rw [if_pos hk0]
      exact runs_typed hr hu hserve C.typed hbelongs
    · rw [if_neg hk0]
      have hmem := hk.resolve_left hk0
      have hsteps : k ∈ (C.body ++ C.coercion).steps :=
        (Fragment.steps_append ..).symm ▸ List.mem_append_left _ hmem
      have hresume : (C.body ++ C.coercion).resume r update fuel frame (some C.layout) k =
          (C.body.resume r update fuel frame (some C.layout) k).andThen
            (C.coercion.run r update fuel frame (some C.layout)) := if_pos hmem
      rw [← hresume]
      exact resumes_typed hr hu hserve C.typed hbelongs hsteps
  exact (runs_fewer hcode).andThen (runs_publish hu hb hC)

/-- An update at a step of the binding. -/
theorem runs_updateBlock {k : Nat} (hk : k ∈ C.artifact.steps) :
    Θ.Runs (Θ.Holds frame [] []) (updateBlock r update fuel frame C.layout C.body C.coercion i k)
      fun w _ ↦ k = 0 → Θ.Published w i := by
  rw [C.mem_steps] at hk
  have hstable : Θ.Stable fun w ↦ k = 0 → Θ.Published w i := fun _ _ hw h h0 ↦ hw.published i (h h0)
  refine ((runs_lockAcquire hb hC).andThen (.go fun m hw hm ↦ ?_)).andThen
    (runs_lockRelease hu hb hC hstable)
  obtain ⟨s, hs⟩ := hm.ready.found i hb
  unfold updateBody
  cases hroute : updateRoute C.layout C.body i k m.world with
  | resume =>
    refine ⟨_, _, _, rfl, hw, hw.grows, hm, (runs_evaluateFrom hr hu hb hC hk).mono (fun _ _ _ ↦ id) ?_⟩
    exact fun w σ _ h ↦ ⟨h.1, fun _ ↦ h.2⟩
  | exit =>
    refine ⟨_, _, fun w _ ↦ Found i w ∧ (k = 0 → Θ.Published w i), rfl, hw, hw.grows,
      ⟨⟨s, hs⟩, fun h0 ↦ ?_⟩, .skip⟩
    rw [updateRoute, if_pos h0] at hroute
    cases hroute
  | fault =>
    unfold updateRoute at hroute
    split at hroute
    · cases hroute
    · next hk0 =>
      have hmem := hk.resolve_left hk0
      rw [if_pos hmem, hs] at hroute
      exact absurd hroute (Fragment.route_ne_fault hmem)

end

/-- A routine that does no harm as long as it runs does none when it gives back its locks. -/
theorem ensures_routine {update : Updater} {fuel : Nat} (hu : Θ.Updates update) {R : Routine}
    {P : World → Prop} {Q : Option Value → World → Prop} {w₁ : World}
    (hb : ∀ i, frame.binding = some i → ∃ C, Θ i = some C)
    (h : Ensures (fun m ↦ P m.world ∧ m = { world := m.world }) (execute r update fuel frame R fuel)
      (fun v m ↦ Θ.Since w₁ m.world ∧ Q v m.world) (fun e m ↦ Θ.Since w₁ m.world ∧ E e)) :
    Ensures P (runRoutine r update fuel frame R) (fun v w ↦ Θ.Since w₁ w ∧ Q v w)
      (fun e w ↦ Θ.Since w₁ w ∧ E e) := by
  refine ensures_runRoutine (E := fun e _ w ↦ Θ.Since w₁ w ∧ E e) h fun e stack locks ↦ ?_
  have hrelease : Θ.Safely (fun _ ↦ True) (releaseHeld r update fuel frame locks) fun _ _ ↦ True :=
    safely_releaseHeld hu fuel fun i hi ↦ .inl (hb i hi)
  have hkept := (hrelease.holding stack stable_const fun _ ↦ stable_const).frame
    (F := fun _ ↦ E e) stable_const
  exact (hkept w₁).mono (fun w hw ↦ ⟨hw.1, trivial, hw.2⟩) (fun _ w h ↦ ⟨h.1, h.2.2⟩)
    fun _ _ _ ↦ trivial

section

variable {update : Updater} (hr : r.Conforms E w₀) (hu : Θ.Updates update) (hC : Θ i = some C)
include hr hu hC

/-- The update routine of a binding does no harm at the steps of the binding, and step 0 publishes. -/
theorem safely_runUpdate (fuel : Nat) {k : Nat} (hk : k ∈ C.artifact.steps) :
    Θ.Safely (Found i)
      (runRoutine r update fuel { binding := some i, step := k } C.artifact.update)
      fun _ w ↦ k = 0 → Θ.Published w i := by
  intro w₁
  let frame : Frame := { binding := some i, step := k }
  have hrun : ∀ n, Ensures (fun m ↦ (Θ.Since w₁ m.world ∧ Found i m.world) ∧ m = { world := m.world })
      (execute r update fuel frame C.artifact.update n)
      (fun _ m ↦ Θ.Since w₁ m.world ∧ (k = 0 → Θ.Published m.world i))
      (fun e m ↦ Θ.Since w₁ m.world ∧ E e) := by
    refine ensures_of_finishes (P := fun w ↦ Θ.Since w₁ w ∧ Found i w)
      (Q := fun _ w ↦ Θ.Since w₁ w ∧ (k = 0 → Θ.Published w i))
      (E := fun e _ w ↦ Θ.Since w₁ w ∧ E e) fun w hw ↦ ?_
    obtain ⟨hsince, s, hs⟩ := hw
    have hfits := hsince.sound.fits i s C hs hC
    -- a step above the largest number counts as that one, which is a step of the binding too
    have hstep : min k 2147483647 ∈ C.artifact.steps := by
      rw [C.compiles.steps, Resumable.steps, List.mem_range] at hk ⊢
      omega
    obtain ⟨n, hn⟩ := @Compiles.finishes_step r update fuel frame i _ _ _ _ _ C.compiles rfl w s hs
      (by rw [hfits.sizes.flags, C.compiles.flags]) _ (toInt_countInt k)
    refine ⟨_, n, hn, (runs_updateBlock hr hu rfl hC hstep w₁).mono (fun m hm ↦ ?_)
      (fun m hm ↦ ⟨hm.1, fun h0 ↦ hm.2 (by omega)⟩) fun _ _ ↦ id⟩
    obtain ⟨⟨hsince, hfound⟩, heq⟩ := hm
    refine ⟨hsince, ⟨fun j hj ↦ ?_, fun n hn ↦ absurd hn List.not_mem_nil⟩, ?_⟩
    · obtain rfl : i = j := Option.some.inj hj
      exact hfound
    · rw [heq]
      exact .nil
  exact ensures_routine hu (fun j hj ↦ ⟨C, Option.some.inj hj ▸ hC⟩) (hrun fuel)

omit hr hu hC in
/-- The steps that are asked for are steps of the binding. -/
theorem change_queue (hw : Θ.Sound w) {s : Instance} (hs : w.instance? i = some s) (hC : Θ i = some C)
    {f : Instance → List Nat} (hf : f s ⊆ C.artifact.steps) :
    Θ.Change w (w.modifyInstance i fun s ↦ { s with queued := f s }) := by
  rw [World.modifyInstance_eq_put hs]
  exact .put hw.later.declared hs rfl hC (fun h ↦ ⟨⟨h.sizes.code, h.sizes.scratch, h.sizes.counters,
    h.sizes.flags⟩, h.captured, hf, h.handles⟩) fun _ hn ↦ hn.congr rfl

omit hr hu in
theorem safely_drainQueue {runStep : Nat → Run Unit}
    (h : ∀ k ∈ C.artifact.steps, Θ.Safely (Found i) (runStep k) fun _ _ ↦ True) (fuel : Nat) :
    Θ.Safely (Found i) (drainQueue runStep i fuel) fun _ _ ↦ True := by
  induction fuel with
  | zero => exact .exhausted
  | succ fuel ih =>
    have hthen {k : Nat} (hk : k ∈ C.artifact.steps) :
        Θ.Safely (Found i) (runStep k >>= fun _ ↦ drainQueue runStep i fuel) fun _ _ ↦ True :=
      (((h k hk).frame stable_found).mono (fun _ _ h ↦ ⟨h, h⟩) fun _ _ _ h ↦ h.2).bind fun _ ↦ ih
    have hview : Θ.Safely (Found i) (Run.view fun w ↦ ((w.instance? i).map Instance.queued).getD [])
        fun queued w ↦ Found i w ∧ queued ⊆ C.artifact.steps := by
      refine .view _ fun w hw hfound ↦ ⟨hfound, ?_⟩
      obtain ⟨s, hs⟩ := hfound
      rw [hs]
      exact (hw.fits i s C hs hC).queued
    refine hview.bind fun queued ↦ Safely.bind (Q := fun _ w ↦ Found i w ∧ queued ⊆ C.artifact.steps)
      (.change fun w hw h ↦ ?_) fun _ ↦ ?_
    · obtain ⟨⟨s, hs⟩, hq⟩ := h
      have hchange := change_queue hw hs hC (f := fun _ ↦ []) (List.nil_subset _)
      exact ⟨hchange, stable_found _ _ (hw.change hchange).2 ⟨s, hs⟩, hq⟩
    · rcases queued with _ | ⟨k, _ | ⟨l, rest⟩⟩
      · exact .pure fun _ _ _ ↦ trivial
      · intro w₁ w hw
        exact hthen (hw.2.2 List.mem_cons_self) w₁ w ⟨hw.1, hw.2.1⟩
      · exact (hthen (C.mem_steps.mpr (.inl rfl))).mono (fun _ _ h ↦ h.1) fun _ _ _ ↦ id

/-- An update that is asked for does no harm. Step 0 of a binding that is not locked publishes. -/
theorem safely_updateBy (fuel : Nat) {k : Nat} (hk : k ∈ C.artifact.steps) {p : Prop} (hp : p → k = 0) :
    Θ.Safely (fun w ↦ p → Unlocked i w) (updateBy r update fuel i k) fun _ w ↦ p → Θ.Published w i := by
  have hview : Θ.Safely (fun w ↦ p → Unlocked i w) (Run.view (·.instance? i))
      fun found w ↦ w.instance? i = found ∧ (p → Unlocked i w) := .view _ fun _ _ h ↦ ⟨rfl, h⟩
  refine hview.bind fun found ↦ ?_
  cases found with
  | none =>
    refine .pure fun w _ h hp ↦ ?_
    obtain ⟨s, hs, -⟩ := h.2 hp
    rw [h.1] at hs
    cases hs
  | some s =>
    have htest : Θ.Safely (fun w ↦ w.instance? i = some s ∧ (p → Unlocked i w))
        (Run.view fun w ↦ ((w.cell? s.result).map Cell.isLocked).getD false)
        fun locked w ↦ w.instance? i = some s ∧ (p → locked = false) := by
      refine .view _ fun w _ h ↦ ⟨h.1, fun hp ↦ ?_⟩
      obtain ⟨t, ht, hfree⟩ := h.2 hp
      obtain rfl : t = s := Option.some.inj (ht.symm.trans h.1)
      exact hfree
    refine htest.bind fun locked ↦ ?_
    cases locked with
    | true =>
      refine .change fun w hw h ↦ ⟨change_queue hw h.1 hC ?_, fun hp ↦ absurd (h.2 hp) nofun⟩
      exact List.append_subset.mpr ⟨(hw.fits i s C h.1 hC).queued, List.cons_subset.mpr ⟨hk, nofun⟩⟩
    | false =>
      intro w₁ w hw
      have hcode : s.artifact = C.artifact := (hw.1.sound.fits i s C hw.2.1 hC).sizes.code
      have hstep {l : Nat} (hl : l ∈ C.artifact.steps) : Θ.Safely (Found i)
          (do let _ ← runRoutine r update fuel { binding := some i, step := l } s.artifact.update)
          fun _ w ↦ l = 0 → Θ.Published w i := by
        rw [hcode]
        exact (safely_runUpdate hr hu hC fuel hl).bind fun _ ↦ .pure fun _ _ ↦ id
      have hfirst := (hstep hk).frame (stable_found (i := i))
      have hdrain := (safely_drainQueue hC (fun l hl ↦ (hstep hl).mono (fun _ _ ↦ id)
        fun _ _ _ _ ↦ trivial) fuel).frame (F := fun w ↦ k = 0 → Θ.Published w i)
        fun _ _ hw h h0 ↦ hw.published i (h h0)
      have hboth := (hfirst.mono (fun _ _ h ↦ ⟨h, h⟩) fun _ _ _ h ↦ ⟨h.2, h.1⟩).bind fun _ ↦ hdrain
      exact (hboth.mono (fun _ _ ↦ id) fun _ _ _ h hasked ↦ h.2 (hp hasked)) w₁ w ⟨hw.1, s, hw.2.1⟩

end

/-- No update does harm. -/
theorem updates_updateInstance (hr : r.Conforms E w₀) (fuel : Nat) :
    Θ.Updates (updateInstance r fuel) := by
  induction fuel with
  | zero => exact fun _ _ _ _ _ ↦ .exhausted
  | succ fuel ih =>
    intro i k C hC hk
    have hupdate := safely_updateBy hr ih hC fuel hk (p := False) False.elim
    exact hupdate.mono (fun _ _ _ ↦ False.elim) fun _ _ _ _ ↦ trivial

/-- Evaluating a binding that is not locked from the start publishes its value. -/
theorem safely_start (hr : r.Conforms E w₀) (fuel : Nat) (hC : Θ i = some C) :
    Θ.Safely (Unlocked i) (updateInstance r fuel i 0) fun _ w ↦ Θ.Published w i := by
  cases fuel with
  | zero => exact .exhausted
  | succ fuel =>
    have hupdate := safely_updateBy hr (updates_updateInstance hr fuel) hC fuel
      (C.mem_steps.mpr (.inl rfl)) (p := True) fun _ ↦ rfl
    exact hupdate.mono (fun _ _ h _ ↦ h) fun _ _ _ h ↦ h trivial

end Contracts

end LiveBinding
