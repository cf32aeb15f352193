import LiveBinding.Proofs.Neighbours

/-!
Updates of a binding do what is left to their steps. Between its updates a binding holds the value of its
expression unless that is left to some steps or to the requests that wait (`Deployment.Pending`). Running
the routine at a step takes it off that list, and draining the queue leaves no request
(`Deployment.Evaluates.upholds`), while other bindings and listeners of the host run in between.
-/

namespace LiveBinding

open Exec Fragment

namespace Value

theorem same_self (v : Value) : v.same v := by
  cases v <;> simp [same]

/-- A cell holds the value that was written to it last, or one that is the same. -/
theorem replaced_same (old v : Value) : (old.replaced v).same v := by
  unfold replaced
  split
  · next h => exact h
  · exact same_self v

end Value

namespace Deployment

variable (D : Deployment)

/-- A value is that of the expression of the binding, or that is left to one of some steps. -/
def Leaves (E : List Nat) (w : World) (s : Instance) (v : Value) : Prop :=
  0 ∈ E ∨ ∃ u, v.same u ∧ D.code.Current (D.reading w) E [] (D.store s) [u]

/-- Between its updates the binding holds the value of its expression, or that is left to one of some
steps and of the requests that wait. None do so if it is idle. -/
def Pending (idle : Prop) (E : List Nat) (w : World) : Prop :=
  ∃ s on v ls, D.Sound w s on ∧ (idle → s.queued = []) ∧ w.cell? D.result = some ⟨v, ls, 0, false⟩ ∧
    D.Leaves (E ++ s.queued) w s v

/-- What an update that starts at a step has computed when it publishes. It has resumed rightly if the
step was reached. -/
structure Computes (k : Nat) (w : World) (s : Instance) (v : Value) (m : Machine) (s' : Instance)
    (on' : Nat → Option CellId) : Prop where
  sound : D.Sound m.world s' on'
  locked : ∃ ls, m.world.cell? D.result = some ⟨v, ls, 1, false⟩
  queued : s.queued ⊆ s'.queued
  kept : k ≠ 0 → ∀ l ∉ D.code.writesFrom k, D.store s' l = D.store s l
  told : k ≠ 0 → ∀ p ∈ D.code.points, p.loc ∉ D.code.writesFrom k →
    Outdated (D.reading w) m.world.cellValue (D.store s) p → p.step ∈ s'.queued
  current : k = 0 ∨ D.code.Reached (D.reading w) k ⟨[], D.store s⟩ →
    ∀ u σ, m.stack = u :: σ → D.code.Current (D.reading m.world) s'.queued [] (D.store s') [u]

/-- Of a host that conforms the code leaves nothing open, and it leaves one value. -/
def Determined : Prop := ∀ w, w.Conforms D.registry D.answer → w.objects = D.objects → ∀ st,
  (D.code.den (D.reading w) ⟨[], st⟩).result ≠ .error .exhausted ∧
    ∀ c, (D.code.den (D.reading w) ⟨[], st⟩).result = .ok c → ∃ u, c.stack = [u]

/-- Updates that end well compute what they should. -/
def Evaluates (fuel : Nat) : Prop :=
  ∀ k ∈ 0 :: D.body.steps, ∀ w s on v ls, D.Sound w s on → w.cell? D.result = some ⟨v, ls, 0, false⟩ →
    (Compiles.computed D.host fuel D.id k D.body D.coercion D.layout
      (Compiles.locked w s)).result = .ok () →
    ∃ s' on', D.Computes k w s v (Compiles.computed D.host fuel D.id k D.body D.coercion D.layout
      (Compiles.locked w s)).machine s' on'

variable {D} {w w' : World} {s s' : Instance} {on on' : Nat → Option CellId} {E E' ks : List Nat}
variable {idle : Prop} {v : Value} {m : Machine} {fuel k : Nat}

theorem Leaves.mono (h : D.Leaves E w s v) (hE : E ⊆ E') : D.Leaves E' w s v := by
  refine h.imp (hE ·) ?_
  rintro ⟨u, hu, hcur⟩
  exact ⟨u, hu, hcur.mono hE⟩

namespace Pending

theorem weaken (h : D.Pending idle E w) {idle' : Prop} (hi : idle' → idle) (hE : E ⊆ E') :
    D.Pending idle' E' w := by
  obtain ⟨s, on, v, ls, hs, hq, hc, hleft⟩ := h
  refine ⟨s, on, v, ls, hs, hq ∘ hi, hc, hleft.mono ?_⟩
  exact List.append_subset.mpr ⟨List.subset_append_of_subset_left _ hE, List.subset_append_right _ _⟩

/-- What is left to do before everything is evaluated again does not matter. -/
theorem restart (h : D.Pending idle E w) (E' : List Nat) : D.Pending idle (0 :: E') w := by
  obtain ⟨s, on, v, ls, hs, hq, hc, -⟩ := h
  exact ⟨s, on, v, ls, hs, hq, hc, .inl List.mem_cons_self⟩

/-- The requests that wait may be left to do in another way. -/
theorem requeue (h : D.Pending idle E w) : ∃ s, w.instance? D.id = some s ∧
    (∀ k ∈ s.queued, k ∈ D.body.steps) ∧
      D.Pending True (s.queued ++ E) (w.put D.id { s with queued := [] }) := by
  obtain ⟨s, on, v, ls, hs, hq, hc, hleft⟩ := h
  refine ⟨s, hs.tracks.found, hs.requests, _, on, v, ls, hs.requeue (by simp), fun _ ↦ rfl, hc, ?_⟩
  have hreading : D.reading (w.put D.id { s with queued := [] }) = D.reading w := D.reading_eq rfl rfl
  rw [List.append_nil, Leaves, hreading]
  exact hleft.mono (List.append_subset.mpr ⟨List.subset_append_right _ _, List.subset_append_left _ _⟩)

/-- With nothing left to do, evaluating the code again changes nothing and gives what the binding
holds. -/
theorem settled (hd : D.Determined) (h : D.Pending True [] w) : ∃ s on v ls u, D.Sound w s on ∧
    s.queued = [] ∧ w.cell? D.result = some ⟨v, ls, 0, false⟩ ∧ v.same u ∧
    (D.code.den (D.reading w) ⟨[], D.store s⟩).result = .ok ⟨[u], D.store s⟩ := by
  obtain ⟨s, on, v, ls, hs, hq, hc, hleft⟩ := h
  rw [hq trivial] at hleft
  obtain h0 | ⟨u, hu, hden | ⟨k, hk, -, -⟩ | hopen⟩ := hleft
  · cases h0
  · exact ⟨s, on, v, ls, u, hs, hq trivial, hc, hu, hden⟩
  · cases hk
  · exact absurd hopen.den_eq (hd w hs.conforms hs.objects _).1

/-- What is left to do stays so beside the binding, and grows when a property is written. -/
theorem tends (D : Deployment) (idle : Prop) : D.Tends (D.Pending idle) where
  sound := fun ⟨s, on, _, _, hs, _⟩ ↦ ⟨s, on, hs⟩
  beside hb h := by
    obtain ⟨s, on, v, ls, hs, hq, hc, hleft⟩ := h
    obtain ⟨ls', hc'⟩ := hb.cell?_of_not_foreign hs.not_foreign_result hc
    refine ⟨s, on, v, ls', hb.sound hs, hq, hc', hleft.imp_right ?_⟩
    rintro ⟨u, hu, hcur⟩
    exact ⟨u, hu, hb.current hs hcur⟩
  store {ks w o property c cell x} h hslot hcell hx := by
    obtain ⟨s, on, v, ls, hs, hq, hc, hleft⟩ := h
    refine ⟨s, on, v, ls, hs.store hcell hx, hq, ?_, ?_⟩
    · rw [World.cell?_modifyCell, if_neg (hs.apart o property c hslot)]
      exact hc
    have hsub : ks ++ s.queued ⊆ Listener.stepsOf D.id cell.listeners ++ ks ++ s.queued := by
      rw [List.append_assoc]
      exact List.subset_append_right _ _
    refine hleft.imp (hsub ·) ?_
    rintro ⟨u, hu, hcur⟩
    refine ⟨u, hu, hs.current_of_values ?_ hsub (fun k d hk hd ↦ ?_) hcur⟩
    · rfl
    rw [World.cellValue_store hcell] at hd
    split at hd
    · next hcd =>
      have hmem := (hs.mem_stepsOf hcell).mpr (hcd ▸ hk)
      exact List.mem_append_left _ (List.mem_append_left _ hmem)
    · exact absurd rfl hd

end Pending

namespace Sound

variable (h : D.Sound w s on)
include h

/-- Where a step leads to is known from the storage. -/
theorem route_eq (hk : k ∈ D.body.steps) :
    updateRoute D.layout D.body D.id k (Compiles.locked w s).world =
      D.code.route (D.store s).isSet k := by
  have h0 : k ≠ 0 := by
    rintro rfl
    rw [D.compiles.steps_eq, List.mem_range'_1] at hk
    omega
  have hfound : (Compiles.locked w s).world.instance? D.id = some s := h.tracks.found
  simp only [updateRoute, if_neg h0, if_pos hk, hfound, code, route]
  refine route_congr fun flag hflag ↦ ?_
  have hlt : flag < D.artifact.flags.bits := D.within_code (List.mem_append_left _ hflag)
  rw [← D.compiles.flags]
  simp only [Store.isSet, Deployment.store, Instance.store, hlt, decide_true, Bool.true_and]
  cases D.artifact.flags.isSet s.flags flag <;> rfl

theorem finishes_update {update : Updater} (hfound : w'.instance? D.id = some s)
    (hk : k ∈ 0 :: D.body.steps) :
    ∃ n, Finishes D.host update fuel { binding := some D.id, step := k }
      D.artifact.update n { world := w' } (updateBlock D.host update fuel
        { binding := some D.id, step := k } D.layout D.body D.coercion D.id k { world := w' }) := by
  refine Compiles.finishes_step D.compiles rfl hfound ?_ ?_
  · rw [h.tracks.fits.flags, D.compiles.flags]
  · rw [toInt_countInt]
    have hle : k ≤ D.body.points.length := by
      rcases List.mem_cons.mp hk with rfl | hk
      · exact Nat.zero_le _
      · rw [D.compiles.steps_eq, List.mem_range'_1] at hk
        omega
    have := D.few
    show ((min k 2147483647 : Nat) : Int) = k
    omega

/-- Nothing was left to a step that leads to nothing. -/
theorem leaves_of_exit (hd : D.Determined) (hk : k ∈ D.body.steps)
    (hexit : D.code.route (D.store s).isSet k = .exit) (hleft : D.Leaves (k :: E) w s v) :
    D.Leaves E w s v := by
  obtain h0 | ⟨u, hu, hden | ⟨j, hj, hmem, hreach⟩ | hopen⟩ := hleft
  · obtain rfl | h0 := List.mem_cons.mp h0
    · rw [D.compiles.steps_eq, List.mem_range'_1] at hk
      omega
    · exact .inl h0
  · exact .inr ⟨u, hu, .inl hden⟩
  · obtain rfl | hj := List.mem_cons.mp hj
    · rw [hreach.route_eq] at hexit
      cases hexit
    · exact .inr ⟨u, hu, .reached hj hmem hreach⟩
  · exact absurd hopen.den_eq (hd w h.conforms h.objects _).1

/-- What was left to a step is done when its update publishes. What is asked for meanwhile is left to do. -/
theorem leaves_of_computes (hd : D.Determined) (hk : k ∈ 0 :: D.body.steps)
    (hroute : k ∈ D.body.steps → D.code.route (D.store s).isSet k = .resume)
    (hm : D.Computes k w s v m s' on') (hleft : D.Leaves (k :: (E ++ s.queued)) w s v) {u : Value}
    {σ : List Value} (hσ : m.stack = u :: σ) :
    D.Leaves (E ++ s'.queued) m.world s' (v.replaced u) := by
  by_cases hright : k = 0 ∨ D.code.Reached (D.reading w) k ⟨[], D.store s⟩
  · exact .inr ⟨u, Value.replaced_same v u, (hm.current hright u σ hσ).mono (List.subset_append_right E _)⟩
  have hsub : E ++ s.queued ⊆ E ++ s'.queued :=
    List.append_subset.mpr ⟨List.subset_append_left _ _, List.subset_append_of_subset_right _ hm.queued⟩
  have h0 : k ≠ 0 := fun h0 ↦ hright (.inl h0)
  have hkb := (List.mem_cons.mp hk).resolve_left h0
  have hkc := D.steps_code.symm ▸ hkb
  obtain hE | ⟨u', -, hcur⟩ := hleft
  · exact .inl (hsub ((List.mem_cons.mp hE).resolve_left (Ne.symm h0)))
  obtain hreach | ⟨j, hj, hjc, hlt, hreach⟩ :=
    hcur.reached_or (D.strict_reading w) D.sequential_code D.sorted_code
      (fun hopen ↦ (hd w h.conforms h.objects _).1 hopen.den_eq) hkc (hroute hkb)
  · exact absurd (.inr hreach) hright
  -- the update has resumed behind the point that is left to do
  refine .inr ⟨_, Value.same_self _, ?_⟩
  rw [D.reading_of_objects (hm.sound.objects.trans h.objects.symm)]
  refine .of_later (D.strict_reading w) D.sequential_code D.sorted_code hjc hkc hlt hreach
    (hm.kept h0) (hsub hj) fun p hp hloc hout ↦ ?_
  exact List.mem_append_right _ (hm.told h0 p hp hloc hout)

end Sound

namespace Tends

variable {I : List Nat → World → Prop} (hI : D.Tends I) {update : Updater} (hu : D.Upholds I update)
include hI hu

/-- Giving back the last lock of the result tells those who listen to it: none of them is a step of the
binding. -/
theorem unlockResult (fuel : Nat) (ks : List Nat) :
    Attains (fun w ↦ ∃ v ls pending, w.cell? D.result = some ⟨v, ls, 1, pending⟩ ∧
        I ks (w.putCell D.result ⟨v, ls, 0, false⟩))
      (unlockCell D.host update fuel D.result) (I ks) := by
  rintro w ⟨v, ls, pending, hc, hw⟩
  cases pending with
  | false =>
    have hput : w.modifyCell D.result ({ · with lockDepth := LockDepth.pred 1 }) =
        w.putCell D.result ⟨v, ls, 0, false⟩ := World.modifyCell_congr hc rfl
    rw [unlockCell_unchanged hc rfl, hput]
    exact hw
  | true =>
    have hlast : (LockDepth.pred 1 == 0 && true) = true := rfl
    have hput : w.modifyCell D.result ({ · with lockDepth := LockDepth.pred 1, pending := false }) =
        w.putCell D.result ⟨v, ls, 0, false⟩ := World.modifyCell_congr hc rfl
    have hcell : (w.putCell D.result ⟨v, ls, 0, false⟩).cell? D.result = some ⟨v, ls, 0, false⟩ :=
      World.cell?_putCell hc
    obtain ⟨s, on, hs⟩ := hI.sound hw
    simp only [unlockCell, Run.bind_apply, Run.view_apply, hc]
    simp only [hlast, if_true, Run.bind_apply, Run.change_apply, hput]
    refine (hI.host hu fuel).notify D.result ks _ ⟨fun cell h ↦ ?_, fun cell h hlocked ↦ ?_, fun hnone ↦ ?_⟩
    · obtain rfl := Option.some.inj (hcell.symm.trans h)
      rw [hs.stepsOf_eq_nil hcell fun o p hp ↦ hs.apart o p _ hp rfl]
      exact hw
    · obtain rfl := Option.some.inj (hcell.symm.trans h)
      cases hlocked
    · rw [hcell] at hnone
      cases hnone

/-- What giving back the lock in a routine of the binding leads to if it ends well. -/
theorem release {ls : List Listener} {pending : Bool} {frame : Frame}
    (hb : frame.binding = some D.id) (hfound : m.world.instance? D.id = some s)
    (hresult : s.result = D.result) (hc : m.world.cell? D.result = some ⟨v, ls, 1, pending⟩)
    (hw : I ks (m.world.putCell D.result ⟨v, ls, 0, false⟩))
    (hok : (runOp D.host update fuel frame .lockRelease m).result = .ok ()) :
    I ks (runOp D.host update fuel frame .lockRelease m).machine.world := by
  have hlift := ensures_lift (R := fun _ _ ↦ True) (fun _ w held ⟨v, ls, pending, hc, hw⟩ ↦
    ⟨v, ls, pending, hc, hI.held held hw⟩) (fun _ _ held ↦ hI.held held) (fun _ _ _ _ ↦ trivial)
    (fun _ ↦ hI.unlockResult hu fuel ks) { m with locks := m.locks.pred } ⟨v, ls, pending, hc, hw⟩
  rw [runOp_lockRelease hb hfound, hresult] at hok ⊢
  rcases hrun : lift (unlockCell D.host update fuel D.result) { m with locks := m.locks.pred } with
    ⟨e | a, m'⟩
  · rw [hrun] at hok
    cases hok
  · rw [hrun] at hlift
    exact hlift

/-- So does publishing a value before that. -/
theorem publish {ls : List Listener} {u : Value} {σ : List Value} {frame : Frame}
    (hb : frame.binding = some D.id) (hfound : m.world.instance? D.id = some s)
    (hresult : s.result = D.result) (hc : m.world.cell? D.result = some ⟨v, ls, 1, false⟩)
    (hstack : m.stack = u :: σ)
    (hw : I ks (m.world.putCell D.result ⟨v.replaced u, ls, 0, false⟩))
    (hok : ((runOp D.host update fuel frame .publish).andThen
      (runOp D.host update fuel frame .lockRelease) m).result = .ok ()) :
    I ks ((runOp D.host update fuel frame .publish).andThen
      (runOp D.host update fuel frame .lockRelease) m).machine.world := by
  have hpublish : Does D.host update fuel frame .publish m
      ⟨m.world.putCell s.result ⟨v.replaced u, ls, 1, !v.same u⟩, σ, m.pc, m.locks⟩ := by
    refine does_publish hb hfound hstack (hresult.symm ▸ hc) (.inr fun he ↦ ?_)
    rw [andThen_of_error he, he] at hok
    cases hok
  rw [hresult] at hpublish
  rw [andThen_ok hpublish] at hok ⊢
  have hcell : (m.world.putCell D.result ⟨v.replaced u, ls, 1, !v.same u⟩).cell? D.result = some _ :=
    World.cell?_putCell hc
  refine hI.release hu hb hfound hresult hcell ?_ hok
  rw [World.putCell, World.putCell, World.modifyCell_modifyCell]
  exact hw

end Tends

namespace Evaluates

variable (hd : D.Determined)
include hd

/-- Running one step does what is left to it. -/
theorem pass (he : D.Evaluates fuel) (hu : D.Upholds (D.Pending False) (updateInstance D.host fuel))
    (hk : k ∈ 0 :: D.body.steps) (E : List Nat) :
    Attains (D.Pending False (k :: E)) (runRoutine D.host (updateInstance D.host fuel) fuel
      { binding := some D.id, step := k } D.artifact.update) (D.Pending False E) := by
  rintro w ⟨s, on, v, ls, hs, -, hc, hleft⟩
  have hc' : w.cell? s.result = some ⟨v, ls, 0, false⟩ := hs.result.symm ▸ hc
  rcases hrun : runRoutine D.host (updateInstance D.host fuel) fuel { binding := some D.id, step := k }
    D.artifact.update w with ⟨(e | -) | a, w'⟩
  · trivial
  · trivial
  obtain ⟨n, hfin⟩ := hs.finishes_update hs.tracks.found hk
  obtain ⟨hok, rfl⟩ := Compiles.runRoutine_of_ok hfin hrun
  by_cases hexit : updateRoute D.layout D.body D.id k (Compiles.locked w s).world = .exit
  · rw [(Compiles.updateBlock_exit hs.tracks.found hc' hexit).2]
    have hkb : k ∈ D.body.steps := (List.mem_cons.mp hk).resolve_left (by rintro rfl; cases hexit)
    exact ⟨s, on, v, ls, hs, False.elim, hc, hs.leaves_of_exit hd hkb (hs.route_eq hkb ▸ hexit) hleft⟩
  have hroute : updateRoute D.layout D.body D.id k (Compiles.locked w s).world = .resume := by
    obtain rfl | hk := List.mem_cons.mp hk
    · rfl
    rw [hs.route_eq hk] at hexit ⊢
    cases hr : D.code.route (D.store s).isSet k with
    | resume => rfl
    | exit => exact absurd hr hexit
    | fault => exact absurd hr (route_ne_fault (D.steps_code.symm ▸ hk))
  obtain ⟨hcomputed, hstack⟩ := Compiles.computed_of_ok hs.tracks.found hroute hok
  obtain ⟨s', on', hm⟩ := he k hk w s on v ls hs hc hcomputed
  obtain ⟨u, σ, hσ⟩ := List.exists_cons_of_ne_nil hstack
  obtain ⟨ls', hlocked⟩ := hm.locked
  rw [Compiles.updateBlock_resume hs.tracks.found hroute, andThen_of_ok hcomputed] at hok ⊢
  refine (Pending.tends D False).publish hu rfl hm.sound.tracks.found hm.sound.result hlocked hσ ?_ hok
  have hleft := hs.leaves_of_computes hd hk (fun hk ↦ hs.route_eq hk ▸ hroute) hm hleft hσ
  refine ⟨s', on', v.replaced u, ls', hm.sound.putResult hlocked rfl, False.elim, World.cell?_putCell hlocked,
    hleft.imp_right ?_⟩
  rintro ⟨u', hu', hcur⟩
  exact ⟨u', hu', hm.sound.current_putResult hcur⟩

omit hd in
/-- Running what was asked for meanwhile does what is left to that. -/
theorem drain {runStep : Nat → Run Unit} (hstep : ∀ k ∈ 0 :: D.body.steps, ∀ E,
      Attains (D.Pending False (k :: E)) (runStep k) (D.Pending False E)) (n : Nat) (E : List Nat) :
    Attains (D.Pending False E) (drainQueue runStep D.id n) (D.Pending True E) := by
  induction n with
  | zero => exact .exhausted
  | succ n ih =>
    intro w hw
    obtain ⟨s, hs, hrequests, hclear⟩ := hw.requeue
    simp only [drainQueue, Run.bind_apply, Run.view_apply, Run.change_apply, hs, Option.map_some,
      Option.getD_some, World.modifyInstance_eq_put hs]
    have hrest (k : Nat) (hk : k ∈ 0 :: D.body.steps) :
        Attains (D.Pending False (k :: E)) (runStep k >>= fun _ ↦ drainQueue runStep D.id n)
          (D.Pending True E) := (hstep k hk E).bind fun _ ↦ ih
    rcases hqueued : s.queued with _ | ⟨k, _ | ⟨k', rest⟩⟩ <;> rw [hqueued] at hclear hrequests
    · exact hclear
    · exact hrest k (List.mem_cons_of_mem _ (hrequests k List.mem_cons_self)) _
        (hclear.weaken False.elim (List.Subset.refl _))
    · exact hrest 0 List.mem_cons_self _ ((hclear.restart E).weaken False.elim (List.Subset.refl _))

/-- An update that ends well does what was left to its step. -/
theorem update (he : D.Evaluates fuel) (hu : D.Upholds (D.Pending False) (updateInstance D.host fuel))
    (hk : k ∈ 0 :: D.body.steps) (E : List Nat) :
    Attains (D.Pending False (k :: E)) (updateInstance D.host (fuel + 1) D.id k) (D.Pending True E) := by
  intro w hw
  have hdrain := drain (fun k hk E ↦ (he.pass hd hu hk E).bind fun _ ↦
    Ensures.pure (a := ()) fun _ hw ↦ hw) fuel E
  have hrun := ((he.pass hd hu hk E).bind fun _ ↦ hdrain) w hw
  obtain ⟨s, on, v, ls, hs, -, hc, -⟩ := hw
  rw [updateInstance_run hs.tracks.found (hs.result.symm ▸ hc), hs.tracks.fits.code]
  exact hrun

end Evaluates

section

variable (hm : D.Peaceful) (hd : D.Determined) (he : ∀ fuel, D.Evaluates fuel)
include hm hd he

/-- Updates do what is left to their steps, and whatever else the host does leaves it to be done. -/
theorem Evaluates.upholds (idle : Prop) (fuel : Nat) :
    D.Upholds (D.Pending idle) (updateInstance D.host fuel) := by
  have hbusy := (Pending.tends D False).upholds hm fun fuel hu k hk ks ↦
    ((he fuel).update hd hu (List.mem_cons_of_mem _ hk) ks).post fun _ _ hw ↦
      hw.weaken False.elim (List.Subset.refl _)
  refine (Pending.tends D idle).upholds hm (fun fuel _ k hk ks ↦ ?_) fuel
  exact ((he fuel).update hd (hbusy fuel) (List.mem_cons_of_mem _ hk) ks).mono
    (fun _ hw ↦ hw.weaken False.elim (List.Subset.refl _))
    (fun _ _ hw ↦ hw.weaken (fun _ ↦ trivial) (List.Subset.refl _)) fun _ _ _ ↦ trivial

/-- The first update of a binding evaluates it. -/
theorem Evaluates.start (fuel : Nat) :
    Attains (D.Pending True [0]) (updateInstance D.host fuel D.id 0) (D.Pending True []) := by
  cases fuel with
  | zero => exact .exhausted
  | succ fuel =>
    exact ((he fuel).update hd (Evaluates.upholds hm hd he False fuel) List.mem_cons_self []).pre
      fun _ hw ↦ hw.weaken False.elim (List.Subset.refl _)

/-- Writing an observable property settles what depends on it. -/
theorem Evaluates.set (fuel : Nat) (o : ObjectId) (property : String) (x : Value) :
    Attains (fun w ↦ D.Pending True [] w ∧
        ∃ c, w.observable? o property = some c ∧ w.Accepts D.registry c x)
      (setProperty D.host fuel o property x) (D.Pending True []) :=
  ((Pending.tends D True).host (Evaluates.upholds hm hd he True fuel) fuel).writeProperty o property x []

end

end Deployment

end LiveBinding
