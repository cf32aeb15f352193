import LiveBinding.Proofs.Reaction

namespace LiveBinding.Deployment

variable {D : Deployment} {v : Value} {w w' : World} {s s' : Instance} {ks : List Nat}
variable {on : Nat → Option CellId} {fuel k : Nat}

/-- A step that is asked for in an update has to wait. -/
theorem Live.update_waits (h : D.Live v w s on) (fuel k : Nat) :
    updateInstance D.host (fuel + 1) D.id k w =
      (.ok (), w.put D.id { s with queued := s.queued ++ [k] }) := by
  obtain ⟨ls, hc⟩ := h.locked
  have hlock : ((w.cell? s.result).map Cell.isLocked).getD false = true := by
    rw [h.sound.result, hc]
    rfl
  simp only [updateInstance, Run.bind_apply, Run.view_apply, h.sound.tracks.found, hlock, if_true,
    Run.change_apply, World.modifyInstance_eq_put h.sound.tracks.found]

namespace Disturbs

theorem refl (h : D.Live v w s on) : D.Disturbs v on w s [] w s :=
  ⟨h, rfl, List.Subset.refl _, fun _ _ _ hne ↦ absurd rfl hne⟩

/-- A step that has to be told is told as soon as its update is asked for. -/
theorem waits (h : D.Disturbs v on w s (k :: ks) w' s') (hk : k ∈ D.body.steps) :
    D.Disturbs v on w s ks (w'.put D.id { s' with queued := s'.queued ++ [k] })
      { s' with queued := s'.queued ++ [k] } where
  live := by
    refine ⟨h.live.sound.requeue fun j hj ↦ ?_, h.live.locked⟩
    rcases List.mem_append.mp hj with hj | hj
    · exact h.live.sound.requests j hj
    · exact List.mem_singleton.mp hj ▸ hk
  store := h.store
  queued := List.subset_append_of_subset_left _ h.queued
  told j d hj hne := by
    have htold := h.told j d hj hne
    simp only [List.cons_append, List.mem_cons, List.mem_append, List.not_mem_nil, or_false] at htold ⊢
    tauto

/-- The host may write observable properties while an update runs. -/
theorem tends (v : Value) (on : Nat → Option CellId) (w : World) (s : Instance) :
    D.Tends fun ks w' ↦ ∃ s', D.Disturbs v on w s ks w' s' where
  sound := fun ⟨s', h⟩ ↦ ⟨s', on, h.live.sound⟩
  beside hb := fun ⟨s', h⟩ ↦ ⟨s', h.live.beside hb, h.store, h.queued, fun k d hk hne ↦
    h.told k d hk (hb.cellValue_on h.live.sound hk ▸ hne)⟩
  store {ks w₁ o property c cell x} := by
    rintro ⟨s', h⟩ hslot hcell hx
    have hlive : D.Live v (w₁.modifyCell c ({ · with value := x })) s' on := by
      refine ⟨h.live.sound.store hcell hx, ?_⟩
      rw [World.cell?_modifyCell, if_neg (h.live.sound.apart o property c hslot)]
      exact h.live.locked
    refine ⟨s', hlive, h.store, h.queued, fun k d hk hne ↦ ?_⟩
    rw [World.cellValue_store hcell] at hne
    rw [List.append_assoc]
    split at hne
    · next hcd =>
      exact List.mem_append_left _ ((h.live.sound.mem_stepsOf hcell).mpr (hcd ▸ hk))
    · exact List.mem_append_right _ (h.told k d hk hne)

theorem upholds (hm : D.Peaceful) (fuel : Nat) :
    D.Upholds (fun ks w' ↦ ∃ s', D.Disturbs v on w s ks w' s') (updateInstance D.host fuel) := by
  refine (tends v on w s).upholds hm (fun fuel _ k hk ks ↦ ?_) fuel
  rintro w' ⟨s', h⟩
  rw [h.live.update_waits]
  exact ⟨_, h.waits hk⟩

end Disturbs

variable (D) in
/-- What the methods of the host do can only disturb the binding, and does not show in what they answer. -/
structure Calm : Prop where
  peaceful : D.Peaceful
  reacts : ∀ fuel, D.Reacts (updateInstance D.host fuel) fuel

/-- Methods only write properties that are observable, and are functions of their arguments as long as
these are no cells. -/
def Hosted (D : Deployment) : Prop :=
  ∀ id d, D.host.method? id = .ok d → ∀ args, (d.body args).Tame D.host D.Around fun x ↦
    args.any Value.isCell = false → D.answer id args = x

theorem Calm.evaluates (h : D.Calm) (hd : D.Determined) (fuel : Nat) : D.Evaluates fuel :=
  (h.reacts fuel).evaluates hd

theorem Hosted.calm (hd : D.Hosted) : D.Calm := by
  have hm : D.Peaceful := peaceful_of_tame _ hd
  refine ⟨hm, fun fuel v w s on id args a w' h hrun ↦ ?_⟩
  have hinvoke := (Disturbs.tends v on w s).invoke (Disturbs.upholds hm fuel) fuel []
    (fun d hmethod ↦ hd id d hmethod args) w ⟨s, .refl h⟩
  rwa [hrun] at hinvoke

/-- Where methods write nothing but records, updates are not even disturbed. -/
theorem calm_of_functional (h : D.host.Functional D.objects D.answer) : D.Calm := by
  refine ⟨peaceful_of_functional h, fun fuel v w s on id args a w' hlive hrun ↦ ?_⟩
  have ho := hlive.sound.objects
  have hwrites := h.writes (updateInstance D.host fuel) fuel id args w ho
  have hfixed := h.fixed (updateInstance D.host fuel) fuel id args w ho
  rw [hrun] at hwrites hfixed
  obtain ⟨events, rfl⟩ := hwrites
  refine ⟨⟨s, hlive.beside (.ofEq rfl rfl rfl rfl rfl), rfl, List.Subset.refl _,
    fun _ _ _ hne ↦ absurd rfl hne⟩, fun hcells ↦ ?_⟩
  have hanswer : Except.ok a = Stop.raise (D.answer id args) :=
    hfixed (by simpa using hcells) (by simp)
  cases hx : D.answer id args with
  | error e => rw [hx] at hanswer; cases hanswer
  | ok b => rw [hx] at hanswer; cases hanswer; rfl

end LiveBinding.Deployment
