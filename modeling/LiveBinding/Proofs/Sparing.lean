import LiveBinding.Proofs.Bookkeeping

namespace LiveBinding

section

variable {σ α β : Type} {x y : ExceptT Stop (StateM σ) α}

/-- One computation is cut short, or it is the same as another one. -/
def Below (x y : ExceptT Stop (StateM σ) α) : Prop :=
  ∀ s, (x s).1 = .error .exhausted ∨ x s = y s

namespace Below

theorem refl (x : ExceptT Stop (StateM σ) α) : Below x x := fun _ ↦ .inr rfl

theorem exhausted (y : ExceptT Stop (StateM σ) α) : Below (throw .exhausted) y := fun _ ↦ .inl rfl

theorem eq (h : Below x y) {s : σ} (hne : (x s).1 ≠ .error .exhausted) : y s = x s :=
  ((h s).resolve_left hne).symm

theorem bind {k k' : α → ExceptT Stop (StateM σ) β} (h : Below x y) (hk : ∀ a, Below (k a) (k' a)) :
    Below (x >>= k) (y >>= k') := by
  intro s
  simp only [Stop.bind_apply]
  rcases h s with hx | hx
  · left
    rcases hxs : x s with ⟨e | a, t⟩ <;> rw [hxs] at hx <;> cases hx
    rfl
  · rw [hx]
    rcases y s with ⟨e | a, t⟩
    · exact .inr rfl
    · exact hk a t

end Below

end

section

variable {α : Type} {x y : Run α}

theorem Run.below_holding (values : List Value) (h : Below x y) :
    Below (Run.holding values x) (Run.holding values y) := by
  intro w
  unfold Run.holding
  exact (h _).imp id fun hx ↦ by rw [hx]

theorem Run.below_ignoreError {x y : Run Unit} (h : Below x y) :
    Below (Run.ignoreError x) (Run.ignoreError y) := by
  intro w
  unfold Run.ignoreError
  rcases h w with hx | hx
  · left
    rcases hxs : x w with ⟨e | u, t⟩ <;> rw [hxs] at hx <;> cases hx
    rfl
  · exact .inr (by rw [hx])

theorem Exec.below_lift (h : Below x y) : Below (Exec.lift x) (Exec.lift y) := by
  intro m
  unfold Exec.lift
  rcases Run.below_holding m.stack h m.world with hx | hx
  · exact .inl hx
  · exact .inr (by rw [hx])

end

theorem below_drainQueue {runStep runStep' : Nat → Run Unit} (i : InstanceId)
    (h : ∀ k, Below (runStep k) (runStep' k)) (n : Nat) :
    Below (drainQueue runStep i n) (drainQueue runStep' i n) := by
  induction n with
  | zero => exact .exhausted _
  | succ n ih =>
    refine (Below.refl _).bind fun queued ↦ (Below.refl _).bind fun _ ↦ ?_
    rcases queued with _ | ⟨k, _ | ⟨l, rest⟩⟩
    · exact .refl _
    · exact (h k).bind fun _ ↦ ih
    · exact (h 0).bind fun _ ↦ ih

/-- Host code does the same with some updates as with others, unless one of them is cut short. -/
structure HostBelow (r : Registry) (update update' : Updater) (fuel : Nat) : Prop where
  perform : ∀ {α : Type} (action : Action α),
    Below (action.perform r update fuel) (action.perform r update' fuel)
  notifyAll : ∀ c listeners,
    Below (notifyAll r update fuel c listeners) (notifyAll r update' fuel c listeners)
  notify : ∀ c, Below (notify r update fuel c) (notify r update' fuel c)
  writeCell : ∀ c v, Below (writeCell r update fuel c v) (writeCell r update' fuel c v)
  writeProperty : ∀ o property v,
    Below (writeProperty r update fuel o property v) (writeProperty r update' fuel o property v)

section

variable {r : Registry} {update update' : Updater} (hu : ∀ j k, Below (update j k) (update' j k))
include hu

theorem below_host (fuel : Nat) : HostBelow r update update' fuel := by
  induction fuel with
  | zero =>
    refine ⟨fun action ↦ ?_, fun c listeners ↦ ?_, fun c ↦ ?_, fun c v ↦ ?_, fun o p v ↦ ?_⟩
    · simp only [Action.perform]
      exact .refl _
    · cases listeners with
      | nil => exact .refl _
      | cons => exact .exhausted _
    · exact .exhausted _
    · exact .exhausted _
    · exact .exhausted _
  | succ fuel ih =>
    refine ⟨fun action ↦ ?_, fun c listeners ↦ ?_, fun c ↦ ?_, fun c v ↦ ?_, fun o p v ↦ ?_⟩
    · cases action with
      | done a => exact .refl _
      | fail e => exact .refl _
      | get o property next | text v next | find name next =>
        exact (Below.refl _).bind fun v ↦ ih.perform _
      | set o property v next => exact (ih.writeProperty o property v).bind fun _ ↦ ih.perform _
      | make cls slots next => exact (Below.refl _).bind fun o ↦ ih.perform _
      | ifLive o live dead =>
        refine (Below.refl _).bind fun isLive ↦ ?_
        split
        · exact Run.below_holding _ (ih.perform live)
        · exact ih.perform dead
      | logCall method args next | logWatch tag v next =>
        exact (Below.refl _).bind fun _ ↦ ih.perform _
    · cases listeners with
      | nil => exact .refl _
      | cons listener rest =>
        cases listener with
        | binding j k =>
          refine (Below.refl _).bind fun alive ↦ ?_
          split
          · exact (hu j k).bind fun _ ↦ ih.notifyAll c rest
          · exact ih.notifyAll c rest
        | callback action =>
          exact (Below.refl _).bind fun v ↦ (Run.below_holding _ (ih.perform _)).bind fun _ ↦
            ih.notifyAll c rest
    · refine (Below.refl _).bind fun found ↦ ?_
      cases found with
      | none => exact .refl _
      | some cell =>
        dsimp only
        split
        · exact .refl _
        · exact ih.notifyAll c _
    · refine (Below.refl _).bind fun old ↦ ?_
      split
      · exact .refl _
      · exact (Below.refl _).bind fun _ ↦ ih.notify c
    · refine (Below.refl _).bind fun slot ↦ ?_
      rcases slot with _ | (v' | c)
      · exact .refl _
      · exact .refl _
      · exact ih.writeCell c v

variable (fuel : Nat)

theorem below_unlockCell (c : CellId) :
    Below (unlockCell r update fuel c) (unlockCell r update' fuel c) := by
  refine (Below.refl _).bind fun found ↦ ?_
  cases found with
  | none => exact .refl _
  | some cell =>
    dsimp only
    split
    · exact (Below.refl _).bind fun _ ↦ (below_host hu fuel).notify c
    · exact .refl _

theorem below_releaseHeld (frame : Frame) (locks : LockDepth) :
    Below (releaseHeld r update fuel frame locks) (releaseHeld r update' fuel frame locks) := by
  have hlocks (c : CellId) (n : Nat) :
      Below (releaseLocks r update fuel c n) (releaseLocks r update' fuel c n) := by
    induction n with
    | zero => exact .refl _
    | succ n ih => exact (Run.below_ignoreError (below_unlockCell hu fuel c)).bind fun _ ↦ ih
  unfold releaseHeld
  cases frame.binding with
  | none => exact .refl _
  | some i =>
    refine (Below.refl _).bind fun found ↦ ?_
    cases found with
    | none => exact .refl _
    | some s => exact hlocks s.result locks.toNat

namespace Exec

theorem below_call (m : MethodId) (args : List Value) :
    Below (call r update fuel m args) (call r update' fuel m args) := by
  refine (below_lift ?_).bind fun _ ↦ .refl _
  exact (Below.refl _).bind fun method ↦ Run.below_holding args ((below_host hu fuel).perform _)

theorem below_step (frame : Frame) (R : Routine) (op : Op) :
    Below (step r update fuel frame R op) (step r update' fuel frame R op) := by
  cases op with
  | invoke m argc =>
    refine (Below.refl _).bind fun args ↦ (Below.refl _).bind fun receiver ↦ ?_
    split
    · exact .refl _
    · exact below_call hu fuel m _
  | invokeStatic m argc | construct m argc =>
    exact (Below.refl _).bind fun args ↦ below_call hu fuel m args
  | publish =>
    exact (Below.refl _).bind fun v ↦ (Below.refl _).bind fun s ↦
      below_lift ((below_host hu fuel).writeCell s.result v)
  | lockRelease =>
    exact (Below.refl _).bind fun s ↦ (Below.refl _).bind fun _ ↦
      below_lift (below_unlockCell hu fuel s.result)
  | _ => exact .refl _

theorem below_execute (frame : Frame) (R : Routine) (n : Nat) :
    Below (execute r update fuel frame R n) (execute r update' fuel frame R n) := by
  induction n with
  | zero => exact .exhausted _
  | succ n ih =>
    refine (Below.refl _).bind fun m ↦ ?_
    split
    · exact .refl _
    · exact .refl _
    · exact (Below.refl _).bind fun _ ↦ (below_step hu fuel frame R _).bind fun _ ↦ ih

end Exec

theorem below_runRoutine (frame : Frame) (R : Routine) :
    Below (runRoutine r update fuel frame R) (runRoutine r update' fuel frame R) := by
  intro w
  rcases Exec.below_execute hu fuel frame R fuel { world := w } with hx | hx
  · exact .inl (runRoutine_exhausted hx)
  · unfold runRoutine
    rw [hx]
    rcases Exec.execute r update' fuel frame R fuel { world := w } with ⟨e | v, m⟩
    · have hrel := Run.below_holding m.stack (below_releaseHeld (r := r) hu fuel frame m.locks)
      exact (hrel.bind fun _ ↦ .refl (throw e)) m.world
    · exact .inr rfl

theorem below_updateBy (j : InstanceId) (k : Nat) :
    Below (updateBy r update fuel j k) (updateBy r update' fuel j k) := by
  refine (Below.refl _).bind fun found ↦ ?_
  cases found with
  | none => exact .refl _
  | some s =>
    refine (Below.refl _).bind fun locked ↦ ?_
    split
    · exact .refl _
    · have hstep (k : Nat) := (below_runRoutine (r := r) hu fuel { binding := some j, step := k }
        s.artifact.update).bind fun _ ↦ Below.refl (pure ())
      exact (hstep k).bind fun _ ↦ below_drainQueue j hstep fuel

end

/-- How many locks are held on the result of a binding. -/
def World.lockDepth? (w : World) (i : InstanceId) : Option LockDepth :=
  ((w.resultCell? i).bind w.cell?).map Cell.lockDepth

/-- Updates as `updateInstance` runs them, up to where one of a certain binding would start. One that
has to wait for the result of the binding to be unlocked does not start. -/
def updateSparing (r : Registry) (i : InstanceId) : Nat → Updater
  | 0, _, _ => Run.exhausted
  | fuel + 1, j, k => do
    if ← Run.view fun w ↦ j = i && w.lockDepth? i == some 0 then Run.exhausted
    else updateBy r (updateSparing r i fuel) fuel j k

/-- As long as no update of the binding starts, it makes no difference that it would not be run. -/
theorem below_updateSparing (r : Registry) (i : InstanceId) (fuel : Nat) (j : InstanceId) (k : Nat) :
    Below (updateSparing r i fuel j k) (updateInstance r fuel j k) := by
  induction fuel generalizing j k with
  | zero => exact .exhausted _
  | succ fuel ih =>
    intro w
    rw [updateInstance_succ]
    unfold updateSparing
    rw [Stop.bind_apply]
    dsimp only [Run.view]
    split
    · exact .inl rfl
    · exact below_updateBy ih fuel j k w

/-- The run of a routine ends, and no update of a certain binding starts meanwhile. -/
def StartsNoUpdate (r : Registry) (i : InstanceId) (fuel : Nat) (frame : Frame) (R : Routine)
    (w : World) : Prop :=
  (runRoutine r (updateSparing r i fuel) fuel frame R w).1 ≠ .error .exhausted

theorem StartsNoUpdate.run_eq {r : Registry} {i : InstanceId} {fuel : Nat} {frame : Frame}
    {R : Routine} {w : World} (h : StartsNoUpdate r i fuel frame R w) :
    runRoutine r (updateInstance r fuel) fuel frame R w =
      runRoutine r (updateSparing r i fuel) fuel frame R w :=
  (below_runRoutine (below_updateSparing r i fuel) fuel frame R).eq h

end LiveBinding
