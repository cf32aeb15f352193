import LiveBinding.Proofs.Running

namespace LiveBinding

/-- An unlocked cell without listeners. -/
abbrev Cell.quiet (v : Value) : Cell := ⟨v, [], 0, false⟩

/-- The value of a cell after another one is written to it. -/
def Value.replaced (old new : Value) : Value := if old.same new then old else new

namespace World

variable {w : World} {c : CellId}

def putCell (w : World) (c : CellId) (cell : Cell) : World := w.modifyCell c fun _ ↦ cell

theorem cell?_putCell {cell cell' : Cell} (h : w.cell? c = some cell) :
    (w.putCell c cell').cell? c = some cell' := by
  rw [putCell, cell?_modifyCell, if_pos rfl, h]
  rfl

theorem modifyCell_modifyCell (w : World) (c : CellId) (f g : Cell → Cell) :
    (w.modifyCell c f).modifyCell c g = w.modifyCell c (g ∘ f) := by
  simp only [modifyCell]
  congr 1
  ext j hj hj'
  · simp
  · simp only [Array.getElem_modify]
    split <;> rfl

theorem modifyCell_congr {cell : Cell} (h : w.cell? c = some cell) {f g : Cell → Cell}
    (hfg : f cell = g cell) : w.modifyCell c f = w.modifyCell c g := by
  obtain ⟨hi, he⟩ := Array.getElem?_eq_some_iff.mp h
  simp only [modifyCell]
  congr 1
  ext j hj hj'
  · simp
  · simp only [Array.getElem_modify]
    split
    · next hij =>
      subst hij
      rw [he, hfg]
    · rfl

theorem modifyCell_id {cell : Cell} (h : w.cell? c = some cell) {f : Cell → Cell}
    (hf : f cell = cell) : w.modifyCell c f = w := by
  rw [modifyCell_congr h (g := id) hf]
  simp only [modifyCell]
  congr 1
  ext j hj hj'
  · simp
  · simp only [Array.getElem_modify, id, ite_self]

theorem cellValue_modifyCell (f : Cell → Cell) (hf : ∀ cell, (f cell).value = cell.value) (w : World)
    (c : CellId) : (w.modifyCell c f).cellValue = w.cellValue := by
  funext d
  simp only [cellValue, cell?_modifyCell]
  split
  · cases w.cell? d <;> simp [hf]
  · rfl

/-- A lock that is given back at once leaves nothing behind. -/
theorem unlock_lock {cell : Cell} (h : w.cell? c = some cell) {depth : LockDepth}
    (hd : depth = cell.lockDepth) :
    (w.modifyCell c Cell.lock).modifyCell c ({ · with lockDepth := depth }) = w := by
  rw [modifyCell_modifyCell, hd]
  exact modifyCell_id h rfl

theorem cell?_lock {cell : Cell} (h : w.cell? c = some cell) :
    (w.modifyCell c Cell.lock).cell? c = some cell.lock := by
  rw [cell?_modifyCell, if_pos rfl, h]
  rfl

theorem modifyInstance_eq_put {i : InstanceId} {s : Instance} (h : w.instance? i = some s)
    (f : Instance → Instance) : w.modifyInstance i f = w.put i (f s) := by
  obtain ⟨hi, he⟩ := Array.getElem?_eq_some_iff.mp h
  simp only [put, modifyInstance]
  congr 1
  ext j hj hj'
  · simp
  · simp only [Array.getElem_modify]
    split
    · next hij => subst hij; rw [he]
    · rfl

end World

namespace Run

variable {α β : Type}

theorem bind_apply (x : Run α) (k : α → Run β) (w : World) :
    (x >>= k) w = match x w with
      | (.ok a, w') => k a w'
      | (.error e, w') => (.error e, w') := by
  rw [Stop.bind_apply]
  rcases x w with ⟨_ | _, _⟩ <;> rfl

theorem bind_error {x : Run α} {w : World} {e : Stop} (h : (x w).1 = .error e) (k : α → Run β) :
    ((x >>= k) w).1 = .error e := by
  rw [bind_apply]
  rcases hx : x w with ⟨a, w'⟩
  rw [hx] at h
  obtain rfl : a = .error e := h
  rfl

theorem view_apply (f : World → α) (w : World) : view f w = (.ok (f w), w) := rfl

theorem change_apply (f : World → World) (w : World) : change f w = (.ok (), f w) := rfl

end Run

section

variable {r : Registry} {update : Updater} {fuel : Nat} {w : World} {c : CellId} {old v : Value}

/-- Writing to a cell that is locked leaves its listeners to the last unlock. -/
theorem writeCell_locked {ls : List Listener} {depth : LockDepth} {pending : Bool}
    (hc : w.cell? c = some ⟨old, ls, depth, pending⟩) (hd : depth ≠ 0)
    (hfuel : 2 ≤ fuel ∨ (writeCell r update fuel c v w).1 ≠ .error .exhausted) :
    writeCell r update fuel c v w =
      (.ok (), w.putCell c ⟨old.replaced v, ls, depth, pending || !old.same v⟩) := by
  have hvalue : w.cellValue c = old := by rw [World.cellValue, hc]; rfl
  rcases fuel with _ | fuel
  · exact absurd rfl (hfuel.resolve_left (by omega))
  simp only [writeCell, Run.bind_apply, Run.view_apply, hvalue] at hfuel ⊢
  by_cases hsame : old.same v
  · simp only [hsame, if_true, Value.replaced]
    have hid : w.putCell c ⟨old, ls, depth, pending || !true⟩ = w :=
      World.modifyCell_id hc (by simp)
    rw [hid]
    rfl
  · simp only [hsame, Bool.false_eq_true, if_false, Run.bind_apply, Run.change_apply] at hfuel ⊢
    rcases fuel with _ | fuel
    · exact absurd rfl (hfuel.resolve_left (by omega))
    have hc' : (w.modifyCell c ({ · with value := v })).cell? c =
        some ⟨v, ls, depth, pending⟩ := by
      rw [World.cell?_modifyCell, if_pos rfl, hc]
      rfl
    have hput : (w.modifyCell c ({ · with value := v })).modifyCell c ({ · with pending := true }) =
        w.putCell c ⟨old.replaced v, ls, depth, pending || !false⟩ := by
      rw [World.modifyCell_modifyCell]
      refine World.modifyCell_congr hc ?_
      simp [Value.replaced, hsame]
    simp only [notify, Run.bind_apply, Run.view_apply, hc', Cell.isLocked, bne_iff_ne, ne_eq, hd,
      not_false_iff, if_true]
    exact congrArg (Except.ok (), ·) hput

/-- Giving back a lock of a cell whose value did not change tells nobody. -/
theorem unlockCell_unchanged {cell : Cell} (hc : w.cell? c = some cell) (hp : cell.pending = false) :
    unlockCell r update fuel c w =
      (.ok (), w.modifyCell c ({ · with lockDepth := cell.lockDepth.pred })) := by
  simp only [unlockCell, Run.bind_apply, Run.view_apply, hc, hp, Bool.and_false, Bool.false_eq_true,
    if_false, Run.change_apply]

/-- The last unlock of a cell that nobody listens to. -/
theorem unlockCell_quiet {pending : Bool} (hc : w.cell? c = some ⟨v, [], 1, pending⟩)
    (hfuel : 0 < fuel ∨ (unlockCell r update fuel c w).1 ≠ .error .exhausted) :
    unlockCell r update fuel c w = (.ok (), w.putCell c (.quiet v)) := by
  simp only [unlockCell, Run.bind_apply, Run.view_apply, hc] at hfuel ⊢
  cases pending with
  | false =>
    simp only [Bool.and_false, Bool.false_eq_true, if_false, Run.change_apply]
    exact congrArg (Except.ok (), ·) (World.modifyCell_congr hc rfl)
  | true =>
    have hlast : (LockDepth.pred 1 == 0 && true) = true := rfl
    simp only [hlast, if_true, Run.bind_apply, Run.change_apply] at hfuel ⊢
    rcases fuel with _ | fuel
    · exact absurd rfl (hfuel.resolve_left (by omega))
    have hput : w.modifyCell c ({ · with lockDepth := LockDepth.pred 1, pending := false }) =
        w.putCell c (.quiet v) := World.modifyCell_congr hc rfl
    simp only [hput, notify, Run.bind_apply, Run.view_apply, World.cell?_putCell hc]
    simp only [Cell.isLocked, notifyAll]
    rfl

end

namespace Exec

variable {r : Registry} {update : Updater} {fuel : Nat} {frame : Frame} {i : InstanceId}
variable {s : Instance} {m : Machine} {v old : Value} {σ : List Value}

theorem lift_apply {α : Type} {x : Run α} {a : Except Stop α} {w : World}
    (h : x { m.world with held := m.stack ++ m.world.held } = (a, w)) :
    lift x m = (a, { m with world := { w with held := m.world.held } }) := by
  unfold lift Run.holding
  rw [h]

/-- Publishing to a cell that is locked only stores the value. -/
theorem does_publish {ls : List Listener} (hb : frame.binding = some i)
    (hs : m.world.instance? i = some s) (hm : m.stack = v :: σ)
    (hc : m.world.cell? s.result = some ⟨old, ls, 1, false⟩)
    (hfuel : 2 ≤ fuel ∨ (runOp r update fuel frame .publish m).result ≠ .error .exhausted) :
    Does r update fuel frame .publish m
      ⟨m.world.putCell s.result ⟨old.replaced v, ls, 1, !old.same v⟩, σ, m.pc, m.locks⟩ := by
  have hs' : ({ m with stack := σ } : Machine).world.instance? i = some s := hs
  have hrun : runOp r update fuel frame .publish m =
      ⟨[], (lift (writeCell r update fuel s.result v) { m with stack := σ }).1,
        (lift (writeCell r update fuel s.result v) { m with stack := σ }).2⟩ := by
    simp only [runOp, step, bind_apply, pop_apply, hm, state_apply hb hs']
    rfl
  have hwrite : writeCell r update fuel s.result v { m.world with held := σ ++ m.world.held } = _ :=
    writeCell_locked hc (by decide) (hfuel.imp_right fun h ↦ by rwa [hrun] at h)
  rw [Does, hrun, lift_apply (m := { m with stack := σ }) hwrite]
  rfl

/-- Giving back the lock of the result. -/
theorem runOp_lockRelease (hb : frame.binding = some i) (hs : m.world.instance? i = some s) :
    runOp r update fuel frame .lockRelease m =
      ⟨[], (lift (unlockCell r update fuel s.result) { m with locks := m.locks.pred }).1,
        (lift (unlockCell r update fuel s.result) { m with locks := m.locks.pred }).2⟩ := by
  simp only [runOp, step, bind_apply, state_apply hb hs]
  rfl

theorem does_lockRelease {pending : Bool} (hb : frame.binding = some i)
    (hs : m.world.instance? i = some s) (hc : m.world.cell? s.result = some ⟨v, [], 1, pending⟩)
    (hfuel : 0 < fuel ∨ (runOp r update fuel frame .lockRelease m).result ≠ .error .exhausted) :
    Does r update fuel frame .lockRelease m
      ⟨m.world.putCell s.result (.quiet v), m.stack, m.pc, m.locks.pred⟩ := by
  have hrun : runOp r update fuel frame .lockRelease m = _ := runOp_lockRelease hb hs
  have hunlock : unlockCell r update fuel s.result
      { m.world with held := m.stack ++ m.world.held } = _ :=
    unlockCell_quiet hc (hfuel.imp_right fun h ↦ by rwa [hrun] at h)
  rw [Does, hrun, lift_apply (m := { m with locks := m.locks.pred }) hunlock]
  rfl

/-- Giving back the lock of a cell whose value did not change. -/
theorem does_lockRelease_unchanged {cell : Cell} (hb : frame.binding = some i)
    (hs : m.world.instance? i = some s) (hc : m.world.cell? s.result = some cell)
    (hp : cell.pending = false) :
    Does r update fuel frame .lockRelease m
      ⟨m.world.modifyCell s.result ({ · with lockDepth := cell.lockDepth.pred }), m.stack, m.pc,
        m.locks.pred⟩ := by
  have hunlock : unlockCell r update fuel s.result
      { m.world with held := m.stack ++ m.world.held } = _ := unlockCell_unchanged hc hp
  simp only [Does, runOp, step, bind_apply, state_apply hb hs, modify_apply]
  rw [lift_apply (m := { m with locks := m.locks.pred }) hunlock]
  rfl

theorem runOps_one (op : Op) : runOps r update fuel frame [op] = runOp r update fuel frame op := by
  funext m
  simp only [runOps, Block.andThen, Block.skip, List.append_nil]
  rcases runOp r update fuel frame op m with ⟨_, _ | _, _⟩ <;> rfl

theorem andThen_of_ok {a b : Block} (h : (a m).result = .ok ()) :
    a.andThen b m = ⟨(a m).calls ++ (b (a m).machine).calls, (b (a m).machine).result,
      (b (a m).machine).machine⟩ := by
  simp only [Block.andThen, h]

theorem andThen_of_error {a b : Block} {e : Stop} (h : (a m).result = .error e) :
    a.andThen b m = a m := by
  simp only [Block.andThen, h]

/-- A value is published and the lock given back. -/
theorem publish_release (hb : frame.binding = some i) (hs : m.world.instance? i = some s)
    (hm : m.stack = v :: σ) (hc : m.world.cell? s.result = some ⟨old, [], 1, false⟩)
    (hfuel : 2 ≤ fuel ∨ ((runOp r update fuel frame .publish).andThen
      (runOp r update fuel frame .lockRelease) m).result ≠ .error .exhausted) :
    (runOp r update fuel frame .publish).andThen (runOp r update fuel frame .lockRelease) m =
      ⟨[], .ok (), ⟨m.world.putCell s.result (.quiet (old.replaced v)), σ, m.pc, m.locks.pred⟩⟩ := by
  have hpublish : Does r update fuel frame .publish m _ := does_publish hb hs hm hc
    (hfuel.imp_right fun hne he ↦ hne (by rw [andThen_of_error he, he]))
  rw [andThen_ok hpublish] at hfuel ⊢
  have hrelease : Does r update fuel frame .lockRelease
      ⟨m.world.putCell s.result ⟨old.replaced v, [], 1, !old.same v⟩, σ, m.pc, m.locks⟩ _ :=
    does_lockRelease hb hs (World.cell?_putCell hc) (hfuel.imp (by omega) id)
  rw [show runOp r update fuel frame .lockRelease _ = _ from hrelease]
  simp only [World.putCell, World.modifyCell_modifyCell]
  rfl

end Exec

section

variable {r : Registry} {update : Updater} {fuel : Nat} {frame : Frame} {w : World}

/-- Giving back locks of a cell whose value did not change tells nobody. -/
theorem releaseLocks_quiet {c : CellId} {cell : Cell} (hc : w.cell? c = some cell)
    (hp : cell.pending = false) (n : Nat) : (releaseLocks r update fuel c n w).1 = .ok () := by
  induction n generalizing w cell with
  | zero => rfl
  | succ n ih =>
    have hcell : (w.modifyCell c ({ · with lockDepth := cell.lockDepth.pred })).cell? c =
        some { cell with lockDepth := cell.lockDepth.pred } := by
      rw [World.cell?_modifyCell, if_pos rfl, hc]
      rfl
    simp only [releaseLocks, Run.bind_apply, Run.ignoreError, unlockCell_unchanged hc hp]
    exact ih hcell hp

/-- What a routine comes to is what its instructions come to. -/
theorem runRoutine_ok {R : Routine} {o : Outcome} {pc : Nat}
    (h : Exec.execute r update fuel frame R fuel { world := w } =
      (Exec.answer o, { o.machine with pc }))
    (ho : o.result = .ok ()) :
    runRoutine r update fuel frame R w = (.ok o.machine.stack.head?, o.machine.world) := by
  simp only [runRoutine, h, Exec.answer, ho]

theorem runRoutine_error {R : Routine} {o : Outcome} {pc : Nat} {e : Stop}
    (h : Exec.execute r update fuel frame R fuel { world := w } =
      (Exec.answer o, { o.machine with pc }))
    (ho : o.result = .error e)
    (hrel : ∀ values locks, (Run.holding values (releaseHeld r update fuel frame locks)
      o.machine.world).1 = .ok ()) :
    (runRoutine r update fuel frame R w).1 = .error e := by
  simp only [runRoutine, h, Exec.answer, ho]
  rw [seqRight_eq_bind, Run.bind_apply]
  have hrel := hrel o.machine.stack o.machine.locks
  rcases hx : Run.holding o.machine.stack (releaseHeld r update fuel frame o.machine.locks)
    o.machine.world with ⟨_ | _, _⟩
  · rw [hx] at hrel
    cases hrel
  · rfl

/-- A routine that fails does not come to a value, whatever giving back its locks comes to. -/
theorem runRoutine_fails {R : Routine} {o : Outcome} {pc : Nat} {e : Stop}
    (h : Exec.execute r update fuel frame R fuel { world := w } =
      (Exec.answer o, { o.machine with pc }))
    (ho : o.result = .error e) : ∃ e', (runRoutine r update fuel frame R w).1 = .error e' := by
  simp only [runRoutine, h, Exec.answer, ho]
  rw [seqRight_eq_bind, Run.bind_apply]
  rcases Run.holding o.machine.stack (releaseHeld r update fuel frame o.machine.locks)
    o.machine.world with ⟨e' | _, _⟩
  · exact ⟨e', rfl⟩
  · exact ⟨e, rfl⟩

/-- A routine that is given enough steps comes to its outcome. -/
theorem Exec.Finishes.execute_of {R : Routine} {n : Nat} {o : Outcome}
    (h : Finishes r update fuel frame R n { world := w } o)
    (hfuel : n ≤ fuel ∨ (runRoutine r update fuel frame R w).1 ≠ .error .exhausted) :
    (∃ pc, execute r update fuel frame R fuel { world := w } = (answer o, { o.machine with pc })) ∧
      history r update fuel frame R fuel { world := w } = o.calls := by
  obtain hn | hne := hfuel
  · have h := h (fuel - n)
    rwa [Nat.sub_add_cancel hn] at h
  · exact h.execute_eq fun he ↦ hne (runRoutine_exhausted he)

theorem releaseHeld_quiet {i : InstanceId} {s : Instance} {cell : Cell}
    (hb : frame.binding = some i) (hs : w.instance? i = some s) (hc : w.cell? s.result = some cell)
    (hp : cell.pending = false) (values : List Value) (locks : LockDepth) :
    (Run.holding values (releaseHeld r update fuel frame locks) w).1 = .ok () := by
  have hs' : ({ w with held := values ++ w.held }).instance? i = some s := hs
  have hc' : ({ w with held := values ++ w.held }).cell? s.result = some cell := hc
  simp only [Run.holding, releaseHeld, hb, Run.bind_apply, Run.view_apply, hs']
  exact releaseLocks_quiet hc' hp locks.toNat

/-- A routine that fails while it holds the lock gives it back, and tells nobody if the value did not
change. -/
theorem runRoutine_error_unchanged {R : Routine} {i : InstanceId} {s : Instance} {cell : Cell}
    {o : Outcome} {pc : Nat} {e : Stop} (hb : frame.binding = some i)
    (h : Exec.execute r update fuel frame R fuel { world := w } =
      (Exec.answer o, { o.machine with pc }))
    (ho : o.result = .error e) (hs : o.machine.world.instance? i = some s)
    (hc : o.machine.world.cell? s.result = some cell) (hp : cell.pending = false)
    (hl : o.machine.locks = 1) :
    runRoutine r update fuel frame R w =
      (.error e, o.machine.world.modifyCell s.result ({ · with lockDepth := cell.lockDepth.pred })) := by
  have hunlock : unlockCell r update fuel s.result
      { o.machine.world with held := o.machine.stack ++ o.machine.world.held } = _ :=
    unlockCell_unchanged hc hp
  have hs' : ({ o.machine.world with held := o.machine.stack ++ o.machine.world.held } : World).instance?
      i = some s := hs
  simp only [runRoutine, h, Exec.answer, ho, hl]
  rw [seqRight_eq_bind, Run.bind_apply]
  simp only [Run.holding, releaseHeld, hb, Run.bind_apply, Run.view_apply, hs', releaseLocks,
    UInt32.toNat_one, Run.ignoreError, hunlock]
  rfl

/-- An update whose result is not locked runs the routine, and then what was asked for meanwhile. -/
theorem updateInstance_run {i : InstanceId} {s : Instance} {old : Value} {ls : List Listener} {k : Nat}
    (hs : w.instance? i = some s) (hc : w.cell? s.result = some ⟨old, ls, 0, false⟩) :
    updateInstance r (fuel + 1) i k w = (do
      let _ ← runRoutine r (updateInstance r fuel) fuel { binding := some i, step := k }
        s.artifact.update
      drainQueue (fun step ↦ do
        let _ ← runRoutine r (updateInstance r fuel) fuel { binding := some i, step }
          s.artifact.update) i fuel : Run Unit) w := by
  have hlock : ((w.cell? s.result).map Cell.isLocked).getD false = false := by
    rw [hc]
    rfl
  simp only [updateInstance, Run.bind_apply, Run.view_apply, hs, hlock, Bool.false_eq_true, if_false]
  rcases runRoutine r (updateInstance r fuel) fuel { binding := some i, step := k }
    s.artifact.update w with ⟨_ | _, _⟩ <;> rfl

theorem updateInstance_error {i : InstanceId} {s : Instance} {old : Value} {k : Nat} {e : Stop}
    (hs : w.instance? i = some s) (hc : w.cell? s.result = some (.quiet old))
    (h : (runRoutine r (updateInstance r fuel) fuel { binding := some i, step := k }
      s.artifact.update w).1 = .error e) : (updateInstance r (fuel + 1) i k w).1 = .error e := by
  rw [updateInstance_run hs hc]
  exact Run.bind_error h _

theorem drainQueue_nil {i : InstanceId} {s : Instance} {runStep : Nat → Run Unit}
    (hs : w.instance? i = some s) (hq : s.queued = []) : drainQueue runStep i (fuel + 1) w = (.ok (), w) := by
  have hput : w.modifyInstance i ({ · with queued := [] }) = w := by
    rw [World.modifyInstance_eq_put hs]
    have hself : { s with queued := [] } = s := by rw [← hq]
    rw [hself, World.put_self hs]
  simp only [drainQueue, Run.bind_apply, Run.view_apply, Run.change_apply, hs, Option.map_some,
    Option.getD_some, hq, hput]
  rfl

end

namespace Compiles

open Exec Fragment

variable {r : Registry} {fuel : Nat} {i : InstanceId} {k : Nat}
variable {body coercion : Fragment} {t : Resumable} {layout : FlagLayout} {artifact : Artifact}
variable {w : World} {s : Instance} {old v : Value} {σ : List Value} {st : Store} {handled : Prop}

variable (r fuel i k body coercion layout) in
/-- What an update at a step does until its value is published. -/
def computed : Block :=
  (if k = 0 then body.run r (updateInstance r fuel) fuel { binding := some i, step := k } (some layout)
    else body.resume r (updateInstance r fuel) fuel { binding := some i, step := k } (some layout) k).andThen
    (coercion.run r (updateInstance r fuel) fuel { binding := some i, step := k } (some layout))

theorem updateBlock_resume (hs : w.instance? i = some s)
    (hroute : updateRoute layout body i k (locked w s).world = .resume) :
    updateBlock r (updateInstance r fuel) fuel { binding := some i, step := k } layout body coercion i k
      { world := w } =
      ((computed r fuel i k body coercion layout).andThen
        ((runOp r (updateInstance r fuel) fuel { binding := some i, step := k } .publish).andThen
          (runOp r (updateInstance r fuel) fuel { binding := some i, step := k } .lockRelease)))
        (locked w s) := by
  rw [updateBlock_eq rfl hs, ← Block.andThen_assoc, ← runOps_one, ← runOps_one]
  simp only [Block.andThen, updateBody, hroute]
  rfl

theorem updateBlock_ok {s' : Instance} (hs : w.instance? i = some s)
    (hroute : updateRoute layout body i k (locked w s).world = .resume)
    (ho : (computed r fuel i k body coercion layout (locked w s)).result = .ok ())
    (hs' : (computed r fuel i k body coercion layout (locked w s)).machine.world.instance? i = some s')
    (hstack : (computed r fuel i k body coercion layout (locked w s)).machine.stack = v :: σ)
    (hc : (computed r fuel i k body coercion layout (locked w s)).machine.world.cell? s'.result =
      some ⟨old, [], 1, false⟩)
    (hfuel : 2 ≤ fuel ∨ (updateBlock r (updateInstance r fuel) fuel { binding := some i, step := k }
      layout body coercion i k { world := w }).result ≠ .error .exhausted) :
    ∃ pc locks, updateBlock r (updateInstance r fuel) fuel { binding := some i, step := k } layout body
      coercion i k { world := w } =
        ⟨(computed r fuel i k body coercion layout (locked w s)).calls, .ok (),
          ⟨(computed r fuel i k body coercion layout (locked w s)).machine.world.putCell s'.result
            (.quiet (old.replaced v)), σ, pc, locks⟩⟩ := by
  rw [updateBlock_resume hs hroute] at hfuel ⊢
  rw [andThen_of_ok ho] at hfuel ⊢
  rw [publish_release rfl hs' hstack hc hfuel, List.append_nil]
  exact ⟨_, _, rfl⟩

theorem running_cell_result (hc : w.cell? s.result = some (.quiet old)) {m : Machine} {c : Config}
    (h : Running artifact body.points i (locked w s).world s handled m c) :
    m.world.cell? s.result = some ⟨old, [], 1, false⟩ := by
  rw [h.result]
  exact (World.cell?_modifyCell ..).trans (by rw [if_pos rfl, hc]; rfl)

theorem updateBlock_error {e : Stop} (hs : w.instance? i = some s)
    (hroute : updateRoute layout body i k (locked w s).world = .resume)
    (ho : (computed r fuel i k body coercion layout (locked w s)).result = .error e) :
    updateBlock r (updateInstance r fuel) fuel { binding := some i, step := k } layout body
      coercion i k { world := w } = computed r fuel i k body coercion layout (locked w s) := by
  rw [updateBlock_resume hs hroute, andThen_of_error ho]

/-- What an update that ends well has computed when it publishes. -/
theorem computed_of_ok (hs : w.instance? i = some s)
    (hroute : updateRoute layout body i k (locked w s).world = .resume)
    (hok : (updateBlock r (updateInstance r fuel) fuel { binding := some i, step := k } layout body
      coercion i k { world := w }).result = .ok ()) :
    (computed r fuel i k body coercion layout (locked w s)).result = .ok () ∧
      (computed r fuel i k body coercion layout (locked w s)).machine.stack ≠ [] := by
  rw [updateBlock_resume hs hroute] at hok
  cases hr : (computed r fuel i k body coercion layout (locked w s)).result with
  | error e =>
    rw [andThen_of_error hr, hr] at hok
    cases hok
  | ok u =>
    refine ⟨rfl, fun hstack ↦ ?_⟩
    rw [andThen_of_ok hr] at hok
    simp only [Block.andThen, runOp, step, bind_apply, pop_apply, hstack] at hok
    cases hok

/-- An update at a point in a branch that is off only takes the lock and gives it back. -/
theorem updateBlock_off (hs : w.instance? i = some s)
    (hroute : updateRoute layout body i k (locked w s).world = .exit) :
    updateBlock r (updateInstance r fuel) fuel { binding := some i, step := k } layout body coercion i k
      { world := w } =
        runOp r (updateInstance r fuel) fuel { binding := some i, step := k } .lockRelease (locked w s) := by
  rw [updateBlock_eq rfl hs, runOps_one]
  simp only [Block.andThen, updateBody, hroute, Block.skip, List.nil_append]

/-- An update at a point in a branch that is off does nothing. -/
theorem updateBlock_exit {ls : List Listener} (hs : w.instance? i = some s)
    (hc : w.cell? s.result = some ⟨old, ls, 0, false⟩)
    (hroute : updateRoute layout body i k (locked w s).world = .exit) :
    (updateBlock r (updateInstance r fuel) fuel { binding := some i, step := k } layout body coercion i k
      { world := w }).result = .ok () ∧
    (updateBlock r (updateInstance r fuel) fuel { binding := some i, step := k } layout body coercion i k
      { world := w }).machine.world = w := by
  have hrelease : Does r (updateInstance r fuel) fuel { binding := some i, step := k } .lockRelease
      (locked w s) _ := does_lockRelease_unchanged rfl hs (World.cell?_lock hc) rfl
  rw [updateBlock_off hs hroute, show runOp r _ fuel _ .lockRelease (locked w s) = _ from hrelease]
  exact ⟨rfl, World.unlock_lock hc LockDepth.pred_one⟩

/-- A routine that ends well leaves the world as its block does, which ends well too. -/
theorem runRoutine_of_ok {n : Nat} {a : Option Value} {w' : World}
    (hfin : Finishes r (updateInstance r fuel) fuel { binding := some i, step := k }
      artifact.update n { world := w } (updateBlock r (updateInstance r fuel) fuel
        { binding := some i, step := k } layout body coercion i k { world := w }))
    (h : runRoutine r (updateInstance r fuel) fuel { binding := some i, step := k } artifact.update w =
      (.ok a, w')) :
    (updateBlock r (updateInstance r fuel) fuel { binding := some i, step := k } layout body coercion i k
      { world := w }).result = .ok () ∧
    w' = (updateBlock r (updateInstance r fuel) fuel { binding := some i, step := k } layout body
      coercion i k { world := w }).machine.world := by
  obtain ⟨⟨pc, hx⟩, -⟩ := hfin.execute_of (.inr (by rw [h]; nofun))
  cases hb : (updateBlock r (updateInstance r fuel) fuel { binding := some i, step := k } layout body
    coercion i k { world := w }).result with
  | ok u =>
    rw [runRoutine_ok hx hb] at h
    exact ⟨rfl, congrArg Prod.snd h.symm⟩
  | error e =>
    obtain ⟨e', he⟩ := runRoutine_fails hx hb
    rw [h] at he
    cases he

section

variable (hs : w.instance? i = some s) (hcode : s.artifact = artifact)
variable (hc : w.cell? s.result = some (.quiet old)) {n : Nat}
variable (hfin : Finishes r (updateInstance r fuel) fuel { binding := some i, step := k }
  artifact.update n { world := w } (updateBlock r (updateInstance r fuel) fuel
    { binding := some i, step := k } layout body coercion i k { world := w }))
include hs hcode hc hfin

/-- An update that is given enough steps comes to the outcome of its block. -/
theorem execute_update
    (hfuel : n ≤ fuel ∧ 2 ≤ fuel ∨ (updateInstance r (fuel + 1) i k w).1 ≠ .error .exhausted) :
    (∃ pc, execute r (updateInstance r fuel) fuel { binding := some i, step := k } artifact.update fuel
        { world := w } = (answer (updateBlock r (updateInstance r fuel) fuel
          { binding := some i, step := k } layout body coercion i k { world := w }),
        { (updateBlock r (updateInstance r fuel) fuel { binding := some i, step := k } layout body
          coercion i k { world := w }).machine with pc })) ∧
      history r (updateInstance r fuel) fuel { binding := some i, step := k } artifact.update fuel
        { world := w } = (updateBlock r (updateInstance r fuel) fuel { binding := some i, step := k }
          layout body coercion i k { world := w }).calls := by
  subst hcode
  exact hfin.execute_of (hfuel.imp And.left fun hne he ↦ hne (updateInstance_error hs hc he))

variable (hroute : updateRoute layout body i k (locked w s).world = .resume)
include hroute

/-- An update that computes a value publishes it. -/
theorem update_ok (hq : s.queued = [])
    (ho : (computed r fuel i k body coercion layout (locked w s)).result = .ok ())
    (hrun : Running artifact body.points i (locked w s).world s handled
      (computed r fuel i k body coercion layout (locked w s)).machine ⟨v :: σ, st⟩)
    (hfuel : n ≤ fuel ∧ 2 ≤ fuel ∨ (updateInstance r (fuel + 1) i k w).1 ≠ .error .exhausted) :
    updateInstance r (fuel + 1) i k w = (.ok (),
      (computed r fuel i k body coercion layout (locked w s)).machine.world.putCell s.result
        (.quiet (old.replaced v))) ∧
    history r (updateInstance r fuel) fuel { binding := some i, step := k } artifact.update fuel
      { world := w } = (computed r fuel i k body coercion layout (locked w s)).calls := by
  obtain ⟨⟨pc, hx⟩, hcalls⟩ := execute_update hs hcode hc hfin hfuel
  have hupdate : updateInstance r (fuel + 1) i k w = _ := updateInstance_run hs hc
  rw [hcode] at hupdate
  have hfuel' : 2 ≤ fuel ∨ (updateBlock r (updateInstance r fuel) fuel
      { binding := some i, step := k } layout body coercion i k { world := w }).result ≠
        .error .exhausted := by
    refine hfuel.imp And.right fun hne he ↦ hne (updateInstance_error hs hc ?_)
    exact hcode.symm ▸ runRoutine_exhausted (by rw [hx]; simp only [answer, he])
  obtain ⟨s', on, ht, hh⟩ := hrun.kept
  obtain ⟨pc', locks, hblock⟩ := updateBlock_ok hs hroute ho ht.found hrun.stack
    (hh.result.symm ▸ running_cell_result hc hrun) hfuel'
  rw [hblock] at hx hcalls
  refine ⟨?_, hcalls⟩
  have hroutine : runRoutine r (updateInstance r fuel) fuel { binding := some i, step := k } _ _ = _ :=
    runRoutine_ok hx rfl
  rw [hupdate, Run.bind_apply, hroutine, hh.result] at hfuel ⊢
  rcases fuel with _ | fuel
  · rcases hfuel with h | h
    · omega
    · exact absurd rfl h
  · exact drainQueue_nil (s := s') ht.found (hh.queued.trans hq)

theorem update_error {e : RuntimeError} {c : Config}
    (ho : (computed r fuel i k body coercion layout (locked w s)).result = .error (.error e))
    (hrun : Running artifact body.points i (locked w s).world s handled
      (computed r fuel i k body coercion layout (locked w s)).machine c)
    (hfuel : n ≤ fuel ∧ 2 ≤ fuel ∨ (updateInstance r (fuel + 1) i k w).1 ≠ .error .exhausted) :
    (updateInstance r (fuel + 1) i k w).1 = .error (.error e) ∧
    history r (updateInstance r fuel) fuel { binding := some i, step := k } artifact.update fuel
      { world := w } = (computed r fuel i k body coercion layout (locked w s)).calls := by
  obtain ⟨⟨pc, hx⟩, hcalls⟩ := execute_update hs hcode hc hfin hfuel
  rw [updateBlock_error hs hroute ho] at hx hcalls
  refine ⟨?_, hcalls⟩
  obtain ⟨s', on, ht, hh⟩ := hrun.kept
  have hcell : (computed r fuel i k body coercion layout (locked w s)).machine.world.cell? s'.result =
      some ⟨old, [], 1, false⟩ := hh.result.symm ▸ running_cell_result hc hrun
  refine updateInstance_error hs hc ?_
  exact hcode.symm ▸ runRoutine_error hx ho (releaseHeld_quiet rfl ht.found hcell rfl)

end

end Compiles

end LiveBinding
