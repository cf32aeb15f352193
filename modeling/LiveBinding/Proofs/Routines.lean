import LiveBinding.Compile
import LiveBinding.Proofs.Dispatch
import LiveBinding.Proofs.Resolution

namespace LiveBinding

namespace Exec

variable {r : Registry} {update : Updater} {fuel : Nat} {frame : Frame} {R : Routine}

/-- The end of a routine is reached. -/
def AtEnd (R : Routine) (i : Nat) : Prop := R.ops[i]? = none ∨ R.ops[i]? = some .return

theorem execute_atEnd {m : Machine} (h : AtEnd R m.pc) (n : Nat) :
    execute r update fuel frame R (n + 1) m = (.ok m.stack.head?, m) ∧
      history r update fuel frame R (n + 1) m = [] := by
  rw [execute, history, bind_apply, get_apply]
  rcases h with h | h <;> simp only [h] <;> exact ⟨rfl, trivial⟩

/-- A run that is not cut short stays the same with more steps. -/
theorem execute_mono {n : Nat} {m : Machine}
    (h : (execute r update fuel frame R n m).1 ≠ .error .exhausted) (d : Nat) :
    execute r update fuel frame R (n + d) m = execute r update fuel frame R n m ∧
      history r update fuel frame R (n + d) m = history r update fuel frame R n m := by
  induction n generalizing m with
  | zero => exact absurd rfl h
  | succ n ih =>
    rw [show n + 1 + d = n + d + 1 by omega]
    by_cases he : AtEnd R m.pc
    · simp only [execute_atEnd he, and_self]
    · obtain ⟨op, hop, hne⟩ : ∃ op, R.ops[m.pc]? = some op ∧ op ≠ .return := by
        rw [AtEnd, not_or] at he
        obtain ⟨op, hop⟩ := Option.ne_none_iff_exists'.mp he.1
        exact ⟨op, hop, fun h ↦ he.2 (h ▸ hop)⟩
      rw [execute_succ n m hop hne] at h
      rw [execute_succ n m hop hne, execute_succ (n + d) m hop hne, history_succ n m hop hne,
        history_succ (n + d) m hop hne]
      rcases hs : step r update fuel frame R op { m with pc := m.pc + 1 } with ⟨e | u, m'⟩
      · exact ⟨rfl, rfl⟩
      · simp only [hs] at h ⊢
        exact ⟨(ih h).1, by rw [(ih h).2]⟩

/-- What a routine gives back at the end of an outcome. -/
def answer (o : Outcome) : Except Stop (Option Value) :=
  match o.result with
  | .ok _ => .ok o.machine.stack.head?
  | .error e => .error e

variable (r update fuel frame R) in
/-- The routine comes to an outcome within `k` instructions. -/
def Finishes (k : Nat) (m : Machine) (o : Outcome) : Prop := ∀ n,
  (∃ p, execute r update fuel frame R (n + k) m = (answer o, { o.machine with pc := p })) ∧
  history r update fuel frame R (n + k) m = o.calls

theorem LeadsIn.finishes {limit k l : Nat} {m m' : Machine} {o : Outcome}
    (h : LeadsIn r update fuel frame R limit k m m') (h' : Finishes r update fuel frame R l m' o) :
    Finishes r update fuel frame R (l + k) m o := by
  intro n
  rw [← Nat.add_assoc, (h.execute_eq _).1, (h.execute_eq _).2]
  exact h' n

theorem Reaches.finishes {i j : Nat} {m : Machine} {o : Outcome}
    (h : Reaches r update fuel frame R i m o j) (he : AtEnd R j) :
    Finishes r update fuel frame R (j - i + 1) { m with pc := i } o := by
  obtain ⟨-, k, hk, hg⟩ := h
  intro n
  have hn : n + (j - i + 1) = (n + (j - i - k) + 1) + k := by omega
  have hg := hg (n + (j - i - k) + 1)
  rw [hn]
  unfold answer
  cases ho : o.result with
  | error e =>
    simp only [ho] at hg ⊢
    exact hg
  | ok u =>
    simp only [ho] at hg ⊢
    obtain ⟨h₁, h₂⟩ := @execute_atEnd r update fuel frame R { o.machine with pc := j } he
      (n + (j - i - k))
    rw [h₁, h₂, List.append_nil] at hg
    exact ⟨⟨j, hg.1⟩, hg.2⟩

/-- A run that is not cut short comes to the outcome. -/
theorem Finishes.execute_eq {k n : Nat} {m : Machine} {o : Outcome}
    (h : Finishes r update fuel frame R k m o)
    (hne : (execute r update fuel frame R n m).1 ≠ .error .exhausted) :
    (∃ p, execute r update fuel frame R n m = (answer o, { o.machine with pc := p })) ∧
      history r update fuel frame R n m = o.calls := by
  obtain ⟨h₁, h₂⟩ := execute_mono hne k
  rw [← h₁, ← h₂]
  exact h n

end Exec

open Exec Assembler Fragment

/-- The routine of a fragment alone runs that fragment, by at most one instruction for each
position. -/
theorem finishes_fragment {r : Registry} {update : Updater} {fuel : Nat} {frame : Frame}
    {f : Fragment} {layout : Option FlagLayout} {R : Routine}
    (h : Assembles ((f.emit layout .empty).emit .return) R) (hs : f.isStraight) (w : World) :
    Finishes r update fuel frame R R.size { world := w }
      (f.run r update fuel frame layout { world := w }) := by
  have hc := codeAt_emit h layout f (continues_emit _ _)
  have hend : AtEnd R (f.emit layout .empty).ops.size :=
    .inr (h.holds_one (.refl _)).head
  have hsize : R.size = (f.emit layout .empty).ops.size + 1 := by
    rw [Routine.size, h.routine_eq]
    exact size_emit _ _
  rw [hsize]
  exact (reaches_run hs hc { world := w }).finishes hend

/-- The parts that an artifact was put together from. -/
structure Compiles (body coercion : Fragment) (s : Resumable) (layout : FlagLayout)
    (artifact : Artifact) : Prop where
  renders : Renders .start body s
  plain : coercion.isPlain
  chosen : ∃ capacity, layout = s.storage.layout capacity
  update : Assembles (CompileContext.updateRoutine s layout body coercion) artifact.update
  init : Assembles ((s.storage.init.emit layout .empty).emit .return) artifact.init
  captures : artifact.captures = s.storage.captures
  scratch : artifact.scratch = s.storage.scratch
  flags : artifact.flags = layout
  counters : artifact.counters = s.storage.counters
  steps : artifact.steps = s.steps

section

variable (r : Registry) (update : Updater) (fuel : Nat) (frame : Frame)
variable (layout : FlagLayout) (body coercion : Fragment)

/-- Where an update at a step goes. -/
def updateRoute (i : InstanceId) (k : Nat) (w : World) : Route :=
  if k = 0 then .resume
  else if k ∈ body.steps then
    match w.instance? i with
    | some s => body.route (layout.isSet s.flags) k
    | none => .fault
  else .fault

/-- Evaluates from a step on and publishes the value. -/
def evaluateFrom (k : Nat) : Block :=
  ((if k = 0 then body.run r update fuel frame (some layout)
    else body.resume r update fuel frame (some layout) k).andThen
    (coercion.run r update fuel frame (some layout))).andThen
    (runOps r update fuel frame [.publish])

/-- What an update at a step does while it holds the lock. -/
def updateBody (i : InstanceId) (k : Nat) : Block := fun m ↦
  match updateRoute layout body i k m.world with
  | .resume => evaluateFrom r update fuel frame layout body coercion k m
  | .exit => Block.skip m
  | .fault => ⟨[], .error (.error (.fault "dispatch step out of range")), m⟩

/-- What the update routine of a binding does at a step. -/
def updateBlock (i : InstanceId) (k : Nat) : Block :=
  ((runOps r update fuel frame [.lockAcquire]).andThen
    (updateBody r update fuel frame layout body coercion i k)).andThen
    (runOps r update fuel frame [.lockRelease])

end

namespace Compiles

variable {r : Registry} {update : Updater} {fuel : Nat} {frame : Frame} {i : InstanceId}
variable {body coercion : Fragment} {t : Resumable} {layout : FlagLayout} {artifact : Artifact}

/-- Where the parts of the update routine stand, the fault behind the tables among them. -/
structure Positions (body coercion : Fragment) (t : Resumable) (layout : FlagLayout)
    (b : Assembler) (R : Routine) (fault middle stop : Nat) : Prop where
  lockAt : R.ops[0]? = some .lockAcquire
  dispatchAt : Continues (t.root.emitDispatch layout (Assembler.empty.emit .lockAcquire)) b
  dispatchEnd : (t.root.emitDispatch layout (Assembler.empty.emit .lockAcquire)).ops.size = fault + 1
  fault_pos : 0 < fault
  faultAt : R.ops[fault]? = some (.fault "dispatch step out of range")
  startAt : b.keyTarget R (.step 0) = fault + 1
  bodyAt : CodeAt R (fun n ↦ b.keyTarget R (.step n)) (some layout) body (fault + 1) middle
  coercionAt : CodeAt R (fun n ↦ b.keyTarget R (.step n)) (some layout) coercion middle stop
  publishAt : R.Holds stop [.publish, .lockRelease, .return]
  exitAt : b.keyTarget R .exit = stop + 1
  size_eq : R.size = stop + 3

theorem positions (h : Compiles body coercion t layout artifact) :
    ∃ fault middle stop, Positions body coercion t layout
      (CompileContext.updateRoutine t layout body coercion) artifact.update fault middle stop := by
  let b := CompileContext.updateRoutine t layout body coercion
  let a₀ := Assembler.empty.emit .lockAcquire
  let a₁ := t.root.emitDispatch layout a₀
  let a₂ := a₁.placeKey (.step 0)
  let a₃ := body.emit layout a₂
  let a₄ := coercion.emit layout a₃
  let a₅ := a₄.emit .publish
  let a₆ := a₅.placeKey .exit
  have hA : Assembles b artifact.update := h.update
  have h₇ : Continues (a₆.emitAll [.lockRelease, .return]) b := .refl b
  have h₆ : Continues a₆ b := (continues_emitAll _ _).trans h₇
  have h₅ : Continues a₅ b := (continues_placeKey _ _).trans h₆
  have h₄ : Continues a₄ b := (continues_emit _ _).trans h₅
  have h₃ : Continues a₃ b := (continues_fragment _ coercion _).trans h₄
  have h₂ : Continues a₂ b := (continues_fragment _ body _).trans h₃
  have h₁ : Continues a₁ b := (continues_placeKey _ _).trans h₂
  have h₀ : Continues a₀ b := (Container.continues_emitDispatch ..).trans h₁
  have s₅ : a₅.ops.size = a₄.ops.size + 1 := by simp [a₅]
  have s₆ : a₆.ops.size = a₄.ops.size + 1 := by simp [a₆, s₅]
  obtain ⟨fault, tables, a', ha, -, htables, hfault, hsize⟩ := Container.dispatch_parts hA h₁
  have hle := (Container.continues_tables layout fault tables t.root.all a').size_le
  rw [ha, htables] at hle
  refine ⟨artifact.update.target fault, a₃.ops.size, a₄.ops.size, (hA.holds_one h₀).head, h₁, hsize,
    hle, hfault.head, (hA.keyTarget_placeKey h₂).trans hsize, ?_, codeAt_emit hA layout coercion h₄, ?_, ?_, ?_⟩
  · have e := codeAt_emit hA layout body h₃
    rwa [ops_placeKey, hsize] at e
  · have e := hA.holds h₇
    rw [s₆] at e
    exact (hA.holds_one h₅).cons e
  · rw [hA.keyTarget_placeKey h₆, s₅]
  · rw [Routine.size, hA.routine_eq]
    show (a₆.emitAll [.lockRelease, .return]).ops.size = _
    rw [size_emitAll, s₆]
    rfl

theorem steps_eq (h : Compiles body coercion t layout artifact) :
    body.steps = List.range' 1 body.points.length := h.renders.steps

theorem root_eq (h : Compiles body coercion t layout artifact) :
    t.root = .mk 0 none 0 (1 + body.points.length) body.own (body.containers 1 1) := by
  have hp := h.renders.points
  have hc := h.renders.children
  have hn := h.renders.nextStep
  simp only [Resumable.start, List.nil_append] at hp hc hn
  simp only [Resumable.root, hp, hc, hn]

/-- There is a word for every flag of the code. -/
theorem wordOf_lt (h : Compiles body coercion t layout artifact) {s : Instance}
    (hs : s.flags.size = layout.storage) : ∀ e ∈ body.branches, layout.wordOf e.1 < s.flags.size := by
  intro e he
  obtain ⟨capacity, hl⟩ := h.chosen
  have hmem : e.1 ∈ body.branches.map (·.1) := List.mem_map_of_mem he
  have hn := h.renders.nextFlag
  rw [h.renders.flags, List.mem_range'_1] at hmem
  simp only [Resumable.start] at hmem hn
  rw [hs, hl]
  exact FlagLayout.wordOf_lt (by omega)

variable {R : Routine}

/-- The end of the update routine gives the lock back. -/
theorem Positions.finishes_exit {b : Assembler} {fault middle stop : Nat}
    (h : Positions body coercion t layout b R fault middle stop) (m : Machine) :
    Reaches r update fuel frame R (stop + 1) m (runOps r update fuel frame [.lockRelease] m)
      (stop + 2) :=
  reaches_ops rfl ((h.publishAt.drop 1 (by simp)).take 1) rfl m

theorem Positions.atEnd {b : Assembler} {fault middle stop : Nat}
    (h : Positions body coercion t layout b R fault middle stop) : AtEnd R (stop + 2) :=
  .inr (h.publishAt 2 _ rfl)

/-- From a place in the body on, the value is converted and published. -/
theorem Positions.reaches_publish {b : Assembler} {fault middle stop j : Nat} {block : Block}
    (h : Positions body coercion t layout b R fault middle stop) (hc : coercion.isPlain)
    {m : Machine} (hb : Reaches r update fuel frame R j m (block m) middle) :
    Reaches r update fuel frame R j m
      ((block.andThen (coercion.run r update fuel frame (some layout))).andThen
        (runOps r update fuel frame [.publish]) m) (stop + 1) := by
  have hs : coercion.isStraight := (Layout.plain t hc).straight
  refine (hb.andThen (fun m ↦ ?_) h.coercionAt.le).andThen (fun m ↦ ?_) (by omega)
  · exact reaches_run hs h.coercionAt m
  · exact reaches_ops rfl (h.publishAt.take 1) rfl m

/-- The state after the lock is taken. -/
def locked (w : World) (s : Instance) : Machine :=
  { world := w.modifyCell s.result Cell.lock, locks := 1 }

theorem updateBlock_eq (hb : frame.binding = some i) {w : World} {s : Instance}
    (hs : w.instance? i = some s) (k : Nat) :
    updateBlock r update fuel frame layout body coercion i k { world := w } =
      (updateBody r update fuel frame layout body coercion i k).andThen
        (runOps r update fuel frame [.lockRelease]) (locked w s) := by
  have hlock : runOps r update fuel frame [.lockAcquire] { world := w } =
      ⟨[], .ok (), locked w s⟩ := by
    rw [runOps_cons (does_lockAcquire hb hs)]
    rfl
  rw [updateBlock, Block.andThen_assoc, andThen_ok hlock]

theorem leads_lock (h : R.ops[0]? = some Op.lockAcquire) {limit : Nat} (hlimit : 0 < limit)
    (hb : frame.binding = some i) {w : World} {s : Instance} (hs : w.instance? i = some s) :
    LeadsIn r update fuel frame R limit 1 { world := w } { locked w s with pc := 1 } :=
  leads_does (m := { world := w }) hlimit rfl h (does_lockAcquire hb hs)

/-- From a place in the body on, the routine runs to its end. -/
theorem Positions.finishes_evaluate {b : Assembler} {fault middle stop j : Nat} {m : Machine}
    {k : Nat} (h : Positions body coercion t layout b R fault middle stop)
    (hc : coercion.isPlain) (hr : updateRoute layout body i k m.world = .resume)
    (hb : ∀ m, Reaches r update fuel frame R j m ((if k = 0 then
      body.run r update fuel frame (some layout)
      else body.resume r update fuel frame (some layout) k) m) middle) :
    Finishes r update fuel frame R (stop + 3 - j) { m with pc := j }
      ((updateBody r update fuel frame layout body coercion i k).andThen
        (runOps r update fuel frame [.lockRelease]) m) := by
  have heq : (updateBody r update fuel frame layout body coercion i k).andThen
      (runOps r update fuel frame [.lockRelease]) m =
      (evaluateFrom r update fuel frame layout body coercion k).andThen
        (runOps r update fuel frame [.lockRelease]) m := by
    simp only [Block.andThen, updateBody, hr]
  rw [heq]
  have hp := h.reaches_publish hc (hb m)
  have hle := hp.1
  have hend := (hp.andThen h.finishes_exit (by omega)).finishes h.atEnd
  rwa [show stop + 2 - j + 1 = stop + 3 - j by omega] at hend

/-- From where a step resumes, what is left of the body runs. -/
theorem Positions.reaches_rest {b : Assembler} {fault middle stop k : Nat}
    (h : Positions body coercion t layout b R fault middle stop) (hs : body.isStraight)
    (hk : k = 0 ∨ k ∈ body.steps) (m : Machine) :
    Reaches r update fuel frame R (b.keyTarget R (.step k)) m ((if k = 0 then
      body.run r update fuel frame (some layout)
      else body.resume r update fuel frame (some layout) k) m) middle := by
  by_cases hk0 : k = 0
  · subst hk0
    rw [if_pos rfl, h.startAt]
    exact reaches_run hs h.bodyAt m
  · rw [if_neg hk0]
    exact reaches_resume hs h.bodyAt (hk.resolve_left hk0) m

/-- Step 0 evaluates everything, by at most one instruction for each position. -/
theorem finishes_start (h : Compiles body coercion t layout artifact)
    (hb : frame.binding = some i) (hk : frame.step = 0) {w : World} {s : Instance}
    (hs : w.instance? i = some s) :
    ∃ k ≤ artifact.update.size + 3, Finishes r update fuel frame artifact.update k { world := w }
      (updateBlock r update fuel frame layout body coercion i 0 { world := w }) := by
  obtain ⟨fault, middle, stop, hp⟩ := h.positions
  have hd := hp.dispatchAt
  have hend := hp.dispatchEnd
  rw [h.root_eq] at hd hend
  have hlead := @leads_start r update fuel frame artifact.update _ layout fault body _ _ h.update hd
    hend (by omega) hk (locked w s)
  rw [updateBlock_eq hb hs]
  refine ⟨_, ?_, (leads_lock hp.lockAt hp.fault_pos hb hs).finishes <| hlead.finishes <|
    hp.finishes_evaluate h.plain rfl (hp.reaches_rest h.renders.straight (.inl rfl))⟩
  have := hp.size_eq
  have := hp.startAt
  omega

theorem eq_zero_or_mem_of_resume {k : Nat} {w : World}
    (h : updateRoute layout body i k w = .resume) : k = 0 ∨ k ∈ body.steps := by
  unfold updateRoute at h
  split at h
  · next hk => exact .inl hk
  · split at h
    · next hk => exact .inr hk
    · cases h

/-- From the lock on dispatch goes by the route of the step. -/
theorem leads_route (h : Compiles body coercion t layout artifact) {fault middle stop : Nat}
    (hp : Positions body coercion t layout (CompileContext.updateRoutine t layout body coercion)
      artifact.update fault middle stop)
    (hb : frame.binding = some i) {w : World} {s : Instance} (hs : w.instance? i = some s)
    (hf : s.flags.size = layout.storage) {k : Nat} (hk : (Builtin.countInt frame.step).toInt = k) :
    Leads r update fuel frame artifact.update fault { world := w }
      { locked w s with
        pc := (destination (CompileContext.updateRoutine t layout body coercion) artifact.update fault k
          (updateRoute layout body i k w)) } := by
  refine Leads.trans ⟨1, leads_lock hp.lockAt hp.fault_pos hb hs⟩ ?_
  have hd := hp.dispatchAt
  have hend := hp.dispatchEnd
  rw [h.root_eq] at hd hend
  by_cases hk0 : k = 0
  · have hz : frame.step = 0 := by
      rw [toInt_countInt] at hk
      omega
    rw [updateRoute, if_pos hk0, hk0]
    exact ⟨2, leads_start h.update hd hend (by omega) hz (locked w s)⟩
  by_cases hmem : k ∈ body.steps
  · rw [updateRoute, if_neg hk0, if_pos hmem, hs]
    exact leads_dispatch h.update hd hend h.steps_eq rfl hb hk hmem (h.wordOf_lt hf) (locked w s) hs
  · have hstop : 1 + body.points.length ≤ k := by
      rw [h.steps_eq, List.mem_range'_1] at hmem
      omega
    rw [updateRoute, if_neg hk0, if_neg hmem]
    exact leads_fault h.update hd hend hk hstop (locked w s)

/-- A step of the binding resumes, or the update leaves. -/
theorem finishes_step (h : Compiles body coercion t layout artifact)
    (hb : frame.binding = some i) {w : World} {s : Instance} (hs : w.instance? i = some s)
    (hf : s.flags.size = layout.storage) {k : Nat}
    (hk : (Builtin.countInt frame.step).toInt = k) :
    ∃ n, Finishes r update fuel frame artifact.update n { world := w }
      (updateBlock r update fuel frame layout body coercion i k { world := w }) := by
  obtain ⟨fault, middle, stop, hp⟩ := h.positions
  obtain ⟨n, hlead⟩ := @leads_route r update fuel frame i _ _ _ _ _ h _ _ _ hp hb w s hs hf k hk
  have hroute : updateRoute layout body i k (locked w s).world = updateRoute layout body i k w := rfl
  rw [updateBlock_eq hb hs]
  cases hr : updateRoute layout body i k w with
  | resume =>
    rw [hr] at hlead hroute
    exact ⟨_, hlead.finishes <| hp.finishes_evaluate h.plain hroute <|
      hp.reaches_rest h.renders.straight (eq_zero_or_mem_of_resume hr)⟩
  | exit =>
    rw [hr] at hlead hroute
    have heq : (updateBody r update fuel frame layout body coercion i k).andThen
        (runOps r update fuel frame [.lockRelease]) (locked w s) =
        runOps r update fuel frame [.lockRelease] (locked w s) := by
      simp only [Block.andThen, updateBody, hroute, Block.skip, List.nil_append]
    rw [heq]
    simp only [destination, hp.exitAt] at hlead
    exact ⟨_, hlead.finishes <| (hp.finishes_exit (locked w s)).finishes hp.atEnd⟩
  | fault =>
    rw [hr] at hlead hroute
    have heq : (updateBody r update fuel frame layout body coercion i k).andThen
        (runOps r update fuel frame [.lockRelease]) (locked w s) =
        ⟨[], .error (.error (.fault "dispatch step out of range")), locked w s⟩ := by
      simp only [Block.andThen, updateBody, hroute]
    rw [heq]
    refine ⟨_, hlead.finishes (l := 1) fun j ↦ ?_⟩
    rw [execute_succ j _ hp.faultAt (by simp), history_succ j _ hp.faultAt (by simp)]
    exact ⟨⟨fault + 1, rfl⟩, rfl⟩

end Compiles

namespace CompileContext

variable {cx : CompileContext}

theorem assemble_eq {a : Assembler} {R : Routine} (h : a.assemble = .ok R) : Assembles a R := by
  unfold Assembler.assemble at h
  cases hf : a.finish with
  | error e => rw [hf] at h; cases h
  | ok R' =>
    rw [hf] at h
    cases h
    exact ⟨hf⟩

/-- The conversion to a target, which is none without one. -/
def Targets (cx : CompileContext) (tree : Tree) (target : Option Ty) (coercion : Fragment) : Prop :=
  match target with
  | none => coercion = .empty
  | some ty => Coercion.coerce? cx.model tree.ty ty = some coercion

theorem Targets.isPlain {tree : Tree} {target : Option Ty} {coercion : Fragment}
    (h : Targets cx tree target coercion) : coercion.isPlain := by
  cases target with
  | none => rw [show coercion = .empty from h]; rfl
  | some ty => exact Coercion.isPlain_coerce h

/-- What is left of compiling a tree once its target is checked. -/
def assembleArtifact (cx : CompileContext) (tree : Tree) (ty : Ty) (coercion : Fragment) :
    Except CompileError DynamicBinding := do
  let s := (tree.root.render .resumable .start).2
  let layout := s.storage.layout cx.flagCapacity
  let update ← (updateRoutine s layout (tree.root.render .resumable .start).1 coercion).assemble
  let init ← ((s.storage.init.emit layout .empty).emit .return).assemble
  return ⟨ty, ⟨s.storage.captures, s.storage.scratch, layout, s.storage.counters, init, update, s.steps⟩⟩

theorem compileArtifact_cases (tree : Tree) (target : Option BindingTarget) :
    (∃ coercion, Targets cx tree (target.map BindingTarget.ty) coercion ∧
      cx.compileArtifact tree target =
        assembleArtifact cx tree ((target.map BindingTarget.ty).getD tree.ty) coercion) ∨
    ∃ t, target = some t ∧
      (cx.compileArtifact tree target = .error (Problem.readOnlyTarget t.property) ∨
        cx.compileArtifact tree target =
          .error (Problem.unconvertible (cx.model.display tree.ty) (cx.model.display t.ty))) := by
  cases target with
  | none => exact .inl ⟨.empty, rfl, rfl⟩
  | some t =>
    by_cases hr : t.readOnly
    · refine .inr ⟨t, rfl, .inl ?_⟩
      simp only [compileArtifact, requireWritable, hr, if_true]
      rfl
    · cases hc : Coercion.coerce? cx.model tree.ty t.ty with
      | none =>
        refine .inr ⟨t, rfl, .inr ?_⟩
        simp only [compileArtifact, requireWritable, hr, Coercion.require, hc]
        rfl
      | some coercion =>
        refine .inl ⟨coercion, hc, ?_⟩
        simp only [compileArtifact, requireWritable, hr, Coercion.require, hc]
        rfl

/-- How an artifact is put together. -/
theorem compileArtifact_eq {tree : Tree} {target : Option BindingTarget} {b : DynamicBinding}
    (h : cx.compileArtifact tree target = .ok b)
    (hp : ∀ c ∈ tree.root.coercions, c.isPlain) :
    let rendered := tree.root.render .resumable .start
    ∃ coercion, Targets cx tree (target.map BindingTarget.ty) coercion ∧
      b.ty = (target.map BindingTarget.ty).getD tree.ty ∧
      Compiles rendered.1 coercion rendered.2 (rendered.2.storage.layout cx.flagCapacity)
        b.artifact := by
  obtain ⟨coercion, ht, heq⟩ | ⟨t, -, heq | heq⟩ := compileArtifact_cases tree target
  case inr.inl | inr.inr =>
    rw [heq] at h
    cases h
  rw [heq] at h
  obtain ⟨update, hu, h⟩ := except_bind_ok h
  obtain ⟨init, hi, h⟩ := except_bind_ok h
  cases h
  exact ⟨coercion, ht, rfl, tree.root.renders hp .start, ht.isPlain, ⟨_, rfl⟩, assemble_eq hu,
    assemble_eq hi, rfl, rfl, rfl, rfl, rfl⟩

/-- A dynamic binding comes from the artifact of a tree. -/
theorem compileBinding_dynamic {source : String} {scope : Scope} {target : Option BindingTarget}
    {b : DynamicBinding} (h : cx.compileBinding source scope target = .ok (.dynamic b)) :
    ∃ parsed tree, cx.buildTree scope parsed = .ok tree ∧ tree.root.info.evaluable ∧
      ¬tree.isStatic ∧ cx.compileArtifact tree target = .ok b := by
  have h := mapError_eq_ok h
  obtain ⟨content, -, h⟩ := except_bind_ok h
  cases content with
  | literal text =>
    cases target with
    | none => cases h
    | some t =>
      obtain ⟨c, -, hc⟩ := map_eq_ok h
      cases hc
  | expression parsed =>
    obtain ⟨tree, htree, h⟩ := except_bind_ok h
    unfold compileTree at h
    split at h
    · cases h
    · next he =>
      split at h
      · obtain ⟨s, -, hs⟩ := map_eq_ok h
        cases hs
      · next hst =>
        obtain ⟨b', hb, hd⟩ := map_eq_ok h
        cases hd
        exact ⟨parsed, tree, htree, by simpa using he, hst, hb⟩

end CompileContext

end LiveBinding
