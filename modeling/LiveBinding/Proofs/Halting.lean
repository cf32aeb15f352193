import LiveBinding.Proofs.Forward

namespace LiveBinding

namespace Exec

/-- A computation stays at its position in the routine, or goes to one of some positions. -/
theorem closed_moves (S : Nat → Prop) :
    Closed fun x ↦ ∀ m, (x m).2.pc = m.pc ∨ S (x m).2.pc where
  pure _ _ := .inl rfl
  fail _ _ := .inl rfl
  bind {α β x k} hx hk m := by
    have hx := hx m
    rw [bind_apply]
    rcases hm : x m with ⟨_ | a, m'⟩ <;> rw [hm] at hx
    · exact hx
    · rcases hk a m' with h | h
      · exact hx.imp h.trans fun hs ↦ h ▸ hs
      · exact .inr h
  push _ _ := .inl rfl
  pop m := by
    rw [pop_apply]
    cases m.stack <;> exact .inl rfl
  popArgs n m := by
    rw [popArgs_apply]
    split <;> exact .inl rfl
  bindGet hk _ m := hk m m

/-- A computation comes to an end, whatever the host does. -/
def Prompt {α : Type} (x : Exec α) : Prop := ∀ m, (x m).1 ≠ .error .exhausted

namespace Prompt

theorem closed : Closed fun x ↦ Prompt x where
  pure _ _ := by simp [pure_apply]
  fail _ _ := by simp [fail_apply]
  bind {α β x k} hx hk m := by
    have hx := hx m
    rw [bind_apply]
    rcases hm : x m with ⟨e | a, m'⟩ <;> rw [hm] at hx
    · simpa using hx
    · exact hk a m'
  push _ _ := by simp [push_apply]
  pop m := by
    rw [pop_apply]
    cases m.stack <;> simp
  popArgs n m := by
    rw [popArgs_apply]
    split <;> simp
  bindGet hk _ m := hk m m

theorem change (f : World → World) : Prompt (lift (Run.change f)) := fun _ ↦ nofun

theorem setState (frame : Frame) (s : Instance) : Prompt (Exec.setState frame s) :=
  closed.bind (closed.binding frame) fun _ ↦ change _

/-- Only what runs host code may not come to an end. -/
theorem step (r : Registry) (update : Updater) (fuel : Nat) (frame : Frame) (R : Routine) {op : Op}
    (h : ¬op.asksHost) : Prompt (Exec.step r update fuel frame R op) := by
  by_cases hl : op.isLocal
  · exact closed.step r update fuel frame hl R
  by_cases hj : op.isJump
  · exact closed.step_jump r update fuel frame hj fun l _ ↦ fun _ ↦ nofun
  cases op with
  | storeCapture slot | storeScratch slot =>
    exact closed.bind closed.pop fun _ ↦ closed.bind (closed.state frame) fun _ ↦
      closed.bind (closed.storeAt _ _ _ _) fun _ ↦ setState frame _
  | flagAssign mask value | bitAssign bit value | counterAdd counter delta =>
    exact closed.bind (closed.state frame) fun _ ↦ closed.bind (closed.require _ _) fun _ ↦
      setState frame _
  | subscribe k | unsubscribe k =>
    refine closed.bind closed.pop fun v ↦ ?_
    cases v with
    | cell c => exact closed.bind (closed.binding frame) fun _ ↦ change _
    | _ => exact closed.pure _
  | lockAcquire =>
    exact closed.bind (closed.state frame) fun _ ↦ closed.bind (change _) fun _ ↦ fun _ ↦ nofun
  | _ => simp [Op.isLocal, Op.isJump, Op.asksHost] at h hl hj

end Prompt

variable {r : Registry} {update : Updater} {fuel : Nat} {frame : Frame} {R : Routine}

section

variable (r update fuel frame R)

/-- The routine comes from one state to another by `n` instructions. -/
inductive Executes : Nat → Machine → Machine → Prop
  | zero (m : Machine) : Executes 0 m m
  | cons {op : Op} {n : Nat} {m m' m'' : Machine} (hop : R.ops[m.pc]? = some op) (hne : op ≠ .return)
      (hstep : step r update fuel frame R op { m with pc := m.pc + 1 } = (.ok (), m'))
      (h : Executes n m' m'') : Executes (n + 1) m m''

/-- Whenever the run from a state asks the host for something, the host comes back, be it with an
error. -/
def HostReturns (m : Machine) : Prop := ∀ n m' op, Executes r update fuel frame R n m m' →
  R.ops[m'.pc]? = some op → op.asksHost →
    (step r update fuel frame R op { m' with pc := m'.pc + 1 }).1 ≠ .error .exhausted

end

/-- An instruction passes control to the next one or to a label that it names. -/
theorem step_pc {op : Op} {m m' : Machine}
    (h : step r update fuel frame R op m = (.ok (), m')) :
    m'.pc = m.pc ∨ ∃ l ∈ op.targets, m'.pc = R.target l := by
  by_cases hs : op.isStraight
  · have hpc := pcFree_step r update fuel frame hs R m m.pc
    rw [h] at hpc
    exact .inl (congrArg (fun x ↦ x.2.pc) hpc)
  by_cases hj : op.isJump
  · have hmove := (closed_moves fun pc ↦ ∃ l ∈ op.targets, pc = R.target l).step_jump r update fuel
      frame hj (fun l hl m ↦ .inr ⟨l, hl, rfl⟩) m
    rwa [h] at hmove
  · cases op with
    | «return» => cases h; exact .inl rfl
    | _ => simp [Op.isStraight, Op.isJump] at hs hj

namespace Executes

variable {n : Nat} {m m' : Machine}

/-- In a routine that only goes forward every instruction leaves its position behind. -/
theorem pc_le (hR : R.Forward) (h : Executes r update fuel frame R n m m') : m.pc + n ≤ m'.pc := by
  induction h with
  | zero => exact Nat.le_refl _
  | cons hop hne hstep h ih =>
    rcases step_pc hstep with hpc | ⟨l, hl, hpc⟩
    · simp only at hpc
      omega
    · have := hR _ _ hop l hl
      omega

/-- So it does not run more instructions than it has. -/
theorem lt_size (hR : R.Forward) (h : Executes r update fuel frame R n m m') {op : Op}
    (hop : R.ops[m'.pc]? = some op) : m.pc + n < R.size := by
  obtain ⟨hlt, -⟩ := Array.getElem?_eq_some_iff.mp hop
  exact Nat.lt_of_le_of_lt (h.pc_le hR) hlt

end Executes

/-- A routine that only goes forward ends, if the host comes back. -/
theorem execute_ends (hR : R.Forward) {m : Machine} (hhost : HostReturns r update fuel frame R m)
    {budget : Nat} (hb : R.size - m.pc < budget) :
    (execute r update fuel frame R budget m).1 ≠ .error .exhausted := by
  induction budget generalizing m with
  | zero => exact absurd hb (Nat.not_lt_zero _)
  | succ budget ih =>
    by_cases he : AtEnd R m.pc
    · rw [(execute_atEnd he budget).1]
      simp
    obtain ⟨op, hop, hne⟩ : ∃ op, R.ops[m.pc]? = some op ∧ op ≠ .return := by
      rw [AtEnd, not_or] at he
      obtain ⟨op, hop⟩ := Option.ne_none_iff_exists'.mp he.1
      exact ⟨op, hop, fun h ↦ he.2 (h ▸ hop)⟩
    have hback : (step r update fuel frame R op { m with pc := m.pc + 1 }).1 ≠ .error .exhausted := by
      by_cases ha : op.asksHost
      · exact hhost 0 m op (.zero m) hop ha
      · exact Prompt.step r update fuel frame R ha _
    rw [execute_succ budget m hop hne]
    rcases hs : step r update fuel frame R op { m with pc := m.pc + 1 } with ⟨e | u, m'⟩
    · simpa [hs] using hback
    · have hone : Executes r update fuel frame R 1 m m' := .cons hop hne hs (.zero m')
      have hpc := hone.pc_le hR
      obtain ⟨hlt, -⟩ := Array.getElem?_eq_some_iff.mp hop
      change m.pc < R.size at hlt
      refine ih (fun n m'' op' h ↦ hhost (n + 1) m'' op' (.cons hop hne hs h)) ?_
      omega

/-- The other way round, a run that ends has not been kept waiting. -/
theorem hostReturns_of_ends {m : Machine} {budget : Nat}
    (h : (execute r update fuel frame R budget m).1 ≠ .error .exhausted) :
    HostReturns r update fuel frame R m := by
  intro n m' op hrun hop ha
  induction hrun generalizing budget with
  | zero m =>
    have hne : op ≠ .return := by
      rintro rfl
      cases ha
    cases budget with
    | zero => exact absurd rfl h
    | succ budget =>
      rw [execute_succ budget m hop hne] at h
      rcases hs : step r update fuel frame R op { m with pc := m.pc + 1 } with ⟨e | u, m'⟩
      · simpa [hs] using h
      · simp
  | cons hop' hne hstep _ ih =>
    cases budget with
    | zero => exact absurd rfl h
    | succ budget =>
      rw [execute_succ budget _ hop' hne, hstep] at h
      exact ih h hop

/-- A run that comes to an outcome comes to it within as many instructions as the routine has, if
control only goes forward. -/
theorem Finishes.execute_of_forward (hR : R.Forward) {n : Nat} {m : Machine} {o : Outcome}
    (h : Finishes r update fuel frame R n m o) (ho : o.result ≠ .error .exhausted) {budget : Nat}
    (hb : R.size - m.pc < budget) :
    ∃ pc, execute r update fuel frame R budget m = (answer o, { o.machine with pc }) := by
  obtain ⟨⟨pc, hx⟩, -⟩ := h 0
  have hends : (execute r update fuel frame R (0 + n) m).1 ≠ .error .exhausted := by
    rw [hx, answer]
    cases hr : o.result with
    | ok u => simp
    | error e => exact fun he ↦ ho (hr.trans (congrArg Except.error (Except.error.inj he)))
  exact (h.execute_eq (execute_ends hR (hostReturns_of_ends hends) hb)).1

end Exec

/-- The routines of a binding. -/
def CompiledBinding.routines : CompiledBinding → List Routine
  | static b => b.routine.toOption.toList
  | dynamic b => [b.artifact.init, b.artifact.update]
  | deferred _ => []

namespace CompileContext

variable {cx : CompileContext} {source : String} {scope : Scope} {target : Option BindingTarget}
variable {b : CompiledBinding}

open Exec Fragment

theorem forward_static {s : StaticBinding} (h : s.code.isJumpless) :
    ∀ R ∈ (CompiledBinding.static s).routines, R.Forward := by
  intro R hR
  cases hr : s.routine with
  | error e => simp [CompiledBinding.routines, hr, Except.toOption] at hR
  | ok R' =>
    obtain rfl : R = R' := by simpa [CompiledBinding.routines, hr, Except.toOption] using hR
    exact forward_alone (assemble_eq hr) h

theorem forward_plain {text : String} (h : cx.compilePlain text target = .ok b) :
    ∀ R ∈ b.routines, R.Forward := by
  cases target with
  | none =>
    cases h
    exact forward_static rfl
  | some t =>
    obtain ⟨c, hc, rfl⟩ := map_eq_ok h
    exact forward_static (composable_isJumpless.plain c (Coercion.isPlain_ofText (requireText_eq hc)))

theorem forward_tree {parsed : ParsedExpr} {tree : Tree} (hbuild : cx.buildTree scope parsed = .ok tree)
    (hscope : ∀ name l, scope.lookup? name = some (.bound l) → l.load.isJumpless)
    (h : cx.compileTree tree target = .ok b) : ∀ R ∈ b.routines, R.Forward := by
  have hroot := (Tree.build_resolved hbuild).1
  unfold compileTree at h
  split at h
  · cases h
    simp [CompiledBinding.routines]
  split at h
  · obtain ⟨s, hs, rfl⟩ := map_eq_ok h
    exact forward_static (composable_renderStatic composable_isJumpless hroot hscope hs)
  · obtain ⟨d, hd, rfl⟩ := map_eq_ok h
    obtain ⟨coercion, -, -, hc⟩ := compileArtifact_eq hd (Node.Resolved.isPlain tree.root hroot)
    have hinit := composable_init composable_isJumpless (fun _ ↦ rfl) hroot hscope
    rintro R hR
    rcases List.mem_pair.mp hR with rfl | rfl
    · exact forward_alone hc.init hinit
    · exact hc.forward_update

/-- Every label that an instruction of a compiled routine names leads further on. So no more
instructions are run than the routine has, and if the host comes back whenever it is asked, the
routine ends. -/
theorem compileBinding_ends (hcompile : cx.compileBinding source scope target = .ok b)
    (hscope : ∀ name l, scope.lookup? name = some (.bound l) → l.load.isJumpless)
    {R : Routine} (hR : R ∈ b.routines) :
    (∀ pc op, R.ops[pc]? = some op → ∀ l ∈ op.targets, pc < R.target l) ∧
    ∀ (r : Registry) (update : Updater) (fuel : Nat) (frame : Frame) (m : Machine), m.pc = 0 →
      (∀ n m' op, Executes r update fuel frame R n m m' → R.ops[m'.pc]? = some op → n < R.size) ∧
      (HostReturns r update fuel frame R m → ∀ budget > R.size,
        (execute r update fuel frame R budget m).1 ≠ .error .exhausted) := by
  have hforward : R.Forward := by
    obtain ⟨content, -, h⟩ := except_bind_ok (mapError_eq_ok hcompile)
    cases content with
    | literal text => exact forward_plain h R hR
    | expression parsed =>
      obtain ⟨tree, htree, h⟩ := except_bind_ok h
      exact forward_tree htree hscope h R hR
  refine ⟨hforward, fun r update fuel frame m hm ↦ ⟨fun n m' op h hop ↦ ?_, fun hhost budget hb ↦ ?_⟩⟩
  · have := h.lt_size hforward hop
    omega
  · exact execute_ends hforward hhost (by omega)

end CompileContext

namespace Sample

def compiled : CompiledBinding :=
  match context.compileBinding "$\x7bx.p && x.q\x7d" scope none with
  | .ok b => b
  | .error _ => .deferred .void

theorem compileBinding_eq :
    context.compileBinding "$\x7bx.p && x.q\x7d" scope none = .ok compiled := by
  obtain ⟨b, hb⟩ := exists_of_isOk
    (show (context.compileBinding "$\x7bx.p && x.q\x7d" scope none).isOk by decide +kernel)
  rw [compiled, hb]

end Sample

open Sample Exec Fragment in
/-- An update from the right operand on. -/
theorem compileBinding_ends_conjunction :
    let made := createInstance registry 50 binding.artifact (world true true)
    let frame : Frame := { binding := some ⟨0⟩, step := 2 }
    ∃ R ∈ compiled.routines, R.size = 66 ∧ ∀ budget > R.size,
      (execute registry (updateInstance registry 50) 50 frame R budget { world := made.2 }).1 ≠
        .error .exhausted := by
  intro made frame
  obtain ⟨hsome, hsize, hends⟩ : compiled.routines[1]?.isSome ∧
      (compiled.routines[1]?.getD default).size = 66 ∧
      (execute registry (updateInstance registry 50) 50 frame (compiled.routines[1]?.getD default) 50
        { world := made.2 }).1.isOk := by decide +kernel
  obtain ⟨R, hR⟩ := Option.isSome_iff_exists.mp hsome
  rw [show compiled.routines[1]?.getD default = R by rw [hR]; rfl] at hsize hends
  have hne : (execute registry (updateInstance registry 50) 50 frame R 50
      { world := made.2 }).1 ≠ .error .exhausted := fun h ↦ by
    rw [h] at hends
    cases hends
  refine ⟨R, List.mem_of_getElem? hR, hsize, ?_⟩
  refine ((CompileContext.compileBinding_ends compileBinding_eq (fun name l hl ↦ ?_)
    (List.mem_of_getElem? hR)).2 _ _ _ frame _ rfl).2 (hostReturns_of_ends hne)
  exact isJumpless_of_isStraight (Layout.plain .start (isPlain_load name l hl)).straight

end LiveBinding
