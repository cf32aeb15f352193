import LiveBinding.Proofs.Halting

namespace LiveBinding

namespace Op

/-- How many values an instruction finds on the stack and takes off. -/
@[simp]
def pops : Op → Nat
  | pushNull | pushBool _ | pushInt _ | pushLong _ | pushFloat _ | pushDouble _ | pushChar _
  | pushStr _ | loadLocal _ | loadCapture _ | loadScratch _ | loadStep | getStatic _ | jump _
  | flagTest _ | flagAssign .. | bitTest _ | bitAssign .. | counterLoad _ | counterAdd ..
  | lockAcquire | lockRelease | fault _ | .return => 0
  | storeCapture _ | storeScratch _ | dup | pop | getProperty _ | getObservable _ | observableValue
  | neg _ | not | convert .. | box _ | unbox _ | parseNumber _ | parseBool | parseChar | toStr
  | enumValueOf _ | jumpIfFalse _ | jumpIfTrue _ | jumpIfNull _ | jumpIfNonNull _ | jumpIfZero _
  | tableSwitch .. | subscribe _ | unsubscribe _ | publish => 1
  | swap | charAt | arith .. | cmp .. | refEq | concat | jumpIfSame _ => 2
  | invoke _ argc => argc + 1
  | invokeStatic _ argc | construct _ argc => argc

/-- How many values an instruction leaves in their place. A fault counts like the value that it
stands for. -/
@[simp]
def pushes : Op → Nat
  | storeCapture _ | storeScratch _ | pop | jump _ | jumpIfFalse _ | jumpIfTrue _ | jumpIfNull _
  | jumpIfNonNull _ | jumpIfSame _ | jumpIfZero _ | tableSwitch .. | flagAssign .. | bitAssign ..
  | counterAdd .. | subscribe _ | unsubscribe _ | publish | lockAcquire | lockRelease
  | .return => 0
  | pushNull | pushBool _ | pushInt _ | pushLong _ | pushFloat _ | pushDouble _ | pushChar _
  | pushStr _ | loadLocal _ | loadCapture _ | loadScratch _ | loadStep | getProperty _
  | getObservable _ | observableValue | getStatic _ | invoke .. | invokeStatic .. | construct ..
  | charAt | arith .. | neg _ | cmp .. | refEq | not | concat | convert .. | box _ | unbox _
  | parseNumber _ | parseBool | parseChar | toStr | enumValueOf _ | flagTest _ | bitTest _
  | counterLoad _ | fault _ => 1
  | dup | swap => 2

/-- The depth that an instruction leaves the stack at. -/
def after (op : Op) (depth : Nat) : Nat := depth - op.pops + op.pushes

end Op

namespace Exec

variable {α β : Type} {p q i j : Nat}

/-- A computation that comes to a result puts `q` values on the stack in place of the `p` on top. -/
def Replaces (p q : Nat) (x : Exec α) : Prop := ∀ m a m', x m = (.ok a, m') → p ≤ m.stack.length →
  ∃ top, top.length = q ∧ m'.stack = top ++ m.stack.drop p

namespace Replaces

theorem bind {x : Exec α} {k : α → Exec β} (hx : Replaces p q x) (hk : ∀ a, Replaces i j (k a)) :
    Replaces (p + (i - q)) (j + (q - i)) (x >>= k) := by
  intro m b m'' h hlen
  rw [bind_apply] at h
  rcases hm : x m with ⟨e | a, m'⟩ <;> rw [hm] at h
  · cases h
  · obtain ⟨top, htop, hstack⟩ := hx m a m' hm (by omega)
    obtain ⟨top', htop', hstack'⟩ := hk a m' b m'' h (by
      rw [hstack, List.length_append, List.length_drop]
      omega)
    refine ⟨top' ++ top.drop i, by simp [htop, htop'], ?_⟩
    rw [hstack', hstack, List.drop_append, List.drop_drop, htop, List.append_assoc]

theorem pure (a : α) : Replaces 0 0 (Pure.pure a : Exec α) := by
  rintro m _ _ ⟨⟩ -
  exact ⟨[], rfl, rfl⟩

theorem fail (e : RuntimeError) : Replaces p q (Exec.fail e : Exec α) := by
  rintro m _ _ ⟨⟩

theorem keeps {x : Exec α} (h : ∀ m, (x m).2.stack = m.stack) : Replaces 0 0 x := by
  intro m a m' hm _
  have hstack := h m
  rw [hm] at hstack
  exact ⟨[], rfl, hstack⟩

theorem ofExcept (x : Except RuntimeError α) : Replaces 0 0 (Exec.ofExcept x) := by
  cases x
  · exact fail _
  · exact pure _

theorem require (message : String) (x : Option α) : Replaces 0 0 (Exec.require message x) := by
  cases x
  · exact fail _
  · exact pure _

theorem lift (run : Run α) : Replaces 0 0 (Exec.lift run) := keeps fun _ ↦ rfl

theorem get : Replaces 0 0 (MonadState.get : Exec Machine) := keeps fun _ ↦ rfl

theorem goto (pc : Nat) : Replaces 0 0 (Exec.goto pc) := keeps fun _ ↦ rfl

theorem push (v : Value) : Replaces 0 1 (Exec.push v) := by
  rintro m _ _ ⟨⟩ -
  exact ⟨[v], rfl, rfl⟩

theorem pop : Replaces 1 0 Exec.pop := by
  intro m a m' h _
  rw [pop_apply] at h
  cases hs : m.stack with
  | nil =>
    rw [hs] at h
    cases h
  | cons v rest =>
    rw [hs] at h
    cases h
    exact ⟨[], rfl, rfl⟩

theorem popArgs (n : Nat) : Replaces n 0 (Exec.popArgs n) := by
  intro m a m' h _
  rw [popArgs_apply] at h
  split at h
  · cases h
  · cases h
    exact ⟨[], rfl, rfl⟩

theorem popInt : Replaces 1 0 Exec.popInt := pop.bind fun _ ↦ ofExcept _

theorem popText (operation : String) : Replaces 1 0 (Exec.popText operation) := by
  refine pop.bind (i := 0) (j := 0) fun v ↦ ?_
  cases v <;> first | exact pure _ | exact fail _

theorem popReceiver (property : String) : Replaces 1 0 (Exec.popReceiver property) := by
  refine pop.bind (i := 0) (j := 0) fun v ↦ ?_
  cases v <;> first | exact pure _ | exact fail _

theorem binding (frame : Frame) : Replaces 0 0 (Exec.binding frame) := by
  unfold Exec.binding
  split
  · exact pure _
  · exact fail _

theorem state (frame : Frame) : Replaces 0 0 (Exec.state frame) := by
  refine (binding frame).bind (i := 0) (j := 0) fun _ ↦ get.bind (i := 0) (j := 0) fun m ↦ ?_
  split
  · exact pure _
  · exact fail _

theorem setState (frame : Frame) (s : Instance) : Replaces 0 0 (Exec.setState frame s) :=
  (binding frame).bind fun _ ↦ lift _

theorem storeAt (message : String) (slots : Array Value) (slot : Nat) (v : Value) :
    Replaces 0 0 (Exec.storeAt message slots slot v) := by
  unfold Exec.storeAt
  split
  · exact pure _
  · exact fail _

theorem textOf (r : Registry) (v : Value) : Replaces 0 0 (Exec.textOf r v) :=
  get.bind fun _ ↦ pure _

theorem readCell (c : CellId) : Replaces 0 0 (Exec.readCell c) := get.bind fun _ ↦ pure _

theorem jumpIf (R : Routine) (b : Bool) (l : Label) : Replaces 0 0 (Exec.jumpIf R b l) := by
  unfold Exec.jumpIf
  split
  · exact goto _
  · exact pure _

/-- Runs a test of the value on top, which stays there. -/
theorem peek {x : Exec Unit} (h : ∀ m, (x m).2.stack = m.stack) : Replaces 1 1 x := by
  intro m a m' hm hlen
  have hstack := h m
  rw [hm] at hstack
  obtain ⟨v, rest, hv⟩ := List.exists_cons_of_length_pos hlen
  exact ⟨[v], rfl, by rw [hstack, hv]; rfl⟩

section

variable (r : Registry) (update : Updater) (fuel : Nat) (frame : Frame) (R : Routine)

theorem call (m : MethodId) (args : List Value) : Replaces 0 1 (Exec.call r update fuel m args) :=
  (lift _).bind fun _ ↦ push _

theorem testFlag (word : Nat) (mask : UInt64) : Replaces 0 1 (Exec.testFlag frame word mask) :=
  (state frame).bind fun _ ↦ (require _ _).bind fun _ ↦ push _

theorem setFlag (word : Nat) (mask : UInt64) (value : Bool) :
    Replaces 0 0 (Exec.setFlag frame word mask value) :=
  (state frame).bind fun _ ↦ (require _ _).bind fun _ ↦ setState frame _

/-- Every instruction takes its operands off the stack and leaves its results there, and what lies
beneath stays. -/
theorem step (op : Op) : Replaces op.pops op.pushes (Exec.step r update fuel frame R op) := by
  cases op with
  | pushNull | pushBool | pushInt | pushLong | pushFloat | pushDouble | pushChar | pushStr
  | loadStep => exact push _
  | loadLocal slot => exact (require _ _).bind fun _ ↦ push _
  | loadCapture slot | loadScratch slot | counterLoad slot =>
    exact (state frame).bind fun _ ↦ (require _ _).bind fun _ ↦ push _
  | storeCapture slot | storeScratch slot =>
    exact pop.bind fun _ ↦ (state frame).bind fun _ ↦ (storeAt _ _ _ _).bind fun _ ↦
      setState frame _
  | dup => exact pop.bind fun _ ↦ (push _).bind fun _ ↦ push _
  | pop => exact pop.bind fun _ ↦ pure _
  | swap => exact pop.bind fun _ ↦ pop.bind fun _ ↦ (push _).bind fun _ ↦ push _
  | getProperty property | getObservable property =>
    refine (popReceiver _).bind (i := 0) (j := 1) fun o ↦ get.bind (i := 0) (j := 1) fun m ↦ ?_
    split
    · exact push _
    · exact fail _
  | observableValue =>
    refine pop.bind (i := 0) (j := 1) fun v ↦ ?_
    cases v with
    | cell c => exact (readCell c).bind fun _ ↦ push _
    | _ => exact fail _
  | getStatic f => exact (ofExcept _).bind fun _ ↦ push _
  | charAt =>
    exact popInt.bind fun _ ↦ (popText _).bind fun _ ↦ (ofExcept _).bind fun _ ↦ push _
  | arith op kind | cmp op kind =>
    exact pop.bind fun _ ↦ pop.bind fun _ ↦ (ofExcept _).bind fun _ ↦ push _
  | neg kind | not | convert source target =>
    exact pop.bind fun _ ↦ (ofExcept _).bind fun _ ↦ push _
  | refEq => exact pop.bind fun _ ↦ pop.bind fun _ ↦ push _
  | concat =>
    exact pop.bind fun _ ↦ pop.bind fun _ ↦ (textOf r _).bind fun _ ↦ (textOf r _).bind fun _ ↦
      push _
  | box kind => exact peek fun _ ↦ rfl
  | unbox kind =>
    refine peek fun m ↦ ?_
    simp only [Exec.step, bind_apply, get_apply]
    split <;> rfl
  | parseNumber kind | enumValueOf c =>
    exact (popText _).bind fun _ ↦ (ofExcept _).bind fun _ ↦ push _
  | parseBool => exact (popText _).bind fun _ ↦ push _
  | parseChar =>
    refine (popText _).bind (i := 0) (j := 1) fun text ↦ ?_
    split
    · exact push _
    · exact fail _
  | toStr => exact pop.bind fun _ ↦ (textOf r _).bind fun _ ↦ push _
  | jump l => exact goto _
  | jumpIfFalse l | jumpIfTrue l =>
    exact pop.bind fun _ ↦ (ofExcept _).bind fun _ ↦ jumpIf R _ l
  | jumpIfNull l | jumpIfNonNull l => exact pop.bind fun _ ↦ jumpIf R _ l
  | jumpIfSame l => exact pop.bind fun _ ↦ pop.bind fun _ ↦ jumpIf R _ l
  | jumpIfZero l => exact popInt.bind fun _ ↦ jumpIf R _ l
  | tableSwitch low targets otherwise => exact popInt.bind fun _ ↦ goto _
  | flagTest mask | bitTest bit => exact testFlag frame _ _
  | flagAssign mask value | bitAssign bit value => exact setFlag frame _ _ _
  | counterAdd counter delta =>
    exact (state frame).bind fun _ ↦ (require _ _).bind fun _ ↦ setState frame _
  | subscribe k | unsubscribe k =>
    refine pop.bind (i := 0) (j := 0) fun v ↦ ?_
    cases v with
    | cell c => exact (binding frame).bind fun _ ↦ lift _
    | _ => exact pure _
  | invoke m argc =>
    refine (popArgs argc).bind (i := 1) (j := 1) fun args ↦ pop.bind (i := 0) (j := 1) fun v ↦ ?_
    split
    · exact fail _
    · exact call r update fuel m _
  | invokeStatic m argc | construct m argc =>
    exact (popArgs argc).bind fun _ ↦ call r update fuel m _
  | publish => exact pop.bind fun _ ↦ (state frame).bind fun _ ↦ lift _
  | lockAcquire =>
    exact (state frame).bind fun _ ↦ (lift _).bind fun _ ↦ keeps fun _ ↦ rfl
  | lockRelease =>
    exact (state frame).bind fun _ ↦ (keeps fun _ ↦ rfl).bind fun _ ↦ lift _
  | fault message => exact fail _
  | «return» => exact pure _

end

end Replaces

end Exec

/-- Behind a terminator control goes to one of its labels. -/
theorem Exec.step_terminator {r : Registry} {update : Updater} {fuel : Nat} {frame : Frame}
    {R : Routine} {op : Op} {m m' : Machine} (ht : op.isTerminator) (hne : op ≠ .return)
    (h : step r update fuel frame R op m = (.ok (), m')) :
    ∃ l ∈ op.targets, m'.pc = R.target l := by
  cases op with
  | jump l =>
    cases h
    exact ⟨l, List.mem_cons_self, rfl⟩
  | tableSwitch low targets otherwise =>
    rw [step, bind_apply] at h
    rcases hi : popInt m with ⟨e | i, m''⟩ <;> rw [hi] at h
    · cases h
    · cases h
      refine ⟨_, ?_, rfl⟩
      rw [Op.targets, List.mem_append, List.mem_singleton]
      split
      · rw [List.getD_eq_getElem?_getD]
        cases ht : targets[(i.toInt - low).toNat]? with
        | none => exact .inr rfl
        | some l => exact .inl (List.mem_of_getElem? ht)
      · exact .inr rfl
  | fault message => cases h
  | «return» => exact absurd rfl hne
  | _ => cases ht

namespace Routine

/-- The depth of the stack in front of an instruction goes with the depths in front of those that
control can pass to from there. -/
@[mk_iff]
structure Levels (R : Routine) (depth : Nat → Nat) (pc : Nat) (op : Op) : Prop where
  /-- The instruction does not reach below the bottom of the stack. -/
  supplied : op.pops ≤ depth pc
  falls : op.isTerminator = false → depth (pc + 1) = op.after (depth pc)
  jumps : ∀ l ∈ op.targets, depth (R.target l) = op.after (depth pc)
  /-- Nothing but the result is on the stack when it is published. -/
  publishes : op = .publish → depth pc = 1

/-- A depth of the stack for every position of a routine, from the empty stack on. -/
structure StackMap (R : Routine) (depth : Nat → Nat) : Prop where
  enters : depth 0 = 0
  levels : ∀ pc op, R.ops[pc]? = some op → R.Levels depth pc op

section

open Exec

variable {R : Routine} {depth : Nat → Nat} {r : Registry} {update : Updater} {fuel : Nat}
variable {frame : Frame} {n : Nat} {op : Op} {m m' : Machine}

/-- Where the stack has the depth of its position, an instruction leaves it at that of the next. -/
theorem StackMap.step (h : R.StackMap depth) (hop : R.ops[m.pc]? = some op) (hne : op ≠ .return)
    (hstep : Exec.step r update fuel frame R op { m with pc := m.pc + 1 } = (.ok (), m'))
    (hm : m.stack.length = depth m.pc) : m'.stack.length = depth m'.pc := by
  have hlevels := h.levels _ _ hop
  obtain ⟨top, htop, hstack⟩ := Replaces.step r update fuel frame R op _ _ _ hstep
    (hm ▸ hlevels.supplied)
  have hlength : m'.stack.length = op.after (depth m.pc) := by
    rw [hstack, List.length_append, htop, List.length_drop, Op.after, hm, Nat.add_comm]
  rw [hlength]
  by_cases ht : op.isTerminator
  · obtain ⟨l, hl, hpc⟩ := step_terminator ht hne hstep
    rw [hpc, hlevels.jumps l hl]
  · rcases step_pc hstep with hpc | ⟨l, hl, hpc⟩
    · rw [hpc, hlevels.falls (by simpa using ht)]
    · rw [hpc, hlevels.jumps l hl]

/-- So in a run the stack always has the depth of its position. -/
theorem StackMap.length_stack (h : R.StackMap depth) (hrun : Executes r update fuel frame R n m m')
    (hm : m.stack.length = depth m.pc) : m'.stack.length = depth m'.pc := by
  induction hrun with
  | zero => exact hm
  | cons hop hne hstep _ ih => exact ih (h.step hop hne hstep hm)

end

end Routine

end LiveBinding
