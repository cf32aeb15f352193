import LiveBinding.Host.Machine
import Mathlib.Tactic.Common

namespace LiveBinding

theorem Stop.bind_apply {σ α β : Type} (x : ExceptT Stop (StateM σ) α)
    (k : α → ExceptT Stop (StateM σ) β) (s : σ) :
    (x >>= k) s = match x s with
      | (.ok a, t) => k a t
      | (.error e, t) => (.error e, t) := by
  simp only [bind, ExceptT.bind, ExceptT.mk, StateT.bind, ExceptT.bindCont]
  rcases x s with ⟨_ | _, _⟩ <;> rfl

namespace Exec

variable {α β : Type}

theorem bind_apply (x : Exec α) (k : α → Exec β) (m : Machine) :
    (x >>= k) m = match x m with
      | (.ok a, m') => k a m'
      | (.error e, m') => (.error e, m') := by
  rw [Stop.bind_apply]
  rcases x m with ⟨_ | _, _⟩ <;> rfl

theorem pure_apply (a : α) (m : Machine) : (pure a : Exec α) m = (.ok a, m) := rfl

theorem get_apply (m : Machine) : (get : Exec Machine) m = (.ok m, m) := rfl

theorem modify_apply (f : Machine → Machine) (m : Machine) :
    (modify f : Exec Unit) m = (.ok (), f m) := rfl

theorem fail_apply (e : RuntimeError) (m : Machine) :
    (fail e : Exec α) m = (.error (.error e), m) := rfl

theorem push_apply (v : Value) (m : Machine) :
    push v m = (.ok (), { m with stack := v :: m.stack }) := rfl

theorem pop_apply (m : Machine) : pop m = match m.stack with
    | v :: rest => (.ok v, { m with stack := rest })
    | [] => (.error (.error .underflow), m) := by
  unfold pop
  rw [bind_apply, get_apply]
  rcases hs : m.stack with _ | ⟨v, rest⟩ <;> simp only [hs] <;> rfl

theorem popArgs_apply (n : Nat) (m : Machine) : popArgs n m =
    if m.stack.length < n then (.error (.error .underflow), m)
    else (.ok (m.stack.take n).reverse, { m with stack := m.stack.drop n }) := by
  unfold popArgs
  rw [bind_apply, get_apply]
  dsimp only
  split <;> rfl

/-- What holds of computations that work on the stack and read the world, and of what is composed of
computations it holds of. -/
structure Closed (C : {α : Type} → Exec α → Prop) : Prop where
  pure : ∀ {α : Type} (a : α), C (Pure.pure a : Exec α)
  fail : ∀ {α : Type} (e : RuntimeError), C (Exec.fail e : Exec α)
  bind : ∀ {α β : Type} {x : Exec α} {k : α → Exec β}, C x → (∀ a, C (k a)) → C (x >>= k)
  push : ∀ v, C (Exec.push v)
  pop : C Exec.pop
  popArgs : ∀ n, C (Exec.popArgs n)
  bindGet : ∀ {β : Type} {k : Machine → Exec β}, (∀ m, C (k m)) →
    (∀ (m : Machine) (p : Nat) (l : LockDepth), k { m with pc := p, locks := l } = k m) → C (get >>= k)

namespace Closed

variable {C : {α : Type} → Exec α → Prop} (hC : Closed C)
include hC

theorem ofExcept (x : Except RuntimeError α) : C (Exec.ofExcept x) := by
  cases x
  · exact hC.fail _
  · exact hC.pure _

theorem require (message : String) (x : Option α) : C (Exec.require message x) := by
  cases x
  · exact hC.fail _
  · exact hC.pure _

theorem popInt : C Exec.popInt := hC.bind hC.pop fun _ ↦ hC.ofExcept _

theorem popText (operation : String) : C (Exec.popText operation) := by
  refine hC.bind hC.pop fun v ↦ ?_
  cases v <;> first | exact hC.pure _ | exact hC.fail _

theorem popReceiver (property : String) : C (Exec.popReceiver property) := by
  refine hC.bind hC.pop fun v ↦ ?_
  cases v <;> first | exact hC.pure _ | exact hC.fail _

theorem binding (frame : Frame) : C (Exec.binding frame) := by
  unfold Exec.binding
  split
  · exact hC.pure _
  · exact hC.fail _

theorem state (frame : Frame) : C (Exec.state frame) := by
  refine hC.bind (hC.binding frame) fun i ↦ hC.bindGet (fun m ↦ ?_) fun _ _ _ ↦ rfl
  split
  · exact hC.pure _
  · exact hC.fail _

theorem storeAt (message : String) (slots : Array Value) (slot : Nat) (v : Value) :
    C (Exec.storeAt message slots slot v) := by
  unfold Exec.storeAt
  split
  · exact hC.pure _
  · exact hC.fail _

theorem textOf (r : Registry) (v : Value) : C (Exec.textOf r v) :=
  hC.bindGet (fun _ ↦ hC.pure _) fun _ _ _ ↦ rfl

theorem readCell (c : CellId) : C (Exec.readCell c) :=
  hC.bindGet (fun _ ↦ hC.pure _) fun _ _ _ ↦ rfl

theorem testFlag (frame : Frame) (word : Nat) (mask : UInt64) : C (Exec.testFlag frame word mask) :=
  hC.bind (hC.state frame) fun _ ↦ hC.bind (hC.require _ _) fun _ ↦ hC.push _

theorem jumpIf {R : Routine} {l : Label} (hgoto : C (goto (R.target l))) (b : Bool) :
    C (Exec.jumpIf R b l) := by
  unfold Exec.jumpIf
  split
  · exact hgoto
  · exact hC.pure _

end Closed

/-- Neither reads nor moves the position in the routine. -/
def PcFree (x : Exec α) : Prop :=
  ∀ (m : Machine) (p : Nat), x { m with pc := p } = ((x m).1, { (x m).2 with pc := p })

namespace PcFree

theorem bind {x : Exec α} {k : α → Exec β} (hx : PcFree x) (hk : ∀ a, PcFree (k a)) :
    PcFree (x >>= k) := by
  intro m p
  simp only [bind_apply, hx m p]
  rcases x m with ⟨_ | a, m'⟩
  · rfl
  · exact hk a m' p

theorem bindGet {k : Machine → Exec β} (hk : ∀ m, PcFree (k m))
    (he : ∀ (m : Machine) (p : Nat), k { m with pc := p } = k m) : PcFree (get >>= k) := by
  intro m p
  simp only [bind_apply, get_apply, he m p]
  exact hk m m p

theorem lift (run : Run α) : PcFree (Exec.lift run) := fun _ _ ↦ rfl

theorem closed : Closed fun x ↦ PcFree x where
  pure _ _ _ := rfl
  fail _ _ _ := rfl
  bind := bind
  push _ _ _ := rfl
  pop := by
    refine bindGet (fun m ↦ ?_) (fun _ _ ↦ rfl)
    rcases m.stack with _ | ⟨v, rest⟩ <;> exact fun _ _ ↦ rfl
  popArgs n m p := by
    simp only [popArgs_apply]
    split <;> rfl
  bindGet hk he := bindGet hk fun m p ↦ he m p m.locks

theorem setState (frame : Frame) (s : Instance) : PcFree (Exec.setState frame s) :=
  (closed.binding frame).bind fun _ ↦ lift _

theorem call (r : Registry) (update : Updater) (fuel : Nat) (m : MethodId) (args : List Value) :
    PcFree (Exec.call r update fuel m args) := (lift _).bind fun _ ↦ closed.push _

end PcFree

end Exec

/-- Control passes to the next instruction, or the routine fails. -/
def Op.isStraight : Op → Bool
  | .jump _ | .jumpIfFalse _ | .jumpIfTrue _ | .jumpIfNull _ | .jumpIfNonNull _ | .jumpIfSame _
  | .jumpIfZero _ | .tableSwitch .. | .return => false
  | _ => true

/-- Passes control to one of its labels, at least under some condition. -/
def Op.isJump : Op → Bool
  | .jump _ | .jumpIfFalse _ | .jumpIfTrue _ | .jumpIfNull _ | .jumpIfNonNull _ | .jumpIfSame _
  | .jumpIfZero _ | .tableSwitch .. => true
  | _ => false

/-- Runs host code: a method, or listeners of the result. -/
def Op.asksHost : Op → Bool
  | .invoke .. | .invokeStatic .. | .construct .. | .publish | .lockRelease => true
  | _ => false

/-- Works on the stack alone, whatever it reads. -/
def Op.isLocal : Op → Bool
  | .storeCapture _ | .storeScratch _ | .flagAssign .. | .bitAssign .. | .counterAdd .. | .subscribe _
  | .unsubscribe _ | .lockAcquire => false
  | op => !op.isJump && !op.asksHost

namespace Exec

variable (r : Registry) (update : Updater) (fuel : Nat) (frame : Frame)

namespace Closed

variable {C : {α : Type} → Exec α → Prop} (hC : Closed C)
include hC

theorem step {op : Op} (h : op.isLocal) (R : Routine) : C (step r update fuel frame R op) := by
  cases op with
  | storeCapture | storeScratch | flagAssign | bitAssign | counterAdd | subscribe | unsubscribe
  | lockAcquire | lockRelease | publish | invoke | invokeStatic | construct | jump | jumpIfFalse
  | jumpIfTrue | jumpIfNull | jumpIfNonNull | jumpIfSame | jumpIfZero | tableSwitch =>
    simp [Op.isLocal, Op.isJump, Op.asksHost] at h
  | pushNull | pushBool | pushInt | pushLong | pushFloat | pushDouble | pushChar | pushStr
  | loadStep => exact hC.push _
  | loadLocal slot => exact hC.bind (hC.require _ _) fun _ ↦ hC.push _
  | loadCapture slot | loadScratch slot | counterLoad slot =>
    exact hC.bind (hC.state frame) fun _ ↦ hC.bind (hC.require _ _) fun _ ↦ hC.push _
  | dup => exact hC.bind hC.pop fun _ ↦ hC.bind (hC.push _) fun _ ↦ hC.push _
  | pop => exact hC.bind hC.pop fun _ ↦ hC.pure _
  | swap =>
    exact hC.bind hC.pop fun _ ↦ hC.bind hC.pop fun _ ↦ hC.bind (hC.push _) fun _ ↦ hC.push _
  | getProperty property | getObservable property =>
    refine hC.bind (hC.popReceiver _) fun o ↦ hC.bindGet (fun m ↦ ?_) fun _ _ _ ↦ rfl
    split
    · exact hC.push _
    · exact hC.fail _
  | observableValue =>
    refine hC.bind hC.pop fun v ↦ ?_
    cases v with
    | cell c => exact hC.bind (hC.readCell c) fun _ ↦ hC.push _
    | null => exact hC.fail _
    | _ => exact hC.ofExcept _
  | getStatic f => exact hC.bind (hC.ofExcept _) fun _ ↦ hC.push _
  | charAt =>
    exact hC.bind hC.popInt fun _ ↦ hC.bind (hC.popText _) fun _ ↦ hC.bind (hC.ofExcept _) fun _ ↦
      hC.push _
  | arith op kind | cmp op kind =>
    exact hC.bind hC.pop fun _ ↦ hC.bind hC.pop fun _ ↦ hC.bind (hC.ofExcept _) fun _ ↦ hC.push _
  | neg kind | not | convert source target =>
    exact hC.bind hC.pop fun _ ↦ hC.bind (hC.ofExcept _) fun _ ↦ hC.push _
  | refEq => exact hC.bind hC.pop fun _ ↦ hC.bind hC.pop fun _ ↦ hC.push _
  | concat =>
    exact hC.bind hC.pop fun _ ↦ hC.bind hC.pop fun _ ↦ hC.bind (hC.textOf r _) fun _ ↦
      hC.bind (hC.textOf r _) fun _ ↦ hC.push _
  | box kind | «return» => exact hC.pure _
  | unbox kind =>
    refine hC.bindGet (fun m ↦ ?_) fun _ _ _ ↦ rfl
    split
    · exact hC.fail _
    · exact hC.pure _
  | parseNumber kind | enumValueOf c =>
    exact hC.bind (hC.popText _) fun _ ↦ hC.bind (hC.ofExcept _) fun _ ↦ hC.push _
  | parseBool => exact hC.bind (hC.popText _) fun _ ↦ hC.push _
  | parseChar =>
    refine hC.bind (hC.popText _) fun _ ↦ ?_
    split
    · exact hC.push _
    · exact hC.fail _
  | toStr => exact hC.bind hC.pop fun _ ↦ hC.bind (hC.textOf r _) fun _ ↦ hC.push _
  | flagTest mask | bitTest bit => exact hC.testFlag frame _ _
  | fault message => exact hC.fail _

theorem step_jump {op : Op} (h : op.isJump) {R : Routine}
    (hgoto : ∀ l ∈ op.targets, C (goto (R.target l))) : C (Exec.step r update fuel frame R op) := by
  cases op with
  | jump l => exact hgoto l List.mem_cons_self
  | jumpIfFalse l | jumpIfTrue l =>
    exact hC.bind hC.pop fun _ ↦ hC.bind (hC.ofExcept _) fun _ ↦
      hC.jumpIf (hgoto l List.mem_cons_self) _
  | jumpIfNull l | jumpIfNonNull l =>
    exact hC.bind hC.pop fun _ ↦ hC.jumpIf (hgoto l List.mem_cons_self) _
  | jumpIfSame l =>
    exact hC.bind hC.pop fun _ ↦ hC.bind hC.pop fun _ ↦ hC.jumpIf (hgoto l List.mem_cons_self) _
  | jumpIfZero l => exact hC.bind hC.popInt fun _ ↦ hC.jumpIf (hgoto l List.mem_cons_self) _
  | tableSwitch low targets otherwise =>
    have hget (i : Nat) : targets.getD i otherwise ∈ targets ++ [otherwise] := by
      rw [List.getD_eq_getElem?_getD]
      cases ht : targets[i]? with
      | none => simp
      | some l => simp [List.mem_of_getElem? ht]
    refine hC.bind hC.popInt fun _ ↦ hgoto _ ?_
    split
    · exact hget _
    · simp [Op.targets]
  | _ => simp [Op.isJump] at h

end Closed

theorem pcFree_step {op : Op} (h : op.isStraight) (R : Routine) :
    PcFree (step r update fuel frame R op) := by
  by_cases hl : op.isLocal
  · exact PcFree.closed.step r update fuel frame hl R
  cases op with
  | storeCapture slot | storeScratch slot =>
    exact PcFree.closed.pop.bind fun _ ↦ (PcFree.closed.state frame).bind fun _ ↦
      (PcFree.closed.storeAt _ _ _ _).bind fun _ ↦ .setState frame _
  | flagAssign mask value | bitAssign bit value =>
    exact (PcFree.closed.state frame).bind fun _ ↦ (PcFree.closed.require _ _).bind fun _ ↦
      .setState frame _
  | counterAdd counter delta =>
    exact (PcFree.closed.state frame).bind fun _ ↦ (PcFree.closed.require _ _).bind fun _ ↦
      .setState frame _
  | subscribe step | unsubscribe step =>
    refine PcFree.closed.pop.bind fun v ↦ ?_
    cases v with
    | cell c => exact (PcFree.closed.binding frame).bind fun _ ↦ .lift _
    | _ => exact PcFree.closed.pure _
  | invoke m argc =>
    refine (PcFree.closed.popArgs argc).bind fun args ↦ PcFree.closed.pop.bind fun receiver ↦ ?_
    split
    · exact PcFree.closed.fail _
    · exact .call r update fuel m _
  | invokeStatic m argc | construct m argc =>
    exact (PcFree.closed.popArgs argc).bind fun args ↦ .call r update fuel m _
  | publish => exact PcFree.closed.pop.bind fun _ ↦ (PcFree.closed.state frame).bind fun _ ↦ .lift _
  | lockAcquire =>
    exact (PcFree.closed.state frame).bind fun _ ↦ (PcFree.lift _).bind fun _ ↦ fun _ _ ↦ rfl
  | lockRelease =>
    refine (PcFree.closed.state frame).bind fun _ ↦ PcFree.bind ?_ fun _ ↦ .lift _
    exact fun _ _ ↦ rfl
  | _ => simp [Op.isLocal, Op.isJump, Op.asksHost, Op.isStraight] at h hl

theorem step_routine {op : Op} (h : op.isStraight) (R R' : Routine) :
    step r update fuel frame R op = step r update fuel frame R' op := by
  cases op <;> first | rfl | simp [Op.isStraight] at h

end Exec

end LiveBinding
