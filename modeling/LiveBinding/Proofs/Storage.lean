import LiveBinding.Proofs.Structured

namespace LiveBinding

namespace FlagLayout

/-- The word that holds a flag. -/
def wordOf : FlagLayout → Nat → Nat
  | word _, _ => 0
  | words .., bit => bit / wordSize

/-- A flag is set in the words that hold the flags. -/
def isSet (layout : FlagLayout) (flags : Array UInt64) (bit : Nat) : Bool :=
  (flags.getD (layout.wordOf bit) 0) &&& mask bit != 0

/-- The words after a flag is assigned. -/
def assigned (layout : FlagLayout) (flags : Array UInt64) (bit : Nat) (value : Bool) :
    Array UInt64 :=
  flags.modify (layout.wordOf bit) fun bits ↦
    if value then bits ||| mask bit else bits &&& ~~~mask bit

@[simp] theorem size_assigned (layout : FlagLayout) (flags : Array UInt64) (bit : Nat)
    (value : Bool) : (layout.assigned flags bit value).size = flags.size := by
  simp [assigned]

/-- There is a word for every flag. -/
theorem wordOf_lt {bits capacity bit : Nat} (h : bit < bits) :
    (choose bits capacity).wordOf bit < (choose bits capacity).storage := by
  unfold choose
  split
  · simp only [wordOf, storage]
    rw [if_neg (by omega)]
    exact Nat.one_pos
  · simp only [wordOf, storage, wordSize]
    omega

/-- The flags that share a word have different places in it. -/
theorem place_ne {bits capacity a b : Nat} (ha : a < bits) (hb : b < bits) (hne : a ≠ b)
    (hw : (choose bits capacity).wordOf a = (choose bits capacity).wordOf b) :
    a % 64 ≠ b % 64 := by
  unfold choose at hw
  split at hw
  · next h =>
    have : bits ≤ 64 := Nat.le_trans h (Nat.min_le_right _ _)
    omega
  · simp only [wordOf, wordSize] at hw
    omega

theorem mask_ne_zero (a : Nat) : mask a ≠ 0 := by
  intro h
  have h := congrArg (fun x ↦ x.toBitVec.getLsbD (a % 64)) h
  simp [mask, Nat.mod_lt] at h

theorem or_mask (bits : UInt64) (a : Nat) : ((bits ||| mask a) &&& mask a) = mask a := by
  apply UInt64.toBitVec_inj.mp
  ext i hi
  simp
  grind

theorem and_not_mask (bits : UInt64) (a : Nat) : ((bits &&& ~~~mask a) &&& mask a) = 0 := by
  apply UInt64.toBitVec_inj.mp
  ext i hi
  simp

theorem or_mask_of_ne (bits : UInt64) {a b : Nat} (h : a % 64 ≠ b % 64) :
    ((bits ||| mask a) &&& mask b) = bits &&& mask b := by
  apply UInt64.toBitVec_inj.mp
  ext i hi
  simp [mask]
  grind

theorem and_not_mask_of_ne (bits : UInt64) {a b : Nat} (h : a % 64 ≠ b % 64) :
    ((bits &&& ~~~mask a) &&& mask b) = bits &&& mask b := by
  apply UInt64.toBitVec_inj.mp
  ext i hi
  simp [mask]
  grind

theorem isSet_assigned_self {layout : FlagLayout} {flags : Array UInt64} {bit : Nat}
    (h : layout.wordOf bit < flags.size) (value : Bool) :
    layout.isSet (layout.assigned flags bit value) bit = value := by
  simp only [isSet, assigned, Array.getD_eq_getD_getElem?, Array.getElem?_modify, if_true,
    Array.getElem?_eq_getElem h, Option.map_some, Option.getD_some]
  cases value
  · simp [and_not_mask]
  · simp [or_mask, mask_ne_zero]

theorem isSet_assigned_of_ne {bits capacity a b : Nat} {flags : Array UInt64} (ha : a < bits)
    (hb : b < bits) (hne : a ≠ b) (value : Bool) :
    (choose bits capacity).isSet ((choose bits capacity).assigned flags a value) b =
      (choose bits capacity).isSet flags b := by
  simp only [isSet, assigned, Array.getD_eq_getD_getElem?, Array.getElem?_modify]
  split
  · next hw =>
    have hp := place_ne ha hb hne hw
    cases flags[(choose bits capacity).wordOf b]? with
    | none => rfl
    | some x => cases value <;> simp [or_mask_of_ne x hp, and_not_mask_of_ne x hp]
  · rfl

end FlagLayout

namespace World

variable (w : World) (i : InstanceId)

/-- Replaces the storage of a binding. -/
def put (s : Instance) : World := w.modifyInstance i fun _ ↦ s

variable {w i}

theorem instance?_put {s s' : Instance} (h : w.instance? i = some s) :
    (w.put i s').instance? i = some s' := by
  simp only [instance?] at h
  simp [put, instance?, modifyInstance, Array.getElem?_modify, h]

theorem put_put (s s' : Instance) : (w.put i s).put i s' = w.put i s' := by
  simp only [put, modifyInstance]
  congr 1
  ext j hj hj'
  · simp
  · simp only [Array.getElem_modify]
    split <;> rfl

theorem put_self {s : Instance} (h : w.instance? i = some s) : w.put i s = w := by
  simp only [instance?] at h
  obtain ⟨hi, he⟩ := Array.getElem?_eq_some_iff.mp h
  simp only [put, modifyInstance]
  congr 1
  ext j hj hj'
  · simp
  · simp only [Array.getElem_modify]
    split
    · next hij => subst hij; exact he.symm
    · rfl

end World

namespace Instance

/-- Adds to each of some counters. -/
def addCounters (s : Instance) (counters : List Nat) (delta : Int32) : Instance :=
  counters.foldl (fun s n ↦ { s with counters := s.counters.modify n (· + delta) }) s

def setScratch (s : Instance) (slot : Nat) (v : Value) : Instance :=
  { s with scratch := s.scratch.setIfInBounds slot v }

end Instance

namespace Exec

variable {r : Registry} {update : Updater} {fuel : Nat} {frame : Frame}
variable {i : InstanceId} {s : Instance} {m : Machine}

theorem state_apply (hb : frame.binding = some i) (hs : m.world.instance? i = some s) :
    state frame m = (.ok s, m) := by
  simp only [state, binding, hb, bind_apply, pure_apply, get_apply, hs]

theorem setState_apply (hb : frame.binding = some i) (s : Instance) :
    setState frame s m = (.ok (), { m with world := m.world.put i s }) := by
  simp only [setState, binding, hb, bind_apply, pure_apply]
  rfl

/-- An instruction that ends without a call. -/
def Does (r : Registry) (update : Updater) (fuel : Nat) (frame : Frame) (op : Op) (m m' : Machine) :
    Prop :=
  runOp r update fuel frame op m = ⟨[], .ok (), m'⟩

-- an instruction is run by the equations of its steps
attribute [local simp] Does runOp step callsOf bind_apply pure_apply get_apply pop_apply push_apply
  require

theorem does_loadScratch {slot : Nat} {v : Value} (hb : frame.binding = some i)
    (hs : m.world.instance? i = some s) (hv : s.scratch[slot]? = some v) :
    Does r update fuel frame (.loadScratch slot) m { m with stack := v :: m.stack } := by
  simp [state_apply hb hs, hv]

theorem does_storeScratch {slot : Nat} {v : Value} {rest : List Value}
    (hb : frame.binding = some i) (hs : m.world.instance? i = some s) (hm : m.stack = v :: rest)
    (hv : slot < s.scratch.size) :
    Does r update fuel frame (.storeScratch slot) m
      { m with stack := rest, world := m.world.put i (s.setScratch slot v) } := by
  have hs' : ({ m with stack := rest } : Machine).world.instance? i = some s := hs
  simp only [Does, runOp, step, bind_apply, pop_apply, hm, state_apply hb hs', storeAt, hv, if_true,
    pure_apply, setState_apply hb]
  rfl

theorem setIfInBounds_eq_modify {α : Type} {xs : Array α} {n : Nat} {x : α} (f : α → α)
    (h : xs[n]? = some x) : xs.setIfInBounds n (f x) = xs.modify n f := by
  obtain ⟨hn, rfl⟩ := Array.getElem?_eq_some_iff.mp h
  refine Array.ext_getElem? fun j ↦ ?_
  by_cases hj : n = j
  · subst hj
    simp [hn, Array.getElem_modify]
  · simp [Array.getElem?_modify, hj]

theorem does_counterAdd {counter : Nat} (delta : Int32)
    (hb : frame.binding = some i) (hs : m.world.instance? i = some s)
    (hc : counter < s.counters.size) :
    Does r update fuel frame (.counterAdd counter delta) m
      { m with world := m.world.put i (s.addCounters [counter] delta) } := by
  have hn := Array.getElem?_eq_getElem hc
  have hm := setIfInBounds_eq_modify (· + delta) hn
  simp only [Does, runOp, step, bind_apply, state_apply hb hs, require, hn, pure_apply,
    setState_apply hb]
  rw [hm]
  rfl

theorem does_counterLoad {counter : Nat} {n : Int32} (hb : frame.binding = some i)
    (hs : m.world.instance? i = some s) (hn : s.counters[counter]? = some n) :
    Does r update fuel frame (.counterLoad counter) m { m with stack := .int n :: m.stack } := by
  simp [state_apply hb hs, hn]

theorem does_loadCapture {slot : Nat} {v : Value} (hb : frame.binding = some i)
    (hs : m.world.instance? i = some s) (hv : s.captures[slot]? = some v) :
    Does r update fuel frame (.loadCapture slot) m { m with stack := v :: m.stack } := by
  simp [state_apply hb hs, hv]

theorem does_test {layout : FlagLayout} {flag : Nat} (hb : frame.binding = some i)
    (hs : m.world.instance? i = some s) (hf : layout.wordOf flag < s.flags.size) :
    Does r update fuel frame (layout.test flag) m
      { m with stack := .bool (layout.isSet s.flags flag) :: m.stack } := by
  cases layout <;>
  · simp only [FlagLayout.wordOf] at hf
    simp [FlagLayout.test, testFlag, state_apply hb hs, Array.getElem?_eq_getElem hf,
      FlagLayout.isSet, FlagLayout.wordOf, Array.getD_eq_getD_getElem?]

theorem does_assign {layout : FlagLayout} {flag : Nat} (value : Bool)
    (hb : frame.binding = some i) (hs : m.world.instance? i = some s)
    (hf : layout.wordOf flag < s.flags.size) :
    Does r update fuel frame (layout.assign flag value) m
      { m with world := m.world.put i { s with flags := layout.assigned s.flags flag value } } := by
  have hn := Array.getElem?_eq_getElem hf
  have hm := setIfInBounds_eq_modify
    (fun bits ↦ if value then bits ||| FlagLayout.mask flag else bits &&& ~~~FlagLayout.mask flag) hn
  cases layout <;>
  · simp only [FlagLayout.wordOf] at hn hm
    simp only [Does, runOp, FlagLayout.assign, step, setFlag, bind_apply, state_apply hb hs,
      require, hn, pure_apply, setState_apply hb]
    rw [hm]
    rfl

theorem does_subscribe {c : CellId} {rest : List Value} (step : Nat)
    (hb : frame.binding = some i) (hm : m.stack = .cell c :: rest) :
    Does r update fuel frame (.subscribe step) m
      { m with stack := rest, world := m.world.modifyCell c (·.addListener (.binding i step)) } := by
  simp only [Does, runOp, Exec.step, bind_apply, pop_apply, hm, binding, hb, pure_apply]
  rfl

theorem does_unsubscribe {c : CellId} {rest : List Value} (step : Nat)
    (hb : frame.binding = some i) (hm : m.stack = .cell c :: rest) :
    Does r update fuel frame (.unsubscribe step) m
      { m with stack := rest, world := m.world.modifyCell c (·.removeListener i step) } := by
  simp only [Does, runOp, Exec.step, bind_apply, pop_apply, hm, binding, hb, pure_apply]
  rfl

theorem does_dup {v : Value} {rest : List Value} (hm : m.stack = v :: rest) :
    Does r update fuel frame .dup m { m with stack := v :: v :: rest } := by
  simp [hm]

theorem does_pop {v : Value} {rest : List Value} (hm : m.stack = v :: rest) :
    Does r update fuel frame .pop m { m with stack := rest } := by
  simp [hm]

theorem does_pushNull : Does r update fuel frame .pushNull m { m with stack := .null :: m.stack } :=
  rfl

theorem does_observableValue {c : CellId} {rest : List Value} (hm : m.stack = .cell c :: rest) :
    Does r update fuel frame .observableValue m
      { m with stack := m.world.cellValue c :: rest } := by
  simp [hm, readCell]

theorem does_lockAcquire (hb : frame.binding = some i) (hs : m.world.instance? i = some s) :
    Does r update fuel frame .lockAcquire m
      { m with world := m.world.modifyCell s.result Cell.lock, locks := m.locks + 1 } := by
  simp only [Does, runOp, step, bind_apply, state_apply hb hs]
  rfl

theorem runOps_cons {op : Op} {m' : Machine} (h : Does r update fuel frame op m m')
    (ops : List Op) : runOps r update fuel frame (op :: ops) m = runOps r update fuel frame ops m' := by
  show Block.andThen _ _ m = _
  rw [Block.andThen, show runOp r update fuel frame op m = _ from h]
  rfl

theorem runOps_append (ops ops' : List Op) :
    runOps r update fuel frame (ops ++ ops') =
      (runOps r update fuel frame ops).andThen (runOps r update fuel frame ops') := by
  induction ops with
  | nil => rfl
  | cons op ops ih =>
    rw [List.cons_append, runOps, runOps, ih, Block.andThen_assoc]

theorem andThen_ok {first second : Block} {m' : Machine} (h : first m = ⟨[], .ok (), m'⟩) :
    first.andThen second m = second m' := by
  simp only [Block.andThen, h]
  rfl

/-- Several counters are adjusted one after the other. -/
theorem runOps_adjust (counters : List Nat) (delta : Int32) (hb : frame.binding = some i)
    (hs : m.world.instance? i = some s) (hc : ∀ n ∈ counters, n < s.counters.size) :
    runOps r update fuel frame (Fragment.adjust counters delta) m =
      ⟨[], .ok (), { m with world := m.world.put i (s.addCounters counters delta) }⟩ := by
  induction counters generalizing m s with
  | nil =>
    rw [show s.addCounters [] delta = s from rfl, World.put_self hs]
    rfl
  | cons n counters ih =>
    have hn := hc n List.mem_cons_self
    show runOps r update fuel frame (.counterAdd n delta :: Fragment.adjust counters delta) m = _
    rw [runOps_cons (does_counterAdd delta hb hs hn), ih (World.instance?_put hs)]
    · simp only [World.put_put]
      rfl
    · intro k hk
      simpa [Instance.addCounters] using hc k (List.mem_cons_of_mem _ hk)

section

variable {taken untaken : Block} {v : Value} {rest : List Value}

theorem branchOn_jumpIfNull (hm : m.stack = v :: rest) :
    branchOn .jumpIfNull taken untaken m =
      if v.isNull then taken { m with stack := rest } else untaken { m with stack := rest } := by
  simp only [branchOn, condition, bind_apply, pop_apply, hm, pure_apply]
  cases v.isNull <;> rfl

theorem branchOn_jumpIfSame {v' : Value} (hm : m.stack = v' :: v :: rest) :
    branchOn .jumpIfSame taken untaken m =
      if v.same v' then taken { m with stack := rest } else untaken { m with stack := rest } := by
  simp only [branchOn, condition, bind_apply, pop_apply, hm, pure_apply]
  cases v.same v' <;> rfl

theorem branchOn_jumpIfZero {n : Int32} (hm : m.stack = .int n :: rest) :
    branchOn .jumpIfZero taken untaken m =
      if n = 0 then taken { m with stack := rest } else untaken { m with stack := rest } := by
  simp only [branchOn, condition, popInt, bind_apply, pop_apply, hm, pure_apply, Value.toInt,
    ofExcept]
  by_cases h : n = 0
  · simp [h]
  · rw [beq_false_of_ne h, if_neg h]

end

end Exec

end LiveBinding
