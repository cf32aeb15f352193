import LiveBinding.Proofs.Bookkeeping

namespace LiveBinding

/-- A flag of the first word is addressed by its mask there; other flags have none. -/
def Op.byMask : Op → Op
  | .bitTest bit =>
    if bit < FlagLayout.wordSize then .flagTest (FlagLayout.mask bit) else .bitTest bit
  | .bitAssign bit value =>
    if bit < FlagLayout.wordSize then .flagAssign (FlagLayout.mask bit) value
    else .bitAssign bit value
  | op => op

def Routine.byMask (R : Routine) : Routine := { R with ops := R.ops.map Op.byMask }

/-- An artifact whose flags are addressed by masks wherever that is possible. -/
def Artifact.byMask (a : Artifact) : Artifact :=
  { a with flags := .words a.flags.bits a.flags.storage
           init := a.init.byMask, update := a.update.byMask }

def Instance.byMask (s : Instance) : Instance := { s with artifact := s.artifact.byMask }

def World.byMask (w : World) : World := { w with instances := w.instances.map Instance.byMask }

def Machine.byMask (m : Machine) : Machine := { m with world := m.world.byMask }

namespace World

variable (w : World)

theorem instance?_byMask (i : InstanceId) :
    w.byMask.instance? i = (w.instance? i).map Instance.byMask := by
  simp [instance?, byMask]

theorem modifyInstance_byMask (i : InstanceId) {f g : Instance → Instance}
    (h : ∀ s, (f s).byMask = g s.byMask) :
    (w.modifyInstance i f).byMask = w.byMask.modifyInstance i g := by
  simp only [modifyInstance, byMask]
  congr 1
  apply Array.ext_getElem?
  intro j
  simp only [Array.getElem?_map, Array.getElem?_modify]
  split
  · simp [Function.comp_def, h]
  · rfl

theorem addSlots_byMask (o : HostObject) (slots : List (String × Value × Bool)) :
    w.byMask.addSlots o slots = ((w.addSlots o slots).1, (w.addSlots o slots).2.byMask) := by
  unfold addSlots
  induction slots generalizing o w with
  | nil => rfl
  | cons slot slots ih =>
    obtain ⟨property, v, _ | _⟩ := slot
    · exact ih w (o.setSlot property (.plain v))
    · exact ih (w.newCell v).2 (o.setSlot property (.observable (w.newCell v).1))

theorem newObject_byMask (cls : ClassId) (label : String) (slots : List (String × Value × Bool)) :
    w.byMask.newObject cls label slots =
      ((w.newObject cls label slots).1, (w.newObject cls label slots).2.byMask) := by
  simp only [newObject, addSlots_byMask]
  rfl

theorem alive_byMask : w.byMask.instances.toList.filter Instance.alive =
    (w.instances.toList.filter Instance.alive).map Instance.byMask := by
  simp only [byMask, Array.toList_map, List.filter_map]
  rfl

theorem narrow_byMask (r : Registry) (k : Region) : w.byMask.narrow r k = w.narrow r k := by
  have hvalues : w.byMask.rootValues r = w.rootValues r := by
    simp only [rootValues, alive_byMask, List.flatMap_map]
    rfl
  unfold narrow
  rw [hvalues, alive_byMask, List.map_map]
  rfl

theorem narrowTimes_byMask (r : Registry) (n : Nat) (k : Region) :
    w.byMask.narrowTimes r n k = w.narrowTimes r n k := by
  induction n generalizing k with
  | zero => rfl
  | succ n ih => simp only [narrowTimes, narrow_byMask, ih]

theorem isLive_byMask (r : Registry) (o : ObjectId) : w.byMask.isLive r o = w.isLive r o := by
  exact congrArg (fun k : Region ↦ k.objects.contains o) (w.narrowTimes_byMask r _ _)

theorem textWithin_byMask (r : Registry) (n : Nat) (v : Value) :
    w.byMask.textWithin r n v = w.textWithin r n v := by
  induction n generalizing v with
  | zero => cases v <;> rfl
  | succ n ih =>
    cases v with
    | cell c => exact ih (w.cellValue c)
    | _ => rfl

theorem text_byMask (r : Registry) (v : Value) : w.byMask.text r v = w.text r v :=
  w.textWithin_byMask r _ v

theorem displayWithin_byMask (n : Nat) (v : Value) :
    w.byMask.displayWithin n v = w.displayWithin n v := by
  induction n generalizing v with
  | zero => cases v <;> rfl
  | succ n ih =>
    cases v with
    | cell c => exact congrArg Shown.cell (ih (w.cellValue c))
    | _ => rfl

theorem display_byMask (v : Value) : w.byMask.display v = w.display v :=
  w.displayWithin_byMask _ v

end World

/-- A computation does in the image of a state what another one does in the state. -/
def Mirrors {σ α : Type} (f : σ → σ) (x y : ExceptT Stop (StateM σ) α) : Prop :=
  ∀ s, y (f s) = ((x s).1, f (x s).2)

namespace Mirrors

variable {σ α β : Type} {f : σ → σ} {x y : ExceptT Stop (StateM σ) α}

theorem pure (a : α) : Mirrors f (Pure.pure a) (Pure.pure a) := fun _ ↦ rfl

theorem throw (e : Stop) :
    Mirrors f (MonadExcept.throw e : ExceptT Stop (StateM σ) α) (MonadExcept.throw e) := fun _ ↦ rfl

theorem bind {k l : α → ExceptT Stop (StateM σ) β} (h : Mirrors f x y)
    (hk : ∀ a, Mirrors f (k a) (l a)) : Mirrors f (x >>= k) (y >>= l) := by
  intro s
  simp only [Stop.bind_apply, h s]
  rcases x s with ⟨e | a, t⟩
  · rfl
  · exact hk a t

end Mirrors

/-- A run does the same whichever way flags are addressed. -/
abbrev Run.Blind {α : Type} (x : Run α) : Prop := Mirrors World.byMask x x

namespace Run

variable {α : Type} {x : Run α}

theorem blind_view {f : World → α} (h : ∀ w : World, f w.byMask = f w) : Blind (view f) := by
  intro w
  exact congrArg (fun a ↦ (Except.ok a, w.byMask)) (h w)

theorem blind_change {f : World → World} (h : ∀ w : World, (f w).byMask = f w.byMask) :
    Blind (change f) := by
  intro w
  exact congrArg (fun w' ↦ (Except.ok (), w')) (h w).symm

theorem blind_modifyCell (c : CellId) (f : Cell → Cell) : Blind (change (·.modifyCell c f)) :=
  blind_change fun _ ↦ rfl

theorem blind_ofExcept (a : Except RuntimeError α) : Blind (ofExcept a) := by
  cases a <;> exact fun _ ↦ rfl

theorem blind_holding (values : List Value) (h : Blind x) : Blind (holding values x) := by
  intro w
  unfold holding
  rw [show ({ w.byMask with held := values ++ w.byMask.held } : World) =
    ({ w with held := values ++ w.held } : World).byMask from rfl, h _]
  rfl

theorem blind_ignoreError {x : Run Unit} (h : Blind x) : Blind (ignoreError x) := by
  intro w
  unfold ignoreError
  rw [h w]
  rcases x w with ⟨(_ | _) | _, _⟩ <;> rfl

/-- Getting the storage of a binding gives the same storage with its flags addressed by masks. -/
theorem mirrors_instance {α : Type} {j : InstanceId} {k : Option Instance → Run α}
    (hnone : Blind (k none))
    (hsome : ∀ s : Instance, Mirrors World.byMask (k (some s)) (k (some s.byMask))) :
    Blind (view (·.instance? j) >>= k) := by
  intro w
  simp only [Stop.bind_apply, view, World.instance?_byMask]
  cases w.instance? j with
  | none => exact hnone w
  | some s => exact hsome s w

end Run

open Run in
/-- Host code does the same whichever way flags are addressed. -/
structure HostBlind (r : Registry) (update : Updater) (fuel : Nat) : Prop where
  perform : ∀ {α : Type} (action : Action α), Blind (action.perform r update fuel)
  notifyAll : ∀ c listeners, Blind (notifyAll r update fuel c listeners)
  notify : ∀ c, Blind (notify r update fuel c)
  writeCell : ∀ c v, Blind (writeCell r update fuel c v)
  writeProperty : ∀ o property v, Blind (writeProperty r update fuel o property v)

section

variable {r : Registry} {update : Updater} (hu : ∀ j k, Run.Blind (update j k))
include hu

open Run

theorem blind_host (fuel : Nat) : HostBlind r update fuel := by
  induction fuel with
  | zero =>
    refine ⟨fun action ↦ ?_, fun c listeners ↦ ?_, fun c ↦ ?_, fun c v ↦ ?_, fun o p v ↦ ?_⟩
    · simp only [Action.perform]
      exact .throw _
    · cases listeners with
      | nil => exact .pure _
      | cons => exact .throw _
    · exact .throw _
    · exact .throw _
    · exact .throw _
  | succ fuel ih =>
    refine ⟨fun action ↦ ?_, fun c listeners ↦ ?_, fun c ↦ ?_, fun c v ↦ ?_, fun o p v ↦ ?_⟩
    · cases action with
      | done a => exact .pure a
      | fail e => exact .throw _
      | get o property next => exact (blind_view fun _ ↦ rfl).bind fun v ↦ ih.perform _
      | text v next => exact (blind_view fun w ↦ w.text_byMask r v).bind fun s ↦ ih.perform _
      | find name next => exact (blind_view fun _ ↦ rfl).bind fun o ↦ ih.perform _
      | set o property v next => exact (ih.writeProperty o property v).bind fun _ ↦ ih.perform _
      | make cls slots next =>
        refine Mirrors.bind (x := makeObject cls slots) ?_ fun o ↦ ih.perform _
        intro w
        have h := World.newObject_byMask { w with made := w.made + 1 } cls
          ("#" ++ toString (w.made + 1)) slots
        exact congrArg (fun p ↦ (Except.ok p.1, p.2)) h
      | ifLive o live dead =>
        refine (blind_view fun w ↦ w.isLive_byMask r o).bind fun isLive ↦ ?_
        split
        · exact blind_holding _ (ih.perform live)
        · exact ih.perform dead
      | logCall method args next =>
        have hargs (w : World) : args.map w.byMask.display = args.map w.display :=
          List.map_congr_left fun v _ ↦ w.display_byMask v
        refine Mirrors.bind (blind_change fun w ↦ ?_) fun _ ↦ ih.perform _
        rw [hargs]
        rfl
      | logWatch tag v next =>
        refine Mirrors.bind (blind_change fun w ↦ ?_) fun _ ↦ ih.perform _
        rw [World.display_byMask]
        rfl
    · cases listeners with
      | nil => exact .pure _
      | cons listener rest =>
        cases listener with
        | binding j k =>
          refine (blind_view fun w ↦ ?_).bind fun alive ↦ ?_
          · rw [World.instance?_byMask, Option.map_map]
            rfl
          · split
            · exact (hu j k).bind fun _ ↦ ih.notifyAll c rest
            · exact ih.notifyAll c rest
        | callback action =>
          exact (blind_view fun _ ↦ rfl).bind fun v ↦ (blind_holding _ (ih.perform _)).bind fun _ ↦
            ih.notifyAll c rest
    · refine (blind_view fun _ ↦ rfl).bind fun found ↦ ?_
      cases found with
      | none => exact .pure _
      | some cell =>
        dsimp only
        split
        · exact blind_modifyCell c _
        · exact ih.notifyAll c _
    · refine (blind_view fun _ ↦ rfl).bind fun old ↦ ?_
      split
      · exact .pure _
      · exact (blind_modifyCell c _).bind fun _ ↦ ih.notify c
    · refine (blind_view fun _ ↦ rfl).bind fun slot ↦ ?_
      rcases slot with _ | (v' | c)
      · exact blind_change fun _ ↦ rfl
      · exact blind_change fun _ ↦ rfl
      · exact ih.writeCell c v

variable (fuel : Nat)

theorem blind_unlockCell (c : CellId) : Blind (unlockCell r update fuel c) := by
  refine (blind_view fun _ ↦ rfl).bind fun found ↦ ?_
  cases found with
  | none => exact .pure _
  | some cell =>
    dsimp only
    split
    · exact (blind_modifyCell c _).bind fun _ ↦ (blind_host hu fuel).notify c
    · exact blind_modifyCell c _

theorem blind_invokeMethod (m : MethodId) (args : List Value) :
    Blind (invokeMethod r update fuel m args) :=
  (blind_ofExcept _).bind fun _ ↦ blind_holding args ((blind_host hu fuel).perform _)

theorem blind_releaseHeld (frame : Frame) (locks : LockDepth) :
    Blind (releaseHeld r update fuel frame locks) := by
  have hlocks (c : CellId) (n : Nat) : Blind (releaseLocks r update fuel c n) := by
    induction n with
    | zero => exact .pure _
    | succ n ih => exact (blind_ignoreError (blind_unlockCell hu fuel c)).bind fun _ ↦ ih
  unfold releaseHeld
  cases frame.binding with
  | none => exact .pure _
  | some i =>
    apply mirrors_instance
    · exact .pure _
    · exact fun s ↦ hlocks s.result locks.toNat

end

namespace Exec

variable {α : Type}

/-- So does a computation of the machine. -/
abbrev Blind (x : Exec α) : Prop := Mirrors Machine.byMask x x

theorem blind_fail (e : RuntimeError) : Blind (fail e : Exec α) := .throw _

theorem blind_ofExcept (a : Except RuntimeError α) : Blind (ofExcept a) := by
  cases a <;> exact fun _ ↦ rfl

theorem blind_require (message : String) (a : Option α) : Blind (require message a) := by
  cases a <;> exact fun _ ↦ rfl

theorem blind_setLocks (f : LockDepth → LockDepth) : Blind (modify fun m ↦ { m with locks := f m.locks }) :=
  fun _ ↦ rfl

theorem blind_goto (pc : Nat) : Blind (goto pc) := fun _ ↦ rfl

theorem blind_push (v : Value) : Blind (push v) := fun _ ↦ rfl

theorem blind_pop : Blind pop := by
  intro m
  rw [pop_apply, pop_apply, show m.byMask.stack = m.stack from rfl]
  cases m.stack <;> rfl

theorem blind_popArgs (n : Nat) : Blind (popArgs n) := by
  intro m
  rw [popArgs_apply, popArgs_apply, show m.byMask.stack = m.stack from rfl]
  split <;> rfl

theorem blind_get {k : Machine → Exec α} (hk : ∀ m, Blind (k m))
    (h : ∀ m : Machine, k m.byMask = k m) : Blind (get >>= k) := by
  intro m
  simp only [bind_apply, get_apply, h m]
  exact hk m m

theorem blind_popInt : Blind popInt := blind_pop.bind fun v ↦ blind_ofExcept v.toInt

theorem blind_popText (operation : String) : Blind (popText operation) := by
  refine blind_pop.bind fun v ↦ ?_
  cases v with
  | str s => exact .pure s
  | null => exact blind_fail _
  | _ => exact blind_ofExcept _

theorem blind_popReceiver (property : String) : Blind (popReceiver property) := by
  refine blind_pop.bind fun v ↦ ?_
  cases v with
  | object o => exact .pure o
  | null => exact blind_fail _
  | _ => exact blind_ofExcept _

theorem blind_binding (frame : Frame) : Blind (binding frame) := by
  unfold binding
  cases frame.binding with
  | none => exact blind_fail _
  | some i => exact .pure i

theorem blind_storeAt (message : String) (slots : Array Value) (slot : Nat) (v : Value) :
    Blind (storeAt message slots slot v) := by
  unfold storeAt
  split
  · exact .pure _
  · exact blind_fail _

theorem blind_textOf (r : Registry) (v : Value) : Blind (textOf r v) :=
  blind_get (fun _ ↦ .pure _) fun m ↦ congrArg pure (m.world.text_byMask r v)

theorem blind_readCell (c : CellId) : Blind (readCell c) := blind_get (fun _ ↦ .pure _) fun _ ↦ rfl

theorem blind_jumpIf (R : Routine) (b : Bool) (l : Label) : Blind (jumpIf R b l) := by
  unfold jumpIf
  split
  · exact blind_goto _
  · exact .pure _

theorem blind_lift {x : Run α} (h : x.Blind) : Blind (lift x) := by
  intro m
  have hx := Run.blind_holding m.stack h m.world
  unfold lift
  rw [show m.byMask.stack = m.stack from rfl, show m.byMask.world = m.world.byMask from rfl, hx]
  rfl

/-- What follows reads the storage of the binding, and differs only in how flags are addressed. -/
theorem blind_state {frame : Frame} {k : Instance → Exec α}
    (hk : ∀ s, Mirrors Machine.byMask (k s) (k s.byMask)) : Blind (state frame >>= k) := by
  intro m
  unfold state
  simp only [bind_assoc]
  apply (blind_binding frame).bind
  intro i m
  simp only [bind_apply, get_apply]
  rw [show m.byMask.world = m.world.byMask from rfl, World.instance?_byMask]
  cases m.world.instance? i with
  | none => rfl
  | some s => exact hk s m

theorem mirrors_setState (frame : Frame) (s : Instance) :
    Mirrors Machine.byMask (setState frame s) (setState frame s.byMask) := by
  unfold setState
  apply (blind_binding frame).bind
  intro i m
  have hput := m.world.modifyInstance_byMask i (f := fun _ ↦ s) (g := fun _ ↦ s.byMask) fun _ ↦ rfl
  exact congrArg (fun w ↦ (Except.ok (), { m with world := w })) hput.symm

theorem blind_testFlag (frame : Frame) (word : Nat) (mask : UInt64) :
    Blind (testFlag frame word mask) := by
  apply blind_state
  intro s
  exact (blind_require _ _).bind fun _ ↦ blind_push _

theorem blind_setFlag (frame : Frame) (word : Nat) (mask : UInt64) (value : Bool) :
    Blind (setFlag frame word mask value) := by
  apply blind_state
  intro s
  exact (blind_require _ _).bind fun _ ↦ mirrors_setState frame { s with flags := _ }

section

variable {r : Registry} {update : Updater} (hu : ∀ j k, Run.Blind (update j k)) (fuel : Nat)
include hu

theorem blind_call (m : MethodId) (args : List Value) : Blind (call r update fuel m args) :=
  (blind_lift (blind_invokeMethod hu fuel m args)).bind fun _ ↦ blind_push _

/-- An instruction does the same whichever way the flags of the binding are addressed elsewhere. -/
theorem blind_step (frame : Frame) (R : Routine) (op : Op) :
    Blind (step r update fuel frame R op) := by
  cases op with
  | pushNull | pushBool | pushInt | pushLong | pushFloat | pushDouble | pushChar | pushStr
  | loadStep => exact blind_push _
  | loadLocal slot => exact (blind_require _ _).bind fun _ ↦ blind_push _
  | loadCapture slot | loadScratch slot | counterLoad slot =>
    exact blind_state fun s ↦ (blind_require _ _).bind fun _ ↦ blind_push _
  | storeCapture slot =>
    exact blind_pop.bind fun v ↦ blind_state fun s ↦ (blind_storeAt _ _ _ _).bind fun _ ↦
      mirrors_setState frame { s with captures := _ }
  | storeScratch slot =>
    exact blind_pop.bind fun v ↦ blind_state fun s ↦ (blind_storeAt _ _ _ _).bind fun _ ↦
      mirrors_setState frame { s with scratch := _ }
  | dup => exact blind_pop.bind fun _ ↦ (blind_push _).bind fun _ ↦ blind_push _
  | pop => exact blind_pop.bind fun _ ↦ .pure _
  | swap =>
    exact blind_pop.bind fun _ ↦ blind_pop.bind fun _ ↦ (blind_push _).bind fun _ ↦ blind_push _
  | getProperty property | getObservable property =>
    refine (blind_popReceiver _).bind fun o ↦ blind_get (fun m ↦ ?_) fun _ ↦ rfl
    split
    · exact blind_push _
    · exact blind_fail _
  | observableValue =>
    refine blind_pop.bind fun v ↦ ?_
    cases v with
    | cell c => exact (blind_readCell c).bind fun _ ↦ blind_push _
    | null => exact blind_fail _
    | _ => exact blind_ofExcept _
  | getStatic f => exact (blind_ofExcept _).bind fun _ ↦ blind_push _
  | invoke m argc =>
    refine (blind_popArgs argc).bind fun args ↦ blind_pop.bind fun receiver ↦ ?_
    split
    · exact blind_fail _
    · exact blind_call hu fuel m _
  | invokeStatic m argc | construct m argc =>
    exact (blind_popArgs argc).bind fun args ↦ blind_call hu fuel m args
  | charAt =>
    exact blind_popInt.bind fun _ ↦ (blind_popText _).bind fun _ ↦ (blind_ofExcept _).bind fun _ ↦
      blind_push _
  | arith op kind | cmp op kind =>
    exact blind_pop.bind fun _ ↦ blind_pop.bind fun _ ↦ (blind_ofExcept _).bind fun _ ↦ blind_push _
  | neg kind | not | convert source target =>
    exact blind_pop.bind fun _ ↦ (blind_ofExcept _).bind fun _ ↦ blind_push _
  | refEq => exact blind_pop.bind fun _ ↦ blind_pop.bind fun _ ↦ blind_push _
  | concat =>
    exact blind_pop.bind fun _ ↦ blind_pop.bind fun _ ↦ (blind_textOf r _).bind fun _ ↦
      (blind_textOf r _).bind fun _ ↦ blind_push _
  | box kind | «return» => exact .pure _
  | unbox kind =>
    refine blind_get (fun m ↦ ?_) fun _ ↦ rfl
    split
    · exact blind_fail _
    · exact .pure _
  | parseNumber kind | enumValueOf c =>
    exact (blind_popText _).bind fun _ ↦ (blind_ofExcept _).bind fun _ ↦ blind_push _
  | parseBool => exact (blind_popText _).bind fun _ ↦ blind_push _
  | parseChar =>
    refine (blind_popText _).bind fun text ↦ ?_
    split
    · exact blind_push _
    · exact blind_fail _
  | toStr => exact blind_pop.bind fun _ ↦ (blind_textOf r _).bind fun _ ↦ blind_push _
  | jump l => exact blind_goto _
  | jumpIfFalse l | jumpIfTrue l =>
    exact blind_pop.bind fun _ ↦ (blind_ofExcept _).bind fun _ ↦ blind_jumpIf R _ l
  | jumpIfNull l | jumpIfNonNull l => exact blind_pop.bind fun _ ↦ blind_jumpIf R _ l
  | jumpIfSame l => exact blind_pop.bind fun _ ↦ blind_pop.bind fun _ ↦ blind_jumpIf R _ l
  | jumpIfZero l => exact blind_popInt.bind fun _ ↦ blind_jumpIf R _ l
  | tableSwitch low targets otherwise => exact blind_popInt.bind fun _ ↦ blind_goto _
  | flagTest mask | bitTest bit => exact blind_testFlag frame _ _
  | flagAssign mask value | bitAssign bit value => exact blind_setFlag frame _ _ value
  | counterAdd counter delta =>
    exact blind_state fun s ↦ (blind_require _ _).bind fun _ ↦
      mirrors_setState frame { s with counters := _ }
  | subscribe step | unsubscribe step =>
    refine blind_pop.bind fun v ↦ ?_
    cases v with
    | cell c => exact (blind_binding frame).bind fun i ↦ blind_lift (Run.blind_modifyCell c _)
    | _ => exact .pure _
  | publish =>
    exact blind_pop.bind fun v ↦ blind_state fun s ↦
      blind_lift ((blind_host hu fuel).writeCell s.result v)
  | lockAcquire =>
    exact blind_state fun s ↦ (blind_lift (Run.blind_modifyCell s.result _)).bind fun _ ↦
      blind_setLocks (· + 1)
  | lockRelease =>
    exact blind_state fun s ↦ (blind_setLocks LockDepth.pred).bind fun _ ↦
      blind_lift (blind_unlockCell hu fuel s.result)
  | fault message => exact blind_fail _

theorem blind_execute (frame : Frame) (R : Routine) (n : Nat) :
    Blind (execute r update fuel frame R n) := by
  induction n with
  | zero => exact .throw _
  | succ n ih =>
    refine blind_get (fun m ↦ ?_) fun _ ↦ rfl
    split
    · exact .pure _
    · exact .pure _
    · exact (blind_goto _).bind fun _ ↦ (blind_step hu fuel frame R _).bind fun _ ↦ ih

end

end Exec

section

variable {r : Registry} {update : Updater} (hu : ∀ j k, Run.Blind (update j k)) (fuel : Nat)
include hu

theorem blind_runRoutine (frame : Frame) (R : Routine) :
    Run.Blind (runRoutine r update fuel frame R) := by
  intro w
  have hx := Exec.blind_execute (r := r) hu fuel frame R fuel { world := w }
  unfold runRoutine
  rw [show ({ world := w.byMask } : Machine) = ({ world := w } : Machine).byMask from rfl, hx]
  rcases Exec.execute r update fuel frame R fuel { world := w } with ⟨e | v, m⟩
  · have hrel := Run.blind_holding m.stack (blind_releaseHeld (r := r) hu fuel frame m.locks)
    exact (hrel.bind fun _ ↦ .throw e) m.world
  · rfl

end

section

variable (r : Registry) (update : Updater) (fuel : Nat) (frame : Frame)

theorem Routine.target_byMask (R : Routine) (l : Label) : R.byMask.target l = R.target l := by
  simp [target, byMask]

/-- A flag of the first word is tested and assigned the same by its number and by its mask. -/
theorem Exec.step_byMask (R : Routine) (op : Op) :
    step r update fuel frame R.byMask op.byMask = step r update fuel frame R op := by
  have hword {bit : Nat} (h : bit < FlagLayout.wordSize) : bit / FlagLayout.wordSize = 0 :=
    Nat.div_eq_of_lt h
  cases op with
  | bitTest bit | bitAssign bit =>
    simp only [Op.byMask]
    split
    · next h => simp only [step, hword h]
    · rfl
  | jump | jumpIfFalse | jumpIfTrue | jumpIfNull | jumpIfNonNull | jumpIfSame | jumpIfZero
  | tableSwitch => simp only [Op.byMask, step, jumpIf, Routine.target_byMask]
  | _ => rfl

theorem Exec.execute_byMask (R : Routine) (n : Nat) :
    execute r update fuel frame R.byMask n = execute r update fuel frame R n := by
  induction n with
  | zero => rfl
  | succ n ih =>
    unfold execute
    apply bind_congr
    intro m
    have hop : R.byMask.ops[m.pc]? = R.ops[m.pc]?.map Op.byMask := Array.getElem?_map
    rw [hop, ih]
    cases hm : R.ops[m.pc]? with
    | none => rfl
    | some op =>
      have hstep := step_byMask r update fuel frame R op
      by_cases hr : op = .return
      · subst hr
        rfl
      have hr' : op.byMask ≠ .return := by
        cases op with
        | «return» => exact absurd rfl hr
        | bitTest bit | bitAssign bit =>
          simp only [Op.byMask]
          split <;> simp
        | _ => simp [Op.byMask]
      simp only [Option.map_some, hstep]

theorem runRoutine_byMask (R : Routine) :
    runRoutine r update fuel frame R.byMask = runRoutine r update fuel frame R := by
  unfold runRoutine
  rw [Exec.execute_byMask]

end

section

variable (r : Registry)

theorem blind_drainQueue {runStep : Nat → Run Unit} (i : InstanceId)
    (h : ∀ k, Run.Blind (runStep k)) (n : Nat) : Run.Blind (drainQueue runStep i n) := by
  induction n with
  | zero => exact .throw _
  | succ n ih =>
    refine Mirrors.bind (Run.blind_view fun w ↦ ?_) fun queued ↦
      Mirrors.bind (Run.blind_change fun w ↦ ?_) fun _ ↦ ?_
    · rw [World.instance?_byMask, Option.map_map]
      rfl
    · exact w.modifyInstance_byMask i fun _ ↦ rfl
    · rcases queued with _ | ⟨k, _ | ⟨l, rest⟩⟩
      · exact .pure _
      · exact (h k).bind fun _ ↦ ih
      · exact (h 0).bind fun _ ↦ ih

/-- An update does the same whichever way flags are addressed. -/
theorem blind_updateInstance (fuel : Nat) (j : InstanceId) (k : Nat) :
    Run.Blind (updateInstance r fuel j k) := by
  induction fuel generalizing j k with
  | zero => exact .throw _
  | succ fuel ih =>
    rw [updateInstance_succ]
    unfold updateBy
    apply Run.mirrors_instance
    · exact .pure _
    intro s
    simp only [show s.byMask.artifact.update = s.artifact.update.byMask from rfl, runRoutine_byMask,
      show s.byMask.result = s.result from rfl]
    refine (Run.blind_view fun _ ↦ rfl).bind fun locked ↦ ?_
    split
    · exact Run.blind_change fun w ↦ w.modifyInstance_byMask j fun _ ↦ rfl
    · have hstep (k : Nat) := (blind_runRoutine (r := r) ih fuel { binding := some j, step := k }
        s.artifact.update).bind fun _ ↦ Mirrors.pure ()
      exact (hstep k).bind fun _ ↦ blind_drainQueue j hstep fuel

variable (fuel : Nat)

theorem blind_runInit (i : InstanceId) (artifact : Artifact) :
    Mirrors World.byMask (runInit r fuel i artifact) (runInit r fuel i artifact.byMask) := by
  have hu := blind_updateInstance r fuel
  unfold runInit
  refine (Run.blind_view fun _ ↦ rfl).bind fun locals ↦ ?_
  rw [show artifact.byMask.init = artifact.init.byMask from rfl, runRoutine_byMask]
  exact (blind_runRoutine hu fuel _ _).bind fun _ ↦ hu i 0

theorem World.addInstance_byMask (w : World) (artifact : Artifact) :
    (w.addInstance artifact).byMask = w.byMask.addInstance artifact.byMask := by
  have hnew (c : CellId) : (Instance.new artifact c).byMask = .new artifact.byMask c := rfl
  simp only [byMask, addInstance, Array.map_push, hnew]
  rfl

/-- A binding is made the same whichever way flags are addressed. -/
theorem blind_createInstance (artifact : Artifact) :
    Mirrors World.byMask (createInstance r fuel artifact) (createInstance r fuel artifact.byMask) := by
  intro w
  have hsize : w.byMask.instances.size = w.instances.size := Array.size_map
  rw [createInstance_eq, createInstance_eq, hsize, ← World.addInstance_byMask,
    blind_runInit r fuel _ artifact _]
  rcases runInit r fuel ⟨w.instances.size⟩ artifact (w.addInstance artifact) with ⟨e | u, w'⟩
  · have hdrop := w'.modifyInstance_byMask ⟨w.instances.size⟩
      (f := ({ · with alive := false })) (g := ({ · with alive := false })) fun _ ↦ rfl
    exact congrArg (Prod.mk _) hdrop.symm
  · rfl

end

end LiveBinding
