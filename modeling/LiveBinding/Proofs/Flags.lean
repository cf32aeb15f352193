import LiveBinding.Proofs.Layouts

namespace LiveBinding

open Exec Fragment

theorem Exec.Does.step_eq {r : Registry} {update : Updater} {fuel : Nat} {frame : Frame} {op : Op}
    {m m' : Machine} (h : Does r update fuel frame op m m') (hop : op.isStraight) (R : Routine) :
    step r update fuel frame R op m = (.ok (), m') := by
  rw [step_routine r update fuel frame hop R default]
  have hresult : (step r update fuel frame default op m).1 = .ok () := congrArg Outcome.result h
  have hmachine : (step r update fuel frame default op m).2 = m' := congrArg Outcome.machine h
  exact Prod.ext hresult hmachine

/-- The flags of a binding that were assigned since it was made, the latest first. In between
anything may happen that leaves its words of flags as they are. -/
inductive FlagLog (artifact : Artifact) (i : InstanceId) : List (Nat × Bool) → World → Prop
  | made {w : World} {s : Instance} (hs : w.instance? i = some s) (hcode : s.artifact = artifact)
      (hflags : s.flags = .replicate artifact.flags.storage 0) : FlagLog artifact i [] w
  | assigned {r : Registry} {update : Updater} {fuel : Nat} {frame : Frame} {R : Routine}
      {log : List (Nat × Bool)} {m m' : Machine} {flag : Nat} {value : Bool}
      (h : FlagLog artifact i log m.world) (hb : frame.binding = some i)
      (hflag : flag < artifact.flags.bits)
      (hstep : step r update fuel frame R (artifact.flags.assign flag value) m = (.ok (), m')) :
      FlagLog artifact i ((flag, value) :: log) m'.world
  | other {log : List (Nat × Bool)} {w w' : World} (h : FlagLog artifact i log w)
      (hkept : (w'.instance? i).map (fun s ↦ (s.artifact, s.flags)) =
        (w.instance? i).map fun s ↦ (s.artifact, s.flags)) : FlagLog artifact i log w'

/-- The layout of an artifact was chosen for the number of its flags. -/
def Artifact.FlagsChosen (artifact : Artifact) : Prop :=
  ∃ bits capacity, artifact.flags = .choose bits capacity

theorem Artifact.FlagsChosen.wordOf_lt {artifact : Artifact} (h : artifact.FlagsChosen) {flag : Nat}
    (hflag : flag < artifact.flags.bits) : artifact.flags.wordOf flag < artifact.flags.storage := by
  obtain ⟨bits, capacity, h⟩ := h
  rw [h, FlagLayout.bits_choose] at hflag
  rw [h]
  exact FlagLayout.wordOf_lt hflag

/-- The storage of a binding holds what a log says. -/
structure Instance.Logged (artifact : Artifact) (log : List (Nat × Bool)) (s : Instance) : Prop where
  code : s.artifact = artifact
  size : s.flags.size = artifact.flags.storage
  last : ∀ flag < artifact.flags.bits,
    artifact.flags.isSet s.flags flag = (log.lookup flag).getD false

theorem Instance.Logged.new {artifact : Artifact} {s : Instance} (hcode : s.artifact = artifact)
    (hflags : s.flags = .replicate artifact.flags.storage 0) : s.Logged artifact [] where
  code := hcode
  size := by rw [hflags, Array.size_replicate]
  last flag _ := by
    simp only [FlagLayout.isSet, hflags, Array.getD_eq_getD_getElem?, Array.getElem?_replicate]
    split <;> simp

/-- Assigning a flag is the last assignment of that flag, and of no other. -/
theorem Instance.Logged.assigned {artifact : Artifact} {log : List (Nat × Bool)} {s : Instance}
    (h : s.Logged artifact log) (hchosen : artifact.FlagsChosen) {flag : Nat}
    (hflag : flag < artifact.flags.bits) (value : Bool) :
    Instance.Logged artifact ((flag, value) :: log)
      { s with flags := artifact.flags.assigned s.flags flag value } where
  code := h.code
  size := (artifact.flags.size_assigned _ _ _).trans h.size
  last other hother := by
    by_cases he : other = flag
    · subst he
      rw [List.lookup_cons_self]
      exact FlagLayout.isSet_assigned_self (h.size ▸ hchosen.wordOf_lt hflag) value
    · have hne : (other == flag) = false := beq_false_of_ne he
      rw [List.lookup_cons, hne, ← h.last other hother]
      obtain ⟨bits, capacity, hl⟩ := hchosen
      rw [hl, FlagLayout.bits_choose] at hflag hother
      rw [hl]
      exact FlagLayout.isSet_assigned_of_ne hflag hother (Ne.symm he) value

namespace FlagLog

variable {artifact : Artifact} {i : InstanceId} {log : List (Nat × Bool)}
variable {r : Registry} {update : Updater} {fuel : Nat} {frame : Frame} {m : Machine} {flag : Nat}

theorem logged (hchosen : artifact.FlagsChosen) {w : World} (h : FlagLog artifact i log w) :
    ∃ s, w.instance? i = some s ∧ s.Logged artifact log := by
  induction h with
  | made hs hcode hflags => exact ⟨_, hs, .new hcode hflags⟩
  | @assigned r update fuel frame R log m m' flag value h hb hflag hstep ih =>
    obtain ⟨s, hs, hlog⟩ := ih
    have hdoes := (does_assign value hb hs (hlog.size ▸ hchosen.wordOf_lt hflag) :
      Does r update fuel frame (artifact.flags.assign flag value) m _)
    rw [hdoes.step_eq (isStraight_assign _ _ _) R] at hstep
    obtain rfl : _ = m' := congrArg Prod.snd hstep
    exact ⟨_, World.instance?_put hs, hlog.assigned hchosen hflag value⟩
  | @other log w w' h hkept ih =>
    obtain ⟨s, hs, hlog⟩ := ih
    rw [hs] at hkept
    obtain ⟨t, ht, he⟩ := Option.map_eq_some_iff.mp hkept
    obtain ⟨hcode, hflags⟩ := Prod.mk.inj he
    exact ⟨t, ht, hcode.trans hlog.code, hflags ▸ hlog.size, hflags ▸ hlog.last⟩

/-- A test gives the value that was assigned to the flag last, or false before that. -/
theorem step_test (hchosen : artifact.FlagsChosen) (h : FlagLog artifact i log m.world)
    (hb : frame.binding = some i) (hflag : flag < artifact.flags.bits) (R : Routine) :
    step r update fuel frame R (artifact.flags.test flag) m =
      (.ok (), { m with stack := .bool ((log.lookup flag).getD false) :: m.stack }) := by
  obtain ⟨s, hs, hlog⟩ := h.logged hchosen
  have hdoes := (does_test hb hs (hlog.size ▸ hchosen.wordOf_lt hflag) :
    Does r update fuel frame (artifact.flags.test flag) m _)
  rw [hdoes.step_eq (isStraight_test _ _) R, hlog.last flag hflag]

/-- An assignment never fails, and it changes nothing but the log. -/
theorem step_assign (hchosen : artifact.FlagsChosen) (h : FlagLog artifact i log m.world)
    (hb : frame.binding = some i) (hflag : flag < artifact.flags.bits) (value : Bool) (R : Routine) :
    ∃ m', step r update fuel frame R (artifact.flags.assign flag value) m = (.ok (), m') ∧
      m'.stack = m.stack ∧ FlagLog artifact i ((flag, value) :: log) m'.world := by
  obtain ⟨s, hs, hlog⟩ := h.logged hchosen
  have hdoes := (does_assign value hb hs (hlog.size ▸ hchosen.wordOf_lt hflag) :
    Does r update fuel frame (artifact.flags.assign flag value) m _)
  have hstep := hdoes.step_eq (isStraight_assign _ _ _) R
  exact ⟨_, hstep, rfl, .assigned h hb hflag hstep⟩

end FlagLog

/-- An instruction of a binding tests or assigns one of its flags, or it has to do with none. -/
def Artifact.Flagged (artifact : Artifact) (op : Op) : Prop :=
  op.flagWord? = none ∨ ∃ flag < artifact.flags.bits,
    op = artifact.flags.test flag ∨ ∃ value, op = artifact.flags.assign flag value

/-- The code of an artifact tests and assigns only flags of the artifact. -/
structure Artifact.OwnFlags (artifact : Artifact) : Prop where
  chosen : artifact.FlagsChosen
  init : ∀ op ∈ artifact.init.ops, op.flagWord? = none
  update : ∀ op ∈ artifact.update.ops, artifact.Flagged op

/-- A condition on the bindings alone is not broken by host code. -/
theorem HostStable.ofInstances {I : World → Prop}
    (h : ∀ w w' : World, w'.instances = w.instances → I w → I w') : HostStable I where
  ofEq w w' _ _ hi := h w w' hi
  setPlain _ _ _ w := h w _ rfl
  newObject cls label slots w := h w _ (w.addSlots_keeps { cls, label } slots).1
  store _ _ w := h w _ rfl
  postpone _ w := h w _ rfl

namespace FlagLog

/-- A log was continued. -/
def Extends (artifact : Artifact) (i : InstanceId) (log : List (Nat × Bool)) (w : World) : Prop :=
  ∃ later, FlagLog artifact i (later ++ log) w

variable {artifact : Artifact} {i : InstanceId} {log : List (Nat × Bool)}

theorem Extends.other {w w' : World} (h : Extends artifact i log w)
    (hkept : (w'.instance? i).map (fun s ↦ (s.artifact, s.flags)) =
      (w.instance? i).map fun s ↦ (s.artifact, s.flags)) : Extends artifact i log w' := by
  obtain ⟨later, h⟩ := h
  exact ⟨later, h.other hkept⟩

theorem Extends.ofInstances {w w' : World} (h : Extends artifact i log w)
    (hi : w'.instances = w.instances) : Extends artifact i log w' :=
  h.other (by simp only [World.instance?, hi])

theorem hostStable : HostStable (Extends artifact i log) :=
  .ofInstances fun _ _ hi hw ↦ Extends.ofInstances hw hi

theorem Extends.modifyInstance {w : World} (h : Extends artifact i log w) (j : InstanceId)
    {f : Instance → Instance}
    (hf : j = i → ∀ s, w.instance? i = some s → (f s).artifact = s.artifact ∧ (f s).flags = s.flags) :
    Extends artifact i log (w.modifyInstance j f) := by
  apply h.other
  rw [World.instance?_modifyInstance]
  cases hs : w.instance? i with
  | none => split <;> rfl
  | some s =>
    by_cases hj : j = i
    · obtain ⟨hcode, hflags⟩ := hf hj s hs
      simp [hj, hcode, hflags]
    · simp [hj]

variable {r : Registry} {update : Updater} {fuel : Nat} {frame : Frame}

section

variable (hu : ∀ j k, Keeps (Extends artifact i log) (update j k))
include hu

theorem keeps_unlockCell (c : CellId) :
    Keeps (Extends artifact i log) (unlockCell r update fuel c) :=
  hostStable.ensures_unlockCell hu fuel (fun _ _ ↦ id) fun _ _ _ _ _ _ hw ↦
    hw.ofInstances rfl

theorem keeps_releaseHeld (frame : Frame) (locks : LockDepth) :
    Keeps (Extends artifact i log) (releaseHeld r update fuel frame locks) := by
  unfold releaseHeld
  cases frame.binding with
  | none => exact .pure fun _ hw ↦ hw
  | some j =>
    refine (Run.keeps_view _).bind fun found ↦ ?_
    cases found with
    | none => exact .pure fun _ hw ↦ hw
    | some s =>
      exact ensures_releaseLocks (I := fun _ ↦ Extends artifact i log)
        (fun _ ↦ keeps_unlockCell hu s.result) _ 0

/-- Instructions that test or assign flags of the binding continue its log, and other instructions
leave it as it is. -/
theorem keeps_step (hchosen : artifact.FlagsChosen) {op : Op}
    (hop : frame.binding = some i → artifact.Flagged op) (R : Routine) :
    Keeps (fun m ↦ Extends artifact i log m.world) (step r update fuel frame R op) := by
  have hC := closed_keeps fun _ ↦ Extends artifact i log
  by_cases hlock : op.isLock
  · cases op with
    | lockAcquire =>
      refine (hC.state frame).bind fun s ↦
        Ensures.bind (Q := fun _ (m : Machine) ↦ Extends artifact i log m.world) ?_ fun _ _ hm ↦ hm
      exact keeps_lift (fun _ ↦ hostStable) fun _ ↦ Run.keeps_change fun w hw ↦ hw.ofInstances rfl
    | lockRelease =>
      refine (hC.state frame).bind fun s ↦
        Ensures.bind (Q := fun _ (m : Machine) ↦ Extends artifact i log m.world) ?_ fun _ ↦ ?_
      · exact fun _ hm ↦ hm
      · exact keeps_lift (fun _ ↦ hostStable) fun _ ↦ keeps_unlockCell hu s.result
    | _ => cases hlock
  by_cases hnone : frame.binding = some i → op.flagWord? = none
  · refine keeps_step_of (I := fun _ ↦ Extends artifact i log) (fun _ ↦ hostStable)
      (fun _ ↦ hu) ?_ ?_ hlock R
    · intro _ w j s t hj hs hst hw
      apply hw.modifyInstance j
      rintro rfl s' hs'
      obtain rfl : s = s' := Option.some.inj (hs.symm.trans hs')
      exact ⟨hst.code, hst.words (hnone hj)⟩
    · intro _ _ w j k c _ hw
      exact ⟨hw.ofInstances rfl, hw.ofInstances rfl⟩
  · obtain ⟨hb, hword⟩ := Classical.not_imp.mp hnone
    obtain ⟨flag, hflag, rfl | ⟨value, rfl⟩⟩ := (hop hb).resolve_left hword
    · refine hC.step r update fuel frame ?_ R
      cases artifact.flags <;> rfl
    · rintro m ⟨later, hm⟩
      obtain ⟨m', hstep, -, hm'⟩ :=
        @step_assign _ _ _ r update fuel frame m flag hchosen hm hb hflag value R
      rw [hstep]
      exact ⟨(flag, value) :: later, hm'⟩

theorem keeps_runRoutine (hchosen : artifact.FlagsChosen) {R : Routine}
    (hR : frame.binding = some i → ∀ op ∈ R.ops, artifact.Flagged op) :
    Keeps (Extends artifact i log) (runRoutine r update fuel frame R) := by
  have hexecute : Keeps (fun m ↦ Extends artifact i log m.world)
      (execute r update fuel frame R fuel) :=
    ensures_execute (I := fun _ ↦ Extends artifact i log)
      (fun op hop ↦ keeps_step hu hchosen (fun hb ↦ hR hb op hop) R) fuel
  exact ensures_runRoutine (hexecute.pre fun _ hm ↦ hm.1) fun e stack locks ↦
    (hostStable.holding stack (keeps_releaseHeld hu frame locks)).anyError

end

theorem keeps_updateInstance (h : artifact.OwnFlags) (r : Registry) (fuel : Nat) (j : InstanceId)
    (k : Nat) : Keeps (Extends artifact i log) (updateInstance r fuel j k) := by
  induction fuel generalizing j k with
  | zero => exact .exhausted
  | succ fuel ih =>
    rw [updateInstance_succ]
    refine ensures_updateBy (fun w _ hw ↦ hw.modifyInstance j fun _ _ _ ↦ ⟨rfl, rfl⟩)
      (fun w s hw hs _ k ↦ keeps_runRoutine ih h.chosen fun hb ↦ ?_) k
    obtain ⟨later, hlog⟩ := hw
    obtain ⟨t, ht, hlogged⟩ := hlog.logged h.chosen
    obtain rfl : j = i := Option.some.inj hb
    obtain rfl : s = t := Option.some.inj (hs.symm.trans ht)
    rw [hlogged.code]
    exact h.update

theorem keeps_runInit (h : artifact.OwnFlags) (r : Registry) (fuel : Nat) {j : InstanceId}
    {other : Artifact} (hj : j = i → ∀ op ∈ other.init.ops, op.flagWord? = none) :
    Keeps (Extends artifact i log) (runInit r fuel j other) := by
  have hu := @keeps_updateInstance artifact i log h r fuel
  refine (Run.keeps_view _).bind fun locals ↦ ?_
  exact (keeps_runRoutine hu h.chosen fun hb op hop ↦ .inl (hj (Option.some.inj hb) op hop)).bind
    fun _ ↦ hu j 0

/-- The log of a new binding starts when it is made. -/
theorem create (h : artifact.OwnFlags) (r : Registry) (fuel : Nat) {w : World}
    (hne : (createInstance r fuel artifact w).1 ≠ .error .exhausted) :
    ∃ log, FlagLog artifact ⟨w.instances.size⟩ log (createInstance r fuel artifact w).2 := by
  have hstart : FlagLog artifact ⟨w.instances.size⟩ [] (w.addInstance artifact) :=
    .made (s := .new artifact (w.newCell .null).1) (by simp [World.instance?, World.addInstance]) rfl rfl
  have hend := @keeps_runInit artifact ⟨w.instances.size⟩ [] h r fuel ⟨w.instances.size⟩ artifact
    (fun _ ↦ h.init) _ ⟨[], hstart⟩
  rw [createInstance_eq] at hne ⊢
  rcases hx : runInit r fuel ⟨w.instances.size⟩ artifact (w.addInstance artifact) with
    ⟨(e | -) | a, w'⟩ <;> rw [hx] at hend
  · obtain ⟨log, hlog⟩ := hend.modifyInstance ⟨w.instances.size⟩
      (f := ({ · with alive := false })) fun _ _ _ ↦ ⟨rfl, rfl⟩
    exact ⟨_, hlog⟩
  · rw [hx] at hne
    exact absurd rfl hne
  · obtain ⟨log, hlog⟩ := hend
    exact ⟨_, hlog⟩

theorem keeps_createOther (h : artifact.OwnFlags) (r : Registry) (fuel : Nat) (other : Artifact) :
    Keeps (Extends artifact i log) (createInstance r fuel other) := by
  rintro w ⟨later, hlog⟩
  obtain ⟨s, hs, -⟩ := hlog.logged h.chosen
  obtain ⟨hi, -⟩ := Array.getElem?_eq_some_iff.mp hs
  have hne : (⟨w.instances.size⟩ : InstanceId) ≠ i := fun he ↦
    absurd (congrArg InstanceId.index he) (Nat.ne_of_gt hi)
  have hadd : Extends artifact i log (w.addInstance other) := by
    refine Extends.other ⟨later, hlog⟩ ?_
    simp only [World.instance?, World.addInstance, Array.getElem?_push_lt hi,
      Array.getElem?_eq_getElem hi]
  have hend := @keeps_runInit artifact i log h r fuel ⟨w.instances.size⟩ other
    (fun he ↦ absurd he hne) _ hadd
  rw [createInstance_eq]
  rcases hx : runInit r fuel ⟨w.instances.size⟩ other (w.addInstance other) with ⟨(e | -) | a, w'⟩ <;>
    rw [hx] at hend
  · exact hend.modifyInstance _ fun _ _ _ ↦ ⟨rfl, rfl⟩
  · trivial
  · exact hend

/-- Whatever is done with the binding and with others, its log is only continued. -/
theorem keeps_call (h : artifact.OwnFlags) (r : Registry) (fuel : Nat) (other : Artifact)
    (call : HostCall) : Keeps (Extends artifact i log) (call.run r fuel other) := by
  have hu := @keeps_updateInstance artifact i log h r fuel
  have hnone {x : Run Unit} (hx : Keeps (Extends artifact i log) x) :
      Keeps (Extends artifact i log) (do x; return (none : Option InstanceId)) :=
    hx.bind fun _ ↦ .pure fun _ hw ↦ hw
  cases call with
  | create => exact (keeps_createOther h r fuel other).bind fun _ ↦ .pure fun _ hw ↦ hw
  | set o property v => exact hnone ((hostStable.host hu fuel).writeProperty o property v)
  | assign c v => exact hnone ((hostStable.host hu fuel).writeCell c v)
  | update j k => exact hnone (hu j k)
  | lock c => exact hnone (Run.keeps_change fun w hw ↦ hw.ofInstances rfl)
  | release c => exact hnone (keeps_unlockCell hu c)

end FlagLog

theorem Op.flagWord?_of_isGlue {op : Op} (h : op.isGlue) : op.flagWord? = none := by
  cases op <;> first | rfl | cases h

theorem Op.flagWord?_of_isOrdinary {op : Op} (h : op.isOrdinary) : op.flagWord? = none := by
  cases op <;> first | rfl | cases h

theorem Fragment.isOrdinary_of_mem_given {f : Fragment} (h : f.isOrdinary) {op : Op}
    (hop : op ∈ f.given) : op.isOrdinary := by
  induction f with
  | ops list => exact List.all_eq_true.mp h op hop
  | append f g ih ih' | nullGuard f g ih ih' | shortCircuit _ f g ih ih' | branch _ f g _ _ _ ih ih' =>
    obtain ⟨hf, hg⟩ := Bool.and_eq_true_iff.mp h
    exact (List.mem_append.mp hop).elim (ih hf) (ih' hg)
  | flagTest | flagAssign | observe => cases hop

namespace Container

open Assembler

variable {P : Op → Prop} {layout : FlagLayout} (fault : Label) (tables : List Label)

theorem adds_entryLabels {a b : Assembler} (h : Adds P a b) (entries : List Entry) :
    Adds P a (entryLabels fault tables b entries).2 := by
  rw [Adds, ops_entryLabels]
  exact h

theorem adds_emitTable (hP : ∀ op : Op, op.flagWord? = none → P op) {c : Container}
    (hc : ∀ flag, c.flag = some flag → P (layout.test flag)) {a b : Assembler} (h : Adds P a b) :
    Adds P a (emitTable layout fault tables b c) := by
  have htable {b : Assembler} (h : Adds P a b) :=
    ((adds_entryLabels fault tables h c.entries).emit (hP .loadStep rfl)).emit
      (hP (.tableSwitch c.offset (entryLabels fault tables b c.entries).1 fault) rfl)
  unfold emitTable
  cases hflag : c.flag with
  | none => exact htable h
  | some flag =>
    have htest := ((h.place (tables.getD (c.index - 1) fault)).emit (hc flag hflag)).keyedLabel .exit
    exact htable (htest.emit (hP (.jumpIfFalse _) rfl))

theorem adds_emitDispatch (root : Container) (hP : ∀ op : Op, op.flagWord? = none → P op)
    (hroot : ∀ c ∈ root.all, ∀ flag, c.flag = some flag → P (layout.test flag)) {a b : Assembler}
    (h : Adds P a b) : Adds P a (root.emitDispatch layout b) := by
  have htables {cs : List Container} {b : Assembler} {fault : Label} {tables : List Label}
      (hcs : ∀ c ∈ cs, ∀ flag, c.flag = some flag → P (layout.test flag)) (h : Adds P a b) :
      Adds P a (cs.foldl (emitTable layout fault tables) b) := by
    induction cs generalizing b with
    | nil => exact h
    | cons c cs ih =>
      obtain ⟨hc, hcs⟩ := List.forall_mem_cons.mp hcs
      exact ih hcs (adds_emitTable _ _ hP hc h)
  have hlabels {b : Assembler} (h : Adds P a b) (n : Nat) : Adds P a (newLabels b n).2 :=
    h.ofEq (ops_newLabels n b)
  exact ((htables hroot (hlabels h.newLabel _)).place _).emit (hP _ rfl)

end Container

namespace CompileContext

open Assembler

variable {cx : CompileContext} {tree : Tree}

/-- A compiled tree tests and assigns only flags that were handed out to it, if what it loads does
not address flags. -/
theorem ownFlags {target : Option BindingTarget} {b : DynamicBinding}
    (h : cx.compileArtifact tree target = .ok b) (hroot : ∀ c ∈ tree.root.coercions, c.isPlain)
    (hflags : (tree.root.render .resumable .start).2.storage.init.flags = [])
    (hgiven : ∀ op ∈ (tree.root.render .resumable .start).2.storage.init.given, op.flagWord? = none) :
    b.artifact.OwnFlags := by
  let t := (tree.root.render .resumable .start).2
  obtain ⟨coercion, -, -, hc⟩ := compileArtifact_eq h hroot
  obtain ⟨capacity, hchosen⟩ := hc.chosen
  have hlayout : b.artifact.flags = .choose t.storage.flags capacity := hc.flags.trans hchosen
  have hflagged {flag : Nat} (hlt : flag < t.storage.flags) {op : Op}
      (hop : op = b.artifact.flags.test flag ∨ ∃ value, op = b.artifact.flags.assign flag value) :
      b.artifact.Flagged op := by
    refine .inr ⟨flag, ?_, hop⟩
    rwa [hlayout, FlagLayout.bits_choose]
  have hnone {op : Op} (hop : op.flagWord? = none) : b.artifact.Flagged op := .inl hop
  have hemits {f : Fragment} (hordinary : f.isOrdinary) (hlt : ∀ flag ∈ f.flags, flag < t.storage.flags)
      (op : Op) (he : f.Emits (some b.artifact.flags) op) : b.artifact.Flagged op := by
    obtain hop | hop | ⟨flag, hflag, hop⟩ := he.cases
    · exact hnone (Op.flagWord?_of_isOrdinary (isOrdinary_of_mem_given hordinary hop))
    · exact hnone (Op.flagWord?_of_isGlue hop)
    · exact hflagged (hlt flag hflag) hop
  have hl := hc.flags
  refine ⟨⟨_, _, hlayout⟩, ?_, ?_⟩
  · intro op hop
    have hinit := hc.init.routine_eq
    rw [← hl] at hinit
    rw [hinit] at hop
    have hnames {o : Op} (he : t.storage.init.Emits (some b.artifact.flags) o) : o.flagWord? = none := by
      obtain ho | ho | ⟨flag, hflag, -⟩ := he.cases
      · exact hgiven o ho
      · exact Op.flagWord?_of_isGlue ho
      · exact absurd (hflags ▸ hflag) List.not_mem_nil
    have hadds := ((adds_emit (some b.artifact.flags) t.storage.init .empty).mono
      fun _ ↦ hnames).emit (rfl : Op.return.flagWord? = none)
    exact (hadds op hop).resolve_left (by simp [Assembler.empty])
  · intro op hop
    have hupdate := hc.update.routine_eq
    rw [← hl] at hupdate
    rw [hupdate] at hop
    have hlock := (Adds.refl (P := b.artifact.Flagged) Assembler.empty).emit
      (hnone (rfl : Op.lockAcquire.flagWord? = none))
    have hdispatch := Container.adds_emitDispatch t.root (fun _ ↦ hnone)
      (fun c hmem flag hflag ↦
        hflagged (tree.root.containerFlag_lt hroot hmem hflag) (.inl rfl)) hlock
    have hbody := (hdispatch.placeKey (.step 0)).trans ((adds_emit (some b.artifact.flags) _ _).mono
      (hemits hc.renders.ordinary fun flag hflag ↦ tree.root.flag_lt hroot hflag))
    have hcoercion := hbody.trans ((adds_emit (some b.artifact.flags) coercion _).mono
      (hemits (Layout.plain .start hc.plain).ordinary
        (by simp [flags_of_isPlain hc.plain])))
    have hend := ((((hcoercion.emit (hnone (rfl : Op.publish.flagWord? = none))).placeKey .exit).emit
      (hnone (rfl : Op.lockRelease.flagWord? = none))).emit (hnone (rfl : Op.return.flagWord? = none)))
    exact (hend op hop).resolve_left (by simp [Assembler.empty])

end CompileContext

/-- The flags of an artifact have places of their own in what every binding of it allocates, and each
keeps what was assigned to it last. -/
structure Artifact.KeepsFlags (artifact : Artifact) : Prop where
  allocated : ∀ op word, op ∈ artifact.init.ops ∨ op ∈ artifact.update.ops →
    op.flagWord? = some word → word < artifact.flags.storage
  create : ∀ (r : Registry) (fuel : Nat) (w : World),
    (createInstance r fuel artifact w).1 ≠ .error .exhausted →
      ∃ log, FlagLog artifact ⟨w.instances.size⟩ log (createInstance r fuel artifact w).2
  size : ∀ (i : InstanceId) (log : List (Nat × Bool)) (w : World), FlagLog artifact i log w →
    ∃ s, w.instance? i = some s ∧ s.flags.size = artifact.flags.storage
  call : ∀ (i : InstanceId) (log : List (Nat × Bool)) (w : World), FlagLog artifact i log w →
    ∀ (r : Registry) (fuel : Nat) (other : Artifact) (call : HostCall),
      (call.run r fuel other w).1 ≠ .error .exhausted →
        ∃ later, FlagLog artifact i (later ++ log) (call.run r fuel other w).2
  test : ∀ (r : Registry) (update : Updater) (fuel : Nat) (frame : Frame) (R : Routine) (i : InstanceId)
    (log : List (Nat × Bool)) (m : Machine) (flag : Nat), frame.binding = some i →
      FlagLog artifact i log m.world → flag < artifact.flags.bits →
        step r update fuel frame R (artifact.flags.test flag) m =
          (.ok (), { m with stack := .bool ((log.lookup flag).getD false) :: m.stack })
  assign : ∀ (r : Registry) (update : Updater) (fuel : Nat) (frame : Frame) (R : Routine)
    (i : InstanceId) (log : List (Nat × Bool)) (m : Machine) (flag : Nat) (value : Bool),
      frame.binding = some i → FlagLog artifact i log m.world → flag < artifact.flags.bits →
        ∃ m', step r update fuel frame R (artifact.flags.assign flag value) m = (.ok (), m') ∧
          m'.stack = m.stack ∧ FlagLog artifact i ((flag, value) :: log) m'.world
  apart : ∀ (r : Registry) (update : Updater) (fuel : Nat) (frame : Frame) (R : Routine)
    (i : InstanceId) (log : List (Nat × Bool)) (m m' : Machine) (flag other : Nat) (value b : Bool),
      frame.binding = some i → FlagLog artifact i log m.world → flag < artifact.flags.bits →
        other < artifact.flags.bits → other ≠ flag →
          step r update fuel frame R (artifact.flags.assign flag value) m = (.ok (), m') →
            (step r update fuel frame R (artifact.flags.test other) m =
                (.ok (), { m with stack := .bool b :: m.stack }) ↔
              step r update fuel frame R (artifact.flags.test other) m' =
                (.ok (), { m' with stack := .bool b :: m'.stack }))

theorem Artifact.OwnFlags.keepsFlags {artifact : Artifact} (h : artifact.OwnFlags) :
    artifact.KeepsFlags where
  allocated op word hop hword := by
    have hflagged : artifact.Flagged op := hop.elim (fun hop ↦ .inl (h.init op hop)) (h.update op)
    obtain hnone | ⟨flag, hflag, hop⟩ := hflagged
    · rw [hnone] at hword
      cases hword
    · have hlt := h.chosen.wordOf_lt hflag
      obtain rfl : artifact.flags.wordOf flag = word := by
        rcases hop with rfl | ⟨value, rfl⟩ <;> cases hl : artifact.flags <;> rw [hl] at hword <;>
          exact Option.some.inj hword
      exact hlt
  create r fuel w hne := FlagLog.create h r fuel hne
  size i log w hlog := by
    obtain ⟨s, hs, hlogged⟩ := hlog.logged h.chosen
    exact ⟨s, hs, hlogged.size⟩
  call i log w hlog r fuel other call hne := (FlagLog.keeps_call h r fuel other call).apply ⟨[], hlog⟩ hne
  test r update fuel frame R i log m flag hb hlog hflag := hlog.step_test h.chosen hb hflag R
  assign r update fuel frame R i log m flag value hb hlog hflag :=
    hlog.step_assign h.chosen hb hflag value R
  apart r update fuel frame R i log m m' flag other value b hb hlog hflag hother hne hstep := by
    have hlog' : FlagLog artifact i ((flag, value) :: log) m'.world := .assigned hlog hb hflag hstep
    have hlookup : ((flag, value) :: log).lookup other = log.lookup other := by
      rw [List.lookup_cons, beq_false_of_ne hne]
    have hpushed (m : Machine) (x : Bool) :
        ((.ok (), { m with stack := .bool x :: m.stack }) : Except Stop Unit × Machine) =
          (.ok (), { m with stack := .bool b :: m.stack }) ↔ x = b := by simp
    rw [hlog.step_test h.chosen hb hother R, hlog'.step_test h.chosen hb hother R, hlookup]
    exact (hpushed m _).trans (hpushed m' _).symm

theorem composable_addressesNoFlag : Composable (∀ op ∈ ·.given, op.flagWord? = none) where
  plain f h op hop := by
    have hordinary := isOrdinary_of_mem_given (Layout.plain .start h).ordinary hop
    exact Op.flagWord?_of_isOrdinary hordinary
  append f g hf hg op hop := (List.mem_append.mp hop).elim (hf op) (hg op)
  shortCircuit op f g hf hg o hop := (List.mem_append.mp hop).elim (hf o) (hg o)

namespace CompileContext

variable {cx : CompileContext} {scope : Scope} {parsed : ParsedExpr} {tree : Tree}

/-- How the flags of a binding are packed cannot be observed. A tree compiles alike for every two
capacities, and calls on its bindings come to the same results and leave the same world but for the
artifacts. Unless what it loads addresses flags by itself, flags are kept apart. -/
theorem flags_unobservable (hbuild : cx.buildTree scope parsed = .ok tree)
    (hscope : ∀ name l, scope.lookup? name = some (.bound l) → l.load.flags = [])
    (target : Option BindingTarget) (capacity capacity' : Nat) :
    (∀ e, (cx.withCapacity capacity).compileArtifact tree target = .error e ↔
      (cx.withCapacity capacity').compileArtifact tree target = .error e) ∧
    ∀ b b', (cx.withCapacity capacity).compileArtifact tree target = .ok b →
      (cx.withCapacity capacity').compileArtifact tree target = .ok b' →
      b.ty = b'.ty ∧
      (∀ (r : Registry) (fuel : Nat) (calls : List HostCall) (w : World) (code : Artifact),
        (runCalls r fuel b.artifact calls w).1 = (runCalls r fuel b'.artifact calls w).1 ∧
          (runCalls r fuel b.artifact calls w).2.withCode code =
            (runCalls r fuel b'.artifact calls w).2.withCode code) ∧
      ((∀ name l, scope.lookup? name = some (.bound l) → ∀ op ∈ l.load.given, op.flagWord? = none) →
        b.artifact.KeepsFlags) := by
  have hresolved := (Tree.build_resolved hbuild).1
  have hroot := Node.Resolved.isPlain tree.root hresolved
  have hinit := composable_init composable_noFlags (fun _ ↦ rfl) hresolved hscope
  have halike := @compileArtifact_byMask cx tree hroot hinit target capacity capacity'
  refine ⟨error_iff_of_map_eq halike, fun b b' hb hb' ↦ ?_⟩
  rw [hb, hb'] at halike
  have hsame : b.byMask = b'.byMask := Except.ok.inj halike
  refine ⟨(congrArg DynamicBinding.ty hsame : b.byMask.ty = b'.byMask.ty),
    fun r fuel calls w code ↦ ?_, fun hgiven ↦ ?_⟩
  · have hartifact : b.artifact.byMask = b'.artifact.byMask := congrArg DynamicBinding.artifact hsame
    obtain ⟨hresults, hworld⟩ := @runCalls_byMask r fuel _ _ hartifact w w rfl calls
    exact ⟨hresults, World.withCode_eq hworld code⟩
  · refine Artifact.OwnFlags.keepsFlags (ownFlags hb hroot hinit ?_)
    exact composable_init composable_addressesNoFlag (by simp [Fragment.op, given, Op.flagWord?])
      hresolved hgiven

end CompileContext

namespace Sample

def twoConjunctions : ParsedExpr where
  source := "x.p && x.q && x.p"
  root := .binary ⟨0, 17⟩ .and conjunction.root (.field ⟨14, 17⟩ (.ident ⟨14, 15⟩ "x") "p")
  base := 0

/-- A name whose loading tests a flag of the second word. -/
def addressing : Loadable := ⟨⟨1⟩, "y", .boolean, .ops [.bitTest 64]⟩

end Sample

open Sample in
/-- Two flags, kept by their numbers if a word is to hold one flag and by their masks otherwise, while
both properties change. -/
theorem flags_unobservable_two :
    let tree := treeOf context scope twoConjunctions
    let bits := bindingOf (context.withCapacity 1) tree
    let word := bindingOf (context.withCapacity 64) tree
    let calls : List HostCall := [.create, .set ⟨0⟩ "p" (.bool true), .set ⟨0⟩ "q" (.bool false)]
    let made := createInstance registry 100 bits.artifact (world false true)
    bits.artifact.flags = .words 2 1 ∧ word.artifact.flags = .word 2 ∧
      (runCalls registry 100 bits.artifact calls (world false true)).1 =
        (runCalls registry 100 word.artifact calls (world false true)).1 ∧
      (runCalls registry 100 bits.artifact calls (world false true)).1.all Except.isOk ∧
      ∃ log, FlagLog bits.artifact ⟨0⟩ log made.2 := by
  intro tree bits word calls made
  obtain ⟨htree, hbits, hword, hlayouts, hok, hmade⟩ :
      (context.buildTree scope twoConjunctions).isOk ∧
      ((context.withCapacity 1).compileArtifact tree none).isOk ∧
      ((context.withCapacity 64).compileArtifact tree none).isOk ∧
      (bits.artifact.flags = .words 2 1 ∧ word.artifact.flags = .word 2) ∧
      (runCalls registry 100 bits.artifact calls (world false true)).1.all Except.isOk ∧
      made.1.isOk := by decide +kernel
  have htree := treeOf_eq htree
  have hload (name : String) (l : Loadable) (hl : scope.lookup? name = some (.bound l)) :
      l.load.isPlain := isPlain_load name l hl
  obtain ⟨-, hsame⟩ := CompileContext.flags_unobservable htree
    (fun name l hl ↦ flags_of_isPlain (hload name l hl)) none 1 64
  obtain ⟨-, hruns, hkeeps⟩ := hsame bits word (bindingOf_eq hbits) (bindingOf_eq hword)
  have hflags := hkeeps fun name l hl ↦ composable_addressesNoFlag.plain _ (hload name l hl)
  refine ⟨hlayouts.1, hlayouts.2, (hruns registry 100 calls _ binding.artifact).1, hok, hflags.create registry 100 (world false true) fun hx ↦ ?_⟩
  rw [hx] at hmade
  cases hmade

open Sample in
/-- Loading a name can test a flag of a word that is not there. -/
theorem load_addresses_missing_word :
    let tree := treeOf context (scope.bind addressing) lockingConjunction
    let artifact := (bindingOf context tree).artifact
    context.buildTree (scope.bind addressing) lockingConjunction = .ok tree ∧
      context.compileArtifact tree none = .ok (bindingOf context tree) ∧
      artifact.flags.storage = 1 ∧ artifact.init.ops.toList.filterMap Op.flagWord? = [1] ∧
      (createInstance registry 50 artifact (world true true)).1 =
        .error (.error (.fault "flag word out of range")) := by
  intro tree artifact
  obtain ⟨htree, hbinding, hruns⟩ : (context.buildTree (scope.bind addressing) lockingConjunction).isOk ∧
      (context.compileArtifact tree none).isOk ∧
      artifact.flags.storage = 1 ∧ artifact.init.ops.toList.filterMap Op.flagWord? = [1] ∧
      (createInstance registry 50 artifact (world true true)).1 =
        .error (.error (.fault "flag word out of range")) := by decide +kernel
  exact ⟨treeOf_eq htree, bindingOf_eq hbinding, hruns⟩

end LiveBinding
