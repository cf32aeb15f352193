import LiveBinding.Proofs.Subscription
import Mathlib.Logic.Relation

namespace LiveBinding

open Exec Fragment Assembler

namespace Fragment

theorem spares_of_isPlain {f : Fragment} (h : f.isPlain) (ps : List SavePoint) : f.Spares ps := by
  induction f with
  | ops list =>
    simp only [isPlain, List.all_eq_true] at h
    intro op hop
    have := h op hop
    left
    cases op <;> first | rfl | cases this
  | append f g ih ih' | nullGuard f g ih ih' | shortCircuit _ f g ih ih' =>
    simp only [isPlain, Bool.and_eq_true] at h
    exact ⟨ih h.1, ih' h.2⟩
  | flagTest | flagAssign | observe | branch => cases h

/-- Has no instruction that keeps count of listeners. -/
def isHarmless : Fragment → Bool
  | ops list => list.all Op.isHarmless
  | append f g | nullGuard f g | shortCircuit _ f g => f.isHarmless && g.isHarmless
  | flagTest _ | flagAssign .. => true
  | observe .. | branch .. => false

theorem isHarmless_of_isPlain {f : Fragment} (h : f.isPlain) : f.isHarmless := by
  induction f with
  | ops list =>
    refine List.all_eq_true.mpr fun op hop ↦ ?_
    have := List.all_eq_true.mp h op hop
    cases op <;> first | rfl | cases this
  | append f g ih ih' | nullGuard f g ih ih' | shortCircuit _ f g ih ih' =>
    obtain ⟨hf, hg⟩ := Bool.and_eq_true_iff.mp h
    exact Bool.and_eq_true_iff.mpr ⟨ih hf, ih' hg⟩
  | flagTest | flagAssign | observe | branch => cases h

/-- The labels that are put in do no harm either. -/
theorem adds_harmless (layout : Option FlagLayout) {f : Fragment} (h : f.isHarmless) (a : Assembler) :
    Adds (fun op ↦ op.isHarmless) a (f.emit layout a) := by
  induction f generalizing a with
  | ops list => exact (Adds.refl a).emitAll (List.all_eq_true.mp h)
  | append f g ih ih' =>
    obtain ⟨hf, hg⟩ := Bool.and_eq_true_iff.mp h
    exact (ih hf a).trans (ih' hg _)
  | nullGuard f g ih ih' =>
    obtain ⟨hf, hg⟩ := Bool.and_eq_true_iff.mp h
    have hops : ∀ op ∈ [Op.dup, .jumpIfNull a.newLabel.1], op.isHarmless := by simp [Op.isHarmless]
    have hconvert := ((Adds.refl a).newLabel.newLabel.emitAll hops).trans (ih hf _)
    have hjump := ((hconvert.emit (show (Op.jump a.newLabel.2.newLabel.1).isHarmless from rfl)).place
      a.newLabel.1).emit (show Op.pop.isHarmless from rfl)
    exact (hjump.trans (ih' hg _)).place a.newLabel.2.newLabel.1
  | shortCircuit op f g ih ih' =>
    obtain ⟨hf, hg⟩ := Bool.and_eq_true_iff.mp h
    have hops : ∀ o ∈ [.dup, skipJump op a.newLabel.1, .pop], Op.isHarmless o := by
      cases op <;> simp [skipJump, Op.isHarmless]
    have hskip := ((Adds.refl a).newLabel.trans (ih hf _)).emitAll hops
    exact (hskip.trans (ih' hg _)).place a.newLabel.1
  | flagTest flag =>
    refine (Adds.refl a).emit ?_
    cases layoutFor layout flag <;> rfl
  | flagAssign flag value =>
    refine (Adds.refl a).emit ?_
    cases layoutFor layout flag <;> rfl
  | observe | branch => cases h

end Fragment

namespace Storage

/-- Loading the captured values does not jump. -/
theorem isStraight_loads {ls : List Loadable} (h : ∀ l ∈ ls, l.load.isPlain) (n : Nat) :
    (loads n ls).isStraight := by
  induction ls generalizing n with
  | nil => rfl
  | cons l ls ih =>
    have hstraight : l.load.isStraight := (Layout.plain .start (h l List.mem_cons_self)).straight
    have hrest := ih (fun k hk ↦ h k (List.mem_cons_of_mem _ hk)) (n + 1)
    show ((l.load.isStraight && true) && (loads (n + 1) ls).isStraight) = true
    rw [hstraight, hrest]
    rfl

theorem isHarmless_loads {ls : List Loadable} (h : ∀ l ∈ ls, l.load.isHarmless) (n : Nat) :
    (loads n ls).isHarmless := by
  induction ls generalizing n with
  | nil => rfl
  | cons l ls ih =>
    have hrest := ih (fun k hk ↦ h k (List.mem_cons_of_mem _ hk)) (n + 1)
    show ((l.load.isHarmless && true) && (loads (n + 1) ls).isHarmless) = true
    rw [h l List.mem_cons_self, hrest]
    rfl

end Storage

section

variable {body coercion : Fragment} {t : Resumable} {layout : FlagLayout} {artifact : Artifact}
variable {i : InstanceId} {r : Registry} {update : Updater} {fuel : Nat} {frame : Frame}

/-- An outcome that a routine comes to stands for the run of the routine, which gives the value on
top. -/
theorem ensures_answer {R : Routine} {P : World → Prop} {Q : Option Value → LockDepth → World → Prop}
    {E : RuntimeError → LockDepth → World → Prop}
    (h : ∀ w, P w → ∃ b : Block, ∃ k,
      Finishes r update fuel frame R k { world := w } (b { world := w }) ∧
        b.Ensures (fun m ↦ P m.world ∧ m = { world := m.world })
          (fun m ↦ Q m.stack.head? m.locks m.world) (fun e m ↦ E e m.locks m.world)) (n : Nat) :
    Ensures (fun m ↦ P m.world ∧ m = { world := m.world }) (execute r update fuel frame R n)
      (fun v m ↦ Q v m.locks m.world) (fun e m ↦ E e m.locks m.world) := by
  rintro m ⟨hm, he⟩
  obtain ⟨b, k, hfin, hb⟩ := h m.world hm
  rw [← he] at hfin
  by_cases hne : (execute r update fuel frame R n m).1 = .error .exhausted
  · rcases hx : execute r update fuel frame R n m with ⟨result, m'⟩
    rw [hx] at hne
    cases hne
    trivial
  · obtain ⟨⟨p, hp⟩, -⟩ := hfin.execute_eq hne
    rw [hp]
    have hend := hb m ⟨hm, he⟩
    unfold answer
    rcases hr : (b m).result with (e | -) | u <;> rw [hr] at hend
    · exact hend
    · trivial
    · exact hend

theorem ensures_of_finishes {R : Routine} {P : World → Prop} {Q : LockDepth → World → Prop}
    {E : RuntimeError → LockDepth → World → Prop}
    (h : ∀ w, P w → ∃ b : Block, ∃ k,
      Finishes r update fuel frame R k { world := w } (b { world := w }) ∧
        b.Ensures (fun m ↦ P m.world ∧ m = { world := m.world }) (fun m ↦ Q m.locks m.world)
          (fun e m ↦ E e m.locks m.world)) (n : Nat) :
    Ensures (fun m ↦ P m.world ∧ m = { world := m.world }) (execute r update fuel frame R n)
      (fun _ m ↦ Q m.locks m.world) (fun e m ↦ E e m.locks m.world) :=
  ensures_answer (Q := fun _ ↦ Q) h n

namespace Kept

variable (hc : Compiles body coercion t layout artifact)
variable (hu : ∀ j k, Keeps (Kept artifact body.points i) (update j k))
include hc hu

theorem updateBlock (hb : frame.binding = some i) (k : Nat) :
    By artifact body.points i (updateBlock r update fuel frame layout body coercion i k) := by
  have hw := hc.wellPlaced
  have hone {op : Op} (h : op.isHarmless) :
      By artifact body.points i (runOps r update fuel frame [op]) :=
    harmless hu fun o ho ↦ by rw [List.mem_singleton.mp ho]; exact h
  have heval : By artifact body.points i (evaluateFrom r update fuel frame layout body coercion k) := by
    have hbody : By artifact body.points i (if k = 0 then body.run r update fuel frame (some layout)
        else body.resume r update fuel frame (some layout) k) := by
      split
      · exact run hw hu hb (some layout) hc.spares
      · exact resume hw hu hb (some layout) k hc.spares
    exact (hbody.andThen (run hw hu hb (some layout) (spares_of_isPlain hc.plain _))).andThen
      (hone rfl)
  refine Block.Ensures.andThen (Block.Ensures.andThen (hone rfl) fun m hm ↦ ?_) (hone rfl)
  unfold updateBody
  cases updateRoute layout body i k m.world with
  | resume => exact heval m hm
  | exit => exact hm
  | fault => exact hm

/-- An update of the binding keeps the bookkeeping right. -/
theorem executeUpdate (hb : frame.binding = some i) (n : Nat) :
    Ensures (fun m ↦ Kept artifact body.points i m.world ∧ m = { world := m.world })
      (execute r update fuel frame artifact.update n)
      (fun _ m ↦ Kept artifact body.points i m.world)
      (fun _ m ↦ Kept artifact body.points i m.world) := by
  let K := Kept artifact body.points i
  refine ensures_of_finishes (P := K) (Q := fun _ ↦ K) (E := fun _ _ ↦ K) (fun w hw ↦ ?_) n
  obtain ⟨-, s, on, ht⟩ := hw
  have hflags : s.flags.size = layout.storage := by rw [ht.fits.flags, hc.flags]
  have hk : (Builtin.countInt frame.step).toInt = (min frame.step 2147483647 : Nat) :=
    toInt_countInt _
  obtain ⟨n, hn⟩ := @Compiles.finishes_step r update fuel frame _ _ _ _ _ _ hc hb _ _ ht.found hflags _ hk
  exact ⟨_, n, hn, (updateBlock hc hu hb _).mono (fun _ h ↦ h.1) (fun _ ↦ id) fun _ _ ↦ id⟩

/-- Loading the captured values keeps the bookkeeping right, whatever jumps it takes. -/
theorem executeInit (hload : ∀ l ∈ t.storage.captured, l.load.isHarmless) (n : Nat) :
    Keeps (fun m ↦ Kept artifact body.points i m.world)
      (execute r update fuel frame artifact.init n) := by
  have hharmless : ∀ op ∈ artifact.init.ops, op.isHarmless := by
    have hadds := (adds_harmless (some layout) (Storage.isHarmless_loads hload 0) .empty).emit
      (show Op.return.isHarmless from rfl)
    rw [hc.init.routine_eq]
    exact fun op hop ↦ (hadds op hop).resolve_left (by simp [Assembler.empty])
  exact ensures_execute (I := fun _ ↦ Kept artifact body.points i) (fun op hop ↦
    keeps_step (undisturbed artifact body.points i) hu (fun _ ↦ hharmless op hop) artifact.init) n

omit hc

/-- A routine that keeps the bookkeeping right as long as it runs. -/
theorem runRoutine {R : Routine}
    (h : Ensures (fun m ↦ Kept artifact body.points i m.world ∧ m = { world := m.world })
      (execute r update fuel frame R fuel) (fun _ m ↦ Kept artifact body.points i m.world)
      (fun _ m ↦ Kept artifact body.points i m.world)) :
    Keeps (Kept artifact body.points i) (runRoutine r update fuel frame R) := by
  have hI := undisturbed artifact body.points i
  refine ensures_runRoutine (E := fun _ _ ↦ Kept artifact body.points i) h fun e stack locks ↦ ?_
  exact (hI.hostStable.holding stack (hI.releaseHeld hu fuel frame locks)).mono (fun _ ↦ id)
    (fun _ _ ↦ id) fun _ _ _ ↦ trivial

/-- A routine of another binding. -/
theorem runForeign (hb : frame.binding ≠ some i) (R : Routine) :
    Keeps (Kept artifact body.points i) (LiveBinding.runRoutine r update fuel frame R) :=
  have hI := undisturbed artifact body.points i
  runRoutine hu <| (ensures_execute (I := fun _ ↦ Kept artifact body.points i)
    (fun _ _ ↦ keeps_step hI hu (fun h ↦ absurd h hb) R) fuel).pre fun _ h ↦ h.1

end Kept

end

/-- The world with one more binding, before that is evaluated. -/
def World.addInstance (w : World) (artifact : Artifact) : World :=
  { (w.newCell .null).2 with instances := w.instances.push (.new artifact (w.newCell .null).1) }

theorem World.instance?_addInstance {w : World} {artifact : Artifact} {j : InstanceId} {t : Instance}
    (h : (w.addInstance artifact).instance? j = some t) :
    j = ⟨w.instances.size⟩ ∧ t = .new artifact ⟨w.cells.size⟩ ∨ w.instance? j = some t := by
  simp only [World.instance?, World.addInstance, Array.getElem?_push] at h
  split at h
  · next hj => exact .inl ⟨congrArg InstanceId.mk hj, (Option.some.inj h).symm⟩
  · exact .inr h

theorem World.cell?_addInstance {w : World} {artifact : Artifact} {c : CellId} {cell : Cell}
    (h : (w.addInstance artifact).cell? c = some cell) :
    c = ⟨w.cells.size⟩ ∧ cell = { value := .null } ∨ w.cell? c = some cell := by
  simp only [World.cell?, World.addInstance, World.newCell, Array.getElem?_push] at h
  split at h
  · next hc => exact .inl ⟨congrArg CellId.mk hc, (Option.some.inj h).symm⟩
  · exact .inr h

theorem createInstance_eq (r : Registry) (fuel : Nat) (artifact : Artifact) (w : World) :
    createInstance r fuel artifact w =
      match runInit r fuel ⟨w.instances.size⟩ artifact (w.addInstance artifact) with
      | (.ok _, w') => (.ok ⟨w.instances.size⟩, w')
      | (.error e, w') => (.error e, w'.drop ⟨w.instances.size⟩) := rfl

/-- A new binding listens to nothing. -/
theorem Tracks.start {artifact : Artifact} {points : List SavePoint}
    (hp : WellPlaced points artifact.scratch artifact.counters) {w : World}
    (hfresh : ∀ k c, w.listening ⟨w.instances.size⟩ k c = 0) :
    Tracks artifact points ⟨w.instances.size⟩ (w.addInstance artifact)
      (.new artifact (w.newCell .null).1) fun _ ↦ none where
  found := by simp [World.addInstance, World.instance?]
  fits := by constructor <;> simp [Instance.new]
  exist := by simp
  listening k c := ((Quiet.newCell .null w).listening k c).trans (hfresh k c)
  handles p hp' := by simp [Instance.new, hp.handle_lt p hp', Value.ofCell?]
  counts n hn := by simp [Instance.new, hn]

namespace Kept

variable {body coercion : Fragment} {t : Resumable} {layout : FlagLayout} {artifact : Artifact}
variable {i : InstanceId} {r : Registry}

/-- Every update, of this binding or of another one, keeps the bookkeeping right. -/
theorem updateInstance (hc : Compiles body coercion t layout artifact) (fuel : Nat) :
    ∀ j k, Keeps (Kept artifact body.points i) (updateInstance r fuel j k) := by
  have hI := undisturbed artifact body.points i
  induction fuel with
  | zero => exact fun j k ↦ .exhausted
  | succ fuel ih =>
    intro j k
    rw [updateInstance_succ]
    refine ensures_updateBy (fun w _ ↦ hI w _ (.modifyInstance j w fun _ _ _ ↦ ⟨rfl, rfl, rfl, rfl⟩))
      (fun w s hw hs _ k ↦ ?_) k
    by_cases hj : j = i
    · -- the code that is run is that of the artifact
      subst hj
      obtain ⟨-, s', on, ht⟩ := hw
      have hcode : s.artifact = artifact := by
        rw [ht.found] at hs
        cases hs
        exact ht.fits.code
      rw [hcode]
      exact runRoutine ih (executeUpdate hc ih rfl fuel)
    · exact runForeign ih (fun h ↦ hj (Option.some.inj h)) _

variable (hc : Compiles body coercion t layout artifact)
include hc

/-- The host can make other bindings. -/
theorem createOther (fuel : Nat) (other : Artifact) :
    Keeps (Kept artifact body.points i) (createInstance r fuel other) := by
  have hI := undisturbed artifact body.points i
  have hu := updateInstance (i := i) (r := r) hc fuel
  rintro w ⟨hslots, s, on, ht⟩
  let j : InstanceId := ⟨w.instances.size⟩
  obtain ⟨hlt, -⟩ := Array.getElem?_eq_some_iff.mp ht.found
  have hne : j ≠ i := fun h ↦ by
    have := congrArg InstanceId.index h
    simp only [j] at this
    omega
  have hpush : Quiet i w (w.addInstance other) := by
    refine (Quiet.newCell .null w).trans ⟨Nat.le_refl _, id, fun _ _ ↦ rfl, fun s hs ↦ ?_⟩
    refine ⟨s, ?_, rfl, rfl, rfl, rfl⟩
    have hs : w.instances[i.index]? = some s := hs
    show (w.instances.push _)[i.index]? = some s
    rw [Array.getElem?_push_lt hlt]
    rw [Array.getElem?_eq_getElem hlt] at hs
    exact hs
  have hinit : Keeps (Kept artifact body.points i) (runInit r fuel j other) :=
    (Run.keeps_view _).bind fun frame ↦
      (runForeign hu (fun h ↦ hne (Option.some.inj h)) _).bind fun _ ↦ hu j 0
  have hend := hinit _ (hI w _ hpush ⟨hslots, s, on, ht⟩)
  rw [createInstance_eq]
  rcases hx : runInit r fuel j other (w.addInstance other) with ⟨(e | -) | u, w'⟩ <;>
    rw [hx] at hend
  · exact hI _ _ (.modifyInstance j w' fun _ s _ ↦ ⟨rfl, rfl, rfl, rfl⟩) hend
  · trivial
  · exact hend

/-- A binding is made with its bookkeeping right. -/
theorem create (hload : ∀ l ∈ t.storage.captured, l.load.isHarmless) (fuel : Nat) {w : World}
    (hslots : w.SlotsExist) (hfresh : ∀ k c, w.listening ⟨w.instances.size⟩ k c = 0)
    (hne : (createInstance r fuel artifact w).1 ≠ .error .exhausted) :
    Kept artifact body.points ⟨w.instances.size⟩ (createInstance r fuel artifact w).2 := by
  let i : InstanceId := ⟨w.instances.size⟩
  have hI := undisturbed artifact body.points i
  have hu := updateInstance (i := i) (r := r) hc fuel
  have hnew : Quiet i w (w.newCell .null).2 := .newCell .null w
  have hinit : Keeps (Kept artifact body.points i) (runInit r fuel i artifact) :=
    (Run.keeps_view _).bind fun frame ↦
      (runRoutine hu ((executeInit hc hu hload fuel).pre fun _ h ↦ h.1)).bind fun _ ↦ hu i 0
  have hend := hinit (w.addInstance artifact) ⟨hnew.slots hslots, _, _, .start hc.wellPlaced hfresh⟩
  rw [createInstance_eq] at hne ⊢
  rcases hx : runInit r fuel i artifact (w.addInstance artifact) with ⟨(e | -) | u, w'⟩ <;>
    rw [hx] at hend
  · exact hI _ _ (.modifyInstance i w' fun _ s _ ↦ ⟨rfl, rfl, rfl, rfl⟩) hend
  · rw [hx] at hne
    exact absurd rfl hne
  · exact hend

end Kept

/-- What happens around a binding between its updates: other bindings are made, properties are
written, updates are asked for, and, at the finest, a value is stored, a listener is told, and an
instruction is run for another binding or for none. -/
inductive HostStep (r : Registry) (i : InstanceId) : World → World → Prop
  | create (fuel : Nat) (artifact : Artifact) (w : World) :
    (createInstance r fuel artifact w).1 ≠ .error .exhausted →
      HostStep r i w (createInstance r fuel artifact w).2
  | set (fuel : Nat) (o : ObjectId) (property : String) (v : Value) (w : World) :
    (setProperty r fuel o property v w).1 ≠ .error .exhausted →
      HostStep r i w (setProperty r fuel o property v w).2
  | update (fuel : Nat) (j : InstanceId) (k : Nat) (w : World) :
    (updateInstance r fuel j k w).1 ≠ .error .exhausted →
      HostStep r i w (updateInstance r fuel j k w).2
  | store (c : CellId) (v : Value) (w : World) :
    HostStep r i w (w.modifyCell c ({ · with value := v }))
  | tell (fuel : Nat) (c : CellId) (listener : Listener) (w : World) :
    (notifyAll r (updateInstance r fuel) fuel c [listener] w).1 ≠ .error .exhausted →
      HostStep r i w (notifyAll r (updateInstance r fuel) fuel c [listener] w).2
  | instruction (fuel : Nat) (frame : Frame) (R : Routine) (op : Op) (m : Machine) :
    frame.binding ≠ some i →
      (step r (updateInstance r fuel) fuel frame R op m).1 ≠ .error .exhausted →
      HostStep r i m.world (step r (updateInstance r fuel) fuel frame R op m).2.world

theorem Keeps.apply {σ α : Type} {I : σ → Prop} {x : ExceptT Stop (StateM σ) α} (h : Keeps I x)
    {s : σ} (hs : I s) (hne : (x s).1 ≠ .error .exhausted) : I (x s).2 := by
  have hx := h s hs
  rcases hxs : x s with ⟨(e | -) | a, t⟩ <;> rw [hxs] at hx hne
  · exact hx
  · exact absurd rfl hne
  · exact hx

/-- Nothing that happens around a binding disturbs its bookkeeping. -/
theorem Kept.hostStep {body coercion : Fragment} {t : Resumable} {layout : FlagLayout}
    {artifact : Artifact} (hc : Compiles body coercion t layout artifact) {r : Registry}
    {i : InstanceId} {w w' : World} (h : HostStep r i w w') (hw : Kept artifact body.points i w) :
    Kept artifact body.points i w' := by
  have hI := undisturbed artifact body.points i
  cases h with
  | create fuel other _ hne => exact (createOther hc fuel other).apply hw hne
  | set fuel o property v _ hne =>
    exact ((hI.hostStable.host (updateInstance hc fuel) fuel).writeProperty o property v).apply hw hne
  | update fuel j k _ hne => exact (updateInstance hc fuel j k).apply hw hne
  | store c v _ => exact hI _ _ (.modifyCell c _ fun _ _ ↦ rfl) hw
  | tell fuel c listener _ hne =>
    exact ((hI.hostStable.host (updateInstance hc fuel) fuel).notifyAll c [listener]).apply hw hne
  | instruction fuel frame R op m hb hne =>
    have hu := updateInstance (i := i) (r := r) hc fuel
    have hstep := @keeps_step i _ r _ fuel hI hu frame op (fun h ↦ absurd h hb) R
    exact hstep.apply (s := m) hw hne

/-- A branch lists the points of its right operand, which are points of the whole. -/
theorem Fragment.Nested.branch_points {f : Fragment} {enclosing : List Nat} (h : f.Nested enclosing)
    {flag counter : Nat} {right : Fragment} {points : List SavePoint}
    (hmem : (flag, counter, right, points) ∈ f.branches) :
    points.Perm right.points ∧ right.points ⊆ f.points := by
  induction f generalizing enclosing with
  | ops | flagTest | flagAssign | observe => simp [Fragment.branches] at hmem
  | append f g ih ih' | nullGuard f g ih ih' | shortCircuit _ f g ih ih' =>
    rcases List.mem_append.mp hmem with hmem | hmem
    · obtain ⟨hperm, hsub⟩ := ih h.1 hmem
      exact ⟨hperm, fun p hp ↦ List.mem_append_left _ (hsub hp)⟩
    · obtain ⟨hperm, hsub⟩ := ih' h.2 hmem
      exact ⟨hperm, fun p hp ↦ List.mem_append_right _ (hsub hp)⟩
  | branch op f g flag counter qs ih ih' =>
    rcases List.mem_append.mp hmem with hmem | hmem
    · obtain ⟨hperm, hsub⟩ := ih h.1 hmem
      exact ⟨hperm, fun p hp ↦ List.mem_append_left _ (hsub hp)⟩
    · rcases List.mem_cons.mp hmem with heq | hmem
      · cases heq
        exact ⟨h.2.2, fun p hp ↦ List.mem_append_right _ hp⟩
      · obtain ⟨hperm, hsub⟩ := ih' h.2.1 hmem
        exact ⟨hperm, fun p hp ↦ List.mem_append_right _ (hsub hp)⟩

theorem Compiles.artifactSteps_eq {body coercion : Fragment} {t : Resumable} {layout : FlagLayout}
    {artifact : Artifact} (hc : Compiles body coercion t layout artifact) :
    artifact.steps = 0 :: body.points.map SavePoint.step := by
  have hsteps := hc.steps_eq
  have hnext := hc.renders.nextStep
  rw [Fragment.steps] at hsteps
  simp only [Resumable.start] at hnext
  rw [hc.steps, Resumable.steps, hsteps, hnext, List.range_eq_range', Nat.add_comm,
    List.range'_succ]

namespace Tracks

variable {artifact : Artifact} {i : InstanceId} {w : World} {s : Instance}
variable {on : Nat → Option CellId}

theorem slot_or_null {points : List SavePoint} (ht : Tracks artifact points i w s on)
    {p : SavePoint} (hp : p ∈ points) :
    s.scratch[p.handle]? = some .null ∧ (∀ c, w.listening i p.step c = 0) ∨
      ∃ c, s.scratch[p.handle]? = some (.cell c) ∧ w.listening i p.step c = 1 ∧
        ∀ d, d ≠ c → w.listening i p.step d = 0 := by
  have hv := ht.handles p hp
  cases hon : on p.step with
  | none =>
    rw [hon] at hv
    exact .inl ⟨hv, fun c ↦ by simp [ht.listening, hon]⟩
  | some c =>
    rw [hon] at hv
    exact .inr ⟨c, hv, by simp [ht.listening, hon], fun d hd ↦ by
      simp [ht.listening, hon, Ne.symm hd]⟩

theorem counter_eq {body coercion : Fragment} {t : Resumable} {layout : FlagLayout}
    (hc : Compiles body coercion t layout artifact) (ht : Tracks artifact body.points i w s on)
    {flag counter : Nat} {right : Fragment} {points : List SavePoint}
    (h : (flag, counter, right, points) ∈ body.branches) :
    s.counters[counter]? =
      some (Int32.ofNat (points.countP fun p ↦ s.scratch[p.handle]? != some .null)) := by
  have hnested : body.Nested [] := hc.renders.nested
  have hcounter : counter ∈ body.counters := List.mem_map_of_mem h
  have hnodup : ([] ++ body.counters).Nodup := by
    rw [List.nil_append, hc.counters_eq]
    exact List.nodup_range
  rw [hc.counters_eq, List.mem_range] at hcounter
  rw [ht.counts counter hcounter, hnested.countP_eq hnodup h fun p ↦ (on p.step).isSome]
  congr 2
  apply List.countP_congr
  intro p hp
  obtain ⟨hperm, hsub⟩ := hnested.branch_points h
  have hmem : p ∈ body.points := hsub (hperm.subset hp)
  rw [ht.handles p hmem]
  cases on p.step <;> simp [Value.ofCell?]

end Tracks

/-- The slot of every point is null, and then the binding has no listener for its step, or it holds
a cell, and then the binding has one listener for the step, on that cell. The counter of every branch
counts the points of its right operand, those in inner branches included, whose slots are not
null. -/
def ListenersMatch (body : Fragment) (i : InstanceId) (w : World) : Prop :=
  ∃ s, w.instance? i = some s ∧
    (∀ p ∈ body.points,
      s.scratch[p.handle]? = some .null ∧ (∀ c, w.listening i p.step c = 0) ∨
      ∃ c, s.scratch[p.handle]? = some (.cell c) ∧ w.listening i p.step c = 1 ∧
        ∀ d, d ≠ c → w.listening i p.step d = 0) ∧
    ∀ flag counter right points, (flag, counter, right, points) ∈ body.branches →
      points.Perm right.points ∧ s.counters[counter]? =
        some (Int32.ofNat (points.countP fun p ↦ s.scratch[p.handle]? != some .null))

/-- The listeners of a binding match its slots and its counters at every moment between its updates,
from when it is made on, whatever has failed, if no name is loaded by code that keeps count of listeners
itself. -/
theorem listeners_match_slots {cx : CompileContext} {scope : Scope} {parsed : ParsedExpr}
    {tree : Tree} {target : Option BindingTarget} {b : DynamicBinding}
    (htree : cx.buildTree scope parsed = .ok tree)
    (hcompile : cx.compileArtifact tree target = .ok b)
    (hload : ∀ name l, scope.lookup? name = some (.bound l) → l.load.isHarmless)
    {r : Registry} {w₀ : World} (hslots : w₀.SlotsExist)
    (hfresh : ∀ k c, w₀.listening ⟨w₀.instances.size⟩ k c = 0)
    {fuel : Nat} (hcreate : (createInstance r fuel b.artifact w₀).1 ≠ .error .exhausted)
    {w : World} (hrun : Relation.ReflTransGen (HostStep r ⟨w₀.instances.size⟩)
      (createInstance r fuel b.artifact w₀).2 w) :
    let body := (tree.root.render .resumable .start).1
    b.artifact.steps = 0 :: body.points.map SavePoint.step ∧ b.artifact.steps.Nodup ∧
      ListenersMatch body ⟨w₀.instances.size⟩ w := by
  intro body
  have hres := (Tree.build_resolved htree).1
  obtain ⟨coercion, -, -, hc⟩ := CompileContext.compileArtifact_eq hcompile
    (Node.Resolved.isPlain tree.root hres)
  have hin := Node.Resolved.inScope tree.root hres .start (fun l hl ↦ absurd hl List.not_mem_nil)
  have hstart : Kept b.artifact body.points ⟨w₀.instances.size⟩
      (createInstance r fuel b.artifact w₀).2 := by
    refine Kept.create hc (fun l hl ↦ ?_) fuel hslots hfresh hcreate
    obtain ⟨name, hname⟩ := hin l hl
    exact hload name l hname
  have hend : Kept b.artifact body.points ⟨w₀.instances.size⟩ w := by
    induction hrun with
    | refl => exact hstart
    | tail _ hstep ih => exact Kept.hostStep hc hstep ih
  obtain ⟨-, s, on, ht⟩ := hend
  refine ⟨hc.artifactSteps_eq, ?_, s, ht.found, fun p hp ↦ ht.slot_or_null hp, ?_⟩
  · rw [hc.steps]
    exact List.nodup_range
  · intro flag counter right points h
    exact ⟨(hc.renders.nested.branch_points h).1, ht.counter_eq hc h⟩

namespace Sample

def observable : MemberFlags := { accessible := true, observable := true }

/-- A class with two observable properties. -/
def registry : Registry where
  classes := #[{ name := "Box", superclass := none, properties := [
    ⟨.class ⟨0⟩, "p", .boolean, observable⟩, ⟨.class ⟨0⟩, "q", .boolean, observable⟩] }]
  names := [("Box", .class ⟨0⟩)]

def context : CompileContext := { model := registry.model }

def scope : Scope := Scope.empty.bind (.local ⟨0⟩ "x" (.class ⟨0⟩) 0)

def conjunction : ParsedExpr where
  source := "x.p && x.q"
  root := .binary ⟨0, 10⟩ .and (.field ⟨0, 3⟩ (.ident ⟨0, 1⟩ "x") "p")
    (.field ⟨7, 10⟩ (.ident ⟨7, 8⟩ "x") "q")
  base := 0

section

variable (cx : CompileContext)

def treeOf (scope : Scope) (parsed : ParsedExpr) : Tree :=
  match cx.buildTree scope parsed with
  | .ok t => t
  | .error _ => ⟨.typeRef ⟨0, "", default, .void, 0, true⟩ .void, 0⟩

def bindingOf (tree : Tree) : DynamicBinding :=
  match cx.compileArtifact tree none with
  | .ok b => b
  | .error _ => ⟨.void, ⟨0, 0, .word 0, 0, default, default, []⟩⟩

def routineOf (tree : Tree) : Routine :=
  match (StaticBinding.mk tree.ty tree.root.renderDirect).routine with
  | .ok R => R
  | .error _ => default

variable {cx}

theorem treeOf_eq {scope : Scope} {parsed : ParsedExpr} (h : (cx.buildTree scope parsed).isOk) :
    cx.buildTree scope parsed = .ok (treeOf cx scope parsed) := by
  obtain ⟨t, ht⟩ := exists_of_isOk h
  rw [treeOf, ht]

theorem bindingOf_eq {tree : Tree} (h : (cx.compileArtifact tree none).isOk) :
    cx.compileArtifact tree none = .ok (bindingOf cx tree) := by
  obtain ⟨b, hb⟩ := exists_of_isOk h
  rw [bindingOf, hb]

theorem routineOf_eq {tree : Tree} (h : (StaticBinding.mk tree.ty tree.root.renderDirect).routine.isOk) :
    (StaticBinding.mk tree.ty tree.root.renderDirect).routine = .ok (routineOf tree) := by
  obtain ⟨R, hR⟩ := exists_of_isOk h
  rw [routineOf, hR]

/-- An expression, with the binding that it is compiled to and the code that evaluates it every time. -/
structure Compiled (cx : CompileContext) (scope : Scope) (parsed : ParsedExpr) : Prop where
  built : cx.buildTree scope parsed = .ok (treeOf cx scope parsed)
  evaluable : (treeOf cx scope parsed).root.info.evaluable
  dynamic : ¬(treeOf cx scope parsed).isStatic
  few : (treeOf cx scope parsed).root.monitoring < 2 ^ 31
  compiled : cx.compileArtifact (treeOf cx scope parsed) none = .ok (bindingOf cx (treeOf cx scope parsed))
  rendered : (StaticBinding.mk (treeOf cx scope parsed).ty
    (treeOf cx scope parsed).root.renderDirect).routine = .ok (routineOf (treeOf cx scope parsed))

/-- Whether all that can be made of an expression. -/
def isCompiled (cx : CompileContext) (scope : Scope) (parsed : ParsedExpr) : Bool :=
  match cx.buildTree scope parsed with
  | .error _ => false
  | .ok tree => tree.root.info.evaluable && !tree.isStatic && decide (tree.root.monitoring < 2 ^ 31) &&
    (cx.compileArtifact tree none).isOk && (StaticBinding.mk tree.ty tree.root.renderDirect).routine.isOk

theorem compiled_of {scope : Scope} {parsed : ParsedExpr} (h : isCompiled cx scope parsed) :
    Compiled cx scope parsed := by
  unfold isCompiled at h
  split at h
  · cases h
  · next tree htree =>
    have heq : treeOf cx scope parsed = tree := by rw [treeOf, htree]
    simp only [Bool.and_eq_true, Bool.not_eq_true', decide_eq_true_eq] at h
    obtain ⟨⟨⟨⟨hevaluable, hdynamic⟩, hfew⟩, hcompiled⟩, hrendered⟩ := h
    subst heq
    exact ⟨htree, hevaluable, by simp [hdynamic], hfew, bindingOf_eq hcompiled, routineOf_eq hrendered⟩

end

def tree : Tree := treeOf context scope conjunction

def binding : DynamicBinding := bindingOf context tree

/-- One object, which the host frame holds. -/
def world (p q : Bool) : World where
  objects := #[
    { cls := ⟨0⟩, label := "x", slots := [("p", .observable ⟨0⟩), ("q", .observable ⟨1⟩)] }]
  cells := #[{ value := .bool p }, { value := .bool q }]
  frame := [.object ⟨0⟩]

theorem buildTree_eq : context.buildTree scope conjunction = .ok tree := treeOf_eq (by decide +kernel)

theorem compileArtifact_eq : context.compileArtifact tree none = .ok binding :=
  bindingOf_eq (by decide +kernel)

theorem isPlain_load (name : String) (l : Loadable) (h : scope.lookup? name = some (.bound l)) :
    l.load.isPlain := by
  simp only [Scope.lookup?, scope, Scope.bind, Scope.empty, List.lookup_cons] at h
  split at h
  · cases h
    rfl
  · cases h

theorem slotsExist (p q : Bool) : (world p q).SlotsExist := by
  intro o property c h
  rw [World.observable?_eq_some] at h
  obtain ⟨_ | n⟩ := o
  · have hslot : List.lookup property [("p", Slot.observable ⟨0⟩), ("q", .observable ⟨1⟩)] =
        some (.observable c) := h
    simp only [List.lookup_cons] at hslot
    split at hslot
    · cases hslot
      exact Nat.zero_lt_two
    · split at hslot
      · cases hslot
        exact Nat.one_lt_two
      · cases hslot
  · simp [world, World.slot?, World.object?] at h

theorem listening_eq_zero (p q : Bool) (i : InstanceId) (k : Nat) (c : CellId) :
    (world p q).listening i k c = 0 := by
  obtain ⟨_ | _ | n⟩ := c
  · rfl
  · rfl
  · simp [world, World.listening, World.cell?]

end Sample

open Sample in
/-- The right operand is skipped at first, and runs once the left one changes. -/
theorem listeners_match_slots_conjunction :
    let made := createInstance registry 50 binding.artifact (world false true)
    let set := setProperty registry 50 ⟨0⟩ "p" (.bool true) made.2
    made.1.isOk ∧ set.1.isOk ∧
      ListenersMatch (tree.root.render .resumable .start).1 ⟨0⟩ set.2 := by
  obtain ⟨hmade, hset⟩ : (createInstance registry 50 binding.artifact (world false true)).1.isOk ∧
      (setProperty registry 50 ⟨0⟩ "p" (.bool true)
        (createInstance registry 50 binding.artifact (world false true)).2).1.isOk := by decide +kernel
  have hne {α : Type} {x : Except Stop α} (h : x.isOk) : x ≠ .error .exhausted := by
    rintro rfl
    cases h
  refine ⟨hmade, hset, ?_⟩
  exact (listeners_match_slots buildTree_eq compileArtifact_eq
    (fun name l hl ↦ isHarmless_of_isPlain (isPlain_load name l hl)) (slotsExist false true)
    (listening_eq_zero false true _) (hne hmade)
    (.single (.set 50 ⟨0⟩ "p" (.bool true) _ (hne hset)))).2.2

section

variable {body : Fragment} {i : InstanceId} {w : World}

/-- Two cells cannot be listened to for one step. -/
theorem not_listenersMatch_of_twice {c d : CellId} (hcd : c ≠ d)
    (h : ∃ p ∈ body.points, w.listening i p.step c ≠ 0 ∧ w.listening i p.step d ≠ 0) :
    ¬ListenersMatch body i w := by
  rintro ⟨s, -, hslots, -⟩
  obtain ⟨p, hp, hc, hd⟩ := h
  obtain ⟨-, hnone⟩ | ⟨e, -, -, hother⟩ := hslots p hp
  · exact hc (hnone c)
  · by_cases hce : c = e
    · exact hd (hother d fun hde ↦ hcd (hce.trans hde.symm))
    · exact hc (hother c hce)

/-- The slot of a point holds no number. -/
theorem not_listenersMatch_of_int {n : Int32}
    (h : ∃ p ∈ body.points, (w.instance? i).bind (·.scratch[p.handle]?) = some (.int n)) :
    ¬ListenersMatch body i w := by
  rintro ⟨s, hfound, hslots, -⟩
  obtain ⟨p, hp, hs⟩ := h
  rw [hfound, Option.bind_some] at hs
  obtain ⟨hnull, -⟩ | ⟨c, hcell, -⟩ := hslots p hp
  · cases hnull.symm.trans hs
  · cases hcell.symm.trans hs

/-- A counter counts nothing else. -/
theorem not_listenersMatch_of_counter
    (h : ∃ b ∈ body.branches, (w.instance? i).bind (·.counters[b.2.1]?) ≠ some (.ofNat (b.2.2.2.countP
      fun p ↦ (w.instance? i).bind (·.scratch[p.handle]?) != some .null))) :
    ¬ListenersMatch body i w := by
  rintro ⟨s, hfound, -, hcounters⟩
  obtain ⟨⟨flag, counter, right, points⟩, hb, hs⟩ := h
  rw [hfound] at hs
  exact hs (hcounters flag counter right points hb).2

end

namespace Sample

/-- A name that stands for the object in the host frame, after some other instructions. -/
def after (list : List Op) : Scope :=
  Scope.empty.bind ⟨⟨0⟩, "x", .class ⟨0⟩, .ops (list ++ [.loadLocal 0])⟩

/-- A binding of the conjunction, of which only the left operand is evaluated at first. -/
structure Mismatches (list : List Op) : Prop where
  built : context.buildTree (after list) conjunction = .ok (treeOf context (after list) conjunction)
  dynamic : ¬(treeOf context (after list) conjunction).isStatic
  compiled : context.compileArtifact (treeOf context (after list) conjunction) none =
    .ok (bindingOf context (treeOf context (after list) conjunction))
  made : (createInstance registry 50
    (bindingOf context (treeOf context (after list) conjunction)).artifact (world false true)).1.isOk
  differs : ¬ListenersMatch ((treeOf context (after list) conjunction).root.render .resumable .start).1 ⟨0⟩
    (createInstance registry 50
      (bindingOf context (treeOf context (after list) conjunction)).artifact (world false true)).2

end Sample

open Sample in
/-- The listeners of a binding do not match its slots and counters if the code of a name listens to a
cell, writes to the slot of a point, or counts. -/
theorem listeners_mismatch_loading :
    Mismatches [.loadLocal 0, .getObservable "q", .subscribe 1] ∧
    Mismatches [.pushInt 7, .storeScratch 1] ∧
    Mismatches [.counterAdd 0 1] := by
  refine ⟨⟨treeOf_eq (by decide +kernel), by decide +kernel, bindingOf_eq (by decide +kernel), by decide +kernel,
      not_listenersMatch_of_twice (c := ⟨0⟩) (d := ⟨1⟩) (by decide) (by decide +kernel)⟩,
    ⟨treeOf_eq (by decide +kernel), by decide +kernel, bindingOf_eq (by decide +kernel), by decide +kernel,
      not_listenersMatch_of_int (n := 7) (by decide +kernel)⟩,
    ⟨treeOf_eq (by decide +kernel), by decide +kernel, bindingOf_eq (by decide +kernel), by decide +kernel,
      not_listenersMatch_of_counter (by decide +kernel)⟩⟩

end LiveBinding
