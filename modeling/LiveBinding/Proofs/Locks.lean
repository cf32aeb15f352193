import LiveBinding.Proofs.FirstValue
import LiveBinding.Proofs.Labels
import LiveBinding.Proofs.Sparing

namespace LiveBinding

open Exec Fragment

theorem Instance.artifact_new (artifact : Artifact) (c : CellId) :
    (Instance.new artifact c).artifact = artifact := rfl

theorem Instance.size_flags_new (artifact : Artifact) (c : CellId) :
    (Instance.new artifact c).flags.size = artifact.flags.storage := Array.size_replicate

/-- The storage of the same binding at two times. -/
structure Instance.Alike (s t : Instance) : Prop where
  code : t.artifact = s.artifact
  result : t.result = s.result
  flags : t.flags.size = s.flags.size

theorem Instance.Alike.trans {s t u : Instance} (h : s.Alike t) (h' : t.Alike u) : s.Alike u :=
  ⟨h'.code.trans h.code, h'.result.trans h.result, h'.flags.trans h.flags⟩

theorem Instance.Retains.alike {op : Op} {s t : Instance} (h : s.Retains op t) : s.Alike t :=
  ⟨h.code, h.result, h.flags⟩

theorem Op.not_isLock_of_isOrdinary {op : Op} (h : op.isOrdinary) : ¬op.isLock := by
  cases op <;> simp_all [isOrdinary, isPlain, isLock]

theorem World.cell?_newCell {w : World} {c : CellId} {cell : Cell} (h : w.cell? c = some cell)
    (v : Value) : (w.newCell v).2.cell? c = some cell := by
  obtain ⟨hlt, rfl⟩ := Array.getElem?_eq_some_iff.mp h
  simp only [World.cell?, World.newCell, Array.getElem?_push_lt hlt]

/-- Objects are made without touching bindings or cells that are there. -/
theorem World.addSlots_keeps (w : World) (o : HostObject) (slots : List (String × Value × Bool)) :
    (w.addSlots o slots).2.instances = w.instances ∧
      ∀ c cell, w.cell? c = some cell → (w.addSlots o slots).2.cell? c = some cell := by
  induction slots generalizing w o with
  | nil => exact ⟨rfl, fun _ _ ↦ id⟩
  | cons e slots ih =>
    obtain ⟨property, v, _ | _⟩ := e
    · exact ih w _
    · obtain ⟨hinstances, hcells⟩ := ih (w.newCell v).2 (o.setSlot property (.observable (w.newCell v).1))
      exact ⟨hinstances, fun c cell hc ↦ hcells c cell (World.cell?_newCell hc v)⟩

/-- A binding publishes to a cell of its own, on which `d` locks are held. -/
structure Locked (i : InstanceId) (s : Instance) (d : LockDepth) (w : World) : Prop where
  found : ∃ t, w.instance? i = some t ∧ s.Alike t
  own : ∀ j t, w.instance? j = some t → t.result = s.result → j = i
  depth : (w.cell? s.result).map Cell.lockDepth = some d

namespace Locked

variable {i : InstanceId} {s : Instance} {d : LockDepth} {w : World}

theorem lockDepth_eq (h : Locked i s d w) : w.lockDepth? i = some d := by
  obtain ⟨t, ht, hst⟩ := h.found
  simp only [World.lockDepth?, World.resultCell?, ht, Option.map_some, Option.bind_some, hst.result]
  exact h.depth

theorem isLocked_eq (h : Locked i s d w) {t : Instance} (ht : w.instance? i = some t) :
    ((w.cell? t.result).map Cell.isLocked).getD false = (d != 0) := by
  obtain ⟨t', ht', hst⟩ := h.found
  obtain rfl : t = t' := Option.some.inj (ht.symm.trans ht')
  have hd := h.depth
  rw [hst.result]
  cases hc : w.cell? s.result with
  | none => simp [hc] at hd
  | some cell =>
    rw [hc] at hd
    rw [← Option.some.inj hd]
    rfl

theorem result_ne (h : Locked i s d w) {j : InstanceId} {t : Instance} (hj : j ≠ i)
    (ht : w.instance? j = some t) : t.result ≠ s.result := fun he ↦ hj (h.own j t ht he)

theorem modifyResult {d' : LockDepth} (h : Locked i s d w) {f : Cell → Cell}
    (hf : ∀ cell, w.cell? s.result = some cell → (f cell).lockDepth = d') :
    Locked i s d' (w.modifyCell s.result f) where
  found := h.found
  own := h.own
  depth := by
    have hd := h.depth
    rw [World.cell?_modifyCell, if_pos rfl]
    cases hc : w.cell? s.result with
    | none => simp [hc] at hd
    | some cell => exact congrArg some (hf cell hc)

theorem modifyOther (h : Locked i s d w) {c : CellId} (hc : c ≠ s.result) (f : Cell → Cell) :
    Locked i s d (w.modifyCell c f) where
  found := h.found
  own := h.own
  depth := by rw [World.cell?_modifyCell, if_neg hc, h.depth]

theorem modifyCell (h : Locked i s d w) (c : CellId) {f : Cell → Cell}
    (hf : ∀ cell, (f cell).lockDepth = cell.lockDepth) : Locked i s d (w.modifyCell c f) := by
  by_cases hc : c = s.result
  · subst hc
    refine h.modifyResult fun cell hcell ↦ ?_
    have hd := h.depth
    rw [hcell] at hd
    rw [hf, Option.some.inj hd]
  · exact h.modifyOther hc f

theorem modifyInstance (h : Locked i s d w) (j : InstanceId) {f : Instance → Instance}
    (hf : ∀ t, w.instance? j = some t → t.Alike (f t)) :
    Locked i s d (w.modifyInstance j f) where
  found := by
    obtain ⟨t, ht, hst⟩ := h.found
    rw [World.instance?_modifyInstance, ht]
    split
    · next hj => exact ⟨f t, rfl, hst.trans (hf t (hj ▸ ht))⟩
    · exact ⟨t, rfl, hst⟩
  own k t hk ht := by
    rw [World.instance?_modifyInstance] at hk
    split at hk
    · next hj =>
      obtain ⟨u, hu, rfl⟩ := Option.map_eq_some_iff.mp hk
      exact h.own k u hu ((hf u (hj ▸ hu)).result.symm.trans ht)
    · exact h.own k t hk ht
  depth := h.depth

theorem hostStable (i : InstanceId) (s : Instance) (d : LockDepth) : HostStable (Locked i s d) where
  ofEq w w' _ hc hi h := by
    obtain ⟨hfound, hown, hdepth⟩ := h
    constructor
    · simpa only [World.instance?, hi] using hfound
    · simpa only [World.instance?, hi] using hown
    · simpa only [World.cell?, hc] using hdepth
  setPlain _ _ _ _ h := ⟨h.found, h.own, h.depth⟩
  newObject cls label slots w h := by
    obtain ⟨hinstances, hcells⟩ := w.addSlots_keeps { cls, label } slots
    have heq (j : InstanceId) : (w.newObject cls label slots).2.instance? j = w.instance? j :=
      congrArg (·[j.index]?) hinstances
    refine ⟨by simpa only [heq] using h.found, by simpa only [heq] using h.own, ?_⟩
    obtain ⟨cell, hcell, hd⟩ := Option.map_eq_some_iff.mp h.depth
    exact Option.map_eq_some_iff.mpr ⟨cell, hcells _ cell hcell, hd⟩
  store c _ _ h := h.modifyCell c fun _ ↦ rfl
  postpone c _ h := h.modifyCell c fun _ ↦ rfl

section

variable {r : Registry} {update : Updater} {fuel : Nat}
variable (hu : ∀ d j k, Keeps (Locked i s d) (update j k))
include hu

theorem unlockResult (d : LockDepth) :
    Ensures (Locked i s d) (unlockCell r update fuel s.result) (fun _ ↦ Locked i s d.pred)
      (fun _ ↦ Locked i s d.pred) := by
  refine (hostStable i s d.pred).ensures_unlockCell (hu d.pred) fuel (fun w hc h ↦ ?_)
    fun w cell f hc hf _ h ↦ h.modifyResult fun cell' hc' ↦ ?_
  · have hd := h.depth
    simp [hc] at hd
  · obtain rfl : cell = cell' := Option.some.inj (hc.symm.trans hc')
    have hd := h.depth
    rw [hc] at hd
    rw [hf, Option.some.inj hd]

theorem unlockOther {c : CellId} (hc : c ≠ s.result) (d : LockDepth) :
    Keeps (Locked i s d) (unlockCell r update fuel c) :=
  (hostStable i s d).ensures_unlockCell (hu d) fuel (fun _ _ ↦ id)
    fun _ _ f _ _ _ h ↦ h.modifyOther hc f

variable {frame : Frame}

/-- A routine that fails gives back the locks it holds. -/
theorem releaseOwn (hb : frame.binding = some i) (d : LockDepth) {E : RuntimeError → World → Prop} :
    Ensures (Locked i s d) (releaseHeld r update fuel frame d) (fun _ ↦ Locked i s 0) E := by
  have hview : Ensures (Locked i s d) (Run.view (·.instance? i))
      (fun found w ↦ Locked i s d w ∧ w.instance? i = found) E := fun w hw ↦ ⟨hw, rfl⟩
  unfold releaseHeld
  rw [hb]
  refine hview.bind fun found ↦ ?_
  rintro w ⟨h, hfound⟩
  obtain ⟨t, ht, hst⟩ := h.found
  obtain rfl : found = some t := hfound.symm.trans ht
  have hunlock (d' : LockDepth) : Ensures (Locked i s d') (unlockCell r update fuel s.result)
      (fun _ ↦ Locked i s d'.pred) (fun _ ↦ Locked i s d'.pred) := unlockResult hu d'
  have hlocks := ensures_releaseLocks (E := E) hunlock d.toNat d w h
  rw [LockDepth.pred_iterate] at hlocks
  simpa only [hst.result] using hlocks

theorem releaseForeign (hb : frame.binding ≠ some i) (d locks : LockDepth) :
    Keeps (Locked i s d) (releaseHeld r update fuel frame locks) := by
  have hview (j : InstanceId) : Ensures (Locked i s d) (Run.view (·.instance? j))
      (fun found w ↦ Locked i s d w ∧ w.instance? j = found) (fun _ ↦ Locked i s d) :=
    fun w hw ↦ ⟨hw, rfl⟩
  unfold releaseHeld
  cases hj : frame.binding with
  | none => exact .pure fun _ hw ↦ hw
  | some j =>
    refine (hview j).bind fun found ↦ ?_
    cases found with
    | none => exact .pure fun _ hw ↦ hw.1
    | some t =>
      rintro w ⟨h, ht⟩
      have hne : t.result ≠ s.result := h.result_ne (fun hji ↦ hb (hji ▸ hj)) ht
      exact ensures_releaseLocks (I := fun _ ↦ Locked i s d) (fun _ ↦ unlockOther hu hne d) _ 0 w h

/-- An instruction that does not work on the lock leaves the locks as they are. -/
theorem keepsStep (depth : LockDepth → LockDepth) {op : Op} (hop : ¬op.isLock) (R : Routine) :
    Keeps (fun m ↦ Locked i s (depth m.locks) m.world) (step r update fuel frame R op) := by
  refine keeps_step_of (I := fun l ↦ Locked i s (depth l)) (fun l ↦ hostStable i s (depth l))
    (fun l ↦ hu (depth l)) ?_ ?_ hop R
  · intro l w j t u _ ht htu h
    refine h.modifyInstance j fun t' ht' ↦ ?_
    obtain rfl : t = t' := Option.some.inj (ht.symm.trans ht')
    exact htu.alike
  · intro _ l w j k c _ h
    exact ⟨h.modifyCell c fun _ ↦ rfl, h.modifyCell c fun _ ↦ rfl⟩

/-- A routine of the binding holds as many locks as it counts. -/
theorem keepsStep_own (hb : frame.binding = some i) (op : Op) (R : Routine) :
    Keeps (fun m ↦ Locked i s m.locks m.world) (step r update fuel frame R op) := by
  by_cases hop : op.isLock
  case neg => exact keepsStep hu id hop R
  have hstate : Ensures (fun m ↦ Locked i s m.locks m.world) (state frame)
      (fun t m ↦ Locked i s m.locks m.world ∧ t.result = s.result)
      (fun _ m ↦ Locked i s m.locks m.world) :=
    (ensures_state (I := Locked i s) (fun _ _ h ↦ h) frame).post fun t m ⟨h, j, hj, ht⟩ ↦ by
      obtain ⟨t', ht', hst⟩ := h.found
      obtain rfl : j = i := Option.some.inj (hj.symm.trans hb)
      obtain rfl : t = t' := Option.some.inj (ht.symm.trans ht')
      exact ⟨h, hst.result⟩
  cases op with
  | lockAcquire =>
    refine hstate.bind fun t m ⟨h, ht⟩ ↦ ?_
    show Locked i s (m.locks + 1) (m.world.modifyCell t.result Cell.lock)
    rw [ht]
    refine h.modifyResult fun cell hcell ↦ ?_
    have hd := h.depth
    rw [hcell] at hd
    exact congrArg (· + 1) (Option.some.inj hd)
  | lockRelease =>
    refine hstate.bind fun t m ⟨h, ht⟩ ↦ ?_
    rw [ht]
    have hgive : Ensures (fun m ↦ Locked i s m.locks m.world)
        (modify fun m ↦ { m with locks := m.locks.pred } : Exec Unit)
        (fun _ m ↦ ∃ l, m.locks = l.pred ∧ Locked i s l m.world)
        (fun _ m ↦ Locked i s m.locks m.world) := fun m hm ↦ ⟨m.locks, rfl, hm⟩
    refine hgive.bind (fun _ ↦ ?_) m h
    refine ensures_lift (P := fun l w ↦ ∃ l', l = LockDepth.pred l' ∧ Locked i s l' w) ?_
      (fun l _ ↦ (hostStable i s l).held) (fun l _ ↦ (hostStable i s l).held) fun l w ⟨l', hl, h⟩ ↦ ?_
    · exact fun _ _ held ⟨l', hl, h⟩ ↦ ⟨l', hl, (hostStable i s l').held held h⟩
    · subst hl
      exact unlockResult hu l' w h
  | _ => cases hop

/-- A run of the binding that starts unlocked gives every lock back if it fails. -/
theorem runOwn (hb : frame.binding = some i) {R : Routine} {Q : LockDepth → Prop}
    (h : Ensures (fun m ↦ Locked i s 0 m.world ∧ m = { world := m.world })
      (execute r update fuel frame R fuel) (fun _ m ↦ Q m.locks) (fun _ _ ↦ True)) :
    Ensures (Locked i s 0) (runRoutine r update fuel frame R) (fun _ w ↦ ∃ d, Q d ∧ Locked i s d w)
      (fun _ ↦ Locked i s 0) := by
  have hkeeps : Ensures (fun m ↦ Locked i s 0 m.world ∧ m = { world := m.world })
      (execute r update fuel frame R fuel) (fun _ m ↦ Locked i s m.locks m.world)
      (fun _ m ↦ Locked i s m.locks m.world) :=
    (ensures_execute (I := Locked i s) (fun op _ ↦ keepsStep_own hu hb op R) fuel).pre fun m hm ↦ by
      rw [hm.2]
      exact hm.1
  refine ensures_runRoutine (P := Locked i s 0) (E := fun _ ↦ Locked i s)
    ((h.and hkeeps).mono (fun _ ↦ id) (fun _ m hm ↦ ⟨m.locks, hm⟩) fun _ _ hm ↦ hm.2)
    fun e stack locks ↦ ?_
  exact Run.ensures_holding stack (releaseOwn hu hb locks) (fun _ ↦ (hostStable i s locks).held)
    (fun _ _ ↦ (hostStable i s 0).held) fun _ _ _ _ ↦ trivial

theorem stepForeign (hb : frame.binding ≠ some i) (op : Op) (R : Routine) (d : LockDepth) :
    Keeps (fun m ↦ Locked i s d m.world) (step r update fuel frame R op) := by
  by_cases hop : op.isLock
  case neg => exact keepsStep hu (fun _ ↦ d) hop R
  have hstate : Ensures (fun m ↦ Locked i s d m.world) (state frame)
      (fun t m ↦ Locked i s d m.world ∧ t.result ≠ s.result) (fun _ m ↦ Locked i s d m.world) :=
    (ensures_state (I := fun _ ↦ Locked i s d) (fun _ _ h ↦ h) frame).post fun t m ⟨h, j, hj, ht⟩ ↦
      ⟨h, h.result_ne (fun hji ↦ hb (hji ▸ hj)) ht⟩
  cases op with
  | lockAcquire => exact hstate.bind fun t m ⟨h, ht⟩ ↦ h.modifyOther ht Cell.lock
  | lockRelease =>
    refine hstate.bind fun t m ⟨h, ht⟩ ↦ ?_
    have hgive : Keeps (fun m ↦ Locked i s d m.world)
        (modify fun m ↦ { m with locks := m.locks.pred } : Exec Unit) := fun _ hm ↦ hm
    exact hgive.bind (fun _ ↦ keeps_lift (I := fun _ ↦ Locked i s d) (fun _ ↦ hostStable i s d)
      fun _ ↦ unlockOther hu ht d) m h
  | _ => cases hop

/-- A run of another binding, or of none, leaves the locks as they are. -/
theorem runForeign (hb : frame.binding ≠ some i) (R : Routine) (d : LockDepth) :
    Keeps (Locked i s d) (runRoutine r update fuel frame R) := by
  refine ensures_runRoutine (E := fun _ _ ↦ Locked i s d)
    ((ensures_execute (I := fun _ ↦ Locked i s d) (fun op _ ↦ stepForeign hu hb op R d) fuel).pre
      fun _ h ↦ h.1) fun e stack locks ↦ ?_
  exact ((hostStable i s d).holding stack (releaseForeign hu hb d locks)).anyError

/-- An update leaves the locks as they are, unless it is one of the binding that can start. -/
theorem keepsUpdateBy (j : InstanceId) (hj : j = i → d ≠ 0) (k : Nat) :
    Keeps (Locked i s d) (updateBy r update fuel j k) := by
  refine ensures_updateBy (fun w _ h ↦ h.modifyInstance j fun _ _ ↦ ⟨rfl, rfl, rfl⟩)
    (fun w t h ht hlock k ↦ ?_) k
  by_cases hji : j = i
  · subst hji
    simp [h.isLocked_eq ht, hj rfl] at hlock
  · exact runForeign hu (fun h ↦ hji (Option.some.inj h)) _ d

end

/-- As long as no update of the binding starts, updates leave its locks as they are. -/
theorem keepsSparing (r : Registry) (fuel : Nat) (d : LockDepth) (j : InstanceId) (k : Nat) :
    Keeps (Locked i s d) (updateSparing r i fuel j k) := by
  induction fuel generalizing d j k with
  | zero => exact .exhausted
  | succ fuel ih =>
    intro w h
    unfold updateSparing
    rw [Stop.bind_apply]
    dsimp only [Run.view]
    by_cases hstart : j = i ∧ d = 0
    · rw [if_pos (by simp [hstart.1, h.lockDepth_eq, hstart.2])]
      trivial
    · rw [if_neg (by simpa [h.lockDepth_eq] using hstart)]
      exact keepsUpdateBy ih j (fun hj hd ↦ hstart ⟨hj, hd⟩) k w h

end Locked

namespace Fragment

variable {r : Registry} {update : Updater} {fuel : Nat} {frame : Frame}

/-- An instruction that does not work on the lock leaves the count of locks as it is. -/
theorem keepsCount (n : LockDepth) {op : Op} (hop : ¬op.isLock) (R : Routine) :
    Keeps (fun m ↦ m.locks = n) (step r update fuel frame R op) :=
  keeps_step_of (I := fun l _ ↦ l = n) (fun _ ↦ .const) (fun _ _ _ ↦ .const)
    (fun _ _ _ _ _ _ _ _ ↦ id) (fun _ _ _ _ _ _ _ h ↦ ⟨h, h⟩) hop R

theorem keepsCount_state (n : LockDepth) : Keeps (fun m ↦ m.locks = n) (state frame) :=
  (closed_keeps fun l _ ↦ l = n).state frame

theorem keepsCount_lift (n : LockDepth) {α : Type} (x : Run α) : Keeps (fun m ↦ m.locks = n) (lift x) :=
  keeps_lift (I := fun l _ ↦ l = n) (fun _ ↦ .const) fun _ ↦ .const

/-- A stretch of code leaves the count of locks as it is. -/
abbrev Counts (n : LockDepth) (b : Block) : Prop :=
  b.Ensures (fun m ↦ m.locks = n) (fun m ↦ m.locks = n) fun _ _ ↦ True

variable {n : LockDepth} {layout : Option FlagLayout}

theorem countsOps {list : List Op} (h : ∀ op ∈ list, ¬op.isLock) :
    Counts n (runOps r update fuel frame list) :=
  keeps_runOps fun op hop ↦ (keepsCount n (h op hop) default).mono (fun _ ↦ id) (fun _ _ ↦ id)
    fun _ _ _ ↦ trivial

theorem countsBranch {jump : Label → Op} {a b : Block} (ha : Counts n a) (hb : Counts n b) :
    Counts n (branchOn jump a b) := by
  refine ensures_branchOn (((closed_keeps fun l _ ↦ l = n).condition _).mono (fun _ ↦ id)
    (fun b m hm ↦ ?_) fun _ _ _ ↦ trivial) ha hb
  split <;> exact hm

theorem countsFlag (flag : Nat) (value : Bool) :
    Counts n (assignFlag r update fuel frame layout flag value) := by
  refine countsOps fun op hop ↦ ?_
  rw [List.mem_singleton.mp hop]
  cases layoutFor layout flag <;> simp [FlagLayout.assign, Op.isLock]

theorem countsAdjust (p : SavePoint) (delta : Int32) (list : List Op) (h : ∀ op ∈ list, ¬op.isLock) :
    Counts n (runOps r update fuel frame (list ++ adjust p.counters delta)) := by
  refine countsOps fun op hop ↦ ?_
  rcases List.mem_append.mp hop with hop | hop
  · exact h op hop
  · obtain ⟨c, -, rfl⟩ := List.mem_map.mp hop
    simp [Op.isLock]

theorem countsDetachAll (ps : List SavePoint) : Counts n (detachAll r update fuel frame ps) := by
  induction ps with
  | nil => exact .skip
  | cons p ps ih =>
    refine Block.Ensures.andThen ?_ ih
    exact (countsOps (by simp [Op.isLock])).andThen <|
      countsBranch (countsOps (by simp [Op.isLock])) (countsAdjust p _ _ (by simp [Op.isLock]))

theorem countsObserve (property : String) (p : SavePoint) :
    Counts n ((observe property p).run r update fuel frame layout) := by
  refine (countsOps (by simp [Op.isLock])).andThen <| Block.Ensures.andThen ?_ (countsOps (by simp [Op.isLock]))
  refine (countsOps (by simp [Op.isLock])).andThen <| countsBranch (countsOps (by simp [Op.isLock])) <|
    Block.Ensures.andThen ?_ (countsAdjust p _ _ (by simp [Op.isLock]))
  exact (countsOps (by simp [Op.isLock])).andThen <|
    countsBranch (countsOps (by simp [Op.isLock]))
      (countsAdjust p _ [.unsubscribe p.step] (by simp [Op.isLock]))

theorem countsDecide {op : BinaryOp} {a b : Block} (ha : Counts n a) (hb : Counts n b) :
    Counts n (decide r update fuel frame op a b) :=
  (countsOps (by simp [Op.isLock])).andThen <| countsBranch ha <|
    (countsOps (by simp [Op.isLock])).andThen hb

theorem countsSkip (flag counter : Nat) (ps : List SavePoint) :
    Counts n (skipBranch r update fuel frame layout flag counter ps) :=
  (countsFlag flag false).andThen <| (countsOps (by simp [Op.isLock])).andThen <|
    countsBranch .skip (countsDetachAll ps)

theorem countsRun {f : Fragment} (hf : f.isOrdinary) :
    Counts n (f.run r update fuel frame layout) := by
  induction f with
  | ops list => exact countsOps fun op hop ↦ Op.not_isLock_of_isOrdinary (List.all_eq_true.mp hf op hop)
  | append f g ih ih' =>
    obtain ⟨hf, hg⟩ := Bool.and_eq_true_iff.mp hf
    exact (ih hf).andThen (ih' hg)
  | nullGuard f g ih ih' =>
    obtain ⟨hf, hg⟩ := Bool.and_eq_true_iff.mp hf
    exact (countsOps (by simp [Op.isLock])).andThen <| countsBranch
      ((countsOps (by simp [Op.isLock])).andThen (ih' hg)) (ih hf)
  | shortCircuit op f g ih ih' =>
    obtain ⟨hf, hg⟩ := Bool.and_eq_true_iff.mp hf
    exact (ih hf).andThen (countsDecide .skip (ih' hg))
  | flagTest flag =>
    refine countsOps fun op hop ↦ ?_
    rw [List.mem_singleton.mp hop]
    cases layoutFor layout flag <;> simp [FlagLayout.test, Op.isLock]
  | flagAssign flag value => exact countsFlag flag value
  | observe property p => exact countsObserve property p
  | branch op f g flag counter ps ih ih' =>
    obtain ⟨hf, hg⟩ := Bool.and_eq_true_iff.mp hf
    exact (ih hf).andThen (countsDecide (countsSkip flag counter ps)
      ((countsFlag flag true).andThen (ih' hg)))

theorem countsResume (k : Nat) {f : Fragment} (hf : f.isOrdinary) :
    Counts n (f.resume r update fuel frame layout k) := by
  induction f with
  | ops | flagTest | flagAssign => exact .skip
  | append f g ih ih' =>
    obtain ⟨hf, hg⟩ := Bool.and_eq_true_iff.mp hf
    unfold Fragment.resume
    split
    · exact (ih hf).andThen (countsRun hg)
    · exact ih' hg
  | nullGuard f g ih ih' =>
    obtain ⟨hf, hg⟩ := Bool.and_eq_true_iff.mp hf
    unfold Fragment.resume
    split
    · exact ih hf
    · exact ih' hg
  | shortCircuit op f g ih ih' =>
    obtain ⟨hf, hg⟩ := Bool.and_eq_true_iff.mp hf
    unfold Fragment.resume
    split
    · exact (ih hf).andThen (countsDecide .skip (countsRun hg))
    · exact ih' hg
  | observe property p => exact countsOps (by simp [Op.isLock])
  | branch op f g flag counter ps ih ih' =>
    obtain ⟨hf, hg⟩ := Bool.and_eq_true_iff.mp hf
    unfold Fragment.resume
    split
    · exact (ih hf).andThen (countsDecide (countsSkip flag counter ps)
        ((countsFlag flag true).andThen (countsRun hg)))
    · exact ih' hg

end Fragment

/-- The update routine of a compiled binding takes the lock once and gives it back. -/
theorem Compiles.countsUpdate {body coercion : Fragment} {t : Resumable} {layout : FlagLayout}
    {artifact : Artifact} (hc : Compiles body coercion t layout artifact) {r : Registry}
    {update : Updater} {fuel : Nat} {frame : Frame} (i : InstanceId) (k : Nat) :
    Counts 0 (updateBlock r update fuel frame layout body coercion i k) := by
  have htake : Block.Ensures (fun m ↦ m.locks = 0) (runOps r update fuel frame [.lockAcquire])
      (fun m ↦ m.locks = 1) fun _ _ ↦ True := by
    refine (ensures_runOp ((keepsCount_state 0).anyError.bind fun s ↦ ?_)).andThen .skip
    exact (keepsCount_lift 0 _).anyError.bind fun _ m hm ↦ congrArg (· + 1) hm
  have hgive : Block.Ensures (fun m ↦ m.locks = 1) (runOps r update fuel frame [.lockRelease])
      (fun m ↦ m.locks = 0) fun _ _ ↦ True := by
    refine (ensures_runOp ((keepsCount_state 1).anyError.bind fun s ↦ ?_)).andThen .skip
    refine Ensures.bind (Q := fun _ (m : Machine) ↦ m.locks = 0) (fun m hm ↦ ?_)
      fun _ ↦ (keepsCount_lift 0 _).anyError
    exact congrArg LockDepth.pred hm
  refine (htake.andThen fun m hm ↦ ?_).andThen hgive
  unfold updateBody
  cases updateRoute layout body i k m.world with
  | exit => exact hm
  | fault => exact trivial
  | resume =>
    have hbody : Counts 1 (if k = 0 then body.run r update fuel frame (some layout)
        else body.resume r update fuel frame (some layout) k) := by
      split
      · exact countsRun hc.renders.ordinary
      · exact countsResume k hc.renders.ordinary
    have hcoercion : Counts 1 (coercion.run r update fuel frame (some layout)) :=
      countsRun (Layout.plain .start hc.plain).ordinary
    exact ((hbody.andThen hcoercion).andThen (countsOps (by simp [Op.isLock]))) m hm

namespace Fragment

open Assembler

/-- The instructions of a fragment that are given as such. -/
def given : Fragment → List Op
  | ops list => list
  | append f g | nullGuard f g | shortCircuit _ f g | branch _ f g .. => f.given ++ g.given
  | flagTest _ | flagAssign .. | observe .. => []

/-- The flags that a fragment names. -/
def flags : Fragment → List Nat
  | ops _ | observe .. => []
  | append f g | nullGuard f g | shortCircuit _ f g => f.flags ++ g.flags
  | flagTest flag | flagAssign flag _ => [flag]
  | branch _ f g flag _ _ => flag :: (f.flags ++ g.flags)

/-- An instruction that the code of a fragment can have: one that is given, one that addresses a flag
of the fragment, and one that is put in to listen, to resume or to skip. -/
structure Emits (layout : Option FlagLayout) (f : Fragment) (op : Op) : Prop where
  cases : op ∈ f.given ∨ op.isGlue ∨ ∃ flag ∈ f.flags,
    op = (layoutFor layout flag).test flag ∨ ∃ value, op = (layoutFor layout flag).assign flag value

theorem Emits.mono {layout : Option FlagLayout} {f g : Fragment} {op : Op} (h : f.Emits layout op)
    (hgiven : f.given ⊆ g.given) (hflags : f.flags ⊆ g.flags) : g.Emits layout op where
  cases := h.cases.imp (hgiven ·) (.imp id fun ⟨flag, hflag, h⟩ ↦ ⟨flag, hflags hflag, h⟩)

theorem Emits.glue {layout : Option FlagLayout} {f : Fragment} {op : Op} (h : op.isGlue) :
    f.Emits layout op := ⟨.inr (.inl h)⟩

section

variable {layout : Option FlagLayout} {f g k : Fragment} {op : Op}

theorem Emits.left (h : f.Emits layout op) (hgiven : k.given = f.given ++ g.given)
    (hflags : k.flags = f.flags ++ g.flags) : k.Emits layout op :=
  h.mono (hgiven ▸ List.subset_append_left _ _) (hflags ▸ List.subset_append_left _ _)

theorem Emits.right (h : g.Emits layout op) (hgiven : k.given = f.given ++ g.given)
    (hflags : k.flags = f.flags ++ g.flags) : k.Emits layout op :=
  h.mono (hgiven ▸ List.subset_append_right _ _) (hflags ▸ List.subset_append_right _ _)

end

theorem isGlue_skipTest (op : BinaryOp) (l : Label) :
    [.dup, skipJump op l, .pop].all Op.isGlue := by
  unfold skipJump
  split <;> rfl

theorem isGlue_adjust (counters : List Nat) (delta : Int32) : (adjust counters delta).all Op.isGlue := by
  rw [adjust, List.all_map]
  exact List.all_eq_true.mpr fun _ _ ↦ rfl

section

variable {P : Op → Prop} {a b : Assembler}

theorem adds_emitDetach (hP : ∀ op : Op, op.isGlue → P op) (h : Adds P a b) (p : SavePoint) :
    Adds P a (emitDetach b p) := by
  have hcode := (h.newLabel.newLabel.glue hP [.loadScratch p.handle, .dup, .jumpIfNull b.newLabel.1,
    .unsubscribe p.step, .pushNull, .storeScratch p.handle] rfl).glue hP _
    (isGlue_adjust p.counters (-1))
  exact (((hcode.emit (hP (.jump b.newLabel.2.newLabel.1) rfl)).place b.newLabel.1).emit
    (hP .pop rfl)).place b.newLabel.2.newLabel.1

theorem adds_emitDetaches (hP : ∀ op : Op, op.isGlue → P op) (h : Adds P a b) (points : List SavePoint) :
    Adds P a (points.foldl emitDetach b) := by
  induction points generalizing b with
  | nil => exact h
  | cons p points ih => exact ih (adds_emitDetach hP h p)

theorem adds_emitObserve (hP : ∀ op : Op, op.isGlue → P op) (h : Adds P a b) (property : String)
    (p : SavePoint) : Adds P a (emitObserve property p b) := by
  have hread := (h.newLabel.newLabel.newLabel.glue hP [.getObservable property, .dup,
    .loadScratch p.handle, .jumpIfSame b.newLabel.1, .loadScratch p.handle, .dup,
    .jumpIfNull b.newLabel.2.newLabel.1, .unsubscribe p.step] rfl).glue hP _
    (isGlue_adjust p.counters (-1))
  have hmove := ((hread.emit (hP (.jump b.newLabel.2.newLabel.2.newLabel.1) rfl)).place
    b.newLabel.2.newLabel.1).emit (hP .pop rfl)
  have hattach := ((hmove.place b.newLabel.2.newLabel.2.newLabel.1).glue hP
    [.storeScratch p.handle, .loadScratch p.handle, .subscribe p.step] rfl).glue hP _
    (isGlue_adjust p.counters 1)
  have hresume (l : Label) := (((hattach.keyedLabel (.step p.step)).emit (hP (.jump l) rfl)).place
    b.newLabel.1).emit (hP .pop rfl)
  exact ((hresume _).placeKey (.step p.step)).glue hP [.loadScratch p.handle, .observableValue] rfl

end

/-- The code of a fragment has the instructions that the fragment emits. -/
theorem adds_emit (layout : Option FlagLayout) (f : Fragment) (a : Assembler) :
    Adds (f.Emits layout) a (f.emit layout a) := by
  have hglue (f : Fragment) (op : Op) (h : op.isGlue) : f.Emits layout op := .glue h
  induction f generalizing a with
  | ops list => exact (Adds.refl a).emitAll fun op hop ↦ ⟨.inl hop⟩
  | append f g ih ih' =>
    exact ((ih a).mono fun _ h ↦ h.left rfl rfl).trans ((ih' _).mono fun _ h ↦ h.right rfl rfl)
  | nullGuard f g ih ih' =>
    have htest := (Adds.refl a).newLabel.newLabel.glue (hglue (nullGuard f g))
      [.dup, .jumpIfNull a.newLabel.1] rfl
    have hconvert := htest.trans ((ih _).mono fun _ h ↦ h.left rfl rfl)
    have hjump := ((hconvert.emit (hglue _ (.jump a.newLabel.2.newLabel.1) rfl)).place
      a.newLabel.1).emit (hglue _ .pop rfl)
    exact (hjump.trans ((ih' _).mono fun _ h ↦ h.right rfl rfl)).place a.newLabel.2.newLabel.1
  | shortCircuit op f g ih ih' =>
    have hleft := (Adds.refl a).newLabel.trans
      ((ih _).mono fun _ h ↦ (h.left rfl rfl : (shortCircuit op f g).Emits layout _))
    have hskip := hleft.glue (hglue _) [.dup, skipJump op a.newLabel.1, .pop] (isGlue_skipTest op _)
    exact (hskip.trans ((ih' _).mono fun _ h ↦ h.right rfl rfl)).place a.newLabel.1
  | flagTest flag => exact (Adds.refl a).emit ⟨.inr (.inr ⟨flag, List.mem_cons_self, .inl rfl⟩)⟩
  | flagAssign flag value =>
    exact (Adds.refl a).emit ⟨.inr (.inr ⟨flag, List.mem_cons_self, .inr ⟨value, rfl⟩⟩)⟩
  | observe property p => exact adds_emitObserve (hglue _) (.refl a) property p
  | branch op f g flag counter points ih ih' =>
    have hassign (value : Bool) :
        (branch op f g flag counter points).Emits layout ((layoutFor layout flag).assign flag value) :=
      ⟨.inr (.inr ⟨flag, List.mem_cons_self, .inr ⟨value, rfl⟩⟩)⟩
    have hsub {h : Fragment} (hgiven : h.given ⊆ f.given ++ g.given)
        (hflags : h.flags ⊆ f.flags ++ g.flags) (o : Op) (ho : h.Emits layout o) :
        (branch op f g flag counter points).Emits layout o :=
      ho.mono hgiven fun n hn ↦ List.mem_cons_of_mem _ (hflags hn)
    have hleft := (Adds.refl a).newLabel.newLabel.trans ((ih _).mono
      (hsub (List.subset_append_left _ _) (List.subset_append_left _ _)))
    have hskip := (hleft.glue (hglue _) [.dup, skipJump op a.newLabel.1, .pop]
      (isGlue_skipTest op _)).emit (hassign true)
    have hright := hskip.trans ((ih' _).mono
      (hsub (List.subset_append_right _ _) (List.subset_append_right _ _)))
    have htest := (((hright.emit (hglue _ (.jump a.newLabel.2.newLabel.1) rfl)).place
      a.newLabel.1).emit (hassign false)).glue (hglue _)
      [.counterLoad counter, .jumpIfZero a.newLabel.2.newLabel.1] rfl
    exact (adds_emitDetaches (hglue _) htest points).place a.newLabel.2.newLabel.1

theorem mem_emit {f : Fragment} {layout : Option FlagLayout} {a : Assembler} {op : Op}
    (h : op ∈ (f.emit layout a).ops) : op ∈ a.ops ∨ f.Emits layout op := adds_emit layout f a op h

/-- The code of a fragment takes the lock only where that is given. -/
theorem lockAcquire_mem_emit {f : Fragment} {layout : Option FlagLayout} {a : Assembler}
    (h : .lockAcquire ∈ (f.emit layout a).ops) : .lockAcquire ∈ a.ops ∨ .lockAcquire ∈ f.given := by
  refine (mem_emit h).imp id fun h ↦ ?_
  obtain h | h | ⟨flag, -, h | ⟨value, h⟩⟩ := h.cases
  · exact h
  · cases h
  · cases hl : layoutFor layout flag <;> rw [hl] at h <;> cases h
  · cases hl : layoutFor layout flag <;> rw [hl] at h <;> cases h

end Fragment

theorem composable_givesNoLock : Composable (.lockAcquire ∉ ·.given) where
  plain f h hmem := by
    induction f with
    | ops list => cases List.all_eq_true.mp h _ hmem
    | append f g ih ih' | nullGuard f g ih ih' | shortCircuit _ f g ih ih' =>
      obtain ⟨hf, hg⟩ := Bool.and_eq_true_iff.mp h
      exact (List.mem_append.mp hmem).elim (ih hf) (ih' hg)
    | flagTest | flagAssign | observe | branch => cases h
  append f g hf hg hmem := (List.mem_append.mp hmem).elim hf hg
  shortCircuit op f g hf hg hmem := (List.mem_append.mp hmem).elim hf hg

/-- Loading what a binding captures does not take the lock if that is not given. -/
theorem Compiles.lockAcquire_notMem_init {body coercion : Fragment} {t : Resumable}
    {layout : FlagLayout} {artifact : Artifact} (hc : Compiles body coercion t layout artifact)
    (hinit : .lockAcquire ∉ t.storage.init.given) : .lockAcquire ∉ artifact.init.ops := by
  rw [hc.init.routine_eq]
  simp only [Assembler.emit, Array.mem_push]
  rintro (hmem | hmem)
  · exact (lockAcquire_mem_emit hmem).elim (by simp [Assembler.empty]) hinit
  · cases hmem

namespace Locked

variable {body coercion : Fragment} {t : Resumable} {layout : FlagLayout} {artifact : Artifact}
variable {i : InstanceId} {s : Instance}

/-- Running the update routine of a compiled binding leaves no lock behind. -/
theorem executeUpdate (hc : Compiles body coercion t layout artifact)
    (hflags : s.flags.size = layout.storage) {r : Registry} {update : Updater} {fuel : Nat}
    {frame : Frame} (hb : frame.binding = some i) (n : Nat) :
    Ensures (fun m ↦ Locked i s 0 m.world ∧ m = { world := m.world })
      (execute r update fuel frame artifact.update n) (fun _ m ↦ m.locks = 0) (fun _ _ ↦ True) := by
  refine ensures_of_finishes (P := Locked i s 0) (Q := fun l _ ↦ l = 0) (E := fun _ _ _ ↦ True)
    (fun w h ↦ ?_) n
  obtain ⟨u, hu, hsu⟩ := h.found
  obtain ⟨k, hk⟩ := @Compiles.finishes_step r update fuel frame _ _ _ _ _ _ hc hb _ _ hu
    (hsu.flags.trans hflags) _ (toInt_countInt frame.step)
  refine ⟨_, k, hk, (hc.countsUpdate i _).mono (fun m hm ↦ ?_) (fun _ ↦ id) fun _ _ ↦ id⟩
  rw [hm.2]

/-- Every update, of the binding or of another one, leaves as many locks as there are. -/
theorem keepsUpdate (hc : Compiles body coercion t layout artifact) (hcode : s.artifact = artifact)
    (hflags : s.flags.size = layout.storage) (r : Registry) (fuel : Nat) (d : LockDepth) (j : InstanceId)
    (k : Nat) : Keeps (Locked i s d) (updateInstance r fuel j k) := by
  induction fuel generalizing d j k with
  | zero => exact .exhausted
  | succ fuel ih =>
    rw [updateInstance_succ]
    by_cases hj : j = i → d ≠ 0
    · exact keepsUpdateBy ih j hj k
    · obtain ⟨rfl, hd⟩ := Classical.not_imp.mp hj
      obtain rfl : d = 0 := not_not.mp hd
      refine ensures_updateBy (fun w _ h ↦ h.modifyInstance j fun _ _ ↦ ⟨rfl, rfl, rfl⟩)
        (fun w u h hu _ k ↦ ?_) k
      obtain ⟨u', hu', hsu⟩ := h.found
      obtain rfl : u = u' := Option.some.inj (hu.symm.trans hu')
      rw [hsu.code, hcode]
      refine (runOwn ih rfl (Q := (· = 0)) (executeUpdate hc hflags rfl fuel)).post fun _ w hw ↦ ?_
      obtain ⟨_, rfl, hw⟩ := hw
      exact hw

/-- A routine that never takes the lock holds none, whether it fails or not. -/
theorem executeUnheld {r : Registry} {update : Updater} {fuel : Nat} {frame : Frame} {R : Routine}
    (hR : .lockAcquire ∉ R.ops) (n : Nat) :
    Keeps (fun m ↦ m.locks = 0) (execute r update fuel frame R n) := by
  refine ensures_execute (I := fun l _ ↦ l = 0) (fun op hop ↦ ?_) n
  by_cases hlock : op.isLock
  case neg => exact keepsCount 0 hlock R
  cases op with
  | lockAcquire => exact absurd hop hR
  | lockRelease =>
    refine (keepsCount_state 0).bind fun s ↦ Ensures.bind (Q := fun _ (m : Machine) ↦ m.locks = 0)
      (fun m hm ↦ ?_) fun _ ↦ keepsCount_lift 0 _
    exact congrArg LockDepth.pred hm
  | _ => cases hlock

theorem executeUnlocked {r : Registry} {update : Updater} {fuel : Nat} {frame : Frame} {R : Routine}
    (hR : .lockAcquire ∉ R.ops) (n : Nat) :
    Ensures (fun m ↦ Locked i s 0 m.world ∧ m = { world := m.world })
      (execute r update fuel frame R n) (fun _ m ↦ m.locks = 0) (fun _ _ ↦ True) :=
  ((executeUnheld hR n).pre fun m hm ↦ by rw [hm.2]).anyError

/-- The host can make other bindings. -/
theorem addOther {d : LockDepth} {w : World} (h : Locked i s d w) (other : Artifact) :
    Locked i s d (w.addInstance other) := by
  obtain ⟨u, hu, hsu⟩ := h.found
  obtain ⟨cell, hcell, hd⟩ := Option.map_eq_some_iff.mp h.depth
  obtain ⟨hi, hui⟩ := Array.getElem?_eq_some_iff.mp hu
  obtain ⟨hc, -⟩ := Array.getElem?_eq_some_iff.mp hcell
  refine ⟨⟨u, ?_, hsu⟩, fun j u' hj hres ↦ ?_, ?_⟩
  · simp only [World.instance?, World.addInstance, Array.getElem?_push_lt hi, hui]
  · obtain ⟨-, rfl⟩ | hj := World.instance?_addInstance hj
    · exact absurd (congrArg CellId.index hres) (Nat.ne_of_gt hc)
    · exact h.own j u' hj hres
  · exact Option.map_eq_some_iff.mpr ⟨cell, World.cell?_newCell hcell .null, hd⟩

theorem createOther {r : Registry} {fuel : Nat}
    (hu : ∀ d j k, Keeps (Locked i s d) (updateInstance r fuel j k)) (other : Artifact) (d : LockDepth) :
    Keeps (Locked i s d) (createInstance r fuel other) := by
  intro w h
  obtain ⟨u, hu', -⟩ := h.found
  obtain ⟨hi, -⟩ := Array.getElem?_eq_some_iff.mp hu'
  have hne : (⟨w.instances.size⟩ : InstanceId) ≠ i := fun he ↦
    absurd (congrArg InstanceId.index he) (Nat.ne_of_gt hi)
  have hinit : Keeps (Locked i s d) (runInit r fuel ⟨w.instances.size⟩ other) :=
    (Run.keeps_view _).bind fun frame ↦
      (runForeign hu (fun h ↦ hne (Option.some.inj h)) _ d).bind fun _ ↦ hu d _ 0
  have hend := hinit _ (h.addOther other)
  rw [createInstance_eq]
  rcases hx : runInit r fuel ⟨w.instances.size⟩ other (w.addInstance other) with ⟨(e | -) | a, w'⟩ <;>
    rw [hx] at hend
  · exact hend.modifyInstance _ fun _ _ ↦ ⟨rfl, rfl, rfl⟩
  · trivial
  · exact hend

/-- Nothing that happens around a binding touches its locks. -/
theorem hostStep {r : Registry} (hu : ∀ fuel d j k, Keeps (Locked i s d) (updateInstance r fuel j k))
    {d : LockDepth} {w w' : World} (hstep : HostStep r i w w') (h : Locked i s d w) : Locked i s d w' := by
  have hI := hostStable i s d
  cases hstep with
  | create fuel other _ hne => exact (createOther (hu fuel) other d).apply h hne
  | set fuel o property v _ hne => exact ((hI.host (hu fuel d) fuel).writeProperty o property v).apply h hne
  | update fuel j k _ hne => exact (hu fuel d j k).apply h hne
  | store c v _ => exact hI.store c v w h
  | tell fuel c listener _ hne => exact ((hI.host (hu fuel d) fuel).notifyAll c [listener]).apply h hne
  | instruction fuel frame R op m hb hne =>
    exact (stepForeign (hu fuel) hb op R d).apply (s := m) h hne

end Locked

/-- Every binding publishes to a cell of its own. -/
structure World.OwnResults (w : World) : Prop where
  exist : ∀ j t, w.instance? j = some t → t.result.index < w.cells.size
  apart : ∀ i j s t, w.instance? i = some s → w.instance? j = some t → s.result = t.result → i = j

theorem World.OwnResults.addInstance {w : World} (h : w.OwnResults) (artifact : Artifact) :
    (w.addInstance artifact).OwnResults where
  exist j t ht := by
    show t.result.index < (w.cells.push _).size
    rw [Array.size_push]
    obtain ⟨-, rfl⟩ | ht := instance?_addInstance ht
    · exact Nat.lt_succ_self _
    · exact Nat.lt_succ_of_lt (h.exist j t ht)
  apart i j s t hs ht he := by
    obtain ⟨rfl, rfl⟩ | hs := instance?_addInstance hs <;>
      obtain ⟨rfl, rfl⟩ | ht := instance?_addInstance ht
    · rfl
    · exact absurd (congrArg CellId.index he) (Nat.ne_of_gt (h.exist j t ht))
    · exact absurd (congrArg CellId.index he) (Nat.ne_of_lt (h.exist i s hs))
    · exact h.apart i j s t hs ht he

namespace Locked

variable {i : InstanceId} {s : Instance} {d : LockDepth} {w : World}

theorem ofOwn (h : w.OwnResults) (hs : w.instance? i = some s) (hd : w.lockDepth? i = some d) :
    Locked i s d w where
  found := ⟨s, hs, rfl, rfl, rfl⟩
  own j t ht hres := h.apart j i t s ht hs hres
  depth := by simpa only [World.lockDepth?, World.resultCell?, hs, Option.map_some, Option.bind_some] using hd

/-- A new binding is not locked. -/
theorem start (h : w.OwnResults) (artifact : Artifact) :
    Locked ⟨w.instances.size⟩ (.new artifact (w.newCell .null).1) 0 (w.addInstance artifact) where
  found := ⟨_, by simp only [World.instance?, World.addInstance, Array.getElem?_push_size], rfl, rfl, rfl⟩
  own j t hj hres := by
    obtain ⟨rfl, -⟩ | hj := World.instance?_addInstance hj
    · rfl
    · exact absurd (congrArg CellId.index hres) (Nat.ne_of_lt (h.exist j t hj))
  depth := by
    simp only [World.cell?, World.addInstance, World.newCell, Instance.new, Array.getElem?_push_size]
    rfl

/-- A binding is made unlocked, whether that fails or not, if what it loads does not take the lock. -/
theorem create {body coercion : Fragment} {t : Resumable} {layout : FlagLayout} {artifact : Artifact}
    (hc : Compiles body coercion t layout artifact) (hinit : .lockAcquire ∉ t.storage.init.given)
    {r : Registry} {fuel : Nat} (h : w.OwnResults)
    (hne : (createInstance r fuel artifact w).1 ≠ .error .exhausted) :
    Locked ⟨w.instances.size⟩ (.new artifact (w.newCell .null).1) 0
      (createInstance r fuel artifact w).2 := by
  let s : Instance := .new artifact (w.newCell .null).1
  have hu := keepsUpdate (i := ⟨w.instances.size⟩) (s := s) hc rfl
    ((Instance.size_flags_new _ _).trans (congrArg _ hc.flags)) r fuel
  have hops := hc.lockAcquire_notMem_init hinit
  have hrun : Keeps (Locked ⟨w.instances.size⟩ s 0) (runInit r fuel ⟨w.instances.size⟩ artifact) :=
    (Run.keeps_view _).bind fun frame ↦
      ((runOwn hu rfl (Q := (· = 0)) (executeUnlocked hops fuel)).post fun _ w hw ↦ by
        obtain ⟨_, rfl, hw⟩ := hw
        exact hw).bind fun _ ↦ hu 0 _ 0
  have hend := hrun _ (start h artifact)
  rw [createInstance_eq] at hne ⊢
  rcases hx : runInit r fuel ⟨w.instances.size⟩ artifact (w.addInstance artifact) with
    ⟨(e | -) | a, w'⟩ <;> rw [hx] at hend
  · exact hend.modifyInstance _ fun _ _ ↦ ⟨rfl, rfl, rfl⟩
  · rw [hx] at hne
    exact absurd rfl hne
  · exact hend

end Locked

namespace CompileContext

variable {cx : CompileContext} {scope : Scope} {parsed : ParsedExpr} {tree : Tree}
variable {target : Option BindingTarget} {b : DynamicBinding}

/-- The result of a binding is unlocked again after a run that fails, whatever the routine, if no
update of the binding starts meanwhile. The result of a compiled binding is unlocked again after
everything that happens to it and around it, and from when it is made on if what it loads does not
take the lock. -/
theorem result_unlocked (htree : cx.buildTree scope parsed = .ok tree)
    (hcompile : cx.compileArtifact tree target = .ok b) (r : Registry) :
    (∀ (fuel : Nat) (frame : Frame) (R : Routine) (i : InstanceId) (w w' : World) (e : RuntimeError),
      w.OwnResults → frame.binding = some i → w.lockDepth? i = some 0 →
        StartsNoUpdate r i fuel frame R w →
          runRoutine r (updateInstance r fuel) fuel frame R w = (.error (.error e), w') →
            w'.lockDepth? i = some 0) ∧
    (∀ (i : InstanceId) (s : Instance) (w w' : World), w.OwnResults → w.instance? i = some s →
      s.artifact = b.artifact → s.flags.size = b.artifact.flags.storage → w.lockDepth? i = some 0 →
        Relation.ReflTransGen (HostStep r i) w w' → w'.lockDepth? i = some 0) ∧
    ((∀ name l, scope.lookup? name = some (.bound l) → .lockAcquire ∉ l.load.given) →
      ∀ (fuel : Nat) (w w' : World), w.OwnResults →
        (createInstance r fuel b.artifact w).1 ≠ .error .exhausted →
          Relation.ReflTransGen (HostStep r ⟨w.instances.size⟩) (createInstance r fuel b.artifact w).2 w' →
            w'.lockDepth? ⟨w.instances.size⟩ = some 0) := by
  have hroot := (Tree.build_resolved htree).1
  obtain ⟨coercion, -, -, hc⟩ := compileArtifact_eq hcompile (Node.Resolved.isPlain tree.root hroot)
  have hsteps {i : InstanceId} {s : Instance} (hcode : s.artifact = b.artifact)
      (hflags : s.flags.size = b.artifact.flags.storage) {w w' : World} (h : Locked i s 0 w)
      (hrun : Relation.ReflTransGen (HostStep r i) w w') : Locked i s 0 w' := by
    induction hrun with
    | refl => exact h
    | tail _ hstep ih => exact ih.hostStep (Locked.keepsUpdate hc hcode (hc.flags ▸ hflags) r) hstep
  refine ⟨fun fuel frame R i w w' e hown hb hd hstarts hrun ↦ ?_,
    fun i s w w' hown hs hcode hflags hd hrun ↦ ?_, fun hscope fuel w w' hown hne hrun ↦ ?_⟩
  · obtain ⟨s, hs⟩ : ∃ s, w.instance? i = some s := by
      cases hi : w.instance? i with
      | none => simp [World.lockDepth?, World.resultCell?, hi] at hd
      | some s => exact ⟨s, rfl⟩
    have hany : Keeps (fun _ : Machine ↦ True) (execute r (updateSparing r i fuel) fuel frame R fuel) :=
      .const
    have hend := Locked.runOwn (s := s) (Q := fun _ ↦ True) (Locked.keepsSparing r fuel) hb
      (hany.pre fun _ _ ↦ trivial) w (.ofOwn hown hs hd)
    rw [← hstarts.run_eq, hrun] at hend
    exact hend.lockDepth_eq
  · exact (hsteps hcode hflags (.ofOwn hown hs hd) hrun).lockDepth_eq
  · have hinit := composable_init composable_givesNoLock (by simp [Fragment.op, given]) hroot hscope
    exact (hsteps rfl (Instance.size_flags_new _ _) (.create hc hinit hown hne) hrun).lockDepth_eq

end CompileContext

namespace Sample

/-- A name whose loading takes the lock of the result. -/
def locking : Loadable := ⟨⟨1⟩, "y", .boolean, .ops [.lockAcquire, .pushBool true]⟩

def lockingConjunction : ParsedExpr where
  source := "y && x.p"
  root := .binary ⟨0, 8⟩ .and (.ident ⟨0, 1⟩ "y") (.field ⟨5, 8⟩ (.ident ⟨5, 6⟩ "x") "p")
  base := 0

/-- A routine that takes the lock and fails. -/
def failing : Routine := ⟨#[.lockAcquire, .fault "stop"], #[]⟩

theorem ownResults (p q : Bool) : (world p q).OwnResults := by
  constructor <;> simp [World.instance?, world]

end Sample

open Sample in
/-- Loading a name can take the lock for good. Then even the first evaluation is put off. -/
theorem createInstance_locked :
    let tree := treeOf context (scope.bind locking) lockingConjunction
    let made := createInstance registry 50 (bindingOf context tree).artifact (world true true)
    context.buildTree (scope.bind locking) lockingConjunction = .ok tree ∧
      context.compileArtifact tree none = .ok (bindingOf context tree) ∧ (world true true).OwnResults ∧
        made.1.isOk ∧ made.2.lockDepth? ⟨0⟩ = some 1 ∧ made.2.valueOf ⟨0⟩ = .null := by
  intro tree made
  obtain ⟨htree, hbinding, hmade⟩ : (context.buildTree (scope.bind locking) lockingConjunction).isOk ∧
      (context.compileArtifact tree none).isOk ∧
      made.1.isOk ∧ made.2.lockDepth? ⟨0⟩ = some 1 ∧ made.2.valueOf ⟨0⟩ = .null := by decide +kernel
  exact ⟨treeOf_eq htree, bindingOf_eq hbinding, ownResults true true, hmade⟩

open Sample in
/-- A routine that stops while it holds the lock, an update at a step that there is not, and a binding
whose left operand changes once it is made. -/
theorem result_unlocked_conjunction :
    let w := (world true true).addInstance binding.artifact
    let failed := runRoutine registry (updateInstance registry 50) 50 { binding := some ⟨0⟩ } failing w
    let updated := updateInstance registry 50 ⟨0⟩ 7 w
    let made := createInstance registry 50 binding.artifact (world true true)
    let changed := setProperty registry 50 ⟨0⟩ "p" (.bool false) made.2
    failed.1 = .error (.error (.fault "stop")) ∧ failed.2.lockDepth? ⟨0⟩ = some 0 ∧
      updated.1 = .error (.error (.fault "dispatch step out of range")) ∧
        updated.2.lockDepth? ⟨0⟩ = some 0 ∧
      made.1.isOk ∧ changed.1.isOk ∧ changed.2.lockDepth? ⟨0⟩ = some 0 := by
  intro w failed updated made changed
  obtain ⟨hany, hcompiled, hmade⟩ := CompileContext.result_unlocked buildTree_eq compileArtifact_eq registry
  have hown : w.OwnResults := (ownResults true true).addInstance binding.artifact
  obtain ⟨hfailed, hupdated, hok⟩ : failed.1 = .error (.error (.fault "stop")) ∧
      updated.1 = .error (.error (.fault "dispatch step out of range")) ∧
      made.1.isOk ∧ changed.1.isOk := by decide +kernel
  have hne {α : Type} {x : Except Stop α} (h : x.isOk) : x ≠ .error .exhausted := by
    rintro rfl
    cases h
  refine ⟨hfailed, ?_, hupdated, ?_, hok.1, hok.2, ?_⟩
  · have hrun : failed = (.error (.error (.fault "stop")), failed.2) := by
      rw [← hfailed]
      exact Prod.mk.eta.symm
    exact hany 50 { binding := some ⟨0⟩ } failing ⟨0⟩ w failed.2 _ hown rfl (by decide +kernel)
      (by unfold StartsNoUpdate; decide +kernel) hrun
  · have hends : updated.1 ≠ .error .exhausted := by
      rw [hupdated]
      simp
    exact hcompiled ⟨0⟩ (.new binding.artifact ⟨2⟩) w updated.2 hown rfl (Instance.artifact_new _ _)
      (Instance.size_flags_new _ _) (by decide +kernel) (.single (.update 50 ⟨0⟩ 7 w hends))
  · have hload (name : String) (l : Loadable) (hl : scope.lookup? name = some (.bound l)) :
        .lockAcquire ∉ l.load.given := composable_givesNoLock.plain _ (isPlain_load name l hl)
    exact hmade hload 50 (world true true) changed.2 (ownResults true true) (hne hok.1)
      (.single (.set 50 ⟨0⟩ "p" (.bool false) made.2 (hne hok.2)))

end LiveBinding
