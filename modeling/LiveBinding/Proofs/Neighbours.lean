import LiveBinding.Proofs.Deployment

/-!
What a binding keeps true while its neighbours run. A condition that `Tends` says what is left to steps of
the binding: it stays when something happens beside the binding, and a property that is written leaves
something to the steps that listen to it. If updates do what is left to their steps, then so does all that
the host does: its own code, the updates of other bindings whatever their instructions are, and telling
listeners one after the other (`Tends.host`, `Tends.upholds`). Nothing is said of what fails.
-/

namespace LiveBinding

open Exec

/-- A computation that starts where one condition holds ends well only where another one holds. -/
abbrev Attains {σ α : Type} (P : σ → Prop) (x : ExceptT Stop (StateM σ) α) (Q : σ → Prop) : Prop :=
  Ensures P x (fun _ ↦ Q) fun _ _ ↦ True

namespace Deployment

variable (D : Deployment)

/-- A condition on worlds that says what is left to some steps of the binding. -/
structure Tends (I : List Nat → World → Prop) : Prop where
  sound : ∀ {ks w}, I ks w → ∃ s on, D.Sound w s on
  beside : ∀ {ks w w'}, D.Beside w w' → I ks w → I ks w'
  store : ∀ {ks w o property c cell x}, I ks w → w.observable? o property = some c →
    w.cell? c = some cell → w.Accepts D.registry c x →
      I (Listener.stepsOf D.id cell.listeners ++ ks) (w.modifyCell c ({ · with value := x }))

/-- An update of the binding does what is left to its step. One of another binding leaves things as they
are. -/
structure Upholds (I : List Nat → World → Prop) (update : Updater) : Prop where
  own : ∀ k ∈ D.body.steps, ∀ ks, Attains (I (k :: ks)) (update D.id k) (I ks)
  other : ∀ j ≠ D.id, ∀ k ks, Attains (I ks) (update j k) (I ks)

/-- Methods leave a condition as it is. -/
def Spares (I : List Nat → World → Prop) (update : Updater) (fuel : Nat) : Prop :=
  ∀ m args ks, Attains (I ks) (invokeMethod D.host update fuel m args) (I ks)

/-- Methods do no harm to any condition that updates uphold. -/
def Peaceful : Prop :=
  ∀ I, D.Tends I → ∀ update, D.Upholds I update → ∀ fuel, D.Spares I update fuel

/-- What is left to the listeners of a cell, which are told of its change now or when it is unlocked. -/
structure Due (I : List Nat → World → Prop) (c : CellId) (ks : List Nat) (w : World) : Prop where
  left : ∀ cell, w.cell? c = some cell → I (Listener.stepsOf D.id cell.listeners ++ ks) w
  locked : ∀ cell, w.cell? c = some cell → cell.isLocked → D.Foreign w c
  gone : w.cell? c = none → I ks w

/-- Code of the host upholds a condition. -/
structure HostUpholds (I : List Nat → World → Prop) (update : Updater) (fuel : Nat) : Prop where
  perform : ∀ {α : Type} {Q : Except RuntimeError α → Prop} (action : Action α) ks,
    action.Tame D.host D.Around Q →
      Ensures (I ks) (action.perform D.host update fuel) (fun a w ↦ I ks w ∧ Q (.ok a)) fun _ _ ↦ True
  notifyAll : ∀ c ls ks, D.Knows c ls →
    Attains (I (Listener.stepsOf D.id ls ++ ks)) (notifyAll D.host update fuel c ls) (I ks)
  notify : ∀ c ks, Attains (D.Due I c ks) (notify D.host update fuel c) (I ks)
  writeCell : ∀ c v ks, Attains (fun w ↦ I ks w ∧ (D.Foreign w c ∨
    (∃ o property, w.observable? o property = some c) ∧ w.Accepts D.registry c v))
      (writeCell D.host update fuel c v) (I ks)
  writeProperty : ∀ o property v ks, Attains (fun w ↦ I ks w ∧
    ∃ c, w.observable? o property = some c ∧ w.Accepts D.registry c v)
      (writeProperty D.host update fuel o property v) (I ks)

variable {D} {I : List Nat → World → Prop} {update : Updater}

theorem Knows.tail {c : CellId} {l : Listener} {ls : List Listener} (h : D.Knows c (l :: ls)) :
    D.Knows c ls where
  own k hk := h.own k (Listener.mem_stepsOf.mpr (List.mem_cons_of_mem _ (Listener.mem_stepsOf.mp hk)))
  callbacks action ha := h.callbacks action (List.mem_cons_of_mem _ ha)

namespace Tends

variable (hI : D.Tends I)
include hI

theorem held {ks : List Nat} {w : World} (held : List Value) (h : I ks w) :
    I ks { w with held := held } := by
  refine hI.beside (w := w) ?_ h
  exact .ofEq rfl rfl rfl rfl rfl

theorem logEvent {ks : List Nat} {w : World} (e : Event) (h : I ks w) : I ks (w.logEvent e) := by
  refine hI.beside (w := w) ?_ h
  exact .ofEq rfl rfl rfl rfl rfl

/-- A cell that another binding publishes to may change altogether: the binding does not listen to it. -/
theorem due_of_foreign {ks : List Nat} {c : CellId} {w : World} (h : I ks w) (hc : D.Foreign w c) :
    D.Due I c ks w := by
  obtain ⟨s, on, hs⟩ := hI.sound h
  refine ⟨fun cell hcell ↦ ?_, fun _ _ _ ↦ hc, fun _ ↦ h⟩
  rw [hs.stepsOf_eq_nil hcell fun o p hp ↦ hs.not_foreign_of_slot hp hc]
  exact h

/-- Storing another value in the cell of a property leaves something to its listeners. -/
theorem due_of_store {ks : List Nat} {w : World} {o : ObjectId} {property : String} {c : CellId}
    {x : Value} (h : I ks w) (hslot : w.observable? o property = some c)
    (hx : w.Accepts D.registry c x) : D.Due I c ks (w.modifyCell c ({ · with value := x })) := by
  obtain ⟨s, on, hs⟩ := hI.sound h
  obtain ⟨cell, hcell⟩ : ∃ cell, w.cell? c = some cell :=
    ⟨_, Array.getElem?_eq_getElem (hs.conforms.exist o property c hslot)⟩
  have hcell' : (w.modifyCell c ({ · with value := x })).cell? c = some { cell with value := x } := by
    rw [World.cell?_modifyCell, if_pos rfl, hcell]
    rfl
  have hstore := hI.store h hslot hcell hx
  refine ⟨fun cell' h' ↦ ?_, fun cell' h' hlocked ↦ ?_, fun hnone ↦ ?_⟩
  · obtain rfl := Option.some.inj (hcell'.symm.trans h')
    exact hstore
  · obtain rfl := Option.some.inj (hcell'.symm.trans h')
    have hdepth := hs.unlocked o property c cell hslot hcell
    simp [Cell.isLocked, hdepth] at hlocked
  · rw [hcell'] at hnone
    cases hnone

section

variable {fuel : Nat} (ih : D.HostUpholds I update fuel)
include ih

/-- Tame code leaves a condition as it is, if what it goes on to does. -/
theorem perform_succ {α : Type} {Q : Except RuntimeError α → Prop} (action : Action α) (ks : List Nat)
    (ht : action.Tame D.host D.Around Q) :
    Ensures (I ks) (action.perform D.host update (fuel + 1)) (fun a w ↦ I ks w ∧ Q (.ok a))
      fun _ _ ↦ True := by
  have hview {β : Type} (f : World → β) (next : β → Action α)
      (hnext : ∀ w, D.Around w → (next (f w)).Tame D.host D.Around Q) :
      Ensures (I ks) (Run.view f >>= fun b ↦ (next b).perform D.host update fuel)
        (fun a w ↦ I ks w ∧ Q (.ok a)) fun _ _ ↦ True := by
    intro w hw
    obtain ⟨s, on, hs⟩ := hI.sound hw
    exact ih.perform _ ks (hnext w hs.around) w hw
  have hlog (e : World → Event) (next : Action α) (hnext : next.Tame D.host D.Around Q) :
      Ensures (I ks) (Run.change (fun w ↦ w.logEvent (e w)) >>= fun _ ↦
        next.perform D.host update fuel) (fun a w ↦ I ks w ∧ Q (.ok a)) fun _ _ ↦ True :=
    Ensures.bind (Q := fun _ ↦ I ks) (fun w hw ↦ hI.logEvent (e w) hw) fun _ ↦ ih.perform _ ks hnext
  cases action with
  | done a => exact fun w hw ↦ ⟨hw, ht⟩
  | fail e => exact fun _ _ ↦ trivial
  | get o property next | text v next | find name next => exact hview _ next ht
  | set o property v next =>
    refine Ensures.bind (Q := fun _ ↦ I ks) (fun w hw ↦ ?_) fun _ ↦ ih.perform _ ks ht.2
    obtain ⟨s, on, hs⟩ := hI.sound hw
    obtain ⟨c, hc, hv⟩ := ht.1 w hs.around
    exact ih.writeProperty o property v ks w ⟨hw, c, hc, hv.of_model D.model.symm⟩
  | make => exact ht.elim
  | ifLive o live dead =>
    refine Ensures.bind (Q := fun _ ↦ I ks) (fun w hw ↦ hw) fun isLive ↦ ?_
    split
    · exact Run.ensures_holding _ (ih.perform live ks ht.1) (fun _ held ↦ hI.held held)
        (fun _ _ held ↦ And.imp_left (hI.held held)) fun _ _ _ _ ↦ trivial
    · exact ih.perform dead ks ht.2
  | logCall method args next => exact hlog _ next ht
  | logWatch tag v next => exact hlog _ next ht

/-- The first of some listeners is told, and then the others are. -/
theorem notifyAll_succ (hu : D.Upholds I update) (c : CellId) (ls : List Listener) (ks : List Nat)
    (hls : D.Knows c ls) :
    Attains (I (Listener.stepsOf D.id ls ++ ks)) (notifyAll D.host update (fuel + 1) c ls) (I ks) := by
  cases ls with
  | nil => exact fun _ hw ↦ hw
  | cons l ls =>
    have hrest := ih.notifyAll c ls ks hls.tail
    cases l with
    | binding j k =>
      refine Ensures.bind (Q := fun alive w ↦ I (Listener.stepsOf D.id (.binding j k :: ls) ++ ks) w ∧
        ((w.instance? j).map Instance.alive).getD false = alive) (fun w hw ↦ ⟨hw, rfl⟩) fun alive ↦ ?_
      by_cases hj : j = D.id
      · subst hj
        have hsteps : Listener.stepsOf D.id (.binding D.id k :: ls) = k :: Listener.stepsOf D.id ls := by
          simp [Listener.stepsOf, Listener.stepOf?]
        have hk : k ∈ D.body.steps := hls.own k (Listener.mem_stepsOf.mpr List.mem_cons_self)
        rw [hsteps]
        split
        · exact ((hu.own k hk _).pre fun _ ↦ And.left).bind fun _ ↦ hrest
        · next hdead =>
          rintro w ⟨hw, halive⟩
          obtain ⟨s, on, hs⟩ := hI.sound hw
          rw [hs.tracks.found] at halive
          exact absurd (halive.symm.trans hs.alive) hdead
      · have hsteps : Listener.stepsOf D.id (.binding j k :: ls) = Listener.stepsOf D.id ls := by
          simp [Listener.stepsOf, Listener.stepOf?, hj]
        rw [hsteps]
        split
        · exact ((hu.other j hj k _).pre fun _ ↦ And.left).bind fun _ ↦ hrest
        · exact hrest.pre fun _ ↦ And.left
    | callback action =>
      refine Ensures.bind (Q := fun v w ↦ I (Listener.stepsOf D.id ls ++ ks) w ∧ w.cellValue c = v)
        (fun w hw ↦ ⟨hw, rfl⟩) fun v ↦ Ensures.bind (Q := fun _ ↦ I (Listener.stepsOf D.id ls ++ ks))
          ?_ fun _ ↦ hrest
      rintro w ⟨hw, rfl⟩
      obtain ⟨s, on, hs⟩ := hI.sound hw
      have hperform := (ih.perform (action (w.cellValue c)) (Listener.stepsOf D.id ls ++ ks)
        (hls.callbacks action List.mem_cons_self w hs.around)).post fun _ _ ↦ And.left
      exact Run.ensures_holding _ hperform (fun _ held ↦ hI.held held) (fun _ _ held ↦ hI.held held)
        (fun _ _ _ _ ↦ trivial) w hw

/-- A cell tells its listeners, or remembers to: then it is the cell of another binding. -/
theorem notify_succ (c : CellId) (ks : List Nat) :
    Attains (D.Due I c ks) (notify D.host update (fuel + 1) c) (I ks) := by
  refine Ensures.bind (Q := fun found w ↦ D.Due I c ks w ∧ w.cell? c = found) (fun w hw ↦ ⟨hw, rfl⟩)
    fun found ↦ ?_
  cases found with
  | none => exact fun w hw ↦ hw.1.gone hw.2
  | some cell =>
    dsimp only
    split
    · next hlocked =>
      rintro w ⟨hw, hc⟩
      have hforeign := hw.locked cell hc hlocked
      have hleft := hw.left cell hc
      obtain ⟨s, on, hs⟩ := hI.sound hleft
      rw [hs.stepsOf_eq_nil hc fun o p hp ↦ hs.not_foreign_of_slot hp hforeign] at hleft
      exact hI.beside (.modifyForeign hforeign fun _ ↦ rfl) hleft
    · rintro w ⟨hw, hc⟩
      have hleft := hw.left cell hc
      obtain ⟨s, on, hs⟩ := hI.sound hleft
      exact ih.notifyAll c _ ks (hs.knows hc) w hleft

/-- What is written to a cell is stored, and its listeners are told. -/
theorem writeCell_succ (c : CellId) (v : Value) (ks : List Nat) :
    Attains (fun w ↦ I ks w ∧ (D.Foreign w c ∨
      (∃ o property, w.observable? o property = some c) ∧ w.Accepts D.registry c v))
        (writeCell D.host update (fuel + 1) c v) (I ks) := by
  refine Ensures.bind (Q := fun _ ↦ fun w ↦ I ks w ∧ (D.Foreign w c ∨
    (∃ o property, w.observable? o property = some c) ∧ w.Accepts D.registry c v))
      (fun w hw ↦ hw) fun old ↦ ?_
  split
  · exact fun w hw ↦ hw.1
  · refine Ensures.bind (Q := fun _ ↦ D.Due I c ks) ?_ fun _ ↦ ih.notify c ks
    rintro w ⟨hw, hforeign | ⟨⟨o, property, hslot⟩, hv⟩⟩
    · exact hI.due_of_foreign (hI.beside (.modifyForeign hforeign fun _ ↦ rfl) hw) hforeign
    · exact hI.due_of_store hw hslot hv

omit hI in
theorem writeProperty_succ (o : ObjectId) (property : String) (v : Value) (ks : List Nat) :
    Attains (fun w ↦ I ks w ∧ ∃ c, w.observable? o property = some c ∧ w.Accepts D.registry c v)
      (writeProperty D.host update (fuel + 1) o property v) (I ks) := by
  refine Ensures.bind (Q := fun slot w ↦ (I ks w ∧ ∃ c, w.observable? o property = some c ∧
    w.Accepts D.registry c v) ∧ w.slot? o property = slot) (fun w hw ↦ ⟨hw, rfl⟩) fun slot ↦ ?_
  rintro w ⟨⟨hw, c, hc, hv⟩, rfl⟩
  rw [World.observable?_eq_some.mp hc]
  exact ih.writeCell c v ks w ⟨hw, .inr ⟨⟨o, property, hc⟩, hv⟩⟩

end

/-- Code of the host upholds what updates uphold. The induction is on the steps that it is given: host
code, telling listeners and writing come to one another in turn. -/
theorem host (hu : D.Upholds I update) (fuel : Nat) : D.HostUpholds I update fuel := by
  induction fuel with
  | zero =>
    refine ⟨fun action ks _ ↦ ?_, fun c ls ks _ ↦ ?_, fun _ _ ↦ .exhausted, fun _ _ _ ↦ .exhausted,
      fun _ _ _ _ ↦ .exhausted⟩
    · rw [Action.perform]
      exact .exhausted
    · cases ls with
      | nil => exact fun _ hw ↦ hw
      | cons => exact .exhausted
  | succ fuel ih =>
    exact ⟨hI.perform_succ ih, hI.notifyAll_succ ih hu, hI.notify_succ ih, hI.writeCell_succ ih,
      writeProperty_succ ih⟩

/-- Giving back a lock of the cell of another binding. -/
theorem unlockForeign (hu : D.Upholds I update) (fuel : Nat) (c : CellId) (ks : List Nat) :
    Attains (fun w ↦ I ks w ∧ D.Foreign w c) (unlockCell D.host update fuel c) (I ks) := by
  refine Ensures.bind (Q := fun _ w ↦ I ks w ∧ D.Foreign w c) (fun w hw ↦ hw) fun found ↦ ?_
  cases found with
  | none => exact fun w hw ↦ hw.1
  | some cell =>
    dsimp only
    split
    · refine Ensures.bind (Q := fun _ ↦ D.Due I c ks) (fun w hw ↦ ?_) fun _ ↦ (hI.host hu fuel).notify c ks
      exact hI.due_of_foreign (hI.beside (.modifyForeign hw.2 fun _ ↦ rfl) hw.1) hw.2
    · exact fun w hw ↦ hI.beside (.modifyForeign hw.2 fun _ ↦ rfl) hw.1

section

variable {fuel : Nat} {frame : Frame} {j : InstanceId} (hj : j ≠ D.id) (hb : frame.binding = some j)
variable (hu : D.Upholds I update) (hm : D.Spares I update fuel) (ks : List Nat)
include hj hb hu hm

/-- Every instruction of another binding leaves the condition as it is. -/
theorem step (R : Routine) (op : Op) :
    Attains (fun m ↦ I ks m.world) (step D.host update fuel frame R op) (fun m ↦ I ks m.world) := by
  have hlift {α : Type} {x : Run α} {P : World → Prop} (hP : ∀ w held, P w → P { w with held := held })
      (h : Attains P x (I ks)) : Attains (fun m ↦ P m.world) (lift x) (fun m ↦ I ks m.world) :=
    ensures_lift (P := fun _ ↦ P) (Q := fun _ ↦ I ks) (R := fun _ _ ↦ True) (fun _ ↦ hP)
      (fun _ _ held ↦ hI.held held) (fun _ _ _ _ ↦ trivial) fun _ ↦ h
  have hstate := (ensures_state (I := fun _ ↦ I ks) (E := fun _ _ ↦ True) (fun _ _ _ ↦ trivial)
    frame).post fun s m ⟨hm, i, hi, hs⟩ ↦ show I ks m.world ∧ D.Foreign m.world s.result by
      cases hb.symm.trans hi
      exact ⟨hm, j, s, hs, hj, rfl⟩
  have hforeign (c : CellId) (w : World) (held : List Value) (h : I ks w ∧ D.Foreign w c) :
      I ks { w with held := held } ∧ D.Foreign { w with held := held } c := ⟨hI.held held h.1, h.2⟩
  by_cases hop : op.isLock
  · cases op with
    | lockAcquire =>
      refine hstate.bind fun s ↦ Ensures.bind (Q := fun _ m ↦ I ks (Machine.world m)) ?_ fun _ _ hm ↦ hm
      exact hlift (hforeign s.result) fun w hw ↦ hI.beside (.modifyForeign hw.2 fun _ ↦ rfl) hw.1
    | lockRelease =>
      refine hstate.bind fun s ↦ Ensures.bind (Q := fun _ m ↦ I ks (Machine.world m) ∧
        D.Foreign m.world s.result) (fun _ hm ↦ hm) fun _ ↦ ?_
      exact hlift (hforeign s.result) (hI.unlockForeign hu fuel s.result ks)
    | _ => cases hop
  · refine ensures_step_of (I := fun _ ↦ I ks) (fun _ _ _ ↦ trivial) (fun m args ↦ ?_)
      (fun i s v hi ↦ ?_) (fun _ w i s t hi hs hst hw ↦ ?_) (fun _ _ w i k c hi hw ↦ ?_) hop R
    · exact hlift (fun _ held ↦ hI.held held) (hm m args ks)
    · cases hb.symm.trans hi
      refine (hlift (hforeign s.result) ?_).pre fun m h ↦ ⟨h.1, j, s, h.2, hj, rfl⟩
      exact ((hI.host hu fuel).writeCell s.result v ks).pre fun w h ↦ ⟨h.1, .inl h.2⟩
    · cases hb.symm.trans hi
      refine hI.beside (.modifyInstance hj fun s' hs' ↦ ?_) hw
      obtain rfl := Option.some.inj (hs'.symm.trans hs)
      exact hst.result
    · cases hb.symm.trans hi
      exact ⟨hI.beside (Beside.listeners hj k c w).1 hw, hI.beside (Beside.listeners hj k c w).2 hw⟩

theorem runRoutine (R : Routine) : Attains (I ks) (runRoutine D.host update fuel frame R) (I ks) := by
  refine ensures_runRoutine (E := fun _ _ _ ↦ True) (Q := fun _ ↦ I ks) ?_ fun _ _ _ ↦ .const
  exact (ensures_execute (I := fun _ ↦ I ks) (E := fun _ _ ↦ True)
    (fun op _ ↦ hI.step hj hb hu hm ks R op) fuel).pre fun _ ↦ And.left

end

/-- Updates uphold a condition if those of the binding do, as long as the updates that they come to in
turn uphold it. -/
theorem upholds (hm : D.Peaceful)
    (hown : ∀ fuel, D.Upholds I (updateInstance D.host fuel) → ∀ k ∈ D.body.steps, ∀ ks,
      Attains (I (k :: ks)) (updateInstance D.host (fuel + 1) D.id k) (I ks)) (fuel : Nat) :
    D.Upholds I (updateInstance D.host fuel) := by
  induction fuel with
  | zero => exact ⟨fun _ _ _ ↦ .exhausted, fun _ _ _ _ ↦ .exhausted⟩
  | succ fuel ih =>
    refine ⟨hown fuel ih, fun j hj k ks ↦ ?_⟩
    rw [updateInstance_succ]
    refine ensures_updateBy (fun w f hw ↦ ?_) (fun w s hw hs _ k ↦ ?_) k
    · exact hI.beside (.modifyInstance hj fun _ _ ↦ rfl) hw
    · exact hI.runRoutine hj rfl ih (hm I hI _ ih fuel) ks _

end Tends

/-- A method that is tame upholds a condition, and gives what it should. -/
theorem Tends.invoke (hI : D.Tends I) (hu : D.Upholds I update) (fuel : Nat) {m : MethodId}
    {args : List Value} (ks : List Nat) {Q : Except RuntimeError Value → Prop}
    (ht : ∀ d, D.host.method? m = .ok d → (d.body args).Tame D.host D.Around Q) :
    Ensures (I ks) (invokeMethod D.host update fuel m args) (fun a w ↦ I ks w ∧ Q (.ok a))
      fun _ _ ↦ True := by
  refine Ensures.bind (Q := fun d w ↦ I ks w ∧ D.host.method? m = .ok d) ?_ fun d ↦ ?_
  · exact Run.ensures_ofExcept (fun d hd w hw ↦ ⟨hw, hd⟩) fun _ _ _ _ ↦ trivial
  · rintro w ⟨hw, hd⟩
    exact Run.ensures_holding args ((hI.host hu fuel).perform (d.body args) ks (ht d hd))
      (fun _ held ↦ hI.held held) (fun _ _ held ↦ And.imp_left (hI.held held)) (fun _ _ _ _ ↦ trivial) w hw

/-- Methods that are tame do no harm. -/
theorem peaceful_of_tame (Q : MethodId → List Value → Except RuntimeError Value → Prop)
    (h : ∀ id d, D.host.method? id = .ok d → ∀ args, (d.body args).Tame D.host D.Around (Q id args)) :
    D.Peaceful := fun _ hI _ hu fuel m args ks ↦
  (hI.invoke hu fuel ks fun d hd ↦ h m d hd args).post fun _ _ ↦ And.left

/-- So do methods that write nothing but records. -/
theorem peaceful_of_functional (h : D.host.Functional D.objects D.answer) : D.Peaceful := by
  intro I hI update hu fuel m args ks w hw
  obtain ⟨s, on, hs⟩ := hI.sound hw
  obtain ⟨events, hevents⟩ := h.writes update fuel m args w hs.objects
  rcases hrun : invokeMethod D.host update fuel m args w with ⟨(e | -) | a, w'⟩
  · trivial
  · trivial
  · rw [hrun] at hevents
    obtain rfl := hevents
    refine hI.beside (w := w) ?_ hw
    exact .ofEq rfl rfl rfl rfl rfl

end Deployment

end LiveBinding
