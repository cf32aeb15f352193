import Mathlib.Logic.Function.Iterate
import LiveBinding.Host.Instance
import LiveBinding.Proofs.Storage
import LiveBinding.Proofs.Triple

namespace LiveBinding

theorem HostObject.slot?_setSlot (o : HostObject) (p q : String) (s : Slot) :
    (o.setSlot p s).slot? q = if q = p then some s else o.slot? q := by
  have hmap (slots : List (String × Slot)) :
      (slots.map fun e ↦ (e.1, if e.1 == p then s else e.2)).lookup q =
        if q = p ∧ slots.any (·.1 == p) then some s else slots.lookup q := by
    induction slots with
    | nil => simp
    | cons e slots ih =>
      obtain ⟨name, t⟩ := e
      simp only [List.map_cons, List.lookup_cons, ih, List.any_cons]
      by_cases hq : q = name
      · subst hq
        by_cases hp : q = p <;> simp [hp]
      · have hn : (q == name) = false := beq_false_of_ne hq
        simp only [hn]
        by_cases hp : q = p
        · subst hp
          simp only [beq_false_of_ne (Ne.symm hq), Bool.false_or]
        · simp only [hp, false_and]
  have happ (slots : List (String × Slot)) (h : ¬slots.any (·.1 == p)) :
      (slots ++ [(p, s)]).lookup q = if q = p then some s else slots.lookup q := by
    induction slots with
    | nil => by_cases hq : q = p <;> simp [List.lookup_cons, hq, beq_false_of_ne]
    | cons e slots ih =>
      obtain ⟨name, t⟩ := e
      simp only [List.any_cons, Bool.or_eq_true, not_or, beq_iff_eq] at h
      simp only [List.cons_append, List.lookup_cons, ih h.2]
      by_cases hq : q = name
      · subst hq
        simp [h.1]
      · simp [beq_false_of_ne hq]
  unfold setSlot slot?
  by_cases h : o.slots.any (·.1 == p)
  · rw [if_pos h]
    exact (hmap o.slots).trans (by simp only [h, and_true])
  · rw [if_neg h]
    exact happ o.slots h

namespace Listener

theorem isBinding_binding (i j : InstanceId) (k l : Nat) :
    (binding j l).isBinding i k = decide (j = i ∧ l = k) := by
  simp only [isBinding, Bool.decide_and]
  rfl

theorem eq_binding_of_isBinding {l : Listener} {i : InstanceId} {k : Nat} (h : l.isBinding i k) :
    l = binding i k := by
  cases l with
  | callback => cases h
  | binding j n =>
    rw [isBinding_binding, decide_eq_true_eq] at h
    rw [h.1, h.2]

end Listener

namespace Cell

variable (cell : Cell) (i j : InstanceId) (k l : Nat)

theorem countP_addListener :
    (cell.addListener (.binding j l)).listeners.countP (·.isBinding i k) =
      cell.listeners.countP (·.isBinding i k) + if j = i ∧ l = k then 1 else 0 := by
  simp [addListener, Listener.isBinding_binding]

theorem countP_removeListener :
    (cell.removeListener j l).listeners.countP (·.isBinding i k) =
      cell.listeners.countP (·.isBinding i k) - if j = i ∧ l = k then 1 else 0 := by
  simp only [removeListener]
  induction cell.listeners with
  | nil => simp
  | cons x xs ih =>
    by_cases hx : x.isBinding j l
    · rw [List.eraseP_cons_of_pos hx]
      obtain rfl := Listener.eq_binding_of_isBinding hx
      simp only [List.countP_cons, Listener.isBinding_binding, decide_eq_true_eq]
      omega
    · rw [List.eraseP_cons_of_neg hx, List.countP_cons, List.countP_cons, ih]
      by_cases hjl : j = i ∧ l = k
      · obtain ⟨rfl, rfl⟩ := hjl
        simp [hx]
      · simp [hjl]

end Cell

namespace World

/-- How many listeners a binding has on a cell for a step. -/
def listening (w : World) (i : InstanceId) (k : Nat) (c : CellId) : Nat :=
  ((w.cell? c).map fun cell ↦ cell.listeners.countP (·.isBinding i k)).getD 0

/-- Every observable property has a cell. -/
def SlotsExist (w : World) : Prop :=
  ∀ o p c, w.observable? o p = some c → c.index < w.cells.size

theorem observable?_eq_some {w : World} {o : ObjectId} {p : String} {c : CellId} :
    w.observable? o p = some c ↔ w.slot? o p = some (.observable c) := by
  unfold observable?
  split
  · next h => simp [h]
  · next h => simpa using h c

theorem slot?_setPlain (w : World) (o o' : ObjectId) (p p' : String) (v : Value) :
    (w.setPlain o p v).slot? o' p' =
      if o = o' ∧ p' = p then (w.object? o').map fun _ ↦ .plain v else w.slot? o' p' := by
  simp only [slot?, object?, setPlain, Array.getElem?_modify]
  have : o.index = o'.index ↔ o = o' := ⟨fun h ↦ by cases o; cases o'; simpa using h, fun h ↦ h ▸ rfl⟩
  simp only [this]
  cases w.objects[o'.index]? with
  | none => simp
  | some host =>
    by_cases ho : o = o'
    · simp only [ho, if_true, Option.map_some, Option.bind_some, HostObject.slot?_setSlot, true_and]
    · simp [ho]

theorem instance?_modifyCell (w : World) (c : CellId) (f : Cell → Cell) (i : InstanceId) :
    (w.modifyCell c f).instance? i = w.instance? i := rfl

theorem cell?_modifyCell (w : World) (c d : CellId) (f : Cell → Cell) :
    (w.modifyCell c f).cell? d = if c = d then (w.cell? d).map f else w.cell? d := by
  simp only [cell?, modifyCell, Array.getElem?_modify]
  have : c.index = d.index ↔ c = d := ⟨fun h ↦ by cases c; cases d; simpa using h, fun h ↦ h ▸ rfl⟩
  simp only [this]

theorem listening_removeListener (w : World) (i j : InstanceId) (k l : Nat) (c d : CellId) :
    (w.modifyCell c (·.removeListener j l)).listening i k d =
      w.listening i k d - if c = d ∧ j = i ∧ l = k then 1 else 0 := by
  simp only [listening, cell?_modifyCell]
  by_cases hcd : c = d
  · cases w.cell? d with
    | none => simp [hcd]
    | some cell => simp [hcd, Cell.countP_removeListener]
  · simp [hcd]

theorem listening_addListener (w : World) (i j : InstanceId) (k l : Nat) {c : CellId} (d : CellId)
    (hc : c.index < w.cells.size) :
    (w.modifyCell c (·.addListener (.binding j l))).listening i k d =
      w.listening i k d + if c = d ∧ j = i ∧ l = k then 1 else 0 := by
  simp only [listening, cell?_modifyCell]
  by_cases hcd : c = d
  · subst hcd
    obtain ⟨cell, hcell⟩ : ∃ cell, w.cell? c = some cell := ⟨_, Array.getElem?_eq_getElem hc⟩
    simp [hcell, Cell.countP_addListener]
  · simp [hcd]

theorem instance?_modifyInstance (w : World) (i j : InstanceId) (f : Instance → Instance) :
    (w.modifyInstance i f).instance? j =
      if i = j then (w.instance? j).map f else w.instance? j := by
  simp only [instance?, modifyInstance, Array.getElem?_modify]
  have : i.index = j.index ↔ i = j := ⟨fun h ↦ by cases i; cases j; simpa using h, fun h ↦ h ▸ rfl⟩
  simp only [this]

theorem instance?_put_of_ne {w : World} {i j : InstanceId} (h : j ≠ i) {s : Instance} :
    (w.put i s).instance? j = w.instance? j := by
  rw [put, instance?_modifyInstance, if_neg h.symm]

end World

/-- The storage of a binding as far as its listeners depend on it. -/
structure Instance.Agrees (s t : Instance) : Prop where
  code : t.artifact = s.artifact
  scratch : t.scratch = s.scratch
  counters : t.counters = s.counters
  flags : t.flags.size = s.flags.size

/-- A change of the world that does not concern the listeners of a binding. -/
structure Quiet (i : InstanceId) (w w' : World) : Prop where
  cells : w.cells.size ≤ w'.cells.size
  slots : w.SlotsExist → w'.SlotsExist
  listening : ∀ k c, w'.listening i k c = w.listening i k c
  storage : ∀ s, w.instance? i = some s → ∃ t, w'.instance? i = some t ∧ s.Agrees t

namespace Quiet

variable {i : InstanceId} {w w' w'' : World}

theorem trans (h : Quiet i w w') (h' : Quiet i w' w'') : Quiet i w w'' where
  cells := Nat.le_trans h.cells h'.cells
  slots := h'.slots ∘ h.slots
  listening k c := (h'.listening k c).trans (h.listening k c)
  storage s hs := by
    obtain ⟨t, ht, hst⟩ := h.storage s hs
    obtain ⟨u, hu, htu⟩ := h'.storage t ht
    exact ⟨u, hu, htu.code.trans hst.code, htu.scratch.trans hst.scratch,
      htu.counters.trans hst.counters, htu.flags.trans hst.flags⟩

/-- Only what the host keeps besides objects, cells and bindings changes. -/
theorem ofEq (ho : w'.objects = w.objects) (hc : w'.cells = w.cells)
    (hi : w'.instances = w.instances) : Quiet i w w' where
  cells := Nat.le_of_eq (by rw [hc])
  slots h := by
    simpa only [World.SlotsExist, World.observable?, World.slot?, World.object?, ho, hc] using h
  listening k c := by simp only [World.listening, World.cell?, hc]
  storage s hs := by
    simp only [World.instance?, hi]
    exact ⟨s, hs, rfl, rfl, rfl, rfl⟩

theorem refl (w : World) : Quiet i w w := .ofEq rfl rfl rfl

theorem modifyCell (c : CellId) {f : Cell → Cell} (w : World)
    (hf : ∀ cell k, (f cell).listeners.countP (·.isBinding i k) =
      cell.listeners.countP (·.isBinding i k)) : Quiet i w (w.modifyCell c f) where
  cells := by simp [World.modifyCell]
  slots h := by
    intro o p d hd
    simpa [World.modifyCell] using h o p d hd
  listening k d := by
    simp only [World.listening, World.cell?_modifyCell]
    split
    · cases w.cell? d with
      | none => rfl
      | some cell => exact hf cell k
    · rfl
  storage s hs := ⟨s, hs, rfl, rfl, rfl, rfl⟩

theorem modifyInstance (j : InstanceId) {f : Instance → Instance} (w : World)
    (hf : j = i → ∀ s, w.instance? i = some s → s.Agrees (f s)) :
    Quiet i w (w.modifyInstance j f) where
  cells := Nat.le_refl _
  slots h := h
  listening _ _ := rfl
  storage s hs := by
    rw [World.instance?_modifyInstance, hs]
    split
    · next h => exact ⟨f s, rfl, hf h s hs⟩
    · exact ⟨s, rfl, rfl, rfl, rfl, rfl⟩

theorem setPlain (o : ObjectId) (p : String) (v : Value) (w : World) :
    Quiet i w (w.setPlain o p v) where
  cells := Nat.le_refl _
  slots h := by
    intro o' p' c hc
    apply h o' p' c
    rw [World.observable?_eq_some, World.slot?_setPlain] at hc
    rw [World.observable?_eq_some]
    split at hc
    · simp at hc
    · exact hc
  listening _ _ := rfl
  storage s hs := ⟨s, hs, rfl, rfl, rfl, rfl⟩

theorem newCell (v : Value) (w : World) : Quiet i w (w.newCell v).2 where
  cells := by simp [World.newCell]
  slots h := by
    intro o p c hc
    have := h o p c hc
    simp only [World.newCell, Array.size_push]
    omega
  listening k c := by
    simp only [World.listening, World.cell?, World.newCell, Array.getElem?_push]
    split
    · next h => simp [h]
    · rfl
  storage s hs := ⟨s, hs, rfl, rfl, rfl, rfl⟩

/-- The slots of an object that is not part of the world yet. -/
theorem addSlots (slots : List (String × Value × Bool)) (o : HostObject) (w : World)
    (ho : ∀ p c, o.slot? p = some (.observable c) → c.index < w.cells.size) :
    Quiet i w (w.addSlots o slots).2 ∧
      ∀ p c, (w.addSlots o slots).1.slot? p = some (.observable c) →
        c.index < (w.addSlots o slots).2.cells.size := by
  induction slots generalizing o w with
  | nil => exact ⟨.refl w, ho⟩
  | cons e slots ih =>
    obtain ⟨property, v, _ | _⟩ := e
    · refine ih _ w fun p c hc ↦ ?_
      rw [HostObject.slot?_setSlot] at hc
      split at hc
      · cases hc
      · exact ho p c hc
    · have hnew : Quiet i w (w.newCell v).2 := .newCell v w
      obtain ⟨h₁, h₂⟩ := ih (o.setSlot property (.observable (w.newCell v).1)) (w.newCell v).2
        fun p c hc ↦ by
          rw [HostObject.slot?_setSlot] at hc
          split at hc
          · cases hc
            simp [World.newCell]
          · exact Nat.lt_of_lt_of_le (ho p c hc) hnew.cells
      exact ⟨hnew.trans h₁, h₂⟩

theorem newObject (cls : ClassId) (label : String) (slots : List (String × Value × Bool))
    (w : World) : Quiet i w (w.newObject cls label slots).2 := by
  obtain ⟨h, ho⟩ := addSlots (i := i) slots { cls, label } w (by simp [HostObject.slot?])
  refine h.trans ?_
  exact {
    cells := Nat.le_refl _
    slots := by
      intro hs o p c hc
      rw [World.observable?_eq_some] at hc
      simp only [World.newObject, World.nameObject, World.slot?, World.object?,
        Array.getElem?_push] at hc ⊢
      split at hc
      · exact ho p c hc
      · exact hs o p c (World.observable?_eq_some.mpr hc)
    listening := fun _ _ ↦ rfl
    storage := fun s hs ↦ ⟨s, hs, rfl, rfl, rfl, rfl⟩ }

end Quiet

/-- A condition that host code by itself does not break, whatever it stores, makes and records. -/
structure HostStable (I : World → Prop) : Prop where
  ofEq : ∀ w w' : World, w'.objects = w.objects → w'.cells = w.cells →
    w'.instances = w.instances → I w → I w'
  setPlain : ∀ o p v w, I w → I (w.setPlain o p v)
  newObject : ∀ cls label slots w, I w → I (w.newObject cls label slots).2
  store : ∀ c v w, I w → I (w.modifyCell c ({ · with value := v }))
  postpone : ∀ c w, I w → I (w.modifyCell c ({ · with pending := true }))

/-- Host code keeps a condition that updates keep, whatever it does. -/
structure HostKeeps (r : Registry) (update : Updater) (I : World → Prop) (fuel : Nat) : Prop where
  perform : ∀ {α : Type} (action : Action α), Keeps I (action.perform r update fuel)
  notifyAll : ∀ c listeners, Keeps I (notifyAll r update fuel c listeners)
  notify : ∀ c, Keeps I (notify r update fuel c)
  writeCell : ∀ c v, Keeps I (writeCell r update fuel c v)
  writeProperty : ∀ o property v, Keeps I (writeProperty r update fuel o property v)

namespace Run

variable {I : World → Prop}

theorem keeps_view {α : Type} (f : World → α) : Keeps I (view f) := fun _ hw ↦ hw

theorem keeps_change {f : World → World} (h : ∀ w, I w → I (f w)) : Keeps I (change f) := h

end Run

namespace HostStable

open Run

theorem const {p : Prop} : HostStable fun _ ↦ p :=
  ⟨fun _ _ _ _ _ ↦ id, fun _ _ _ _ ↦ id, fun _ _ _ _ ↦ id, fun _ _ _ ↦ id, fun _ _ ↦ id⟩

variable {I : World → Prop} {r : Registry} {update : Updater} (hI : HostStable I)
include hI

theorem held {w : World} (held : List Value) (h : I w) : I { w with held := held } :=
  hI.ofEq w _ rfl rfl rfl h

theorem holding {α : Type} {x : Run α} (values : List Value) (h : Keeps I x) :
    Keeps I (Run.holding values x) :=
  Run.ensures_holding values h (fun _ ↦ hI.held) (fun _ _ ↦ hI.held) (fun _ _ ↦ hI.held)

variable (hu : ∀ j k, Keeps I (update j k))
include hu

theorem host (fuel : Nat) : HostKeeps r update I fuel := by
  induction fuel with
  | zero =>
    refine ⟨fun action ↦ ?_, fun c listeners ↦ ?_, fun c ↦ ?_, fun c v ↦ ?_, fun o p v ↦ ?_⟩
    · rw [Action.perform]; exact .exhausted
    · cases listeners with
      | nil => exact fun _ hw ↦ hw
      | cons => exact .exhausted
    · exact .exhausted
    · exact .exhausted
    · exact .exhausted
  | succ fuel ih =>
    refine ⟨fun action ↦ ?_, fun c listeners ↦ ?_, fun c ↦ ?_, fun c v ↦ ?_, fun o p v ↦ ?_⟩
    · cases action with
      | done a => exact .pure fun _ hw ↦ hw
      | fail e => exact .throw fun _ hw ↦ hw
      | get o property next | text v next | find name next =>
        exact (keeps_view _).bind fun v ↦ ih.perform _
      | set o property v next => exact (ih.writeProperty o property v).bind fun _ ↦ ih.perform _
      | make cls slots next =>
        refine Ensures.bind (Q := fun _ ↦ I) (fun w hw ↦ ?_) fun o ↦ ih.perform _
        exact hI.newObject cls _ slots _ (hI.ofEq w _ rfl rfl rfl hw)
      | ifLive o live dead =>
        refine (keeps_view _).bind fun isLive ↦ ?_
        split
        · exact hI.holding _ (ih.perform live)
        · exact ih.perform dead
      | logCall method args next | logWatch tag v next =>
        refine Ensures.bind (Q := fun _ ↦ I) (keeps_change fun w hw ↦ ?_) fun _ ↦ ih.perform _
        exact hI.ofEq w _ rfl rfl rfl hw
    · cases listeners with
      | nil => exact .pure fun _ hw ↦ hw
      | cons listener rest =>
        cases listener with
        | binding j k =>
          refine (keeps_view _).bind fun alive ↦ ?_
          split
          · exact (hu j k).bind fun _ ↦ ih.notifyAll c rest
          · exact ih.notifyAll c rest
        | callback action =>
          exact (keeps_view _).bind fun v ↦ (hI.holding _ (ih.perform _)).bind fun _ ↦
            ih.notifyAll c rest
    · refine (keeps_view _).bind fun found ↦ ?_
      cases found with
      | none => exact .pure fun _ hw ↦ hw
      | some cell =>
        dsimp only
        split
        · exact keeps_change (hI.postpone c)
        · exact ih.notifyAll c _
    · refine (keeps_view _).bind fun old ↦ ?_
      split
      · exact .pure fun _ hw ↦ hw
      · exact (keeps_change (hI.store c v)).bind fun _ ↦ ih.notify c
    · refine (keeps_view _).bind fun slot ↦ ?_
      rcases slot with _ | (v' | c)
      · exact keeps_change (hI.setPlain o p v)
      · exact keeps_change (hI.setPlain o p v)
      · exact ih.writeCell c v

theorem invokeMethod (fuel : Nat) (m : MethodId) (args : List Value) :
    Keeps I (invokeMethod r update fuel m args) := by
  refine Ensures.bind (Q := fun _ ↦ I) ?_ fun method ↦
    hI.holding args ((hI.host hu fuel).perform _)
  exact Run.ensures_ofExcept (fun _ _ _ ↦ id) (fun _ _ _ ↦ id)

/-- Giving back a lock comes to a condition if the change of the cell alone does. -/
theorem ensures_unlockCell {P : World → Prop} (fuel : Nat) {c : CellId}
    (hnone : ∀ w, w.cell? c = none → P w → I w)
    (hsome : ∀ w cell (f : Cell → Cell), w.cell? c = some cell →
      (f cell).lockDepth = cell.lockDepth.pred → (∀ x, (f x).listeners = x.listeners) → P w →
        I (w.modifyCell c f)) :
    Ensures P (unlockCell r update fuel c) (fun _ ↦ I) (fun _ ↦ I) := by
  have hview : Ensures P (Run.view (·.cell? c)) (fun found w ↦ P w ∧ w.cell? c = found)
      (fun _ ↦ I) := fun w hw ↦ ⟨hw, rfl⟩
  refine hview.bind fun found ↦ ?_
  cases found with
  | none => exact .pure fun w hw ↦ hnone w hw.2 hw.1
  | some cell =>
    dsimp only
    split
    · refine Ensures.bind (Q := fun _ ↦ I) (fun w hw ↦ ?_) fun _ ↦ (hI.host hu fuel).notify c
      exact hsome w cell _ hw.2 rfl (fun _ ↦ rfl) hw.1
    · exact fun w hw ↦ hsome w cell _ hw.2 rfl (fun _ ↦ rfl) hw.1

end HostStable

theorem LockDepth.pred_iterate (d : LockDepth) : LockDepth.pred^[d.toNat] d = 0 := by
  generalize hn : d.toNat = n
  induction n generalizing d with
  | zero => exact UInt32.toNat_inj.mp hn
  | succ n ih =>
    rw [Function.iterate_succ_apply]
    exact ih d.pred (by rw [toNat_pred, hn, Nat.add_sub_cancel])

/-- Giving back locks one by one, with a condition for each number of them. -/
theorem ensures_releaseLocks {r : Registry} {update : Updater} {fuel : Nat} {c : CellId}
    {I : LockDepth → World → Prop} {E : RuntimeError → World → Prop}
    (h : ∀ d, Ensures (I d) (unlockCell r update fuel c) (fun _ ↦ I d.pred) (fun _ ↦ I d.pred))
    (n : Nat) (d : LockDepth) :
    Ensures (I d) (releaseLocks r update fuel c n) (fun _ ↦ I (LockDepth.pred^[n] d)) E := by
  induction n generalizing d with
  | zero => exact .pure fun _ hw ↦ hw
  | succ n ih =>
    rw [Function.iterate_succ_apply]
    exact (Run.ensures_ignoreError (h d)).bind fun _ ↦ ih d.pred

/-- A condition that changes of other things leave as it is. -/
def Undisturbed (i : InstanceId) (I : World → Prop) : Prop := ∀ w w', Quiet i w w' → I w → I w'

namespace Undisturbed

variable {i : InstanceId} {I : World → Prop} {r : Registry} {update : Updater}

theorem hostStable (hI : Undisturbed i I) : HostStable I where
  ofEq w w' ho hc hi := hI w w' (.ofEq ho hc hi)
  setPlain o p v w := hI _ _ (.setPlain o p v w)
  newObject cls label slots w := hI _ _ (.newObject cls label slots w)
  store c _ w := hI _ _ (.modifyCell c w fun _ _ ↦ rfl)
  postpone c w := hI _ _ (.modifyCell c w fun _ _ ↦ rfl)

variable (hI : Undisturbed i I) (hu : ∀ j k, Keeps I (update j k))
include hI hu

theorem unlockCell (fuel : Nat) (c : CellId) : Keeps I (unlockCell r update fuel c) :=
  hI.hostStable.ensures_unlockCell hu fuel (fun _ _ ↦ id) fun w _ f _ _ hl ↦
    hI w _ (.modifyCell c w fun cell k ↦ by rw [hl])

theorem releaseHeld (fuel : Nat) (frame : Frame) (locks : LockDepth) :
    Keeps I (releaseHeld r update fuel frame locks) := by
  unfold LiveBinding.releaseHeld
  cases frame.binding with
  | none => exact .pure fun _ hw ↦ hw
  | some j =>
    refine (Run.keeps_view _).bind fun found ↦ ?_
    cases found with
    | none => exact .pure fun _ hw ↦ hw
    | some s => exact ensures_releaseLocks (I := fun _ ↦ I) (fun _ ↦ hI.unlockCell hu fuel s.result) _ 0

end Undisturbed

/-- Leaves the listeners of a binding alone, even if it is run for that binding. -/
def Op.isHarmless : Op → Bool
  | .storeScratch _ | .counterAdd .. | .subscribe _ | .unsubscribe _ => false
  | _ => true

/-- Works on the lock of the result. -/
def Op.isLock : Op → Bool
  | .lockAcquire | .lockRelease => true
  | _ => false

/-- The word of flags that an instruction reads or writes. -/
def Op.flagWord? : Op → Option Nat
  | .flagTest _ | .flagAssign .. => some 0
  | .bitTest bit | .bitAssign bit _ => some (bit / FlagLayout.wordSize)
  | _ => none

/-- What an instruction leaves of the storage of a binding that it writes. -/
structure Instance.Retains (op : Op) (s t : Instance) : Prop where
  code : t.artifact = s.artifact
  result : t.result = s.result
  flags : t.flags.size = s.flags.size
  words : op.flagWord? = none → t.flags = s.flags
  scratch : op.isHarmless → t.scratch = s.scratch
  counters : op.isHarmless → t.counters = s.counters

theorem Instance.Retains.agrees {op : Op} {s t : Instance} (h : s.Retains op t)
    (hop : op.isHarmless) : s.Agrees t := ⟨h.code, h.scratch hop, h.counters hop, h.flags⟩

namespace Exec

section

variable {I : LockDepth → World → Prop} {E : RuntimeError → Machine → Prop}

section

variable (hE : ∀ e m, I m.locks m.world → E e m)
include hE

/-- Computations on the stack keep any condition on the locks and the world. -/
theorem closed_ensures :
    Closed fun x ↦ Ensures (fun m ↦ I m.locks m.world) x (fun _ m ↦ I m.locks m.world) E where
  pure _ _ hm := hm
  fail e m hm := hE e m hm
  bind := Ensures.bind
  push _ _ hm := hm
  pop m hm := by
    rw [pop_apply]
    cases m.stack
    · exact hE _ _ hm
    · exact hm
  popArgs n m hm := by
    rw [popArgs_apply]
    by_cases hn : m.stack.length < n
    · simp only [hn, if_true]
      exact hE _ _ hm
    · simp only [hn, if_false]
      exact hm
  bindGet hk _ m := hk m m

/-- Getting the storage of the binding that an instruction is run for. -/
theorem ensures_state (frame : Frame) :
    Ensures (fun m ↦ I m.locks m.world) (state frame)
      (fun s m ↦ I m.locks m.world ∧ ∃ j, frame.binding = some j ∧ m.world.instance? j = some s) E := by
  intro m hm
  unfold state binding
  cases hb : frame.binding with
  | none => exact hE _ _ hm
  | some j =>
    simp only [bind_apply, pure_apply, get_apply]
    cases hs : m.world.instance? j with
    | none => exact hE _ _ hm
    | some s => exact ⟨hm, j, rfl, hs⟩

end

theorem closed_keeps (I : LockDepth → World → Prop) :
    Closed fun x ↦ Keeps (fun m ↦ I m.locks m.world) x := closed_ensures fun _ _ hm ↦ hm

theorem ensures_get : Ensures (fun m ↦ I m.locks m.world) (get : Exec Machine)
    (fun _ m ↦ I m.locks m.world) E := fun _ hm ↦ hm

theorem ensures_goto (pc : Nat) :
    Ensures (fun m ↦ I m.locks m.world) (goto pc) (fun _ m ↦ I m.locks m.world) E := fun _ hm ↦ hm

theorem ensures_lift {α : Type} {x : Run α} {P Q R : LockDepth → World → Prop}
    (hP : ∀ l w held, P l w → P l { w with held := held })
    (hQ : ∀ l w held, Q l w → Q l { w with held := held })
    (hR : ∀ l w held, R l w → R l { w with held := held })
    (h : ∀ l, Ensures (P l) x (fun _ ↦ Q l) (fun _ ↦ R l)) :
    Ensures (fun m ↦ P m.locks m.world) (lift x) (fun _ m ↦ Q m.locks m.world)
      (fun _ m ↦ R m.locks m.world) := by
  intro m hm
  have hx := Run.ensures_holding m.stack (h m.locks) (hP m.locks) (fun _ ↦ hQ m.locks)
    (fun _ ↦ hR m.locks) m.world hm
  unfold lift
  rcases hxs : x.holding m.stack m.world with ⟨(e | -) | a, t⟩ <;> rw [hxs] at hx
  · exact hx
  · trivial
  · exact hx

theorem keeps_lift (hI : ∀ l, HostStable (I l)) {α : Type} {x : Run α} (h : ∀ l, Keeps (I l) x) :
    Keeps (fun m ↦ I m.locks m.world) (lift x) :=
  ensures_lift (fun l _ ↦ (hI l).held) (fun l _ ↦ (hI l).held) (fun l _ ↦ (hI l).held) h

variable {r : Registry} {update : Updater} {fuel : Nat} {frame : Frame} {op : Op}

/-- An instruction keeps what calls and publishing keep, if its own writes do. -/
theorem ensures_step_of (hE : ∀ e m, I m.locks m.world → E e m)
    (hcall : ∀ m args, Ensures (fun m ↦ I m.locks m.world) (lift (invokeMethod r update fuel m args))
      (fun _ m ↦ I m.locks m.world) E)
    (hpublish : ∀ j s v, frame.binding = some j →
      Ensures (fun m ↦ I m.locks m.world ∧ m.world.instance? j = some s)
        (lift (writeCell r update fuel s.result v)) (fun _ m ↦ I m.locks m.world) E)
    (hput : ∀ l w j s t, frame.binding = some j → w.instance? j = some s → s.Retains op t →
      I l w → I l (w.modifyInstance j fun _ ↦ t))
    (hlisten : ¬op.isHarmless → ∀ l w j k c, frame.binding = some j → I l w →
      I l (w.modifyCell c (·.addListener (.binding j k))) ∧
        I l (w.modifyCell c (·.removeListener j k)))
    (hop : ¬op.isLock) (R : Routine) :
    Ensures (fun m ↦ I m.locks m.world) (step r update fuel frame R op)
      (fun _ m ↦ I m.locks m.world) E := by
  have hC := closed_ensures hE
  have call (m : MethodId) (args : List Value) :
      Ensures (fun m ↦ I m.locks m.world) (call r update fuel m args) (fun _ m ↦ I m.locks m.world) E :=
    (hcall m args).bind fun _ ↦ hC.push _
  have put {s t : Instance} (h : s.Retains op t) :
      Ensures (fun m ↦ I m.locks m.world ∧
          ∃ j, frame.binding = some j ∧ m.world.instance? j = some s)
        (setState frame t) (fun _ m ↦ I m.locks m.world) E := by
    rintro m ⟨hm, j, hj, hs⟩
    rw [setState_apply hj]
    exact hput m.locks m.world j s t hj hs h hm
  by_cases hl : op.isLocal
  · exact hC.step r update fuel frame hl R
  by_cases hj : op.isJump
  · exact hC.step_jump r update fuel frame hj fun l _ ↦ ensures_goto _
  cases op with
  | storeCapture slot =>
    refine hC.pop.bind fun v ↦ (ensures_state hE frame).bind fun s ↦ ?_
    unfold storeAt
    split
    · exact put ⟨rfl, rfl, rfl, fun _ ↦ rfl, fun _ ↦ rfl, fun _ ↦ rfl⟩
    · exact fun m hm ↦ hE _ m hm.1
  | storeScratch slot =>
    refine hC.pop.bind fun v ↦ (ensures_state hE frame).bind fun s ↦ ?_
    unfold storeAt
    split
    · exact put ⟨rfl, rfl, rfl, fun _ ↦ rfl, by simp [Op.isHarmless], fun _ ↦ rfl⟩
    · exact fun m hm ↦ hE _ m hm.1
  | flagAssign mask value | bitAssign bit value =>
    refine (ensures_state hE frame).bind fun s ↦ ?_
    unfold require
    split
    · exact put ⟨rfl, rfl, by simp, by simp [Op.flagWord?], fun _ ↦ rfl, fun _ ↦ rfl⟩
    · exact fun m hm ↦ hE _ m hm.1
  | counterAdd counter delta =>
    refine (ensures_state hE frame).bind fun s ↦ ?_
    unfold require
    split
    · exact put ⟨rfl, rfl, rfl, fun _ ↦ rfl, fun _ ↦ rfl, by simp [Op.isHarmless]⟩
    · exact fun m hm ↦ hE _ m hm.1
  | subscribe k | unsubscribe k =>
    refine hC.pop.bind fun v ↦ ?_
    cases v with
    | cell c =>
      unfold binding
      cases hb : frame.binding with
      | none => exact hC.fail _
      | some j =>
        have h (m : Machine) := hlisten (by simp [Op.isHarmless]) m.locks m.world j k c hb
        first | exact fun m hm ↦ (h m hm).1 | exact fun m hm ↦ (h m hm).2
    | _ => exact hC.pure _
  | invoke m argc =>
    refine (hC.popArgs argc).bind fun args ↦ hC.pop.bind fun receiver ↦ ?_
    split
    · exact hC.fail _
    · exact call m _
  | invokeStatic m argc | construct m argc =>
    exact (hC.popArgs argc).bind fun args ↦ call m _
  | publish =>
    refine hC.pop.bind fun v ↦ (ensures_state hE frame).bind fun s ↦ ?_
    rintro m ⟨hm, j, hj, hs⟩
    exact hpublish j s v hj m ⟨hm, hs⟩
  | _ => simp [Op.isLocal, Op.isJump, Op.asksHost, Op.isLock] at hl hj hop

/-- An instruction keeps what updates and host code keep, if its own writes do. -/
theorem keeps_step_of (hI : ∀ l, HostStable (I l)) (hu : ∀ l j k, Keeps (I l) (update j k))
    (hput : ∀ l w j s t, frame.binding = some j → w.instance? j = some s → s.Retains op t →
      I l w → I l (w.modifyInstance j fun _ ↦ t))
    (hlisten : ¬op.isHarmless → ∀ l w j k c, frame.binding = some j → I l w →
      I l (w.modifyCell c (·.addListener (.binding j k))) ∧
        I l (w.modifyCell c (·.removeListener j k)))
    (hop : ¬op.isLock) (R : Routine) :
    Keeps (fun m ↦ I m.locks m.world) (step r update fuel frame R op) := by
  refine ensures_step_of (fun _ _ hm ↦ hm) (fun m args ↦ ?_) (fun j s v _ ↦ ?_) hput hlisten hop R
  · exact keeps_lift hI fun l ↦ (hI l).invokeMethod (hu l) fuel m args
  · exact (keeps_lift hI fun l ↦ ((hI l).host (hu l) fuel).writeCell s.result v).pre fun _ ↦ And.left

/-- What the instructions of a routine keep the routine keeps. -/
theorem ensures_execute {R : Routine}
    (h : ∀ op ∈ R.ops, Ensures (fun m ↦ I m.locks m.world) (step r update fuel frame R op)
      (fun _ m ↦ I m.locks m.world) E) (n : Nat) :
    Ensures (fun m ↦ I m.locks m.world) (execute r update fuel frame R n)
      (fun _ m ↦ I m.locks m.world) E := by
  induction n with
  | zero => exact .exhausted
  | succ n ih =>
    refine ensures_get.bind fun m ↦ ?_
    cases hop : R.ops[m.pc]? with
    | none => exact .pure fun _ hm ↦ hm
    | some op =>
      have hstep := h op (Array.mem_of_getElem? hop)
      cases op with
      | «return» => exact .pure fun _ hm ↦ hm
      | _ => exact (ensures_goto _).bind fun _ ↦ hstep.bind fun _ ↦ ih

end

variable {i : InstanceId} {I : World → Prop}

/-- Listeners of another binding come and go. -/
theorem quiet_foreign {j : InstanceId} (hj : j ≠ i) (k : Nat) (c : CellId) (w : World) :
    Quiet i w (w.modifyCell c (·.addListener (.binding j k))) ∧
      Quiet i w (w.modifyCell c (·.removeListener j k)) := by
  refine ⟨.modifyCell c w fun cell n ↦ ?_, .modifyCell c w fun cell n ↦ ?_⟩
  · rw [Cell.countP_addListener, if_neg (fun h ↦ hj h.1), Nat.add_zero]
  · rw [Cell.countP_removeListener, if_neg (fun h ↦ hj h.1), Nat.sub_zero]

/-- An instruction that is harmless, or is run for another binding, keeps what updates keep. -/
theorem keeps_step {r : Registry} {update : Updater} {fuel : Nat} (hI : Undisturbed i I)
    (hu : ∀ j k, Keeps I (update j k)) {frame : Frame} {op : Op}
    (h : frame.binding = some i → op.isHarmless) (R : Routine) :
    Keeps (fun m ↦ I m.world) (step r update fuel frame R op) := by
  have hC := closed_keeps fun _ ↦ I
  by_cases hop : op.isLock
  · cases op with
    | lockAcquire =>
      refine (hC.state frame).bind fun s ↦ Ensures.bind (Q := fun _ (m : Machine) ↦ I m.world) ?_
        fun _ _ hm ↦ hm
      refine keeps_lift (fun _ ↦ hI.hostStable) fun _ ↦ Run.keeps_change fun w hw ↦ ?_
      exact hI w _ (.modifyCell s.result w fun _ _ ↦ rfl) hw
    | lockRelease =>
      refine (hC.state frame).bind fun s ↦ Ensures.bind (Q := fun _ (m : Machine) ↦ I m.world) ?_
        fun _ ↦ ?_
      · exact fun _ hm ↦ hm
      exact keeps_lift (fun _ ↦ hI.hostStable) fun _ ↦ hI.unlockCell hu fuel s.result
    | _ => cases hop
  · refine keeps_step_of (I := fun _ ↦ I) (fun _ ↦ hI.hostStable) (fun _ ↦ hu) ?_ ?_ hop R
    · intro _ w j s t hj hs hst hw
      refine hI _ _ (.modifyInstance j w fun hji s' hs' ↦ ?_) hw
      subst hji
      rw [hs] at hs'
      cases hs'
      exact hst.agrees (h hj)
    · intro hharm _ w j k c hj hw
      have hji : j ≠ i := fun hji ↦ hharm (h (hji ▸ hj))
      exact ⟨hI _ _ (quiet_foreign hji k c w).1 hw, hI _ _ (quiet_foreign hji k c w).2 hw⟩

end Exec

/-- What fails while locks are given back is passed over. -/
theorem releaseHeld_ne_error (r : Registry) (update : Updater) (fuel : Nat) (frame : Frame)
    (locks : LockDepth) :
    Ensures (fun _ ↦ True) (releaseHeld r update fuel frame locks) (fun _ _ ↦ True)
      (fun _ _ ↦ False) := by
  have locks' (c : CellId) (n : Nat) :
      Ensures (fun _ ↦ True) (releaseLocks r update fuel c n) (fun _ _ ↦ True)
        (fun _ _ ↦ False) := by
    induction n with
    | zero => exact .pure fun _ _ ↦ trivial
    | succ n ih => exact (Run.ensures_ignoreError (Ensures.const (p := True))).bind fun _ ↦ ih
  unfold releaseHeld
  cases frame.binding with
  | none => exact .pure fun _ _ ↦ trivial
  | some i =>
    refine Ensures.bind (Q := fun _ _ ↦ True) (fun _ _ ↦ trivial) fun found ↦ ?_
    cases found with
    | none => exact .pure fun _ _ ↦ trivial
    | some s => exact locks' s.result locks.toNat

section

variable {r : Registry} {update : Updater} {fuel : Nat} {frame : Frame} {R : Routine}

theorem runRoutine_exhausted {w : World}
    (h : (Exec.execute r update fuel frame R fuel { world := w }).1 = .error .exhausted) :
    (runRoutine r update fuel frame R w).1 = .error .exhausted := by
  rcases hx : Exec.execute r update fuel frame R fuel { world := w } with ⟨a, m⟩
  rw [hx] at h
  obtain rfl : a = .error .exhausted := h
  have hne := Run.ensures_holding m.stack (releaseHeld_ne_error r update fuel frame m.locks)
    (fun _ _ _ ↦ trivial) (fun _ _ _ _ ↦ trivial) (fun _ _ _ ↦ id) m.world trivial
  simp only [runRoutine, hx]
  rw [seqRight_eq_bind, Stop.bind_apply]
  rcases hr : Run.holding m.stack (releaseHeld r update fuel frame m.locks) m.world with
    ⟨(e' | -) | u, t⟩
  · rw [hr] at hne
    exact hne.elim
  · rfl
  · rfl

/-- A run ends as its instructions do, after the locks it holds are given back. -/
theorem ensures_runRoutine {P : World → Prop} {Q : Option Value → World → Prop}
    {E : RuntimeError → LockDepth → World → Prop} {E' : RuntimeError → World → Prop}
    (h : Ensures (fun m ↦ P m.world ∧ m = { world := m.world })
      (Exec.execute r update fuel frame R fuel) (fun v m ↦ Q v m.world)
      (fun e m ↦ E e m.locks m.world))
    (hrel : ∀ e stack locks, Ensures (E e locks)
      (Run.holding stack (releaseHeld r update fuel frame locks)) (fun _ ↦ E' e) (fun _ _ ↦ True)) :
    Ensures P (runRoutine r update fuel frame R) Q E' := by
  intro w hw
  have hx := h { world := w } ⟨hw, rfl⟩
  rcases hxs : Exec.execute r update fuel frame R fuel { world := w } with ⟨(e | -) | a, m⟩ <;>
    rw [hxs] at hx
  · have hend := hrel e m.stack m.locks m.world hx
    have hne := Run.ensures_holding m.stack (releaseHeld_ne_error r update fuel frame m.locks)
      (fun _ _ _ ↦ trivial) (fun _ _ _ _ ↦ trivial) (fun _ _ _ ↦ id) m.world trivial
    simp only [runRoutine, hxs]
    rw [seqRight_eq_bind, Stop.bind_apply]
    rcases hr : Run.holding m.stack (releaseHeld r update fuel frame m.locks) m.world
      with ⟨(e' | -) | u, t⟩ <;> rw [hr] at hne hend
    · exact hne.elim
    · trivial
    · exact hend
  · have hcut := runRoutine_exhausted (congrArg Prod.fst hxs)
    rcases hrun : runRoutine r update fuel frame R w with ⟨a, t⟩
    rw [hrun] at hcut
    obtain rfl : a = .error .exhausted := hcut
    trivial
  · simp only [runRoutine, hxs]
    exact hx

end

/-- Updates as `updateInstance` runs them, with `update` for those that they come to in turn. -/
def updateBy (r : Registry) (update : Updater) (fuel : Nat) : Updater := fun j k ↦ do
  match ← Run.view (·.instance? j) with
  | none => pure ()
  | some s =>
    if ← Run.view fun w ↦ ((w.cell? s.result).map Cell.isLocked).getD false then
      Run.change (·.modifyInstance j fun s ↦ { s with queued := s.queued ++ [k] })
    else
      let runStep (step : Nat) : Run Unit := do
        let _ ← runRoutine r update fuel { binding := some j, step } s.artifact.update
      runStep k
      drainQueue runStep j fuel

theorem updateInstance_succ (r : Registry) (fuel : Nat) (j : InstanceId) (k : Nat) :
    updateInstance r (fuel + 1) j k = updateBy r (updateInstance r fuel) fuel j k := rfl

section

variable {r : Registry} {update : Updater} {fuel : Nat} {I : World → Prop} {j : InstanceId}
variable {E : RuntimeError → World → Prop}

theorem ensures_drainQueue {runStep : Nat → Run Unit}
    (hqueue : ∀ w (f : Instance → List Nat), I w →
      I (w.modifyInstance j fun s ↦ { s with queued := f s }))
    (h : ∀ k, Ensures I (runStep k) (fun _ ↦ I) E) (fuel : Nat) :
    Ensures I (drainQueue runStep j fuel) (fun _ ↦ I) E := by
  induction fuel with
  | zero => exact .exhausted
  | succ fuel ih =>
    refine Ensures.bind (Q := fun _ ↦ I) (fun w hw ↦ hw) fun queued ↦
      Ensures.bind (Q := fun _ ↦ I) (fun w hw ↦ hqueue w _ hw) fun _ ↦ ?_
    rcases queued with _ | ⟨k, _ | ⟨l, rest⟩⟩
    · exact .pure fun _ hw ↦ hw
    · exact (h k).bind fun _ ↦ ih
    · exact (h 0).bind fun _ ↦ ih

/-- An update keeps a condition that the queue does not matter to, if its routine keeps it whenever
the result is not locked. -/
theorem ensures_updateBy
    (hqueue : ∀ w (f : Instance → List Nat), I w →
      I (w.modifyInstance j fun s ↦ { s with queued := f s }))
    (hrun : ∀ w s, I w → w.instance? j = some s →
      ((w.cell? s.result).map Cell.isLocked).getD false = false → ∀ k,
        Ensures I (runRoutine r update fuel { binding := some j, step := k } s.artifact.update)
          (fun _ ↦ I) E)
    (k : Nat) : Ensures I (updateBy r update fuel j k) (fun _ ↦ I) E := by
  have hview : Ensures I (Run.view (·.instance? j)) (fun found w ↦ I w ∧ w.instance? j = found) E :=
    fun w hw ↦ ⟨hw, rfl⟩
  refine hview.bind fun found ↦ ?_
  cases found with
  | none => exact .pure fun w hw ↦ hw.1
  | some s =>
    have htest : Ensures (fun w ↦ I w ∧ w.instance? j = some s)
        (Run.view fun w ↦ ((w.cell? s.result).map Cell.isLocked).getD false)
        (fun locked w ↦ (I w ∧ w.instance? j = some s) ∧
          ((w.cell? s.result).map Cell.isLocked).getD false = locked) E := fun w hw ↦ ⟨hw, rfl⟩
    refine htest.bind fun locked ↦ ?_
    cases locked with
    | true => exact fun w hw ↦ hqueue w _ hw.1.1
    | false =>
      intro w hw
      have hstep (k : Nat) := (hrun w s hw.1.1 hw.1.2 hw.2 k).bind (R := fun _ ↦ I)
        fun _ ↦ Ensures.pure (a := ()) fun _ hw ↦ hw
      exact ((hstep k).bind fun _ ↦ ensures_drainQueue hqueue hstep fuel) w hw.1.1

end

end LiveBinding
