import LiveBinding.Proofs.Bookkeeping
import LiveBinding.Proofs.Updating

/-!
Cells that are locked: while a lock is held nobody is told of changes, and the last unlock tells every
listener once, of the value that is left.
-/

namespace LiveBinding

theorem LockDepth.add_one_ne_zero {d : LockDepth} (h : d.toNat + 1 < 2 ^ 32) : d + 1 ≠ 0 := by
  intro hzero
  have hsum : (d.toNat + 1) % 2 ^ 32 = 0 := congrArg UInt32.toNat hzero
  rw [Nat.mod_eq_of_lt h] at hsum
  exact Nat.succ_ne_zero _ hsum

/-- What the host does to a cell. -/
inductive CellOp where
  | set (v : Value)
  | lock
  | unlock
  | listen (listener : Listener)

/-- A listener, by its place among those of the cell, and the value that it was told of. -/
structure Notice where
  listener : Nat
  value : Value
deriving DecidableEq

/-- Every listener is told of a value, in the order in which they were added. -/
def Cell.announce (cell : Cell) (v : Value) : List Notice :=
  (List.range cell.listeners.length).map (⟨·, v⟩)

namespace CellOp

def perform (r : Registry) (fuel : Nat) (c : CellId) : CellOp → Run Unit
  | set v => setCell r fuel c v
  | lock => lockCell c
  | unlock => releaseCell r fuel c
  | listen l => Run.change (·.modifyCell c (·.addListener l))

def performAll (r : Registry) (fuel : Nat) (c : CellId) : List CellOp → Run Unit
  | [] => pure ()
  | op :: ops => do
    op.perform r fuel c
    performAll r fuel c ops

/-- What becomes of a cell. -/
def step (cell : Cell) : CellOp → Cell
  | set v =>
    if cell.value.same v then cell
    else { cell with value := v, pending := cell.pending || cell.isLocked }
  | lock => cell.lock
  | unlock =>
    { cell with
      lockDepth := cell.lockDepth.pred, pending := cell.pending && cell.lockDepth.pred != 0 }
  | listen l => cell.addListener l

/-- Whether the value of a cell becomes another one. -/
def changes (cell : Cell) : CellOp → Bool
  | set v => !cell.value.same v
  | _ => false

/-- Whether the listeners of a cell are told. -/
def tells (cell : Cell) : CellOp → Bool
  | set v => !cell.value.same v && !cell.isLocked
  | unlock => cell.lockDepth.pred == 0 && cell.pending
  | _ => false

/-- A lock that is taken can be counted with those that are held. -/
def Fits (cell : Cell) (op : CellOp) : Prop := op = .lock → cell.lockDepth.toNat + 1 < 2 ^ 32

/-- The listeners of a cell that are told. -/
def told (cell : Cell) (op : CellOp) : List Listener := if op.tells cell then cell.listeners else []

end CellOp

/-- Tells one listener of a change. -/
def Listener.hear (r : Registry) (update : Updater) (fuel : Nat) (v : Value) : Listener → Run Unit
  | binding i step => do
    if ← Run.view fun w ↦ ((w.instance? i).map Instance.alive).getD false then update i step
  | callback action => Run.holding [v] ((action v).perform r update fuel)

section

variable (r : Registry) (c : CellId)

/-- The listener succeeds, given enough steps. -/
def Listener.Hears (l : Listener) (v : Value) (w w' : World) : Prop :=
  ∃ n, ∀ fuel k, n ≤ fuel → n ≤ k → l.hear r (updateInstance r fuel) k v w = (.ok (), w')

/-- Listeners of a cell are told one after the other, from the `k`-th one on. Each of them succeeds
and leaves the cell alone. -/
inductive Telling : Nat → List Listener → World → List Notice → World → Prop
  | nil (k : Nat) (w : World) : Telling k [] w [] w
  | cons {k : Nat} {l : Listener} {ls : List Listener} {w w₁ w' : World} {notices : List Notice} :
    l.Hears r (w.cellValue c) w w₁ → w₁.cell? c = w.cell? c → Telling (k + 1) ls w₁ notices w' →
      Telling k (l :: ls) w (⟨k, w.cellValue c⟩ :: notices) w'

/-- A cell, what is done to it, and who is told. -/
structure Moment where
  before : Cell
  op : CellOp
  notices : List Notice

def Moment.after (m : Moment) : Cell := m.op.step m.before

def Moment.changes (m : Moment) : Bool := m.op.changes m.before

/-- What happens to a cell, the earliest first, with listeners that succeed and leave it alone. -/
inductive CellHistory : World → List Moment → World → Prop
  | nil (w : World) : CellHistory w [] w
  | cons {w w₁ w' : World} {cell : Cell} {op : CellOp} {notices : List Notice} {ms : List Moment} :
    w.cell? c = some cell →
      Telling r c 0 (op.told cell) (w.putCell c (op.step cell)) notices w₁ →
      CellHistory w₁ ms w' → CellHistory w (⟨cell, op, notices⟩ :: ms) w'

end

section

variable {r : Registry} {update : Updater} {fuel : Nat} {c : CellId} {w w' : World} {cell : Cell}

theorem World.cellValue_of_cell? (h : w.cell? c = some cell) : w.cellValue c = cell.value := by
  rw [cellValue, h]
  rfl

theorem notifyAll_cons (l : Listener) (ls : List Listener) :
    notifyAll r update (fuel + 1) c (l :: ls) w =
      match l.hear r update fuel (w.cellValue c) w with
      | (.ok _, w₁) => notifyAll r update fuel c ls w₁
      | (.error e, w₁) => (.error e, w₁) := by
  cases l with
  | binding i step =>
    simp only [notifyAll, Listener.hear, Run.bind_apply, Run.view_apply]
    split
    · rw [Run.bind_apply]
      rcases update i step w with ⟨_ | _, _⟩ <;> rfl
    · rfl
  | callback action =>
    simp only [notifyAll, Listener.hear, Run.bind_apply, Run.view_apply]
    rcases Run.holding [w.cellValue c]
      (Action.perform r update fuel (action (w.cellValue c))) w with ⟨_ | _, _⟩ <;> rfl

theorem notify_unlocked (h : w.cell? c = some cell) (hl : cell.isLocked = false) :
    notify r update (fuel + 1) c w = notifyAll r update fuel c cell.listeners w := by
  simp only [notify, Run.bind_apply, Run.view_apply, h, hl, Bool.false_eq_true, if_false]

theorem writeCell_same {v : Value} (h : w.cell? c = some cell) (hs : cell.value.same v) :
    writeCell r update (fuel + 1) c v w = (.ok (), w) := by
  simp only [writeCell, Run.bind_apply, Run.view_apply, World.cellValue_of_cell? h, hs, if_true]
  rfl

theorem writeCell_unlocked {v : Value} (h : w.cell? c = some cell) (hl : cell.isLocked = false)
    (hs : cell.value.same v = false) :
    writeCell r update (fuel + 2) c v w =
      notifyAll r update fuel c cell.listeners (w.putCell c { cell with value := v }) := by
  have hput : w.modifyCell c ({ · with value := v }) = w.putCell c { cell with value := v } :=
    World.modifyCell_congr h rfl
  simp only [writeCell, Run.bind_apply, Run.view_apply, Run.change_apply,
    World.cellValue_of_cell? h, hs, Bool.false_eq_true, if_false, hput]
  have hcell : (w.putCell c { cell with value := v }).cell? c = some { cell with value := v } :=
    World.cell?_putCell h
  exact (notify_unlocked hcell hl :)

theorem unlockCell_pending (h : w.cell? c = some cell) (hl : cell.lockDepth.pred = 0)
    (hp : cell.pending) :
    unlockCell r update (fuel + 1) c w = notifyAll r update fuel c cell.listeners
      (w.putCell c { cell with lockDepth := 0, pending := false }) := by
  have hlast : (cell.lockDepth.pred == 0 && cell.pending) = true := by simp [hl, hp]
  have hput : w.modifyCell c ({ · with lockDepth := cell.lockDepth.pred, pending := false }) =
      w.putCell c { cell with lockDepth := 0, pending := false } :=
    World.modifyCell_congr h (by rw [hl])
  simp only [unlockCell, Run.bind_apply, Run.view_apply, Run.change_apply, h, hlast, if_true, hput]
  have hcell : (w.putCell c { cell with lockDepth := 0, pending := false }).cell? c =
      some { cell with lockDepth := 0, pending := false } := World.cell?_putCell h
  exact (notify_unlocked hcell rfl :)

theorem unlockCell_silent (h : w.cell? c = some cell)
    (hp : (cell.lockDepth.pred == 0 && cell.pending) = false) :
    unlockCell r update fuel c w =
      (.ok (), w.putCell c { cell with lockDepth := cell.lockDepth.pred }) := by
  simp only [unlockCell, Run.bind_apply, Run.view_apply, h, hp, Bool.false_eq_true, if_false,
    Run.change_apply]
  exact congrArg (Except.ok (), ·) (World.modifyCell_congr h rfl)

end

namespace CellOp

variable {r : Registry} {fuel : Nat} {c : CellId} {w : World} {cell : Cell}

/-- What is done to a cell is one step of the cell, after which listeners are told. -/
theorem perform_eq (op : CellOp) (h : w.cell? c = some cell) :
    ∃ k, ∀ n, op.perform r (n + 2) c w =
      notifyAll r (updateInstance r (n + 2)) (n + k) c (op.told cell) (w.putCell c (op.step cell)) := by
  cases op with
  | lock =>
    refine ⟨0, fun n ↦ ?_⟩
    simp only [perform, lockCell, Run.change_apply, told, tells, Bool.false_eq_true, if_false, notifyAll]
    exact congrArg (Except.ok (), ·) (World.modifyCell_congr h rfl)
  | listen l =>
    refine ⟨0, fun n ↦ ?_⟩
    simp only [perform, Run.change_apply, told, tells, Bool.false_eq_true, if_false, notifyAll]
    exact congrArg (Except.ok (), ·) (World.modifyCell_congr h rfl)
  | set v =>
    refine ⟨0, fun n ↦ ?_⟩
    simp only [perform, setCell, told, tells, step]
    by_cases hs : cell.value.same v
    · simp only [hs, Bool.not_true, Bool.false_and, Bool.false_eq_true, if_false, if_true, notifyAll]
      rw [writeCell_same h hs, World.putCell, World.modifyCell_id h rfl]
      rfl
    · rw [Bool.not_eq_true] at hs
      rcases Bool.eq_false_or_eq_true cell.isLocked with hlocked | hlocked
      · rw [writeCell_locked h (Cell.isLocked_iff.mp hlocked) (.inl (Nat.le_add_left 2 n))]
        simp only [hlocked, hs, Value.replaced, Bool.not_false, Bool.not_true, Bool.and_false,
          Bool.false_eq_true, if_false, Bool.or_true, notifyAll]
        rfl
      · simp only [hlocked, hs, Bool.not_false, Bool.and_true, if_true, Bool.false_eq_true, if_false,
          Bool.or_false]
        exact writeCell_unlocked h hlocked hs
  | unlock =>
    refine ⟨1, fun n ↦ ?_⟩
    simp only [perform, releaseCell, told, step]
    rcases Bool.eq_false_or_eq_true (unlock.tells cell) with hlast | hlast
    · obtain ⟨hdepth, hp⟩ : cell.lockDepth.pred = 0 ∧ cell.pending := by simpa [tells] using hlast
      simp only [hlast, if_true, hdepth, bne_self_eq_false, Bool.and_false]
      exact unlockCell_pending h hdepth hp
    · have hpending : (cell.pending && cell.lockDepth.pred != 0) = cell.pending := by
        cases hp : cell.pending <;> simp_all [tells]
      simp only [hlast, Bool.false_eq_true, if_false, hpending, notifyAll]
      exact unlockCell_silent h hlast

end CellOp

section

variable {r : Registry} {c : CellId} {w w' : World} {cell : Cell} {k : Nat} {ls : List Listener}
variable {notices : List Notice} {ms : List Moment}

/-- Telling the listeners of a cell, in the code of the host. -/
theorem Telling.notifyAll_eq (h : Telling r c k ls w notices w') :
    ∃ n, ∀ fuel k, n ≤ fuel → n ≤ k → notifyAll r (updateInstance r fuel) k c ls w = (.ok (), w') := by
  induction h with
  | nil => exact ⟨0, fun fuel k _ _ ↦ by rw [notifyAll]; rfl⟩
  | cons hl _ _ ih =>
    obtain ⟨n, hn⟩ := hl
    obtain ⟨n', hn'⟩ := ih
    refine ⟨max n n' + 1, fun fuel k hf hk ↦ ?_⟩
    obtain ⟨k, rfl⟩ := Nat.exists_eq_add_of_le' (Nat.le_of_add_left_le hk)
    rw [notifyAll_cons, hn fuel k (by omega) (by omega)]
    exact hn' fuel k (by omega) (by omega)

/-- All of the listeners are told of one value, and the cell is as before. -/
theorem Telling.eq (h : Telling r c k ls w notices w') :
    notices = (List.range' k ls.length).map (⟨·, w.cellValue c⟩) ∧ w'.cell? c = w.cell? c := by
  induction h with
  | nil => exact ⟨rfl, rfl⟩
  | @cons k l ls w w₁ w' notices _ hc _ ih =>
    have hvalue : w₁.cellValue c = w.cellValue c := by rw [World.cellValue, hc, World.cellValue]
    rw [hc, hvalue] at ih
    refine ⟨?_, ih.2⟩
    rw [List.length_cons, List.range'_succ, List.map_cons, ih.1]

namespace CellHistory

/-- The code of the host goes through the history, given enough steps. -/
theorem performAll_eq (h : CellHistory r c w ms w') :
    ∃ n, ∀ fuel, n ≤ fuel →
      CellOp.performAll r fuel c (ms.map Moment.op) w = (.ok (), w') := by
  induction h with
  | nil => exact ⟨0, fun _ _ ↦ rfl⟩
  | @cons w w₁ w' cell op notices ms hc ht _ ih =>
    obtain ⟨k, hk⟩ := op.perform_eq (r := r) hc
    obtain ⟨n, hn⟩ := ht.notifyAll_eq
    obtain ⟨n', hn'⟩ := ih
    refine ⟨max n n' + 2, fun fuel hf ↦ ?_⟩
    obtain ⟨m, rfl⟩ : ∃ m, fuel = m + 2 := ⟨fuel - 2, by omega⟩
    simp only [List.map_cons, CellOp.performAll, Run.bind_apply, hk,
      hn (m + 2) (m + k) (by omega) (by omega)]
    exact hn' _ (by omega)

end CellHistory

end

namespace CellOp

variable {cell : Cell} {op : CellOp}

theorem tells_of_changes (hc : op.changes cell) (hl : cell.isLocked = false) : op.tells cell := by
  cases op with
  | set v => simpa [changes, tells, hl] using hc
  | lock | unlock | listen => cases hc

/-- A cell that is locked keeps quiet, also to the operation that locks it. -/
theorem tells_locked (h : (op.step cell).isLocked) : op.tells cell = false := by
  cases op with
  | lock | listen => rfl
  | unlock =>
    have hdepth : cell.lockDepth.pred ≠ 0 := Cell.isLocked_iff.mp h
    simp [tells, hdepth]
  | set v =>
    simp only [step] at h
    split at h
    · next hs => simp [tells, hs]
    · have hlocked : cell.isLocked := h
      simp [tells, hlocked]

theorem value_step (hc : op.changes cell = false) : (op.step cell).value = cell.value := by
  cases op with
  | lock | unlock | listen => rfl
  | set v =>
    have hs : cell.value.same v := by simpa [changes] using hc
    rw [step, if_pos hs]

theorem length_listeners_step : cell.listeners.length ≤ (op.step cell).listeners.length := by
  cases op with
  | lock | unlock => exact le_refl _
  | listen l => simp [step, Cell.addListener]
  | set v => simp only [step]; split <;> exact le_refl _

/-- While a cell is locked it remembers that its value has changed. -/
theorem pending_step (h : cell.isLocked) (h' : (op.step cell).isLocked) :
    (op.step cell).pending = (cell.pending || op.changes cell) := by
  cases op with
  | lock | listen => exact (Bool.or_false _).symm
  | unlock =>
    have hdepth : cell.lockDepth.pred ≠ 0 := Cell.isLocked_iff.mp h'
    simp [step, changes, hdepth]
  | set v => by_cases hs : cell.value.same v <;> simp [step, changes, hs, h]

theorem pending_step_of_not_tells (hp : cell.pending) (ht : op.tells cell = false) :
    (op.step cell).pending := by
  cases op with
  | lock | listen => exact hp
  | unlock =>
    have hdepth : cell.lockDepth.pred ≠ 0 := by simpa [tells, hp] using ht
    simp [step, hp, hdepth]
  | set v => by_cases hs : cell.value.same v <;> simp [step, hs, hp]

theorem pending_of_change (hc : op.changes cell) (ht : op.tells cell = false) :
    (op.step cell).pending := by
  cases op with
  | set v =>
    have hs : cell.value.same v = false := by simpa [changes] using hc
    have hl : cell.isLocked := by simpa [tells, hs] using ht
    simp [step, hs, hl]
  | lock | unlock | listen => cases hc

/-- A change is only remembered while a lock is held, as long as the locks can be counted. -/
theorem locked_step (hfits : op.Fits cell) (h : cell.pending → cell.isLocked)
    (hp : (op.step cell).pending) : (op.step cell).isLocked := by
  cases op with
  | listen => exact h hp
  | lock => exact Cell.isLocked_iff.mpr (LockDepth.add_one_ne_zero (hfits rfl))
  | unlock =>
    have hdepth : cell.pending = true ∧ cell.lockDepth.pred ≠ 0 := by simpa [step] using hp
    exact Cell.isLocked_iff.mpr hdepth.2
  | set v =>
    simp only [step] at hp ⊢
    split at hp
    · next hs => simpa only [hs, if_true] using h hp
    · next hs =>
      simp only [hs, Bool.false_eq_true, if_false]
      rcases Bool.or_eq_true_iff.mp hp with hp | hp
      · exact h hp
      · exact hp

end CellOp

theorem Cell.mem_announce {cell : Cell} {v : Value} {n : Notice} :
    n ∈ cell.announce v ↔ n.listener < cell.listeners.length ∧ n.value = v := by
  simp only [announce, List.mem_map, List.mem_range]
  constructor
  · rintro ⟨i, hi, rfl⟩
    exact ⟨hi, rfl⟩
  · rintro ⟨hi, rfl⟩
    exact ⟨n.listener, hi, rfl⟩

theorem Cell.nodup_announce (cell : Cell) (v : Value) :
    ((cell.announce v).map Notice.listener).Nodup := by
  simp only [announce, List.map_map, Function.comp_def, List.map_id']
  exact List.nodup_range

/-- What happens to a cell, seen from the cell alone. -/
inductive Course : Cell → List Moment → Cell → Prop
  | nil (cell : Cell) : Course cell [] cell
  | cons {a b : Cell} {m : Moment} {ms : List Moment} :
    m.before = a →
      m.notices = (if m.op.tells m.before then m.before.announce m.after.value else []) →
      Course m.after ms b → Course a (m :: ms) b

namespace Course

variable {a b : Cell} {ms ns : List Moment} {m : Moment}

theorem split (h : Course a (ms ++ ns) b) : ∃ cell, Course a ms cell ∧ Course cell ns b := by
  induction ms generalizing a with
  | nil => exact ⟨a, .nil a, h⟩
  | cons m ms ih =>
    cases h with
    | cons ha hn h =>
      obtain ⟨cell, h₁, h₂⟩ := ih h
      exact ⟨cell, .cons ha hn h₁, h₂⟩

theorem head (h : Course a (m :: ms) b) :
    m.before = a ∧ m.notices = (if m.op.tells m.before then m.before.announce m.after.value else []) ∧
      Course m.after ms b := by
  cases h with
  | cons ha hn h => exact ⟨ha, hn, h⟩

theorem notices_eq (h : Course a ms b) (hm : m ∈ ms) :
    m.notices = if m.op.tells m.before then m.before.announce m.after.value else [] := by
  obtain ⟨pre, post, rfl⟩ := List.append_of_mem hm
  obtain ⟨_, -, h'⟩ := h.split
  exact h'.head.2.1

theorem unique {b' : Cell} (h : Course a ms b) (h' : Course a ms b') : b = b' := by
  induction h with
  | nil => cases h'; rfl
  | cons _ _ _ ih => exact ih h'.head.2.2

theorem locked_of_pending (h : Course a ms b) (hfits : ∀ m ∈ ms, m.op.Fits m.before)
    (ha : a.pending → a.isLocked) (hb : b.pending) : b.isLocked := by
  induction h with
  | nil => exact ha hb
  | cons hm _ _ ih =>
    subst hm
    rw [List.forall_mem_cons] at hfits
    exact ih hfits.2 (CellOp.locked_step hfits.1 ha) hb

/-- A course along which the value stays. -/
theorem steady (h : Course a ms b) (hc : ∀ m ∈ ms, m.changes = false) :
    b.value = a.value ∧ ∀ n ∈ ms.flatMap Moment.notices, n.value = a.value := by
  induction h with
  | nil => simp
  | @cons _ b m ms hm hn _ ih =>
    subst hm
    rw [List.forall_mem_cons] at hc
    have hvalue : m.after.value = m.before.value := CellOp.value_step hc.1
    obtain ⟨hb, hrest⟩ := ih hc.2
    refine ⟨hb.trans hvalue, fun n hmem ↦ ?_⟩
    rw [List.flatMap_cons, List.mem_append] at hmem
    rcases hmem with hmem | hmem
    · rw [hn] at hmem
      split at hmem
      · exact (Cell.mem_announce.mp hmem).2.trans hvalue
      · cases hmem
    · exact (hrest n hmem).trans hvalue

theorem starts_locked (h : Course a ms b) (hl : ∀ m ∈ ms, m.before.isLocked) (hb : b.isLocked) :
    a.isLocked := by
  cases h with
  | nil => exact hb
  | cons hm => exact hm ▸ hl _ List.mem_cons_self

/-- Where locks are held from the first moment to the last, a change is remembered. -/
theorem pending_eq (h : Course a ms b) (hl : ∀ m ∈ ms, m.before.isLocked) (hb : b.isLocked) :
    b.pending = (a.pending || ms.any Moment.changes) := by
  induction h with
  | nil => exact (Bool.or_false _).symm
  | @cons _ b m ms hm _ h ih =>
    subst hm
    rw [List.forall_mem_cons] at hl
    have hafter : m.after.isLocked := h.starts_locked hl.2 hb
    rw [ih hl.2 hb, List.any_cons, ← Bool.or_assoc]
    exact congrArg (· || ms.any Moment.changes) (CellOp.pending_step hl.1 hafter)

/-- A change that a cell remembers is told of by the time it forgets it. -/
theorem told_of_pending (h : Course a ms b) (ha : a.pending) (hb : b.pending = false)
    (hc : ∀ m ∈ ms, m.changes = false) {i : Nat} (hi : i < a.listeners.length) :
    ⟨i, a.value⟩ ∈ ms.flatMap Moment.notices := by
  induction h with
  | nil => rw [ha] at hb; cases hb
  | @cons _ b m ms hm hn _ ih =>
    subst hm
    rw [List.forall_mem_cons] at hc
    have hvalue : m.after.value = m.before.value := CellOp.value_step hc.1
    rw [List.flatMap_cons, List.mem_append]
    cases ht : m.op.tells m.before with
    | true =>
      refine .inl ?_
      rw [hn, if_pos ht]
      exact Cell.mem_announce.mpr ⟨hi, hvalue.symm⟩
    | false =>
      refine .inr ?_
      rw [← hvalue]
      exact ih (CellOp.pending_step_of_not_tells ha ht) hb hc.2
        (hi.trans_le CellOp.length_listeners_step)

end Course

/-- The notices of what is done to a cell, which is left as that makes it. -/
theorem Telling.of_told {r : Registry} {c : CellId} {w w' : World} {cell : Cell} {op : CellOp}
    {notices : List Notice} (hw : w.cell? c = some cell)
    (h : Telling r c 0 (op.told cell) (w.putCell c (op.step cell)) notices w') :
    notices = (if op.tells cell then cell.announce (op.step cell).value else []) ∧
      w'.cell? c = some (op.step cell) := by
  obtain ⟨hnotices, hcell⟩ := h.eq
  have hput : (w.putCell c (op.step cell)).cell? c = some (op.step cell) := World.cell?_putCell hw
  refine ⟨?_, hcell.trans hput⟩
  rw [hnotices, World.cellValue_of_cell? hput, ← List.range_eq_range', CellOp.told]
  split <;> rfl

theorem CellHistory.course {r : Registry} {c : CellId} {w w' : World} {ms : List Moment}
    (h : CellHistory r c w ms w') {cell : Cell} (hw : w.cell? c = some cell) :
    ∃ cell', w'.cell? c = some cell' ∧ Course cell ms cell' := by
  induction h generalizing cell with
  | nil => exact ⟨cell, hw, .nil cell⟩
  | @cons w w₁ w' cell₀ op notices ms hc ht _ ih =>
    obtain rfl : cell = cell₀ := Option.some.inj (hw.symm.trans hc)
    obtain ⟨hnotices, hcell⟩ := ht.of_told hc
    obtain ⟨cell', hw', hcourse⟩ := ih hcell
    exact ⟨cell', hw', .cons (m := ⟨cell, op, notices⟩) rfl hnotices hcourse⟩

/-- A listener that succeeds whenever it is told, and leaves the cell alone. -/
def Listener.Harmless (r : Registry) (c : CellId) (l : Listener) : Prop :=
  ∀ v w, ∃ w', l.Hears r v w w' ∧ w'.cell? c = w.cell? c

theorem exists_telling {r : Registry} {c : CellId} {ls : List Listener}
    (h : ∀ l ∈ ls, l.Harmless r c) (k : Nat) (w : World) :
    ∃ notices w', Telling r c k ls w notices w' := by
  induction ls generalizing k w with
  | nil => exact ⟨[], w, .nil k w⟩
  | cons l ls ih =>
    rw [List.forall_mem_cons] at h
    obtain ⟨w₁, hl, hc⟩ := h.1 (w.cellValue c) w
    obtain ⟨notices, w', ht⟩ := ih h.2 (k + 1) w₁
    exact ⟨_, w', .cons hl hc ht⟩

/-- Every course of a cell with harmless listeners is a history of it. -/
theorem Course.exists_history {r : Registry} {c : CellId} {a b : Cell} {ms : List Moment}
    (h : Course a ms b) (hl : ∀ m ∈ ms, ∀ l ∈ m.before.listeners, l.Harmless r c) {w : World}
    (hw : w.cell? c = some a) : ∃ w', CellHistory r c w ms w' := by
  induction h generalizing w with
  | nil => exact ⟨w, .nil w⟩
  | @cons _ b m ms hm hn _ ih =>
    subst hm
    rw [List.forall_mem_cons] at hl
    have htold : ∀ l ∈ m.op.told m.before, l.Harmless r c := by
      rw [CellOp.told]
      split
      · exact hl.1
      · exact fun l h ↦ absurd h List.not_mem_nil
    obtain ⟨notices, w₁, ht⟩ := exists_telling htold 0 (w.putCell c m.after)
    obtain ⟨hnotices, hcell⟩ := ht.of_told hw
    obtain ⟨w', h'⟩ := ih hl.2 hcell
    obtain rfl : notices = m.notices := hnotices.trans hn.symm
    exact ⟨w', .cons hw ht h'⟩

/-- The last of the notices to a listener, where all that is told in the end is one value. -/
theorem getLast?_notices {old new : List Notice} {i : Nat} {v : Value} (hi : ⟨i, v⟩ ∈ new)
    (hv : ∀ n ∈ new, n.value = v) :
    ((old ++ new).filter (·.listener = i)).getLast? = some ⟨i, v⟩ := by
  have hmem : ⟨i, v⟩ ∈ new.filter (·.listener = i) := List.mem_filter.mpr ⟨hi, decide_eq_true rfl⟩
  have hne : new.filter (·.listener = i) ≠ [] := List.ne_nil_of_mem hmem
  rw [List.filter_append, List.getLast?_append_of_ne_nil _ hne, List.getLast?_eq_some_getLast hne]
  obtain ⟨hnew, hl⟩ := List.mem_filter.mp (List.getLast_mem hne)
  generalize (new.filter (·.listener = i)).getLast hne = n at hnew hl
  obtain ⟨j, u⟩ := n
  obtain rfl : j = i := of_decide_eq_true hl
  obtain rfl : u = v := hv _ hnew
  rfl

/-- From the first lock of a cell to the last unlock. -/
theorem Course.stretch {a b : Cell} {first last : Moment} {mid post : List Moment}
    (h : Course a (first :: mid ++ last :: post) b) (ha : a.pending → a.isLocked)
    (hfirst : first.op = .lock) (hdepth : first.before.isLocked = false)
    (hmid : ∀ m ∈ mid, m.before.isLocked) (hlast : last.op = .unlock)
    (hone : last.before.lockDepth = 1) :
    (∀ m ∈ first :: mid, m.notices = []) ∧
      last.notices = if mid.any Moment.changes then last.before.announce last.before.value else [] := by
  obtain ⟨rfl, hnotices, htail⟩ := h.head
  obtain ⟨cell, hcourse, hrest⟩ := htail.split
  obtain ⟨rfl, htold, -⟩ := hrest.head
  have hsilent : first.notices = [] := by rw [hnotices, hfirst]; rfl
  have hlocked : last.before.isLocked := by rw [Cell.isLocked, hone]; rfl
  have hpending : last.before.pending = mid.any Moment.changes := by
    rw [hcourse.pending_eq hmid hlocked, Moment.after, hfirst]
    cases hp : first.before.pending with
    | false => simp [CellOp.step, Cell.lock, hp]
    | true => rw [ha hp] at hdepth; cases hdepth
  refine ⟨fun m hm ↦ ?_, ?_⟩
  · rcases List.mem_cons.mp hm with rfl | hm
    · exact hsilent
    · obtain ⟨pre, rest, rfl⟩ := List.append_of_mem hm
      obtain ⟨_, -, h'⟩ := hcourse.split
      obtain ⟨rfl, hn, h''⟩ := h'.head
      have hafter : m.after.isLocked := h''.starts_locked
        (fun x hx ↦ hmid x (List.mem_append_right _ (List.mem_cons_of_mem _ hx))) hlocked
      rw [hn, if_neg (by rw [CellOp.tells_locked hafter]; exact Bool.false_ne_true)]
  · have hvalue : last.after.value = last.before.value := by rw [Moment.after, hlast]; rfl
    have htells : last.op.tells last.before = mid.any Moment.changes := by
      rw [hlast, ← hpending]
      simp [CellOp.tells, hone]
    rw [htold, htells, hvalue]

/-- What a listener that was there before the last change has been told in the end. -/
theorem Course.last_notice {a b : Cell} {pre post : List Moment} {m : Moment}
    (h : Course a (pre ++ m :: post) b) (hfits : ∀ m' ∈ pre ++ m :: post, m'.op.Fits m'.before)
    (ha : a.pending → a.isLocked) (hb : b.isLocked = false) (hm : m.changes) (hpost : ∀ m' ∈ post, m'.changes = false) {i : Nat}
    (hi : i < m.before.listeners.length) :
    (((pre ++ m :: post).flatMap Moment.notices).filter (·.listener = i)).getLast? =
      some ⟨i, b.value⟩ := by
  have hforgot : b.pending = false := by
    cases hp : b.pending with
    | false => rfl
    | true => rw [h.locked_of_pending hfits ha hp] at hb; cases hb
  obtain ⟨_, -, h'⟩ := h.split
  obtain ⟨-, hn, hcourse⟩ := h'.head
  obtain ⟨hvalue, hrest⟩ := hcourse.steady hpost
  have hmem : ⟨i, b.value⟩ ∈ m.notices ++ post.flatMap Moment.notices := by
    rw [hvalue, List.mem_append]
    cases ht : m.op.tells m.before with
    | true =>
      rw [hn, if_pos ht]
      exact .inl (Cell.mem_announce.mpr ⟨hi, rfl⟩)
    | false =>
      refine .inr (hcourse.told_of_pending ?_ hforgot hpost (hi.trans_le CellOp.length_listeners_step))
      exact CellOp.pending_of_change hm ht
  rw [List.flatMap_append, List.flatMap_cons]
  refine getLast?_notices hmem fun n hmem' ↦ ?_
  rcases List.mem_append.mp hmem' with hmem' | hmem'
  · rw [hn] at hmem'
    split at hmem'
    · exact (Cell.mem_announce.mp hmem').2.trans hvalue.symm
    · cases hmem'
  · exact (hrest n hmem').trans hvalue.symm

/-- Locking a cell defers what its listeners are told, and loses nothing but the values in between,
as long as the locks that are held can be counted. The listeners are told one after the other, each of
them succeeds and leaves the cell alone; the depth of the locks is the same before and after each of
them. -/
theorem locked_cell_defers {r : Registry} {c : CellId} {w w' : World} {ms : List Moment} {start : Cell}
    (h : CellHistory r c w ms w') (hstart : w.cell? c = some start)
    (hpending : start.pending → start.isLocked) :
    (∃ n, ∀ fuel, n ≤ fuel →
      CellOp.performAll r fuel c (ms.map Moment.op) w = (.ok (), w')) ∧
    (∀ m ∈ ms, m.after.isLocked → m.notices = []) ∧
    (∀ m ∈ ms, ∀ v, m.op = .set v → m.before.isLocked = false → m.before.value.same v = false →
      m.notices = m.before.announce v) ∧
    (∀ (pre mid post : List Moment) (first last : Moment), ms = pre ++ (first :: mid ++ last :: post) →
      (∀ m ∈ pre, m.op.Fits m.before) →
      first.op = .lock → first.before.isLocked = false → (∀ m ∈ mid, m.before.isLocked) →
      last.op = .unlock → last.before.lockDepth = 1 →
        (∀ m ∈ first :: mid, m.notices = []) ∧ (last.notices.map Notice.listener).Nodup ∧
        last.notices =
          if mid.any Moment.changes then last.before.announce last.before.value else []) ∧
    ∃ cell, w'.cell? c = some cell ∧ (cell.isLocked = false → (∀ m ∈ ms, m.op.Fits m.before) →
      ∀ (pre post : List Moment) (m : Moment), ms = pre ++ m :: post → m.changes →
        (∀ m' ∈ post, m'.changes = false) → ∀ i < m.before.listeners.length,
          ((ms.flatMap Moment.notices).filter (·.listener = i)).getLast? = some ⟨i, cell.value⟩) := by
  obtain ⟨cell, hcell, hcourse⟩ := h.course hstart
  refine ⟨h.performAll_eq, fun m hm hl ↦ ?_, fun m hm v hop hl hs ↦ ?_, ?_, cell, hcell, ?_⟩
  · rw [hcourse.notices_eq hm, CellOp.tells_locked hl]
    rfl
  · have hchanges : m.op.changes m.before := by simp [hop, CellOp.changes, hs]
    rw [hcourse.notices_eq hm, if_pos (CellOp.tells_of_changes hchanges hl), Moment.after, hop]
    simp [CellOp.step, hs]
  · rintro pre mid post first last rfl hfits hfirst hzero hmid hlast hone
    obtain ⟨middle, hpre, hrest⟩ := hcourse.split
    obtain ⟨hsilent, htold⟩ :=
      hrest.stretch (hpre.locked_of_pending hfits hpending) hfirst hzero hmid hlast hone
    refine ⟨hsilent, ?_, htold⟩
    rw [htold]
    split
    · exact last.before.nodup_announce _
    · exact List.nodup_nil
  · rintro hzero hfits pre post m rfl hm hpost i hi
    exact hcourse.last_notice hfits hpending hzero hm hpost hi

/-- Locking a cell again and again. -/
def Cell.lockings (cell : Cell) : Nat → List Moment
  | 0 => []
  | n + 1 => ⟨cell, .lock, []⟩ :: cell.lock.lockings n

theorem Course.lockings (cell : Cell) (n : Nat) :
    Course cell (cell.lockings n) { cell with lockDepth := cell.lockDepth + UInt32.ofNat n } := by
  induction n generalizing cell with
  | zero => rw [show UInt32.ofNat 0 = 0 from rfl, UInt32.add_zero]; exact .nil cell
  | succ n ih =>
    have hdepth : cell.lockDepth + UInt32.ofNat (n + 1) = cell.lock.lockDepth + UInt32.ofNat n := by
      rw [UInt32.ofNat_add, UInt32.add_comm (UInt32.ofNat n), ← UInt32.add_assoc]
      rfl
    rw [hdepth]
    exact .cons rfl rfl (ih cell.lock)

theorem Cell.silent_lockings (cell : Cell) (n : Nat) :
    ∀ m ∈ cell.lockings n, m.changes = false ∧ m.notices = [] ∧ m.before.listeners = cell.listeners := by
  induction n generalizing cell with
  | zero => exact fun m hm ↦ absurd hm List.not_mem_nil
  | succ n ih =>
    intro m hm
    rcases List.mem_cons.mp hm with rfl | hm
    · exact ⟨rfl, rfl, rfl⟩
    · exact ih cell.lock m hm

namespace Sample

/-- Records every value that it is given. -/
def watcher (tag : String) : Listener := .callback fun v ↦ .logWatch tag v (.done ())

def watched (n : Int32) (depth : LockDepth) (pending : Bool) : Cell :=
  ⟨.int n, [watcher "a", watcher "b"], depth, pending⟩

def cellWorld : World where
  cells := #[⟨.int 0, [watcher "a"], 0, false⟩]

/-- Two locks, two changes below them, and one change behind them. -/
def moments : List Moment := [
  ⟨⟨.int 0, [watcher "a"], 0, false⟩, .listen (watcher "b"), []⟩,
  ⟨watched 0 0 false, .lock, []⟩,
  ⟨watched 0 1 false, .lock, []⟩,
  ⟨watched 0 2 false, .set (.int 1), []⟩,
  ⟨watched 1 2 true, .set (.int 2), []⟩,
  ⟨watched 2 2 true, .unlock, []⟩,
  ⟨watched 2 1 true, .unlock, [⟨0, .int 2⟩, ⟨1, .int 2⟩]⟩,
  ⟨watched 2 0 false, .set (.int 2), []⟩,
  ⟨watched 2 0 false, .set (.int 3), [⟨0, .int 3⟩, ⟨1, .int 3⟩]⟩,
  ⟨watched 3 0 false, .unlock, []⟩]

theorem harmless_watcher (r : Registry) (c : CellId) (tag : String) : (watcher tag).Harmless r c := by
  intro v w
  refine ⟨{ w with
    events := w.events.push (.watch tag ({ w with held := [v] ++ w.held }.display v)) }, ⟨2, ?_⟩, rfl⟩
  intro fuel k _ hk
  obtain ⟨k, rfl⟩ := Nat.exists_eq_add_of_le' hk
  rfl

theorem course_moments : Course ⟨.int 0, [watcher "a"], 0, false⟩ moments (watched 3 0 false) := by
  repeat refine .cons rfl rfl ?_
  exact .nil _

theorem fits_moments : ∀ m ∈ moments, m.op.Fits m.before := by
  simp [moments, watched, CellOp.Fits]

/-- What watchers hear of is a history. -/
theorem exists_history {a b : Cell} {ms : List Moment} {w : World} (h : Course a ms b)
    (hl : ∀ m ∈ ms, m.before.listeners ⊆ [watcher "a", watcher "b"]) (hw : w.cell? ⟨0⟩ = some a) :
    ∃ w', CellHistory registry ⟨0⟩ w ms w' := by
  refine h.exists_history (fun m hm l hmem ↦ ?_) hw
  have hwatcher : l = watcher "a" ∨ l = watcher "b" := by simpa using hl m hm hmem
  rcases hwatcher with rfl | rfl
  · exact harmless_watcher registry ⟨0⟩ "a"
  · exact harmless_watcher registry ⟨0⟩ "b"

theorem history_moments : ∃ w', CellHistory registry ⟨0⟩ cellWorld moments w' :=
  exists_history course_moments (by simp [moments, watched]) rfl

/-- One watcher that is added twice is told twice by the last unlock. -/
def registeredTwice : List Moment := [
  ⟨⟨.int 0, [watcher "a"], 0, false⟩, .listen (watcher "a"), []⟩,
  ⟨⟨.int 0, [watcher "a", watcher "a"], 0, false⟩, .lock, []⟩,
  ⟨⟨.int 0, [watcher "a", watcher "a"], 1, false⟩, .set (.int 1), []⟩,
  ⟨⟨.int 1, [watcher "a", watcher "a"], 1, true⟩, .unlock, [⟨0, .int 1⟩, ⟨1, .int 1⟩]⟩]

theorem course_registeredTwice :
    Course ⟨.int 0, [watcher "a"], 0, false⟩ registeredTwice ⟨.int 1, [watcher "a", watcher "a"], 0, false⟩ := by
  repeat refine .cons rfl rfl ?_
  exact .nil _

/-- A lock, a change, and locks until their number is none again. -/
def overflowing : List Moment :=
  [⟨⟨.int 0, [watcher "a"], 0, false⟩, .lock, []⟩,
    ⟨⟨.int 0, [watcher "a"], 1, false⟩, .set (.int 1), []⟩] ++
  Cell.lockings ⟨.int 1, [watcher "a"], 1, true⟩ (2 ^ 32 - 1)

theorem course_overflowing :
    Course ⟨.int 0, [watcher "a"], 0, false⟩ overflowing ⟨.int 1, [watcher "a"], 0, true⟩ := by
  refine .cons rfl rfl (.cons rfl rfl ?_)
  exact Course.lockings ⟨.int 1, [watcher "a"], 1, true⟩ (2 ^ 32 - 1)

end Sample

open Sample in
theorem locked_cell_defers_watched : ∃ w',
    CellHistory registry ⟨0⟩ cellWorld moments w' ∧
    (∃ n, ∀ fuel, n ≤ fuel → CellOp.performAll registry fuel ⟨0⟩ (moments.map Moment.op) cellWorld =
      (.ok (), w')) ∧
    (∀ m ∈ moments, m.after.isLocked → m.notices = []) ∧
    ∃ cell, w'.cell? ⟨0⟩ = some cell ∧ (cell.isLocked = false → ∀ i < 2,
      ((moments.flatMap Moment.notices).filter (·.listener = i)).getLast? = some ⟨i, cell.value⟩) := by
  obtain ⟨w', h⟩ := history_moments
  have hstart : cellWorld.cell? ⟨0⟩ = some ⟨.int 0, [watcher "a"], 0, false⟩ := rfl
  obtain ⟨hcode, hlocked, -, -, cell, hcell, hlast⟩ :=
    locked_cell_defers h hstart Bool.noConfusion
  exact ⟨w', h, hcode, hlocked, cell, hcell, fun hzero ↦
    hlast hzero fits_moments (moments.take 8) (moments.drop 9)
      ⟨watched 2 0 false, .set (.int 3), [⟨0, .int 3⟩, ⟨1, .int 3⟩]⟩ rfl (by decide) (by decide)⟩

open Sample in
/-- A callback that is added twice is told twice by one unlock; and where the locks are too many to be
counted, a cell counts as unlocked while its listeners have not been told of its value. -/
theorem locked_cell_tells_twice :
    (∃ (w' : World) (pre : List Moment) (last : Moment),
      CellHistory registry ⟨0⟩ cellWorld registeredTwice w' ∧ registeredTwice = pre ++ [last] ∧
      last.op = .unlock ∧ last.before.listeners = [watcher "a", watcher "a"] ∧
      last.notices.length = 2) ∧
    ∃ (w' : World) (cell : Cell) (pre post : List Moment) (m : Moment),
      CellHistory registry ⟨0⟩ cellWorld overflowing w' ∧ overflowing = pre ++ m :: post ∧
      m.changes ∧ (∀ m' ∈ post, m'.changes = false) ∧ m.before.listeners = [watcher "a"] ∧
      w'.cell? ⟨0⟩ = some cell ∧ cell.isLocked = false ∧ overflowing.flatMap Moment.notices = [] := by
  refine ⟨?_, ?_⟩
  · obtain ⟨w', h⟩ := exists_history (w := cellWorld) course_registeredTwice (by simp [registeredTwice]) rfl
    exact ⟨w', registeredTwice.take 3, _, h, rfl, rfl, rfl, rfl⟩
  · have hsilent := Cell.silent_lockings ⟨.int 1, [watcher "a"], 1, true⟩ (2 ^ 32 - 1)
    have hlisteners : ∀ m ∈ overflowing, m.before.listeners ⊆ [watcher "a", watcher "b"] := by
      intro m hm
      rcases List.mem_append.mp hm with hm | hm
      · rcases List.mem_pair.mp hm with rfl | rfl <;> simp
      · rw [(hsilent m hm).2.2]
        simp
    obtain ⟨w', h⟩ := exists_history (w := cellWorld) course_overflowing hlisteners rfl
    have hstart : cellWorld.cell? ⟨0⟩ = some ⟨.int 0, [watcher "a"], 0, false⟩ := rfl
    obtain ⟨cell, hcell, hcourse⟩ := h.course hstart
    obtain rfl : cell = ⟨.int 1, [watcher "a"], 0, true⟩ := hcourse.unique course_overflowing
    refine ⟨w', _, [⟨⟨.int 0, [watcher "a"], 0, false⟩, .lock, []⟩],
      Cell.lockings ⟨.int 1, [watcher "a"], 1, true⟩ (2 ^ 32 - 1), _, h, rfl, rfl,
      fun m hm ↦ (hsilent m hm).1, rfl, hcell, rfl, ?_⟩
    exact List.flatMap_eq_nil_iff.mpr fun m hm ↦ by
      rcases List.mem_append.mp hm with hm | hm
      · rcases List.mem_pair.mp hm with rfl | rfl <;> rfl
      · exact (hsilent m hm).2.1

end LiveBinding
