import LiveBinding.Proofs.Quiet
import LiveBinding.Proofs.Routines
import Mathlib.Data.List.Nodup

namespace LiveBinding

namespace Instance

variable (s : Instance) (p : SavePoint)

/-- The storage after the listener of a point is taken off its cell. -/
def detached : Instance := (s.setScratch p.handle .null).addCounters p.counters (-1)

/-- The storage after the listener of a point is put on a cell. -/
def attached (c : CellId) : Instance := (s.setScratch p.handle (.cell c)).addCounters p.counters 1

variable {s}

theorem addCounters_setScratch (s : Instance) (counters : List Nat) (delta : Int32) (slot : Nat)
    (v : Value) :
    (s.addCounters counters delta).setScratch slot v =
      (s.setScratch slot v).addCounters counters delta := by
  induction counters generalizing s with
  | nil => rfl
  | cons n counters ih => exact ih _

theorem setScratch_setScratch (s : Instance) (slot : Nat) (v v' : Value) :
    (s.setScratch slot v).setScratch slot v' = s.setScratch slot v' := by
  simp [setScratch]

/-- Only the counters change when they are adjusted. -/
theorem addCounters_eq (s : Instance) (counters : List Nat) (delta : Int32) :
    s.addCounters counters delta =
      { s with counters := (s.addCounters counters delta).counters } := by
  induction counters generalizing s with
  | nil => rfl
  | cons n counters ih =>
    have h := ih { s with counters := s.counters.modify n (· + delta) }
    exact h

theorem getElem?_addCounters (s : Instance) {counters : List Nat} (h : counters.Nodup)
    (delta : Int32) (n : Nat) :
    (s.addCounters counters delta).counters[n]? =
      if n ∈ counters then s.counters[n]?.map (· + delta) else s.counters[n]? := by
  induction counters generalizing s with
  | nil => simp [addCounters]
  | cons k counters ih =>
    obtain ⟨hk, h⟩ := List.nodup_cons.mp h
    have ih := ih { s with counters := s.counters.modify k (· + delta) } h
    refine Eq.trans ih ?_
    simp only [Array.getElem?_modify, List.mem_cons]
    by_cases hn : n = k
    · subst hn
      simp [hk]
    · simp [hn, Ne.symm hn]

theorem size_addCounters (s : Instance) (counters : List Nat) (delta : Int32) :
    (s.addCounters counters delta).counters.size = s.counters.size := by
  induction counters generalizing s with
  | nil => rfl
  | cons k counters ih =>
    have h := ih { s with counters := s.counters.modify k (· + delta) }
    refine Eq.trans h ?_
    simp

theorem scratch_attached (c : CellId) : (s.attached p c).scratch = s.scratch.setIfInBounds p.handle (.cell c) := by
  rw [attached, addCounters_eq]
  rfl

theorem scratch_detached : (s.detached p).scratch = s.scratch.setIfInBounds p.handle .null := by
  rw [detached, addCounters_eq]
  rfl

end Instance

namespace World

variable (w : World) (i : InstanceId) (s : Instance) (p : SavePoint)

/-- The world after the listener of a point is taken off its cell. -/
def detach (c : CellId) : World :=
  (w.modifyCell c (·.removeListener i p.step)).put i (s.detached p)

/-- The world after the listener of a point is put on a cell. -/
def attach (c : CellId) : World :=
  (w.modifyCell c (·.addListener (.binding i p.step))).put i (s.attached p c)

end World

namespace Fragment

open Exec

variable {r : Registry} {update : Updater} {fuel : Nat} {frame : Frame} {i : InstanceId}
variable {w : World} {s : Instance} {p : SavePoint} {c d : CellId}
variable {stack : List Value} {pc : Nat} {locks : LockDepth}

section

variable (hb : frame.binding = some i) (hs : w.instance? i = some s)
include hb hs

theorem runOps_dupLoad {v : Value} (hv : s.scratch[p.handle]? = some v) :
    runOps r update fuel frame [.dup, .loadScratch p.handle] ⟨w, .cell c :: stack, pc, locks⟩ =
      ⟨[], .ok (), ⟨w, v :: .cell c :: .cell c :: stack, pc, locks⟩⟩ := by
  rw [runOps_cons (does_dup rfl), runOps_cons (does_loadScratch (m := ⟨w, _, _, _⟩) hb hs hv)]
  rfl

theorem runOps_loadDup {v : Value} (hv : s.scratch[p.handle]? = some v) :
    runOps r update fuel frame [.loadScratch p.handle, .dup] ⟨w, stack, pc, locks⟩ =
      ⟨[], .ok (), ⟨w, v :: v :: stack, pc, locks⟩⟩ := by
  rw [runOps_cons (does_loadScratch (m := ⟨w, _, _, _⟩) hb hs hv), runOps_cons (does_dup rfl)]
  rfl

/-- A point that listens to the cell already stays there. -/
theorem attach_same (hv : s.scratch[p.handle]? = some (.cell c)) :
    attach r update fuel frame p ⟨w, .cell c :: stack, pc, locks⟩ =
      ⟨[], .ok (), ⟨w, stack, pc, locks⟩⟩ := by
  rw [attach, andThen_ok (runOps_dupLoad hb hs hv), branchOn_jumpIfSame rfl,
    if_pos (by simp [Value.same]), runOps_cons (does_pop rfl)]
  rfl

/-- The end of moving a listener. -/
theorem runOps_attach (hsize : p.handle < s.scratch.size)
    (hc : ∀ n ∈ p.counters, n < s.counters.size) :
    runOps r update fuel frame
      ([Op.storeScratch p.handle, .loadScratch p.handle, .subscribe p.step] ++ adjust p.counters 1)
      ⟨w, .cell c :: stack, pc, locks⟩ =
      ⟨[], .ok (), ⟨w.attach i s p c, stack, pc, locks⟩⟩ := by
  let s₁ := s.setScratch p.handle (.cell c)
  have hs₁ : (w.put i s₁).instance? i = some s₁ := World.instance?_put hs
  have hv : s₁.scratch[p.handle]? = some (.cell c) := by simp [s₁, Instance.setScratch, hsize]
  rw [List.cons_append, runOps_cons (does_storeScratch (m := ⟨w, _, _, _⟩) hb hs rfl hsize),
    List.cons_append, runOps_cons (does_loadScratch (m := ⟨w.put i s₁, _, _, _⟩) hb hs₁ hv),
    List.cons_append, runOps_cons (does_subscribe p.step hb rfl), List.nil_append,
    runOps_adjust (m := ⟨(w.put i s₁).modifyCell c _, _, _, _⟩) p.counters 1 hb hs₁ hc]
  have hput := World.put_put (w := w.modifyCell c (·.addListener (.binding i p.step))) (i := i) s₁
    (s₁.addCounters p.counters 1)
  exact congrArg (fun w ↦ (⟨[], .ok (), ⟨w, stack, pc, locks⟩⟩ : Outcome)) hput

theorem attach_fresh (hv : s.scratch[p.handle]? = some .null)
    (hc : ∀ n ∈ p.counters, n < s.counters.size) :
    attach r update fuel frame p ⟨w, .cell c :: stack, pc, locks⟩ =
      ⟨[], .ok (), ⟨w.attach i s p c, stack, pc, locks⟩⟩ := by
  obtain ⟨hsize, -⟩ := Array.getElem?_eq_some_iff.mp hv
  have hnone : (runOps r update fuel frame [.loadScratch p.handle, .dup]).andThen
      (branchOn .jumpIfNull (runOps r update fuel frame [.pop])
        (runOps r update fuel frame (.unsubscribe p.step :: adjust p.counters (-1))))
      ⟨w, .cell c :: stack, pc, locks⟩ = ⟨[], .ok (), ⟨w, .cell c :: stack, pc, locks⟩⟩ := by
    rw [andThen_ok (runOps_loadDup hb hs hv), branchOn_jumpIfNull rfl, if_pos (by rfl),
      runOps_cons (does_pop rfl)]
    rfl
  rw [attach, andThen_ok (runOps_dupLoad hb hs hv), branchOn_jumpIfSame rfl,
    if_neg (by simp [Value.same]), andThen_ok hnone]
  exact runOps_attach hb hs hsize hc

/-- The listener moves from one cell to another. -/
theorem attach_move (hv : s.scratch[p.handle]? = some (.cell d)) (hne : d ≠ c)
    (hc : ∀ n ∈ p.counters, n < s.counters.size) :
    attach r update fuel frame p ⟨w, .cell c :: stack, pc, locks⟩ =
      ⟨[], .ok (), ⟨(w.detach i s p d).attach i (s.detached p) p c, stack, pc, locks⟩⟩ := by
  obtain ⟨hsize, -⟩ := Array.getElem?_eq_some_iff.mp hv
  let w₁ := (w.modifyCell d (·.removeListener i p.step)).put i (s.addCounters p.counters (-1))
  have hs₁ : w₁.instance? i = some (s.addCounters p.counters (-1)) := World.instance?_put hs
  have hold : (runOps r update fuel frame [.loadScratch p.handle, .dup]).andThen
      (branchOn .jumpIfNull (runOps r update fuel frame [.pop])
        (runOps r update fuel frame (.unsubscribe p.step :: adjust p.counters (-1))))
      ⟨w, .cell c :: stack, pc, locks⟩ = ⟨[], .ok (), ⟨w₁, .cell c :: stack, pc, locks⟩⟩ := by
    rw [andThen_ok (runOps_loadDup hb hs hv), branchOn_jumpIfNull rfl,
      if_neg (by simp [Value.isNull]), runOps_cons (does_unsubscribe p.step hb rfl),
      runOps_adjust (m := ⟨w.modifyCell d _, _, _, _⟩) p.counters (-1) hb hs hc]
  rw [attach, andThen_ok (runOps_dupLoad hb hs hv), branchOn_jumpIfSame rfl,
    if_neg (by simpa [Value.same] using Ne.symm hne), andThen_ok hold]
  rw [runOps_attach hb hs₁ (by rw [Instance.addCounters_eq]; exact hsize)
    (by rw [Instance.size_addCounters]; exact hc)]
  have hinst : (s.addCounters p.counters (-1)).attached p c = (s.detached p).attached p c := by
    simp only [Instance.attached, Instance.detached, Instance.addCounters_setScratch,
      Instance.setScratch_setScratch]
  have hput (t : Instance) := World.put_put (w := (w.modifyCell d (·.removeListener i p.step)).modifyCell
    c (·.addListener (.binding i p.step))) (i := i) t ((s.detached p).attached p c)
  have hworld : w₁.attach i (s.addCounters p.counters (-1)) p c =
      (w.detach i s p d).attach i (s.detached p) p c := by
    rw [World.attach, hinst]
    exact (hput _).trans (hput _).symm
  rw [hworld]

theorem detach_null (hv : s.scratch[p.handle]? = some .null) :
    detach r update fuel frame p ⟨w, stack, pc, locks⟩ = ⟨[], .ok (), ⟨w, stack, pc, locks⟩⟩ := by
  rw [detach, andThen_ok (runOps_loadDup hb hs hv), branchOn_jumpIfNull rfl, if_pos (by rfl),
    runOps_cons (does_pop rfl)]
  rfl

theorem detach_cell (hv : s.scratch[p.handle]? = some (.cell d))
    (hc : ∀ n ∈ p.counters, n < s.counters.size) :
    detach r update fuel frame p ⟨w, stack, pc, locks⟩ =
      ⟨[], .ok (), ⟨w.detach i s p d, stack, pc, locks⟩⟩ := by
  obtain ⟨hsize, -⟩ := Array.getElem?_eq_some_iff.mp hv
  let s₁ := s.setScratch p.handle .null
  let w₁ := w.modifyCell d (·.removeListener i p.step)
  have hs₁ : (w₁.put i s₁).instance? i = some s₁ := World.instance?_put hs
  rw [detach, andThen_ok (runOps_loadDup hb hs hv), branchOn_jumpIfNull rfl,
    if_neg (by simp [Value.isNull]), List.cons_append,
    runOps_cons (does_unsubscribe p.step hb rfl), List.cons_append, runOps_cons does_pushNull,
    List.cons_append, runOps_cons (does_storeScratch (m := ⟨w₁, _, _, _⟩) hb hs rfl hsize),
    List.nil_append, runOps_adjust (m := ⟨w₁.put i s₁, _, _, _⟩) p.counters (-1) hb hs₁ hc]
  have hput := World.put_put (w := w₁) (i := i) s₁ (s₁.addCounters p.counters (-1))
  exact congrArg (fun w ↦ (⟨[], .ok (), ⟨w, stack, pc, locks⟩⟩ : Outcome)) hput

end

/-- The counters of the branches of a fragment. -/
abbrev counters (f : Fragment) : List Nat := f.branches.map (·.2.1)

/-- A point has the counters around its fragment and counters of branches in it. -/
theorem Nested.counters_subset {f : Fragment} {enclosing : List Nat} (h : f.Nested enclosing) :
    ∀ p ∈ f.points, enclosing ⊆ p.counters ∧ p.counters ⊆ enclosing ++ f.counters := by
  induction f generalizing enclosing with
  | ops | flagTest | flagAssign => simp [points]
  | observe property q =>
    simp only [points, List.mem_singleton, forall_eq]
    rw [show q.counters = enclosing from h]
    exact ⟨fun _ ↦ id, fun _ ↦ List.mem_append_left _⟩
  | append f g ih ih' | nullGuard f g ih ih' | shortCircuit _ f g ih ih' =>
    intro p hp
    rcases List.mem_append.mp hp with hp | hp
    · obtain ⟨h₁, h₂⟩ := ih h.1 p hp
      refine ⟨h₁, fun n hn ↦ ?_⟩
      have := h₂ hn
      simp only [counters, Fragment.branches, List.map_append, List.mem_append] at this ⊢
      tauto
    · obtain ⟨h₁, h₂⟩ := ih' h.2 p hp
      refine ⟨h₁, fun n hn ↦ ?_⟩
      have := h₂ hn
      simp only [counters, Fragment.branches, List.map_append, List.mem_append] at this ⊢
      tauto
  | branch op f g flag counter ps ih ih' =>
    intro p hp
    rcases List.mem_append.mp hp with hp | hp
    · obtain ⟨h₁, h₂⟩ := ih h.1 p hp
      refine ⟨h₁, fun n hn ↦ ?_⟩
      have := h₂ hn
      simp only [counters, Fragment.branches, List.map_append, List.mem_append] at this ⊢
      tauto
    · obtain ⟨h₁, h₂⟩ := ih' h.2.1 p hp
      refine ⟨fun n hn ↦ h₁ (List.mem_cons_of_mem _ hn), fun n hn ↦ ?_⟩
      have := h₂ hn
      simp only [counters, Fragment.branches, List.map_append, List.map_cons, List.mem_append,
        List.mem_cons] at this ⊢
      tauto

theorem Nested.nodup_counters {f : Fragment} {enclosing : List Nat} (h : f.Nested enclosing)
    (hn : (enclosing ++ f.counters).Nodup) : ∀ p ∈ f.points, p.counters.Nodup := by
  induction f generalizing enclosing with
  | ops | flagTest | flagAssign => simp [points]
  | observe property q =>
    simp only [points, List.mem_singleton, forall_eq]
    rw [show q.counters = enclosing from h]
    exact hn.sublist (List.sublist_append_left _ _)
  | append f g ih ih' | nullGuard f g ih ih' | shortCircuit _ f g ih ih' =>
    simp only [counters, Fragment.branches, List.map_append, ← List.append_assoc] at hn
    intro p hp
    rcases List.mem_append.mp hp with hp | hp
    · exact ih h.1 (hn.sublist (List.sublist_append_left _ _)) p hp
    · refine ih' h.2 ?_ p hp
      exact hn.sublist ((List.sublist_append_left _ _).append_right _)
  | branch op f g flag counter ps ih ih' =>
    simp only [counters, Fragment.branches, List.map_append, List.map_cons] at hn
    intro p hp
    rcases List.mem_append.mp hp with hp | hp
    · refine ih h.1 ?_ p hp
      exact hn.sublist ((List.sublist_append_left _ _).append_left _)
    · refine ih' h.2.1 ?_ p hp
      have hsub : (enclosing ++ counter :: g.counters).Nodup :=
        hn.sublist ((List.sublist_append_right _ _).append_left _)
      exact (List.perm_middle.nodup_iff).mp hsub

/-- The points that have the counter of a branch are those of its right operand. -/
theorem Nested.countP_eq {f : Fragment} {enclosing : List Nat} (h : f.Nested enclosing)
    (hn : (enclosing ++ f.counters).Nodup) {flag counter : Nat} {right : Fragment}
    {ps : List SavePoint} (hmem : (flag, counter, right, ps) ∈ f.branches) (P : SavePoint → Bool) :
    f.points.countP (fun p ↦ counter ∈ p.counters && P p) = ps.countP P := by
  -- a counter that is neither around a fragment nor in it is a counter of none of its points
  have hnone {g : Fragment} {around : List Nat} (hg : g.Nested around)
      (hc : counter ∉ around ++ g.counters) :
      g.points.countP (fun p ↦ counter ∈ p.counters && P p) = 0 := by
    rw [List.countP_eq_zero]
    intro p hp
    have hm : counter ∉ p.counters := fun hm ↦ hc ((hg.counters_subset p hp).2 hm)
    simp [hm]
  have hcounter {g : Fragment} (hg : (flag, counter, right, ps) ∈ g.branches) :
      counter ∈ g.counters := List.mem_map_of_mem hg
  induction f generalizing enclosing with
  | ops | flagTest | flagAssign | observe => simp [Fragment.branches] at hmem
  | append f g ih ih' | nullGuard f g ih ih' | shortCircuit _ f g ih ih' =>
    simp only [counters, Fragment.branches, List.map_append, ← List.append_assoc] at hn
    have hn' : (enclosing ++ g.counters).Nodup :=
      hn.sublist ((List.sublist_append_left _ _).append_right _)
    simp only [points, List.countP_append]
    rcases List.mem_append.mp hmem with hmem | hmem
    · rw [ih h.1 (hn.sublist (List.sublist_append_left _ _)) hmem, hnone h.2, Nat.add_zero]
      intro hc
      have hf := hcounter hmem
      rw [List.append_assoc] at hn
      simp only [List.nodup_append, List.mem_append] at hn hc
      grind
    · rw [ih' h.2 hn' hmem, hnone h.1, Nat.zero_add]
      intro hc
      have hg := hcounter hmem
      rw [List.append_assoc] at hn
      simp only [List.nodup_append, List.mem_append] at hn hc
      grind
  | branch op f g fl ct qs ih ih' =>
    simp only [counters, Fragment.branches, List.map_append, List.map_cons] at hn
    have hnf : (enclosing ++ f.counters).Nodup :=
      hn.sublist ((List.sublist_append_left _ _).append_left _)
    have hng : ((ct :: enclosing) ++ g.counters).Nodup := by
      have hsub : (enclosing ++ ct :: g.counters).Nodup :=
        hn.sublist ((List.sublist_append_right _ _).append_left _)
      exact (List.perm_middle.nodup_iff).mp hsub
    simp only [points, List.countP_append]
    rcases List.mem_append.mp hmem with hmem | hmem
    · rw [ih h.1 hnf hmem, hnone h.2.1, Nat.add_zero]
      intro hc
      have hf := hcounter hmem
      simp only [List.nodup_append, List.mem_append, List.mem_cons, List.nodup_cons] at hn hc
      grind
    · rcases List.mem_cons.mp hmem with heq | hmem
      · cases heq
        rw [hnone h.1, Nat.zero_add, h.2.2.countP_eq]
        · apply List.countP_congr
          intro p hp
          have := (h.2.1.counters_subset p hp).1 List.mem_cons_self
          simp [this]
        · intro hc
          simp only [List.nodup_append, List.mem_append, List.mem_cons, List.nodup_cons] at hn hc
          grind
      · rw [ih' h.2.1 hng hmem, hnone h.1, Nat.zero_add]
        intro hc
        have hg := hcounter hmem
        simp only [List.nodup_append, List.mem_append, List.mem_cons, List.nodup_cons] at hn hc
        grind

end Fragment

/-- No two points share a step or a slot, and their slots and counters are there. -/
structure WellPlaced (points : List SavePoint) (scratch counters : Nat) : Prop where
  steps : (points.map SavePoint.step).Nodup
  handles : (points.map SavePoint.handle).Nodup
  handle_lt : ∀ p ∈ points, p.handle < scratch
  nodup : ∀ p ∈ points, p.counters.Nodup
  counter_lt : ∀ p ∈ points, ∀ n ∈ p.counters, n < counters

/-- The content of a slot that holds a cell or nothing. -/
def Value.ofCell? : Option CellId → Value
  | none => .null
  | some c => .cell c

/-- The storage of a binding has the sizes that its artifact asks for. -/
structure Instance.Fits (s : Instance) (artifact : Artifact) : Prop where
  code : s.artifact = artifact
  scratch : s.scratch.size = artifact.scratch
  counters : s.counters.size = artifact.counters
  flags : s.flags.size = artifact.flags.storage

/-- The listeners of a binding, its slots and its counters tell the same: the point of a step
listens to the cell that `on` gives. -/
structure Tracks (artifact : Artifact) (points : List SavePoint) (i : InstanceId) (w : World)
    (s : Instance) (on : Nat → Option CellId) : Prop where
  found : w.instance? i = some s
  fits : s.Fits artifact
  exist : ∀ k c, on k = some c → c.index < w.cells.size
  listening : ∀ k c, w.listening i k c = if on k = some c then 1 else 0
  handles : ∀ p ∈ points, s.scratch[p.handle]? = some (.ofCell? (on p.step))
  counts : ∀ n < artifact.counters, s.counters[n]? =
    some (Int32.ofNat (points.countP fun p ↦ n ∈ p.counters && (on p.step).isSome))

namespace Tracks

variable {artifact : Artifact} {points : List SavePoint} {i : InstanceId} {w w' : World}
variable {s : Instance} {on : Nat → Option CellId} {p : SavePoint} {c : CellId}

theorem quiet (h : Tracks artifact points i w s on) (hq : Quiet i w w') :
    ∃ t, Tracks artifact points i w' t on := by
  obtain ⟨t, ht, ha⟩ := hq.storage s h.found
  refine ⟨t, ht, ?_, fun k c hk ↦ ?_, fun k c ↦ ?_, ?_, ?_⟩
  · exact ⟨ha.code.trans h.fits.code, ha.scratch ▸ h.fits.scratch, ha.counters ▸ h.fits.counters,
      ha.flags.trans h.fits.flags⟩
  · exact Nat.lt_of_lt_of_le (h.exist k c hk) hq.cells
  · rw [hq.listening, h.listening]
  · rw [ha.scratch]; exact h.handles
  · rw [ha.counters]; exact h.counts

/-- Storing to a slot that is none of a point. -/
theorem setScratch (h : Tracks artifact points i w s on) {slot : Nat} (v : Value)
    (hslot : ∀ p ∈ points, p.handle ≠ slot) :
    Tracks artifact points i (w.put i (s.setScratch slot v)) (s.setScratch slot v) on where
  found := World.instance?_put h.found
  fits := ⟨h.fits.code, by simpa [Instance.setScratch] using h.fits.scratch, h.fits.counters,
    h.fits.flags⟩
  exist := h.exist
  listening := h.listening
  handles p hp := by
    rw [Instance.setScratch, Array.getElem?_setIfInBounds_ne (Ne.symm (hslot p hp))]
    exact h.handles p hp
  counts := h.counts

variable (hw : WellPlaced points artifact.scratch artifact.counters)
include hw

/-- Counting goes on by one point when it changes at one point. -/
theorem countP_change (hp : p ∈ points) {P Q : SavePoint → Bool}
    (h : ∀ q ∈ points, q.step ≠ p.step → Q q = P q) :
    points.countP Q + (P p).toNat = points.countP P + (Q p).toNat := by
  have hperm := List.perm_cons_erase hp
  have hrest : (points.erase p).countP Q = (points.erase p).countP P := by
    apply List.countP_congr
    intro q hq
    have hne := (List.Nodup.mem_erase_iff (List.Nodup.of_map _ hw.steps)).mp hq
    rw [h q hne.2 fun hs ↦ hne.1 (List.inj_on_of_nodup_map hw.steps hne.2 hp hs)]
  rw [hperm.countP_eq Q, hperm.countP_eq P, List.countP_cons, List.countP_cons, hrest]
  cases P p <;> cases Q p <;> simp

theorem handles_update (h : Tracks artifact points i w s on) (hp : p ∈ points)
    (o : Option CellId) {t : Instance}
    (ht : t.scratch = s.scratch.setIfInBounds p.handle (.ofCell? o)) :
    ∀ q ∈ points, t.scratch[q.handle]? = some (.ofCell? (Function.update on p.step o q.step)) := by
  intro q hq
  rw [ht]
  by_cases hs : q.step = p.step
  · obtain rfl := List.inj_on_of_nodup_map hw.steps hq hp hs
    have hlt := hw.handle_lt q hq
    rw [← h.fits.scratch] at hlt
    rw [Array.getElem?_setIfInBounds_self_of_lt hlt, Function.update_self]
  · have hne : p.handle ≠ q.handle := fun he ↦
      hs (congrArg SavePoint.step (List.inj_on_of_nodup_map hw.handles hp hq he)).symm
    rw [Array.getElem?_setIfInBounds_ne hne, Function.update_of_ne hs]
    exact h.handles q hq

theorem detach (h : Tracks artifact points i w s on) (hp : p ∈ points) (hc : on p.step = some c) :
    Tracks artifact points i (w.detach i s p c) (s.detached p) (Function.update on p.step none) where
  found := World.instance?_put (w := w.modifyCell c _) h.found
  fits := by
    have hsize := Instance.size_addCounters (s.setScratch p.handle .null) p.counters (-1)
    refine ⟨?_, ?_, hsize.trans h.fits.counters, ?_⟩
    · rw [Instance.detached, Instance.addCounters_eq]; exact h.fits.code
    · rw [Instance.scratch_detached, Array.size_setIfInBounds]; exact h.fits.scratch
    · rw [Instance.detached, Instance.addCounters_eq]; exact h.fits.flags
  exist k d hd := by
    simp only [World.detach, World.put, World.modifyInstance, World.modifyCell, Array.size_modify]
    by_cases hk : k = p.step
    · subst hk
      simp at hd
    · rw [Function.update_of_ne hk] at hd
      exact h.exist k d hd
  listening k d := by
    show (w.modifyCell c (·.removeListener i p.step)).listening i k d = _
    rw [World.listening_removeListener, h.listening]
    by_cases hk : k = p.step
    · subst hk
      by_cases hd : c = d <;> simp [hc, hd]
    · simp [Function.update_of_ne hk, Ne.symm hk]
  handles := handles_update hw h hp none (s.scratch_detached p)
  counts n hn := by
    rw [Instance.detached, Instance.getElem?_addCounters _ (hw.nodup p hp)]
    have hcount := countP_change hw hp (P := fun q ↦ n ∈ q.counters && (on q.step).isSome)
      (Q := fun q ↦ n ∈ q.counters && (Function.update on p.step none q.step).isSome)
      fun q _ hs ↦ by rw [Function.update_of_ne hs]
    simp only [hc, Function.update_self, Option.isSome_some, Option.isSome_none, Bool.and_true,
      Bool.and_false, Bool.toNat_false, Nat.add_zero] at hcount
    have hold := h.counts n hn
    rw [← hcount] at hold
    split
    · next hmem =>
      rw [show (s.setScratch p.handle .null).counters = s.counters from rfl, hold]
      simp only [hmem, decide_true, Bool.toNat_true, Option.map_some, Int32.ofNat_add,
        Int32.add_assoc]
      rw [show (Int32.ofNat 1 + -1 : Int32) = 0 by decide, Int32.add_zero]
    · next hmem =>
      rw [show (s.setScratch p.handle .null).counters = s.counters from rfl, hold]
      simp [hmem]

theorem attach (h : Tracks artifact points i w s on) (hp : p ∈ points) (hnone : on p.step = none)
    (hc : c.index < w.cells.size) :
    Tracks artifact points i (w.attach i s p c) (s.attached p c)
      (Function.update on p.step (some c)) where
  found := World.instance?_put (w := w.modifyCell c _) h.found
  fits := by
    have hsize := Instance.size_addCounters (s.setScratch p.handle (.cell c)) p.counters 1
    refine ⟨?_, ?_, hsize.trans h.fits.counters, ?_⟩
    · rw [Instance.attached, Instance.addCounters_eq]; exact h.fits.code
    · rw [Instance.scratch_attached, Array.size_setIfInBounds]; exact h.fits.scratch
    · rw [Instance.attached, Instance.addCounters_eq]; exact h.fits.flags
  exist k d hd := by
    simp only [World.attach, World.put, World.modifyInstance, World.modifyCell, Array.size_modify]
    by_cases hk : k = p.step
    · subst hk
      rw [Function.update_self] at hd
      cases hd
      exact hc
    · rw [Function.update_of_ne hk] at hd
      exact h.exist k d hd
  listening k d := by
    show (w.modifyCell c (·.addListener (.binding i p.step))).listening i k d = _
    rw [World.listening_addListener _ _ _ _ _ _ hc, h.listening]
    by_cases hk : k = p.step
    · subst hk
      by_cases hd : c = d <;> simp [hnone, hd]
    · simp [Function.update_of_ne hk, Ne.symm hk]
  handles := handles_update hw h hp (some c) (s.scratch_attached p c)
  counts n hn := by
    rw [Instance.attached, Instance.getElem?_addCounters _ (hw.nodup p hp)]
    have hcount := countP_change hw hp (P := fun q ↦ n ∈ q.counters && (on q.step).isSome)
      (Q := fun q ↦ n ∈ q.counters && (Function.update on p.step (some c) q.step).isSome)
      fun q _ hs ↦ by rw [Function.update_of_ne hs]
    simp only [hnone, Function.update_self, Option.isSome_some, Option.isSome_none, Bool.and_true,
      Bool.and_false, Bool.toNat_false, Nat.add_zero] at hcount
    rw [show (s.setScratch p.handle (.cell c)).counters = s.counters from rfl, h.counts n hn, hcount]
    split
    · next hmem =>
      simp only [hmem, decide_true, Bool.toNat_true, Option.map_some, Int32.ofNat_add]
      rfl
    · next hmem => simp [hmem]

end Tracks

theorem World.SlotsExist.ofEq {w w' : World} (h : w.SlotsExist) (ho : w'.objects = w.objects)
    (hc : w'.cells.size = w.cells.size) : w'.SlotsExist := by
  simpa only [World.SlotsExist, World.observable?, World.slot?, World.object?, ho, hc] using h

theorem World.SlotsExist.attach {w : World} (h : w.SlotsExist) {i : InstanceId} {s : Instance}
    {p : SavePoint} {c : CellId} : (w.attach i s p c).SlotsExist :=
  h.ofEq rfl (by simp [World.attach, World.put, World.modifyInstance, World.modifyCell])

theorem World.SlotsExist.detach {w : World} (h : w.SlotsExist) {i : InstanceId} {s : Instance}
    {p : SavePoint} {c : CellId} : (w.detach i s p c).SlotsExist :=
  h.ofEq rfl (by simp [World.detach, World.put, World.modifyInstance, World.modifyCell])

/-- The bookkeeping of a binding is right. -/
def Kept (artifact : Artifact) (points : List SavePoint) (i : InstanceId) (w : World) : Prop :=
  w.SlotsExist ∧ ∃ s on, Tracks artifact points i w s on

theorem Kept.undisturbed (artifact : Artifact) (points : List SavePoint) (i : InstanceId) :
    Undisturbed i (Kept artifact points i) := by
  rintro w w' hq ⟨hslots, s, on, h⟩
  obtain ⟨t, ht⟩ := h.quiet hq
  exact ⟨hq.slots hslots, t, on, ht⟩

namespace Fragment

/-- The scratch slots that operands are set aside in. -/
def stores : Fragment → List Nat
  | ops list => storesOf list
  | append f g | nullGuard f g | shortCircuit _ f g | branch _ f g .. => stores f ++ stores g
  | flagTest _ | flagAssign .. | observe .. => []

theorem perm_slots (f : Fragment) : f.slots.Perm (f.stores ++ f.points.map SavePoint.handle) := by
  induction f with
  | ops | flagTest | flagAssign | observe => simp [slots, stores, points]
  | append f g ih ih' | nullGuard f g ih ih' | shortCircuit _ f g ih ih'
  | branch _ f g _ _ _ ih ih' =>
    simp only [slots, stores, points, List.map_append]
    refine (ih.append ih').trans ?_
    simp only [List.append_assoc]
    refine .append_left _ ?_
    simp only [← List.append_assoc]
    exact List.perm_append_comm.append_right _

/-- Changes the slots of some points only by moving their listeners. -/
def Spares (ps : List SavePoint) : Fragment → Prop
  | ops list => ∀ op ∈ list, op.isHarmless ∨ ∃ n, op = .storeScratch n ∧ ∀ p ∈ ps, p.handle ≠ n
  | append f g | nullGuard f g | shortCircuit _ f g => Spares ps f ∧ Spares ps g
  | flagTest _ | flagAssign .. => True
  | observe _ p => p ∈ ps
  | branch _ f g _ _ qs => Spares ps f ∧ Spares ps g ∧ qs ⊆ ps

theorem spares_of_stores {f : Fragment} {ps : List SavePoint} {enclosing : List Nat}
    (ho : f.isOrdinary) (hn : f.Nested enclosing) (hp : f.points ⊆ ps)
    (hs : ∀ n ∈ f.stores, ∀ p ∈ ps, p.handle ≠ n) : f.Spares ps := by
  induction f generalizing enclosing with
  | ops list =>
    intro op hop
    simp only [isOrdinary, List.all_eq_true] at ho
    have hop' := ho op hop
    by_cases hstore : ∃ n, op = .storeScratch n
    · obtain ⟨n, rfl⟩ := hstore
      exact .inr ⟨n, rfl, hs n (List.mem_filterMap.mpr ⟨_, hop, rfl⟩)⟩
    · left
      cases op with
      | storeScratch n => exact absurd ⟨n, rfl⟩ hstore
      | counterAdd | subscribe | unsubscribe => cases hop'
      | _ => rfl
  | flagTest | flagAssign => trivial
  | observe property p => exact hp List.mem_cons_self
  | append f g ih ih' | nullGuard f g ih ih' | shortCircuit _ f g ih ih' =>
    simp only [isOrdinary, Bool.and_eq_true] at ho
    exact ⟨ih ho.1 hn.1 (fun p h ↦ hp (List.mem_append_left _ h))
      (fun n h ↦ hs n (List.mem_append_left _ h)),
      ih' ho.2 hn.2 (fun p h ↦ hp (List.mem_append_right _ h))
      (fun n h ↦ hs n (List.mem_append_right _ h))⟩
  | branch op f g flag counter qs ih ih' =>
    simp only [isOrdinary, Bool.and_eq_true] at ho
    exact ⟨ih ho.1 hn.1 (fun p h ↦ hp (List.mem_append_left _ h))
      (fun n h ↦ hs n (List.mem_append_left _ h)),
      ih' ho.2 hn.2.1 (fun p h ↦ hp (List.mem_append_right _ h))
      (fun n h ↦ hs n (List.mem_append_right _ h)),
      fun p h ↦ hp (List.mem_append_right _ (hn.2.2.subset h))⟩

end Fragment

namespace Compiles

variable {body coercion : Fragment} {t : Resumable} {layout : FlagLayout} {artifact : Artifact}

/-- The counters of a binding are numbered from 0 on. -/
theorem counters_eq (h : Compiles body coercion t layout artifact) :
    body.counters = List.range artifact.counters := by
  have hc := h.renders.counters
  have hn := h.renders.nextCounter
  simp only [Resumable.start, Nat.zero_add] at hc hn
  rw [h.counters, hn, List.range_eq_range']
  exact hc

theorem nodup_slots (h : Compiles body coercion t layout artifact) :
    (body.stores ++ body.points.map SavePoint.handle).Nodup :=
  (body.perm_slots.symm.trans h.renders.slots).nodup_iff.mpr List.nodup_range'

theorem wellPlaced (h : Compiles body coercion t layout artifact) :
    WellPlaced body.points artifact.scratch artifact.counters := by
  have hslots := body.perm_slots.symm.trans h.renders.slots
  have hnext := h.renders.nextSlot
  have hnodup : ([] ++ body.counters).Nodup := by
    rw [List.nil_append, h.counters_eq]
    exact List.nodup_range
  have hnested : body.Nested [] := h.renders.nested
  refine ⟨?_, ?_, fun p hp ↦ ?_, hnested.nodup_counters hnodup, fun p hp n hn ↦ ?_⟩
  · have hsteps := h.steps_eq
    rw [Fragment.steps] at hsteps
    rw [hsteps]
    exact List.nodup_range'
  · exact h.nodup_slots.sublist (List.sublist_append_right _ _)
  · have hmem := hslots.subset (List.mem_append_right body.stores (List.mem_map_of_mem hp))
    rw [List.mem_range'_1] at hmem
    rw [h.scratch]
    simp only [Resumable.start] at hmem hnext
    omega
  · have hmem := (hnested.counters_subset p hp).2 hn
    rw [List.nil_append, h.counters_eq] at hmem
    exact List.mem_range.mp hmem

theorem spares (h : Compiles body coercion t layout artifact) : body.Spares body.points := by
  refine Fragment.spares_of_stores h.renders.ordinary h.renders.nested (fun _ ↦ id) ?_
  intro n hn p hp he
  exact List.disjoint_of_nodup_append h.nodup_slots hn (he ▸ List.mem_map_of_mem hp)

end Compiles

namespace Kept

open Exec Fragment

variable {artifact : Artifact} {points : List SavePoint} {i : InstanceId}
variable {r : Registry} {update : Updater} {fuel : Nat} {frame : Frame}

variable (hw : WellPlaced points artifact.scratch artifact.counters)
variable (hu : ∀ j k, Keeps (Kept artifact points i) (update j k)) (hb : frame.binding = some i)

/-- A stretch of code keeps the bookkeeping right. -/
abbrev By (artifact : Artifact) (points : List SavePoint) (i : InstanceId) (b : Block) : Prop :=
  b.Ensures (fun m ↦ Kept artifact points i m.world) (fun m ↦ Kept artifact points i m.world)
    (fun _ m ↦ Kept artifact points i m.world)

theorem branchOn {jump : Label → Op} {a b : Block} (ha : By artifact points i a)
    (hb : By artifact points i b) : By artifact points i (branchOn jump a b) := by
  refine ensures_branchOn ?_ ha hb
  refine ((closed_keeps fun _ ↦ Kept artifact points i).condition _).post fun b m hm ↦ ?_
  split <;> exact hm

include hu in
theorem harmless {list : List Op} (h : ∀ op ∈ list, op.isHarmless) :
    By artifact points i (runOps r update fuel frame list) :=
  keeps_runOps fun op hop ↦ keeps_step (undisturbed artifact points i) hu (fun _ ↦ h op hop) _

include hb in
theorem storeScratch {n : Nat} (h : ∀ p ∈ points, p.handle ≠ n) (R : Routine) :
    Keeps (fun m ↦ Kept artifact points i m.world) (step r update fuel frame R (.storeScratch n)) := by
  refine (closed_keeps fun _ ↦ Kept artifact points i).pop.bind fun v ↦ ?_
  rintro m ⟨hslots, s, on, ht⟩
  rw [bind_apply, state_apply hb ht.found]
  dsimp only
  unfold storeAt
  by_cases hn : n < s.scratch.size
  · rw [if_pos hn, bind_apply, pure_apply]
    dsimp only
    rw [setState_apply hb]
    exact ⟨hslots, _, on, ht.setScratch v h⟩
  · rw [if_neg hn]
    exact ⟨hslots, s, on, ht⟩

section

include hw hb

theorem attach {p : SavePoint} (hp : p ∈ points) :
    Block.Ensures (fun m ↦ Kept artifact points i m.world ∧ ∃ c rest, m.stack = .cell c :: rest ∧
        c.index < m.world.cells.size) (attach r update fuel frame p)
      (fun m ↦ Kept artifact points i m.world) (fun _ m ↦ Kept artifact points i m.world) := by
  rintro ⟨w, stack, pc, locks⟩ ⟨⟨hslots, s, on, ht⟩, c, rest, rfl, hc⟩
  have hcount : ∀ n ∈ p.counters, n < s.counters.size := by
    rw [ht.fits.counters]
    exact hw.counter_lt p hp
  have hv := ht.handles p hp
  cases hon : on p.step with
  | none =>
    rw [hon] at hv
    rw [attach_fresh hb ht.found hv hcount]
    exact ⟨hslots.attach, _, _, ht.attach hw hp hon hc⟩
  | some d =>
    rw [hon] at hv
    by_cases hdc : d = c
    · subst hdc
      rw [attach_same hb ht.found hv]
      exact ⟨hslots, s, on, ht⟩
    · rw [attach_move hb ht.found hv hdc hcount]
      have hd := ht.detach hw hp hon
      refine ⟨hslots.detach.attach, _, _, hd.attach hw hp (Function.update_self ..) ?_⟩
      simpa [World.detach, World.put, World.modifyInstance, World.modifyCell] using hc

theorem detach {p : SavePoint} (hp : p ∈ points) :
    By artifact points i (detach r update fuel frame p) := by
  rintro ⟨w, stack, pc, locks⟩ ⟨hslots, s, on, ht⟩
  have hcount : ∀ n ∈ p.counters, n < s.counters.size := by
    rw [ht.fits.counters]
    exact hw.counter_lt p hp
  have hv := ht.handles p hp
  cases hon : on p.step with
  | none =>
    rw [hon] at hv
    rw [detach_null hb ht.found hv]
    exact ⟨hslots, s, on, ht⟩
  | some d =>
    rw [hon] at hv
    rw [detach_cell hb ht.found hv hcount]
    exact ⟨hslots.detach, _, _, ht.detach hw hp hon⟩

theorem detachAll {ps : List SavePoint} (hps : ps ⊆ points) :
    By artifact points i (detachAll r update fuel frame ps) := by
  induction ps with
  | nil => exact .skip
  | cons p ps ih =>
    exact (detach hw hb (hps List.mem_cons_self)).andThen
      (ih fun q hq ↦ hps (List.mem_cons_of_mem _ hq))

end

section

include hu

theorem assignFlag (layout : Option FlagLayout) (flag : Nat) (value : Bool) :
    By artifact points i (assignFlag r update fuel frame layout flag value) := by
  refine harmless hu fun op hop ↦ ?_
  rw [List.mem_singleton.mp hop]
  cases layoutFor layout flag <;> rfl

theorem decide {op : BinaryOp} {a b : Block} (ha : By artifact points i a)
    (hb : By artifact points i b) : By artifact points i (decide r update fuel frame op a b) :=
  (harmless hu (by simp [Op.isHarmless])).andThen <| branchOn ha <|
    (harmless hu (by simp [Op.isHarmless])).andThen hb

theorem reread (p : SavePoint) : By artifact points i (reread r update fuel frame p) :=
  harmless hu (by simp [Op.isHarmless])

include hw hb

theorem skipBranch (layout : Option FlagLayout) (flag counter : Nat) {ps : List SavePoint}
    (hps : ps ⊆ points) : By artifact points i (skipBranch r update fuel frame layout flag counter ps) :=
  (assignFlag hu layout flag false).andThen <| (harmless hu (by simp [Op.isHarmless])).andThen <|
    branchOn .skip (detachAll hw hb hps)

/-- Listening to a property of the object on top. -/
theorem observe (property : String) {p : SavePoint} (hp : p ∈ points) :
    By artifact points i ((runOps r update fuel frame [.getObservable property]).andThen
      ((Fragment.attach r update fuel frame p).andThen (Fragment.reread r update fuel frame p))) := by
  refine Block.Ensures.andThen ?_ ((attach hw hb hp).andThen (reread hu p))
  refine Block.Ensures.andThen (ensures_runOp ?_) .skip
  refine ((closed_keeps fun _ ↦ Kept artifact points i).popReceiver property).bind fun o ↦ ?_
  rintro m hm
  rw [bind_apply, get_apply]
  dsimp only
  cases hc : m.world.observable? o property with
  | none => exact hm
  | some c => exact ⟨hm, c, m.stack, rfl, hm.1 o property c hc⟩

/-- Running a fragment keeps the bookkeeping right, wherever it stops. -/
theorem run (layout : Option FlagLayout) {f : Fragment} (h : f.Spares points) :
    By artifact points i (f.run r update fuel frame layout) := by
  induction f with
  | ops list =>
    refine keeps_runOps fun op hop ↦ ?_
    obtain hharm | ⟨n, rfl, hn⟩ := h op hop
    · exact keeps_step (undisturbed artifact points i) hu (fun _ ↦ hharm) _
    · exact storeScratch hb hn _
  | append f g ih ih' => exact (ih h.1).andThen (ih' h.2)
  | nullGuard f g ih ih' =>
    exact (harmless hu (by simp [Op.isHarmless])).andThen <| branchOn
      ((harmless hu (by simp [Op.isHarmless])).andThen (ih' h.2)) (ih h.1)
  | shortCircuit op f g ih ih' => exact (ih h.1).andThen (decide hu .skip (ih' h.2))
  | flagTest flag =>
    refine harmless hu fun op hop ↦ ?_
    rw [List.mem_singleton.mp hop]
    cases layoutFor layout flag <;> rfl
  | flagAssign flag value => exact assignFlag hu layout flag value
  | observe property p => exact observe hw hu hb property h
  | branch op f g flag counter ps ih ih' =>
    exact (ih h.1).andThen <| decide hu (skipBranch hw hu hb layout flag counter h.2.2)
      ((assignFlag hu layout flag true).andThen (ih' h.2.1))

theorem resume (layout : Option FlagLayout) (k : Nat) {f : Fragment} (h : f.Spares points) :
    By artifact points i (f.resume r update fuel frame layout k) := by
  induction f with
  | ops list | flagTest flag | flagAssign flag value => exact .skip
  | append f g ih ih' =>
    unfold Fragment.resume
    split
    · exact (ih h.1).andThen (run hw hu hb layout h.2)
    · exact ih' h.2
  | nullGuard f g ih ih' =>
    unfold Fragment.resume
    split
    · exact ih h.1
    · exact ih' h.2
  | shortCircuit op f g ih ih' =>
    unfold Fragment.resume
    split
    · exact (ih h.1).andThen (decide hu .skip (run hw hu hb layout h.2))
    · exact ih' h.2
  | observe property p => exact reread hu p
  | branch op f g flag counter ps ih ih' =>
    unfold Fragment.resume
    split
    · exact (ih h.1).andThen <| decide hu (skipBranch hw hu hb layout flag counter h.2.2)
        ((assignFlag hu layout flag true).andThen (run hw hu hb layout h.2.1))
    · exact ih' h.2.1

end

end Kept

end LiveBinding
