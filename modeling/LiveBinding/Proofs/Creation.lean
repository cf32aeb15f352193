import LiveBinding.Proofs.Loading

namespace LiveBinding

open Exec Fragment

/-- What the storage of a binding stands for. -/
def Instance.store (s : Instance) (artifact : Artifact) : Store
  | .slot n => s.scratch.getD n .null
  | .flag n => .bool (decide (n < artifact.flags.bits) && artifact.flags.isSet s.flags n)

namespace Tracks

variable {artifact : Artifact} {points : List SavePoint} {i : InstanceId} {w : World}
variable {s : Instance} {on : Nat → Option CellId} {handled : Prop}

theorem holding (ht : Tracks artifact points i w s on) (ha : ∀ k, on k ≠ some s.result) :
    s.Holding artifact points s handled on (s.store artifact) where
  captures := rfl
  result := rfl
  queued := rfl
  alive := rfl
  slots n hn _ := by
    have hlt : n < s.scratch.size := ht.fits.scratch.symm ▸ hn
    simp [Instance.store, hlt]
  flags n hn := by simp [Instance.store, hn]
  away := ha
  handles _ p hp := by
    show s.scratch.getD p.handle .null = _
    rw [Array.getD_eq_getD_getElem?, ht.handles p hp]
    rfl

/-- An update starts with the storage as it is. -/
theorem running (ht : Tracks artifact points i w s on) (ha : ∀ k, on k ≠ some s.result) :
    Running artifact points i (Compiles.locked w s).world s handled (Compiles.locked w s)
      ⟨[], s.store artifact⟩ where
  stack := rfl
  alike := ⟨rfl, rfl, rfl, rfl, fun _ ↦ rfl⟩
  result := rfl
  told d cell hd l hl := .inl ⟨cell, hd, hl⟩
  others _ _ := rfl
  kept := by
    have hq : Quiet i w (w.modifyCell s.result Cell.lock) := .modifyCell s.result w fun _ _ ↦ rfl
    exact ⟨s, on, ⟨ht.found, ht.fits, fun k c h ↦ Nat.lt_of_lt_of_le (ht.exist k c h) hq.cells,
      fun k c ↦ (hq.listening k c).trans (ht.listening k c), ht.handles, ht.counts⟩, ht.holding ha⟩

theorem capturing (ht : Tracks artifact points i w s on) (vs : List Value) :
    Tracks artifact points i (w.put i (s.capturing vs)) (s.capturing vs) on :=
  ⟨World.instance?_put ht.found, ⟨ht.fits.code, ht.fits.scratch, ht.fits.counters, ht.fits.flags⟩,
    ht.exist, ht.listening, ht.handles, ht.counts⟩

end Tracks

namespace Compiles

variable {r : Registry} {fuel : Nat} {i : InstanceId} {k : Nat}
variable {body coercion : Fragment} {t : Resumable} {layout : FlagLayout} {artifact : Artifact}
variable {w : World} {s : Instance} {old : Value} {handled : Prop} {n : Nat} {e : Effect Config}
variable {enough : MethodId → List Value → Prop} {W : List Loc} {st : Store}

/-- What an update comes to if its code does what a computation says. -/
theorem update_follows (hs : w.instance? i = some s) (hcode : s.artifact = artifact)
    (hc : w.cell? s.result = some (.quiet old)) (hq : s.queued = [])
    (hfin : Finishes r (updateInstance r fuel) fuel { binding := some i, step := k }
      artifact.update n { world := w } (updateBlock r (updateInstance r fuel) fuel
        { binding := some i, step := k } layout body coercion i k { world := w }))
    (hroute : updateRoute layout body i k (locked w s).world = .resume)
    (hf : (computed r fuel i k body coercion layout (locked w s)).Follows enough
      (Running artifact body.points i (locked w s).world s handled) W st e)
    (hends : e.result ≠ .error .exhausted) (hpush : ∀ c, e.result = .ok c → c.stack ≠ [])
    (hfuel : (n ≤ fuel ∧ 2 ≤ fuel ∧ ∀ call ∈ e.calls, enough call.method call.args) ∨
      (updateInstance r (fuel + 1) i k w).1 ≠ .error .exhausted) :
    history r (updateInstance r fuel) fuel { binding := some i, step := k } artifact.update fuel
      { world := w } = e.calls ∧
    ((∃ v σ st m, e.result = .ok ⟨v :: σ, st⟩ ∧
        Running artifact body.points i (locked w s).world s handled m ⟨v :: σ, st⟩ ∧
        updateInstance r (fuel + 1) i k w =
          (.ok (), m.world.putCell s.result (.quiet (old.replaced v)))) ∨
      ∃ x, e.result = .error (.error x) ∧ (updateInstance r (fuel + 1) i k w).1 = .error (.error x)) := by
  have hfuel' : n ≤ fuel ∧ 2 ≤ fuel ∨ (updateInstance r (fuel + 1) i k w).1 ≠ .error .exhausted :=
    hfuel.imp (fun h ↦ ⟨h.1, h.2.1⟩) id
  obtain ⟨c₁, hc₁, -⟩ := hf.within
  obtain ⟨hx, call, hcall, hnot⟩ | ⟨hcalls, ⟨c, hok, ho, hrun⟩ | ⟨x, hx, ho⟩⟩ := hf.ends hends
  · -- the code runs out of steps only if the update does
    obtain ⟨-, -, henough⟩ | hne := hfuel
    · exact absurd (henough call hcall) hnot
    · obtain ⟨⟨pc, hexec⟩, -⟩ := execute_update hs hcode hc hfin hfuel'
      rw [updateBlock_error hs hroute hx] at hexec
      refine absurd (updateInstance_error hs hc (hcode.symm ▸ runRoutine_exhausted ?_)) hne
      rw [hexec]
      simp only [answer, hx]
  · obtain ⟨_ | ⟨v, σ⟩, st'⟩ := c
    · exact absurd rfl (hpush _ hok)
    obtain ⟨hupdate, hhistory⟩ := update_ok hs hcode hc hfin hroute hq ho hrun hfuel'
    exact ⟨hhistory.trans hcalls, .inl ⟨v, σ, st', _, hok, hrun, hupdate⟩⟩
  · obtain ⟨x⟩ | _ := x
    · obtain ⟨hupdate, hhistory⟩ := update_error hs hcode hc hfin hroute ho hc₁ hfuel'
      exact ⟨hhistory.trans hcalls, .inr ⟨x, hx, hupdate⟩⟩
    · exact absurd hx hends

end Compiles


/-- The calls that an update of a binding makes. -/
def updateCalls (r : Registry) : Nat → InstanceId → Nat → World → List Call
  | 0, _, _, _ => []
  | fuel + 1, i, step, w =>
    match w.instance? i with
    | none => []
    | some s => history r (updateInstance r fuel) fuel { binding := some i, step } s.artifact.update fuel
        { world := w }

/-- The calls that making a binding makes: those of capturing what it reads and of its first
update. -/
def creationCalls (r : Registry) (fuel : Nat) (artifact : Artifact) (w : World) : List Call :=
  let i : InstanceId := ⟨w.instances.size⟩
  let frame : Frame := { locals := w.frame, binding := some i }
  history r (updateInstance r fuel) fuel frame artifact.init fuel { world := w.addInstance artifact } ++
    match runRoutine r (updateInstance r fuel) fuel frame artifact.init (w.addInstance artifact) with
    | (.ok _, w') => updateCalls r fuel i 0 w'
    | (.error _, _) => []

theorem Value.null_replaced (v : Value) : Value.null.replaced v = v := by
  cases v <;> rfl

theorem createInstance_error {r : Registry} {fuel : Nat} {artifact : Artifact} {w : World} {e : Stop}
    (h : (runInit r fuel ⟨w.instances.size⟩ artifact (w.addInstance artifact)).1 = .error e) :
    (createInstance r fuel artifact w).1 = .error e := by
  rw [createInstance_eq]
  rcases hr : runInit r fuel ⟨w.instances.size⟩ artifact (w.addInstance artifact) with ⟨a, w'⟩
  rw [hr] at h
  obtain rfl : a = .error e := h
  rfl

namespace World

variable (w : World) (artifact : Artifact) (vs : List Value)

/-- The storage of a binding that has captured what it reads. -/
def filled : Instance := (Instance.new artifact (w.newCell .null).1).capturing vs

/-- The world before the first update of a binding. -/
def capturing : World := (w.addInstance artifact).put ⟨w.instances.size⟩ (w.filled artifact vs)

variable {w artifact vs}

theorem sameHeap_addInstance : w.SameHeap (w.addInstance artifact) where
  objects := rfl
  cellValue c := by
    show (((w.cells.push ⟨.null, [], 0, false⟩)[c.index]?).map Cell.value).getD .null =
      ((w.cells[c.index]?).map Cell.value).getD .null
    rw [Array.getElem?_push]
    split
    · next h => simp [h]
    · rfl

theorem SameHeap.put {w w' : World} (h : w.SameHeap w') (i : InstanceId) (s : Instance) :
    w.SameHeap (w'.put i s) := ⟨h.objects, h.cellValue⟩

theorem sameHeap_capturing : w.SameHeap (w.capturing artifact vs) := sameHeap_addInstance.put _ _

/-- The lock of a cell is no part of the heap. -/
theorem SameHeap.lock {w w' : World} (h : w.SameHeap w') (c : CellId) :
    w.SameHeap (w'.modifyCell c Cell.lock) where
  objects := h.objects
  cellValue d := by
    have hmap : ((w'.modifyCell c Cell.lock).cell? d).map Cell.value = (w'.cell? d).map Cell.value := by
      rw [cell?_modifyCell]
      split
      · exact Option.map_map ..
      · rfl
    exact (congrArg (fun x ↦ x.getD Value.null) hmap).trans (h.cellValue d)

theorem cell?_result : (w.capturing artifact vs).cell? (w.filled artifact vs).result =
    some (.quiet .null) := by
  show (w.cells.push _)[w.cells.size]? = _
  simp

end World

namespace Compiles

variable {r : Registry} {fuel : Nat} {body coercion : Fragment} {t : Resumable} {layout : FlagLayout}
variable {artifact : Artifact} {w : World} {vs : List Value}

/-- The storage is ready for the first update. -/
theorem ready (hc : Compiles body coercion t layout artifact) (hslots : w.SlotsExist) {handled : Prop}
    (hfew : handled → body.points.length < 2 ^ 32) :
    Ready artifact body.points (locked (w.capturing artifact vs) (w.filled artifact vs)).world
      (w.filled artifact vs) handled where
  placed := hc.wellPlaced
  layout := hc.layout_eq.2
  exist o p c h := by
    have hlt : c.index < w.cells.size := hslots o p c h
    show c.index < ((w.cells.push _).modify _ _).size
    rw [Array.size_modify, Array.size_push]
    omega
  apart o p d h := by
    have hlt : d.index < w.cells.size := hslots o p d h
    rintro rfl
    exact Nat.lt_irrefl _ hlt
  few := hfew

section

variable (hc : Compiles body coercion t layout artifact)
variable (hfresh : ∀ k c, w.listening ⟨w.instances.size⟩ k c = 0)
variable (hload : List.Forall₂ (Loadable.Loads r w.frame w.SameHeap) t.storage.captured vs)
include hc hfresh hload

/-- Loading the captured values. -/
theorem finishes_init :
    Finishes r (updateInstance r fuel) fuel { locals := w.frame, binding := some ⟨w.instances.size⟩ }
      artifact.init artifact.init.size { world := w.addInstance artifact }
      ⟨[], .ok (), { world := w.capturing artifact vs }⟩ := by
  have hfin : Finishes r (updateInstance r fuel) fuel
      { locals := w.frame, binding := some ⟨w.instances.size⟩ } artifact.init artifact.init.size
      { world := w.addInstance artifact } _ := finishes_fragment hc.init
    (Storage.isStraight_loads (Loadable.Loads.forall_isPlain hload) 0) (w.addInstance artifact)
  have hrun : (Storage.loads 0 t.storage.captured).run r (updateInstance r fuel) fuel
      { locals := w.frame, binding := some ⟨w.instances.size⟩ } (some layout)
      { world := w.addInstance artifact } = _ :=
    Storage.run_loads (fun _ s h ↦ h.put _ s) hload World.sameHeap_addInstance
      (Tracks.start hc.wellPlaced hfresh).found
      (by simp [Instance.new, hc.captures, Storage.captures]) (some layout)
  rwa [show t.storage.init = Storage.loads 0 t.storage.captured from rfl, hrun] at hfin

/-- What is left of making a binding once it has captured what it reads. -/
theorem runInit_eq (hfuel : artifact.init.size ≤ fuel ∨
      (createInstance r fuel artifact w).1 ≠ .error .exhausted) :
    creationCalls r fuel artifact w =
      updateCalls r fuel ⟨w.instances.size⟩ 0 (w.capturing artifact vs) ∧
    runInit r fuel ⟨w.instances.size⟩ artifact (w.addInstance artifact) =
      updateInstance r fuel ⟨w.instances.size⟩ 0 (w.capturing artifact vs) := by
  have hfin : Finishes r (updateInstance r fuel) fuel _ _ _ _ _ := finishes_init hc hfresh hload
  have hroutine : runRoutine r (updateInstance r fuel) fuel
      { locals := w.frame, binding := some ⟨w.instances.size⟩ } artifact.init (w.addInstance artifact) =
        (.ok none, w.capturing artifact vs) ∧ history r (updateInstance r fuel) fuel
      { locals := w.frame, binding := some ⟨w.instances.size⟩ } artifact.init fuel
        { world := w.addInstance artifact } = [] := by
    have hfuel' : artifact.init.size ≤ fuel ∨ (runRoutine r (updateInstance r fuel) fuel
        { locals := w.frame, binding := some ⟨w.instances.size⟩ } artifact.init
        (w.addInstance artifact)).1 ≠ .error .exhausted := by
      refine hfuel.imp id fun hne he ↦ hne (createInstance_error ?_)
      simp only [runInit, Run.bind_apply (α := List Value), Run.view_apply]
      exact Run.bind_error he _
    obtain ⟨⟨pc, hexec⟩, hcalls⟩ := hfin.execute_of hfuel'
    exact ⟨runRoutine_ok hexec rfl, hcalls⟩
  refine ⟨?_, ?_⟩
  · simp only [creationCalls, hroutine.1, hroutine.2]
    rfl
  · simp only [runInit, Run.bind_apply, Run.view_apply]
    rw [show (w.addInstance artifact).frame = w.frame from rfl, hroutine.1]

omit hload in
/-- So it is if methods are called to load the captured values. They only leave records. -/
theorem runInit_gives {answer : MethodId → List Value → Except RuntimeError Value} {W : World → Prop}
    (hr : r.Functional w.objects answer) (hW : W (w.addInstance artifact))
    (hgives : List.Forall₂ (Loadable.Gives r answer w.frame W) t.storage.captured vs)
    {methods : Array MethodDef}
    (hcalls : methods = r.methods ∨ ∀ l ∈ t.storage.captured, l.load.isSilent)
    (hfuel : (artifact.init.size ≤ fuel ∧ ∀ call ∈ Loadable.calls
        ((w.addInstance artifact).reading r (asked answer) w.frame #[]) t.storage.captured,
          Registry.Functional.Enough r (updateInstance { r with methods } fuel) fuel w.objects
            call.method call.args) ∨
      (createInstance { r with methods } fuel artifact w).1 ≠ .error .exhausted) :
    ∃ events, runInit { r with methods } fuel ⟨w.instances.size⟩ artifact (w.addInstance artifact) =
      updateInstance { r with methods } fuel ⟨w.instances.size⟩ 0
        (({ w with events }).capturing artifact vs) := by
  let h : Registry := { r with methods }
  let frame : Frame := { locals := w.frame, binding := some ⟨w.instances.size⟩ }
  have hplain : ∀ l ∈ t.storage.captured, l.load.isPlain := by
    obtain ⟨hlength, hget⟩ := List.forall₂_iff_get.mp hgives
    intro l hl
    obtain ⟨n, hn, rfl⟩ := List.mem_iff_getElem.mp hl
    exact (hget n hn (hlength ▸ hn)).plain
  have hfin : Finishes h (updateInstance h fuel) fuel frame artifact.init artifact.init.size
      { world := w.addInstance artifact } _ :=
    finishes_fragment hc.init (Storage.isStraight_loads hplain 0) (w.addInstance artifact)
  have hinit {e : Stop} (he : (runRoutine h (updateInstance h fuel) fuel frame artifact.init
      (w.addInstance artifact)).1 = .error e) : (createInstance h fuel artifact w).1 = .error e := by
    refine createInstance_error ?_
    simp only [runInit, Run.bind_apply (α := List Value), Run.view_apply]
    exact Run.bind_error he _
  obtain ⟨⟨pc, hexec⟩, -⟩ := hfin.execute_of (hfuel.imp And.left fun hne he ↦ hne (hinit he))
  obtain ⟨hx, call, hcall, hnot⟩ | ⟨hok, events, hworld⟩ := @Storage.run_gives r methods
    (updateInstance h fuel) fuel w.frame ⟨w.instances.size⟩ (w.addInstance artifact) W _ hr hW _ _ hgives
    hcalls 0 { world := w.addInstance artifact } _ rfl rfl rfl (Tracks.start hc.wellPlaced hfresh).found
    (by simp [Instance.new, hc.captures, Storage.captures]) (some layout)
  · have hx : (t.storage.init.run h (updateInstance h fuel) fuel frame (some layout)
      { world := w.addInstance artifact }).result = .error .exhausted := hx
    obtain ⟨-, henough⟩ | hne := hfuel
    · exact absurd (henough call hcall) hnot
    · refine absurd (hinit (runRoutine_exhausted ?_)) hne
      rw [hexec]
      simp only [Exec.answer, hx]
  · refine ⟨events, ?_⟩
    simp only [runInit, Run.bind_apply, Run.view_apply]
    rw [show (w.addInstance artifact).frame = w.frame from rfl, runRoutine_ok hexec hok]
    exact congrArg _ hworld

end

end Compiles

end LiveBinding
