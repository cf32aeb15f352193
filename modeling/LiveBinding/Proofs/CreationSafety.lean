import LiveBinding.Proofs.Creation
import LiveBinding.Proofs.UpdateSafety

namespace LiveBinding

open Exec

variable {r : Registry} {E : RuntimeError → Prop} {w₀ : World}

/-- The storage of a binding that has captured `n` values, and has not been evaluated. -/
structure Contract.Begun (C : Contract r E w₀) (n : Nat) (w : World) (s : Instance) : Prop where
  alive : s.alive
  sizes : s.Fits C.artifact
  room : s.captures.size = C.rendered.storage.captured.length
  captured : ∀ k < n, ∀ t, C.env.captures k t → ∃ v, s.captures[k]? = some v ∧ r.HasTy w.classOf t v
  empty : ∀ k < C.artifact.scratch, s.scratch[k]? = some .null
  queued : s.queued = []

namespace Contract.Begun

variable {C : Contract r E w₀} {n : Nat} {w w' : World} {s : Instance}

theorem new (C : Contract r E w₀) (w : World) (c : CellId) : C.Begun 0 w (.new C.artifact c) where
  alive := rfl
  sizes := by constructor <;> simp [Instance.new]
  room := by
    simp only [Instance.new, Array.size_replicate]
    exact C.compiles.captures
  captured _ hk := absurd hk (Nat.not_lt_zero _)
  empty k hk := by simp [Instance.new, hk]
  queued := rfl

theorem later (h : C.Begun n w s) (hw : w.Later r w') : C.Begun n w' s :=
  { h with captured k hk t ht := (h.captured k hk t ht).imp fun _ hv ↦ ⟨hv.1, hw.hasTy hv.2⟩ }

/-- One more value is captured. -/
theorem setCapture (h : C.Begun n w s) {v : Value} (hn : n < C.rendered.storage.captured.length)
    (hv : ∀ t, C.env.captures n t → r.HasTy w.classOf t v) : C.Begun (n + 1) w (s.setCapture n v) where
  alive := h.alive
  sizes := ⟨h.sizes.code, h.sizes.scratch, h.sizes.counters, h.sizes.flags⟩
  room := Array.size_setIfInBounds.trans h.room
  captured k hk t ht := by
    rcases Nat.lt_succ_iff_lt_or_eq.mp hk with hk | rfl
    · obtain ⟨u, hu, hty⟩ := h.captured k hk t ht
      exact ⟨u, (Array.getElem?_setIfInBounds_ne (Nat.ne_of_gt hk)).trans hu, hty⟩
    · exact ⟨v, Array.getElem?_setIfInBounds_self_of_lt (h.room ▸ hn), hv t ht⟩
  empty := h.empty
  queued := h.queued

/-- Once everything is captured, the storage is as the code needs it. -/
theorem fits (h : C.Begun C.rendered.storage.captured.length w s) : C.Fits w s where
  sizes := h.sizes
  captured n t ht := h.captured n (C.captures n t ht) t ht
  queued := h.queued ▸ List.nil_subset _
  handles n _ _ _ hn := .inl (h.empty n hn)

end Contract.Begun

namespace Contracts

variable {Θ Θ' : Contracts r E w₀} {i : InstanceId} {C : Contract r E w₀} {w w' w₁ : World}

section

variable {s s' : Instance} (hw : Θ.Sound w)
include hw

/-- A binding is added, which nothing is known of yet. -/
theorem Sound.addInstance (hi : Θ ⟨w.instances.size⟩ = none) (artifact : Artifact) :
    Θ.Sound (w.addInstance artifact) ∧ Θ.Onward w (w.addInstance artifact) := by
  have hvalue : (w.addInstance artifact).cellValue = w.cellValue :=
    funext World.sameHeap_addInstance.cellValue
  have hold {j : InstanceId} {s : Instance} (hs : w.instance? j = some s) :
      (w.addInstance artifact).instance? j = some s := by
    obtain ⟨hlt, -⟩ := Array.getElem?_eq_some_iff.mp hs
    exact (Array.getElem?_push_lt hlt).trans ((Array.getElem?_eq_getElem hlt).symm.trans hs)
  have hlater : w.Later r (w.addInstance artifact) := by
    refine ⟨⟨fun _ _ ↦ id, fun _ _ _ ↦ id, fun j c hc ↦ ?_, rfl, fun _ _ _ ↦ id⟩,
      hw.later.declared.ofEq rfl ?_ fun c _ ↦ congrFun hvalue c⟩
    · obtain ⟨s, hs, rfl⟩ := Option.map_eq_some_iff.mp hc
      rw [World.resultCell?, hold hs]
      rfl
    · exact Nat.le_of_lt_succ (Nat.lt_succ_of_lt (Array.size_push .. ▸ Nat.lt_succ_self _))
  have honward : Θ.Onward w (w.addInstance artifact) := by
    refine ⟨hlater, fun j hj D hD ↦ ?_⟩
    have hsame : (w.addInstance artifact).valueOf j = w.valueOf j := by
      rw [World.valueOf, World.valueOf, hvalue, World.resultCell?, World.resultCell?]
      cases hs : w.instance? j with
      | some s => rw [hold hs]
      | none =>
        cases ht : (w.addInstance artifact).instance? j with
        | none => rfl
        | some t =>
          obtain ⟨rfl, -⟩ | ht := World.instance?_addInstance ht
          · rw [hi] at hD
            cases hD
          · rw [hs] at ht
            cases ht
    exact hsame ▸ hlater.hasTy (hj D hD)
  refine ⟨⟨hw.later.trans hlater, hw.own.addInstance artifact, fun o p c j hc hj ↦ ?_,
    fun j s D hs hD ↦ ?_, fun j s hs hj halive ↦ ?_, fun c cell hc l hl ↦ ?_⟩, honward⟩
  · obtain ⟨s, hs, rfl⟩ := Option.map_eq_some_iff.mp hj
    obtain ⟨rfl, rfl⟩ | hs := World.instance?_addInstance hs
    · exact absurd (hw.later.declared.exist o p _ hc) (Nat.lt_irrefl _)
    · exact hw.apart o p _ j hc (Option.map_eq_some_iff.mpr ⟨s, hs, rfl⟩)
  · obtain ⟨rfl, -⟩ | hs := World.instance?_addInstance hs
    · rw [hi] at hD
      cases hD
    · exact (hw.fits j s D hs hD).later hlater
  · obtain ⟨rfl, rfl⟩ | hs := World.instance?_addInstance hs
    · show (((w.cells.push ⟨.null, [], 0, false⟩)[w.cells.size]?).map Cell.lockDepth) = some 0
      rw [Array.getElem?_push_size]
      rfl
    · obtain ⟨cell, hcell, hdepth⟩ := Option.map_eq_some_iff.mp (hw.fresh j s hs hj halive)
      exact Option.map_eq_some_iff.mpr ⟨cell, World.cell?_newCell hcell .null, hdepth⟩
  · have hc : (w.cells.push ⟨.null, [], 0, false⟩)[c.index]? = some cell := hc
    rw [Array.getElem?_push] at hc
    split at hc
    · obtain rfl := Option.some.inj hc
      cases hl
    · exact (hw.heard c cell hc l hl).onward honward

/-- The storage of a binding that nothing is known of changes, or the binding is dropped. -/
theorem Sound.prepare (hs : w.instance? i = some s) (hi : Θ i = none) (hr : s'.result = s.result)
    (halive : s'.alive → s.alive) : Θ.Sound (w.put i s') ∧ Θ.Onward w (w.put i s') := by
  have hlater : w.Later r (w.put i s') :=
    ⟨.modifyInstance w i fun t ht ↦ Option.some.inj (hs.symm.trans ht) ▸ hr,
      hw.later.declared.ofEq rfl (Nat.le_refl _) fun _ _ ↦ rfl⟩
  have honward : Θ.Onward w (w.put i s') :=
    ⟨hlater, fun j hj D hD ↦ (World.valueOf_put hs hr j).symm ▸ hlater.hasTy (hj D hD)⟩
  have hold {j : InstanceId} {t : Instance} (ht : (w.put i s').instance? j = some t) :
      ∃ u, w.instance? j = some u ∧ t.result = u.result ∧ (t.alive → u.alive) ∧ (t = u ∨ Θ j = none) := by
    obtain ⟨rfl, rfl⟩ | ht := World.instance?_of_put ht
    · exact ⟨s, hs, hr, halive, .inr hi⟩
    · exact ⟨t, ht, rfl, id, .inl rfl⟩
  refine ⟨⟨hw.later.trans hlater, ⟨fun j t ht ↦ ?_, fun j k t u ht hu he ↦ ?_⟩, fun o p c j hc hj ↦ ?_,
    fun j t D ht hD ↦ ?_, fun j t ht hj ha ↦ ?_, fun c cell hc l hl ↦
      (hw.heard c cell hc l hl).onward honward⟩, honward⟩
  · obtain ⟨u, hu, hr, -⟩ := hold ht
    exact hr ▸ hw.own.exist j u hu
  · obtain ⟨t', ht', hrt, -⟩ := hold ht
    obtain ⟨u', hu', hru, -⟩ := hold hu
    exact hw.own.apart j k t' u' ht' hu' (by rw [← hrt, ← hru, he])
  · obtain ⟨t, ht, rfl⟩ := Option.map_eq_some_iff.mp hj
    obtain ⟨u, hu, hr, -⟩ := hold ht
    exact hw.apart o p _ j hc (Option.map_eq_some_iff.mpr ⟨u, hu, hr.symm⟩)
  · obtain ⟨u, hu, -, -, rfl | hnone⟩ := hold ht
    · exact (hw.fits j t D hu hD).later hlater
    · rw [hnone] at hD
      cases hD
  · obtain ⟨u, hu, hr, halive, -⟩ := hold ht
    rw [hr]
    exact hw.fresh j u hu hj (halive ha)

end

/-- A binding is dropped, also one that nothing is known of. -/
theorem Sound.drop (hw : Θ.Sound w) (i : InstanceId) : Θ.Sound (w.drop i) ∧ Θ.Onward w (w.drop i) := by
  cases hs : w.instance? i with
  | none =>
    have hsame : w.drop i = w := by
      have hlt : ¬i.index < w.instances.size := fun h ↦ by
        rw [World.instance?, Array.getElem?_eq_getElem h] at hs
        cases hs
      simp [World.drop, World.modifyInstance, Array.modify, Array.modifyM, hlt]
    rw [hsame]
    exact ⟨hw, hw.grows.toOnward⟩
  | some s =>
    rw [World.drop, World.modifyInstance_eq_put hs]
    cases hC : Θ i with
    | none => exact hw.prepare hs hC rfl fun h ↦ absurd h Bool.false_ne_true
    | some C =>
      obtain ⟨hsound, hgrows⟩ : Θ.Sound (w.put i { s with alive := false }) ∧
          Θ.Grows w (w.put i { s with alive := false }) :=
        hw.put hs hC rfl (fun h ↦ h.congr rfl rfl rfl rfl rfl rfl) fun _ hn ↦ hn.congr rfl
      exact ⟨hsound, hgrows.toOnward⟩

/-- The names by which the host keeps its bindings do not matter. -/
theorem Sound.keeping (hw : Θ.Sound w) (bindings : List (String × InstanceId)) :
    Θ.Sound { w with bindings } ∧ Θ.Onward w { w with bindings } :=
  have hchange : Θ.Change w { w with bindings } := .ofEq hw.later.declared rfl rfl rfl rfl fun _ _ ↦ id
  have hafter := hw.change hchange
  ⟨hafter.1, hafter.2.toOnward⟩

theorem Sound.dropNamed (hw : Θ.Sound w) (name : String) :
    Θ.Sound (w.dropNamed name) ∧ Θ.Onward w (w.dropNamed name) := by
  unfold World.dropNamed
  split
  · next i _ =>
    obtain ⟨hd, hon⟩ := hw.drop i
    obtain ⟨hk, hon'⟩ := hd.keeping (w.bindings.filter (·.1 != name))
    exact ⟨hk, hon.trans hon'⟩
  · exact ⟨hw, hw.grows.toOnward⟩

theorem Sound.keep (hw : Θ.Sound w) (name : String) (i : InstanceId) :
    Θ.Sound (w.keep name i) ∧ Θ.Onward w (w.keep name i) := by
  obtain ⟨hd, hon⟩ := hw.dropNamed name
  obtain ⟨hk, hon'⟩ := hd.keeping ((w.dropNamed name).bindings ++ [(name, i)])
  exact ⟨hk, hon.trans hon'⟩

/-- A binding is being made in a sound state, and has captured `n` values. -/
structure Begins (Θ : Contracts r E w₀) (w₁ : World) (i : InstanceId) (C : Contract r E w₀) (n : Nat)
    (w : World) : Prop where
  sound : Θ.Sound w
  onward : Θ.Onward w₁ w
  begun : ∃ s, w.instance? i = some s ∧ C.Begun n w s

section

variable {update : Updater} {fuel : Nat} {frame : Frame}
variable (hr : r.Conforms E w₀) (hu : Θ.Updates update) (hi : Θ i = none)
variable (hb : frame.binding = some i) (hlocals : frame.locals = w₀.frame)
include hr hu hi hb hlocals

/-- Capturing a value. -/
theorem ensures_capture (layout : Option FlagLayout) {n : Nat} {l : Loadable}
    (hl : C.rendered.storage.captured[n]? = some l) :
    Block.Ensures (fun m ↦ Θ.Begins w₁ i C n m.world)
      ((l.load ++ .op (.storeCapture n)).run r update fuel frame layout)
      (fun m ↦ Θ.Begins w₁ i C (n + 1) m.world)
      (fun e m ↦ (Θ.Sound m.world ∧ Θ.Onward w₁ m.world) ∧ E e) := by
  have hsupplies := C.supplies n l hl
  obtain ⟨hn, -⟩ := List.getElem?_eq_some_iff.mp hl
  let pushed (σ : List Value) (w : World) (τ : List Value) : Prop :=
    ∃ v, τ = v :: σ ∧ ∀ t, C.env.captures n t → r.HasTy w.classOf t v
  have hload : Block.Ensures (fun m ↦ Θ.Begins w₁ i C n m.world)
      (l.load.run r update fuel frame layout)
      (fun m ↦ Θ.Begins w₁ i C n m.world ∧
        ∃ v τ, m.stack = v :: τ ∧ ∀ t, C.env.captures n t → r.HasTy m.world.classOf t v)
      (fun e m ↦ (Θ.Sound m.world ∧ Θ.Onward w₁ m.world) ∧ E e) := by
    intro m hm
    have hleads := hsupplies.leads m.world m.stack hm.sound.later
    rw [hm.sound.later.frame, ← hlocals] at hleads
    have hrun : Θ.Runs (l.load.Leads r E frame.locals (pushed m.stack))
        (l.load.run r update fuel frame layout) (pushed m.stack) :=
      runs_leads hr hu layout hsupplies.plain
    have hend := hrun m.world m ⟨hm.sound.since, hleads⟩
    rcases hx : (l.load.run r update fuel frame layout m).result with (e | -) | u <;> rw [hx] at hend
    · exact ⟨⟨hend.1.sound, hm.onward.trans hend.1.grows.toOnward⟩, hend.2⟩
    · trivial
    · obtain ⟨hsince, v, hstack, hv⟩ := hend
      obtain ⟨s, hs, hbegun⟩ := hm.begun
      exact ⟨⟨hsince.sound, hm.onward.trans hsince.grows.toOnward, s,
        (hsince.grows.frozen i hi).trans hs, hbegun.later hsince.grows.toLater⟩, v, _, hstack, hv⟩
  refine hload.andThen fun m hm ↦ ?_
  obtain ⟨⟨hsound, honward, s, hs, hbegun⟩, v, τ, hstack, hv⟩ := hm
  have hstore : (Fragment.op (.storeCapture n)).run r update fuel frame layout m =
      ⟨[], .ok (), { m with stack := τ, world := m.world.put i (s.setCapture n v) }⟩ :=
    runOps_cons (does_storeCapture hb hs hstack (hbegun.room ▸ hn)) []
  rw [hstore]
  obtain ⟨hsound', honward'⟩ : Θ.Sound (m.world.put i (s.setCapture n v)) ∧
      Θ.Onward m.world (m.world.put i (s.setCapture n v)) := hsound.prepare hs hi rfl id
  exact ⟨hsound', honward.trans honward', _, World.instance?_put hs,
    (hbegun.setCapture hn hv).later honward'.toLater⟩

theorem ensures_loads (layout : Option FlagLayout) (ls : List Loadable) {n : Nat}
    (hls : ∀ k l, ls[k]? = some l → C.rendered.storage.captured[n + k]? = some l) :
    Block.Ensures (fun m ↦ Θ.Begins w₁ i C n m.world)
      ((Storage.loads n ls).run r update fuel frame layout)
      (fun m ↦ Θ.Begins w₁ i C (n + ls.length) m.world)
      (fun e m ↦ (Θ.Sound m.world ∧ Θ.Onward w₁ m.world) ∧ E e) := by
  induction ls generalizing n with
  | nil => exact .skip
  | cons l ls ih =>
    have hrest := @ih (n + 1) fun k k' hk ↦ by
      rw [Nat.add_assoc, Nat.add_comm 1]
      exact hls (k + 1) k' hk
    rw [List.length_cons, Nat.add_comm ls.length, ← Nat.add_assoc]
    exact (ensures_capture hr hu hi hb hlocals layout (hls 0 l rfl)).andThen hrest

end

section

variable {update : Updater} {fuel : Nat}
variable (hr : r.Conforms E w₀) (hu : Θ.Updates update) (hi : Θ i = none)
include hr hu hi

/-- The routine that captures what a binding reads does no harm. -/
theorem ensures_runInit : Ensures (Θ.Begins w₁ i C 0)
    (runRoutine r update fuel { locals := w₀.frame, binding := some i } C.artifact.init)
    (fun _ ↦ Θ.Begins w₁ i C C.rendered.storage.captured.length)
    (fun e w ↦ (Θ.Sound w ∧ Θ.Onward w₁ w) ∧ E e) := by
  let frame : Frame := { locals := w₀.frame, binding := some i }
  have hplain (l : Loadable) (hl : l ∈ C.rendered.storage.captured) : l.load.isPlain := by
    obtain ⟨n, hn⟩ := List.getElem?_of_mem hl
    exact (C.supplies n l hn).plain
  have hstraight := Storage.isStraight_loads hplain 0
  have hgiven : .lockAcquire ∉ C.rendered.storage.init.given :=
    Storage.composable_loads composable_givesNoLock (by simp [Fragment.op, Fragment.given])
      (fun l hl ↦ composable_givesNoLock.plain _ (hplain l hl)) 0
  have hruns := ensures_of_finishes (P := Θ.Begins w₁ i C 0)
    (Q := fun _ ↦ Θ.Begins w₁ i C C.rendered.storage.captured.length)
    (E := fun e _ w ↦ (Θ.Sound w ∧ Θ.Onward w₁ w) ∧ E e) (fun w _ ↦ ⟨_, _,
      @finishes_fragment r update fuel frame _ _ _ C.compiles.init hstraight w, ?_⟩) fuel
  · have hheld : Ensures (fun m ↦ Θ.Begins w₁ i C 0 m.world ∧ m = { world := m.world })
        (execute r update fuel frame C.artifact.init fuel) (fun _ m ↦ m.locks = 0)
        (fun _ m ↦ m.locks = 0) :=
      (Locked.executeUnheld (C.compiles.lockAcquire_notMem_init hgiven) fuel).pre fun m hm ↦ by rw [hm.2]
    refine ensures_runRoutine (E := fun e locks w ↦ ((Θ.Sound w ∧ Θ.Onward w₁ w) ∧ E e) ∧ locks = 0)
      ((hruns.and hheld).mono (fun _ ↦ id) (fun _ _ h ↦ h.1) fun _ _ h ↦ h) fun e stack locks ↦ ?_
    rintro w ⟨⟨⟨hsound, honward⟩, he⟩, rfl⟩
    have hrelease : Θ.Safely (fun _ ↦ True) _ fun _ _ ↦ True :=
      .holding stack stable_const (fun _ ↦ stable_const)
        (@safely_releaseHeld r E w₀ Θ update hu fuel frame 0 fun _ _ ↦ .inr rfl)
    exact ((hrelease w).mono (fun u (hu : u = w) ↦ ⟨hu ▸ hsound.since, trivial⟩)
      (fun _ u h ↦ ⟨⟨h.1.sound, honward.trans h.1.grows.toOnward⟩, he⟩) fun _ _ _ ↦ trivial) w rfl
  · have hloads := @ensures_loads r E w₀ Θ i C w₁ update fuel frame hr hu hi rfl rfl
      (some C.layout) C.rendered.storage.captured 0 fun k l hk ↦ by rwa [Nat.zero_add]
    rw [Nat.zero_add] at hloads
    exact hloads.mono (fun m hm ↦ hm.1) (fun _ ↦ id) fun _ _ ↦ id

end

/-- A contract is made for a binding. -/
def adopt (Θ : Contracts r E w₀) (i : InstanceId) (C : Contract r E w₀) : Contracts r E w₀ :=
  fun j ↦ if j = i then some C else Θ j

@[simp] theorem adopt_self : Θ.adopt i C i = some C := if_pos rfl

theorem adopt_of_ne {j : InstanceId} (h : j ≠ i) : Θ.adopt i C j = Θ j := if_neg h

/-- There are the same contracts, and maybe more. -/
def Within (Θ Θ' : Contracts r E w₀) : Prop := ∀ i C, Θ i = some C → Θ' i = some C

theorem Within.refl (Θ : Contracts r E w₀) : Θ.Within Θ := fun _ _ ↦ id

theorem within_adopt (hi : Θ i = none) (C : Contract r E w₀) : Θ.Within (Θ.adopt i C) := by
  intro j D hD
  rwa [adopt_of_ne]
  rintro rfl
  rw [hi] at hD
  cases hD

theorem Onward.of_within (h : Θ.Within Θ') (hw : Θ'.Onward w w') : Θ.Onward w w' := by
  refine ⟨hw.toLater, fun i hi C hC ↦ hw.published i (fun D hD ↦ ?_) C (h i C hC)⟩
  obtain rfl : D = C := Option.some.inj (hD.symm.trans (h i C hC))
  exact hi D hC

/-- A binding that has captured what it reads has a contract. -/
theorem Sound.adopt (hw : Θ.Sound w) (hi : Θ i = none) {s : Instance} (hs : w.instance? i = some s)
    (hfits : C.Fits w s) : (Θ.adopt i C).Sound w := by
  have hwithin := within_adopt hi C
  refine ⟨hw.later, hw.own, hw.apart, fun j t D ht hD ↦ ?_, fun j t ht hj halive ↦ ?_,
    fun c cell hc l hl ↦ ?_⟩
  · by_cases hj : j = i
    · subst hj
      obtain rfl : s = t := Option.some.inj (hs.symm.trans ht)
      rw [adopt_self] at hD
      exact Option.some.inj hD ▸ hfits
    · rw [adopt_of_ne hj] at hD
      exact hw.fits j t D ht hD
  · refine hw.fresh j t ht ?_ halive
    by_cases hij : j = i
    · exact hij ▸ hi
    · rwa [adopt_of_ne hij] at hj
  · have hheard := hw.heard c cell hc l hl
    cases l with
    | binding j k => exact hheard.imp fun D hD ↦ ⟨hwithin j D hD.1, hD.2⟩
    | callback action => exact fun w' hw' ↦ hheard w' (hw'.of_within hwithin)

/-- A sound state in which the bindings that have contracts are there. -/
structure Hosts (Θ : Contracts r E w₀) (w : World) : Prop extends Θ.Sound w where
  found : ∀ i C, Θ i = some C → Found i w

theorem Found.onward {j : InstanceId} (h : Found j w) (hw : Θ.Onward w w') : Found j w' :=
  have ⟨_, hs⟩ := h
  exists_instance? hw.toExtends hs

/-- Making a binding keeps the state sound. The new binding has a contract and has published a value
of its type. -/
theorem Hosts.create (hr : r.Conforms E w₀) (hw : Θ.Hosts w) (C : Contract r E w₀) (fuel : Nat) :
    match createInstance r fuel C.artifact w with
    | (.ok i, w') => ∃ Θ' : Contracts r E w₀, Θ'.Hosts w' ∧ Θ.Within Θ' ∧ Θ.Onward w w' ∧
      Θ' i = some C ∧ Θ'.Published w' i
    | (.error (.error e), w') => E e ∧ ∃ Θ' : Contracts r E w₀, Θ'.Hosts w' ∧ Θ.Within Θ' ∧ Θ.Onward w w'
    | (.error .exhausted, _) => True := by
  let i : InstanceId := ⟨w.instances.size⟩
  have hi : Θ i = none := by
    refine Option.eq_none_iff_forall_ne_some.mpr fun D hD ↦ ?_
    obtain ⟨s, hs⟩ := hw.found i D hD
    exact absurd (Array.getElem?_eq_some_iff.mp hs).1 (Nat.lt_irrefl _)
  obtain ⟨hsound, honward⟩ := hw.addInstance hi C.artifact
  have hnew : (w.addInstance C.artifact).instance? i = some (.new C.artifact (w.newCell .null).1) := by
    simp [World.addInstance, World.instance?, i]
  have hkept {w' : World} (h : Θ.Onward (w.addInstance C.artifact) w') (j : InstanceId)
      (D : Contract r E w₀) (hD : Θ j = some D) : Found j w' :=
    (hw.found j D hD).onward (honward.trans h)
  let frame : Frame := { locals := w₀.frame, binding := some i }
  have hinit := @ensures_runInit r E w₀ Θ i C (w.addInstance C.artifact) _ fuel hr
    (updates_updateInstance hr fuel) hi _ ⟨hsound, hsound.grows.toOnward, _, hnew, .new C _ _⟩
  have hrun : runInit r fuel i C.artifact (w.addInstance C.artifact) =
      (do let _ ← runRoutine r (updateInstance r fuel) fuel frame C.artifact.init
          updateInstance r fuel i 0 : Run Unit) (w.addInstance C.artifact) := by
    simp only [runInit, Run.bind_apply, Run.view_apply, frame]
    rw [hsound.later.frame]
  rw [createInstance_eq, show runInit r fuel ⟨w.instances.size⟩ C.artifact _ = _ from hrun,
    Run.bind_apply]
  rcases hx : runRoutine r (updateInstance r fuel) fuel frame C.artifact.init
    (w.addInstance C.artifact) with ⟨(e | -) | a, u⟩ <;> rw [hx] at hinit
  · -- a value could not be captured
    obtain ⟨⟨hu, hwu⟩, he⟩ := hinit
    obtain ⟨hd, hud⟩ := hu.drop i
    exact ⟨he, Θ, ⟨hd, hkept (hwu.trans hud)⟩, .refl Θ, honward.trans (hwu.trans hud)⟩
  · trivial
  · obtain ⟨hu, hwu, s, hs, hbegun⟩ := hinit
    have hwithin := within_adopt hi C
    have hunlocked : Unlocked i u := by
      obtain ⟨cell, hcell, hdepth⟩ := Option.map_eq_some_iff.mp (hu.fresh i s hs hi hbegun.alive)
      exact ⟨s, hs, by simp [hcell, Cell.isLocked, hdepth]⟩
    have hadopted := hu.adopt hi hs hbegun.fits
    have hstart := safely_start hr fuel (Θ.adopt_self (i := i) (C := C)) u u ⟨hadopted.since, hunlocked⟩
    have hall {w' : World} (h : (Θ.adopt i C).Onward u w') (j : InstanceId) (D : Contract r E w₀)
        (hD : Θ.adopt i C j = some D) : Found j w' := by
      by_cases hj : j = i
      · exact hj ▸ Found.onward ⟨s, hs⟩ h
      · rw [adopt_of_ne hj] at hD
        exact hkept (hwu.trans (h.of_within hwithin)) j D hD
    dsimp only
    rcases hy : updateInstance r fuel i 0 u with ⟨(e | -) | a, w'⟩ <;> rw [hy] at hstart
    · -- the first evaluation failed
      obtain ⟨⟨hsound', hgrows⟩, he⟩ := hstart
      obtain ⟨hd, hud⟩ := hsound'.drop i
      have hon := hgrows.toOnward.trans hud
      exact ⟨he, _, ⟨hd, hall hon⟩, hwithin, honward.trans (hwu.trans (hon.of_within hwithin))⟩
    · trivial
    · obtain ⟨⟨hsound', hgrows⟩, hpublished⟩ := hstart
      exact ⟨_, ⟨hsound', hall hgrows.toOnward⟩, hwithin,
        honward.trans (hwu.trans (hgrows.toOnward.of_within hwithin)), adopt_self, hpublished⟩

end Contracts

end LiveBinding
