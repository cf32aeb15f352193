import LiveBinding.Proofs.Simulation
import LiveBinding.Proofs.Subscription

namespace LiveBinding

open Exec Fragment

/-- The storage of a binding at a moment of an update that started with the storage `s₀`: what it
keeps stands for a store. The slots of its points do so if `handled` asks for that. -/
structure Instance.Holding (artifact : Artifact) (points : List SavePoint) (s s₀ : Instance)
    (handled : Prop) (on : Nat → Option CellId) (st : Store) : Prop where
  captures : s.captures = s₀.captures
  result : s.result = s₀.result
  queued : s.queued = s₀.queued
  alive : s.alive = s₀.alive
  slots : ∀ n < artifact.scratch, (∀ p ∈ points, p.handle ≠ n) →
    s.scratch[n]? = some (st (.slot n))
  flags : ∀ n < artifact.flags.bits, st (.flag n) = .bool (artifact.flags.isSet s.flags n)
  away : ∀ k, on k ≠ some s₀.result
  handles : handled → ∀ p ∈ points, st p.loc = .ofCell? (on p.step)

/-- A moment of an update that started in the world `w₀` with the storage `s₀`. -/
structure Running (artifact : Artifact) (points : List SavePoint) (i : InstanceId) (w₀ : World)
    (s₀ : Instance) (handled : Prop) (m : Machine) (c : Config) : Prop where
  stack : m.stack = c.stack
  alike : w₀.Alike m.world
  result : m.world.cell? s₀.result = w₀.cell? s₀.result
  told : ∀ d cell, m.world.cell? d = some cell → ∀ l ∈ cell.listeners,
    (∃ cell₀, w₀.cell? d = some cell₀ ∧ l ∈ cell₀.listeners) ∨
      ∃ p ∈ points, l = .binding i p.step ∧ ∃ o property, w₀.observable? o property = some d
  others : ∀ j ≠ i, m.world.instance? j = w₀.instance? j
  kept : ∃ s on, Tracks artifact points i m.world s on ∧
    s.Holding artifact points s₀ handled on c.store

/-- A counter that does not overflow is zero only where nothing is counted. -/
theorem counter_eq_zero {n : Nat} (h : Int32.ofNat n = 0) (hn : n < 2 ^ 32) : n = 0 := by
  have hmod : n % 2 ^ 32 = 0 := by
    simpa using congrArg (fun k : Int32 ↦ k.toBitVec.toNat) h
  rwa [Nat.mod_eq_of_lt hn] at hmod

theorem SavePoint.loc_injective {p : SavePoint} {n : Nat} : p.loc = .slot n ↔ p.handle = n := by
  simp [loc]

namespace Instance.Holding

variable {artifact : Artifact} {points : List SavePoint} {s₀ s : Instance} {handled : Prop}
variable {on : Nat → Option CellId} {st : Store} {p : SavePoint}

/-- What a store has for the points matters only if they are handled. -/
theorem congr (h : s.Holding artifact points s₀ handled on st) {st' : Store}
    (hout : ∀ l, (∀ p ∈ points, p.loc ≠ l) → st' l = st l)
    (hin : handled → ∀ p ∈ points, st' p.loc = .ofCell? (on p.step)) :
    s.Holding artifact points s₀ handled on st' where
  captures := h.captures
  result := h.result
  queued := h.queued
  alive := h.alive
  slots n hn hp := by
    rw [hout _ fun p hp' he ↦ hp p hp' (SavePoint.loc_injective.mp he)]
    exact h.slots n hn hp
  flags n hn := by
    rw [hout _ fun p _ ↦ by simp [SavePoint.loc]]
    exact h.flags n hn
  away := h.away
  handles := hin

theorem refresh (h : s.Holding artifact points s₀ handled on st) (hp : p ∈ points) :
    s.Holding artifact points s₀ handled on (Function.update st p.loc (.ofCell? (on p.step))) := by
  refine h.congr (fun l hl ↦ Function.update_of_ne (Ne.symm (hl p hp)) _ _) fun hh q hq ↦ ?_
  by_cases hl : q.loc = p.loc
  · rw [hl, Function.update_self, ← h.handles hh q hq, hl, h.handles hh p hp]
  · rw [Function.update_of_ne hl]
    exact h.handles hh q hq

theorem setScratch (h : s.Holding artifact points s₀ handled on st) {n : Nat} (v : Value)
    (hn : n < s.scratch.size) (hp : ∀ p ∈ points, p.handle ≠ n) :
    (s.setScratch n v).Holding artifact points s₀ handled on (Function.update st (.slot n) v) where
  captures := h.captures
  result := h.result
  queued := h.queued
  alive := h.alive
  slots k hk hq := by
    by_cases hkn : k = n
    · subst hkn
      simp [Instance.setScratch, hn]
    · have hne : Loc.slot k ≠ .slot n := by simpa using hkn
      rw [Instance.setScratch, Array.getElem?_setIfInBounds_ne (Ne.symm hkn),
        Function.update_of_ne hne]
      exact h.slots k hk hq
  flags k hk := (Function.update_of_ne (by simp) _ _).trans (h.flags k hk)
  away := h.away
  handles hh p hp' := by
    rw [Function.update_of_ne]
    · exact h.handles hh p hp'
    · rw [ne_eq, SavePoint.loc_injective]
      exact hp p hp'

theorem assign {capacity : Nat} (hl : artifact.flags = .choose artifact.flags.bits capacity)
    (h : s.Holding artifact points s₀ handled on st) {flag : Nat} (value : Bool)
    (hf : flag < artifact.flags.bits) (hw : artifact.flags.wordOf flag < s.flags.size) :
    { s with flags := artifact.flags.assigned s.flags flag value }.Holding artifact points s₀ handled
      on (Function.update st (.flag flag) (.bool value)) where
  captures := h.captures
  result := h.result
  queued := h.queued
  alive := h.alive
  slots k hk hq := by
    rw [Function.update_of_ne (by simp)]
    exact h.slots k hk hq
  flags k hk := by
    by_cases hkf : k = flag
    · subst hkf
      rw [Function.update_self, FlagLayout.isSet_assigned_self hw]
    · have hne : Loc.flag k ≠ .flag flag := by simpa using hkf
      have hset := @FlagLayout.isSet_assigned_of_ne artifact.flags.bits capacity flag k s.flags hf hk
        (Ne.symm hkf) value
      rw [← hl] at hset
      rw [Function.update_of_ne hne, hset]
      exact h.flags k hk
  away := h.away
  handles hh p hp := by
    rw [Function.update_of_ne (by simp [SavePoint.loc])]
    exact h.handles hh p hp

/-- The listener of a point moves to a cell, or goes. -/
theorem update {scratch counters : Nat} (hw : WellPlaced points scratch counters)
    (h : s.Holding artifact points s₀ handled on st) (hp : p ∈ points) {o : Option CellId}
    (ho : o ≠ some s₀.result) {t : Instance}
    (ht : t.scratch = s.scratch.setIfInBounds p.handle (.ofCell? o)) (hc : t.captures = s.captures)
    (hr : t.result = s.result) (hq : t.queued = s.queued) (ha : t.alive = s.alive)
    (hf : t.flags = s.flags) :
    t.Holding artifact points s₀ handled (Function.update on p.step o)
      (Function.update st p.loc (.ofCell? o)) where
  captures := hc.trans h.captures
  result := hr.trans h.result
  queued := hq.trans h.queued
  alive := ha.trans h.alive
  slots k hk hq := by
    have hne : Loc.slot k ≠ p.loc := fun he ↦ hq p hp (SavePoint.loc_injective.mp he.symm)
    rw [ht, Array.getElem?_setIfInBounds_ne (hq p hp), Function.update_of_ne hne]
    exact h.slots k hk hq
  flags k hk := by
    rw [Function.update_of_ne (by simp [SavePoint.loc]), hf]
    exact h.flags k hk
  away k := by
    by_cases hk : k = p.step
    · subst hk
      rwa [Function.update_self]
    · rw [Function.update_of_ne hk]
      exact h.away k
  handles hh q hq := by
    by_cases hs : q.step = p.step
    · obtain rfl := List.inj_on_of_nodup_map hw.steps hq hp hs
      rw [Function.update_self, Function.update_self]
    · have hne : q.loc ≠ p.loc := by
        intro he
        have hh : q.handle = p.handle := by simpa [SavePoint.loc] using he
        exact hs (congrArg SavePoint.step (List.inj_on_of_nodup_map hw.handles hq hp hh))
      rw [Function.update_of_ne hne, Function.update_of_ne hs]
      exact h.handles hh q hq

theorem attached {scratch counters : Nat} (hw : WellPlaced points scratch counters)
    (h : s.Holding artifact points s₀ handled on st) (hp : p ∈ points) {c : CellId}
    (hc : c ≠ s₀.result) :
    (s.attached p c).Holding artifact points s₀ handled (Function.update on p.step (some c))
      (Function.update st p.loc (.cell c)) :=
  h.update hw hp (o := some c) (by simpa using hc) (s.scratch_attached p c)
    (by rw [Instance.attached, addCounters_eq]; rfl) (by rw [Instance.attached, addCounters_eq]; rfl)
    (by rw [Instance.attached, addCounters_eq]; rfl) (by rw [Instance.attached, addCounters_eq]; rfl)
    (by rw [Instance.attached, addCounters_eq]; rfl)

theorem detached {scratch counters : Nat} (hw : WellPlaced points scratch counters)
    (h : s.Holding artifact points s₀ handled on st) (hp : p ∈ points) :
    (s.detached p).Holding artifact points s₀ handled (Function.update on p.step none)
      (Function.update st p.loc .null) :=
  h.update hw hp (o := none) (by simp) (s.scratch_detached p)
    (by rw [Instance.detached, addCounters_eq]; rfl) (by rw [Instance.detached, addCounters_eq]; rfl)
    (by rw [Instance.detached, addCounters_eq]; rfl) (by rw [Instance.detached, addCounters_eq]; rfl)
    (by rw [Instance.detached, addCounters_eq]; rfl)

end Instance.Holding

theorem Tracks.setFlags {artifact : Artifact} {points : List SavePoint} {i : InstanceId} {w : World}
    {s : Instance} {on : Nat → Option CellId} (h : Tracks artifact points i w s on)
    {flags : Array UInt64} (hf : flags.size = s.flags.size) :
    Tracks artifact points i (w.put i { s with flags }) { s with flags } on where
  found := World.instance?_put h.found
  fits := ⟨h.fits.code, h.fits.scratch, h.fits.counters, hf.trans h.fits.flags⟩
  exist := h.exist
  listening := h.listening
  handles := h.handles
  counts := h.counts

theorem World.Alike.modifyListeners {w w' : World} (h : w.Alike w') (c : CellId) {f : Cell → Cell}
    (hf : ∀ cell, { f cell with listeners := [] } = { cell with listeners := [] }) :
    w.Alike (w'.modifyCell c f) where
  objects := h.objects
  frame := h.frame
  names := h.names
  size := by rw [← h.size]; simp [modifyCell]
  cell d := by
    rw [cell?_modifyCell]
    split
    · rw [Option.map_map, ← h.cell d]
      exact congrArg (Option.map · _) (funext hf)
    · exact h.cell d

namespace Running

variable {artifact : Artifact} {points : List SavePoint} {i : InstanceId} {w₀ : World}
variable {s₀ s : Instance} {handled : Prop} {m : Machine} {c : Config} {p : SavePoint}
variable {on : Nat → Option CellId} {d : CellId} {σ : List Value} {st : Store}

theorem relates : Relates w₀ (Running artifact points i w₀ s₀ handled) where
  stack h := h.stack
  alike h := h.alike
  keep h σ events := by
    obtain ⟨s, on, ht, hh⟩ := h.kept
    refine ⟨rfl, ⟨h.alike.objects, h.alike.frame, h.alike.names, h.alike.size, h.alike.cell⟩, h.result,
      h.told, h.others, s, on, ⟨ht.found, ht.fits, ht.exist, ht.listening, ht.handles, ht.counts⟩, hh⟩

/-- Only the storage changes. -/
theorem put (h : Running artifact points i w₀ s₀ handled m c) {s' : Instance}
    (ht : Tracks artifact points i (m.world.put i s') s' on)
    (hh : s'.Holding artifact points s₀ handled on st) :
    Running artifact points i w₀ s₀ handled { m with stack := σ, world := m.world.put i s' } ⟨σ, st⟩ where
  stack := rfl
  alike := ⟨h.alike.objects, h.alike.frame, h.alike.names, h.alike.size, h.alike.cell⟩
  result := h.result
  told := h.told
  others j hj := (World.instance?_put_of_ne hj).trans (h.others j hj)
  kept := ⟨s', on, ht, hh⟩

theorem detached (hw : WellPlaced points artifact.scratch artifact.counters)
    (h : Running artifact points i w₀ s₀ handled m c) (hp : p ∈ points)
    (ht : Tracks artifact points i m.world s on)
    (hh : s.Holding artifact points s₀ handled on c.store) (hd : on p.step = some d) :
    Running artifact points i w₀ s₀ handled
      { m with stack := σ, world := m.world.detach i s p d }
      ⟨σ, Function.update c.store p.loc .null⟩ where
  stack := rfl
  alike :=
    have ha := h.alike.modifyListeners d (f := (·.removeListener i p.step)) fun _ ↦ rfl
    ⟨ha.objects, ha.frame, ha.names, ha.size, ha.cell⟩
  result := by
    have hne : d ≠ s₀.result := fun he ↦ hh.away p.step (he ▸ hd)
    refine Eq.trans ?_ h.result
    exact (World.cell?_modifyCell ..).trans (if_neg hne)
  told e cell he l hl := by
    have he : (m.world.modifyCell d (·.removeListener i p.step)).cell? e = some cell := he
    rw [World.cell?_modifyCell] at he
    split at he
    · obtain ⟨cell', hcell, rfl⟩ := Option.map_eq_some_iff.mp he
      exact h.told e cell' hcell l (List.mem_of_mem_eraseP hl)
    · exact h.told e cell he l hl
  others j hj := (World.instance?_put_of_ne hj).trans (h.others j hj)
  kept := ⟨_, _, ht.detach hw hp hd, hh.detached hw hp⟩

theorem attached (hw : WellPlaced points artifact.scratch artifact.counters)
    (h : Running artifact points i w₀ s₀ handled m c) (hp : p ∈ points)
    (ht : Tracks artifact points i m.world s on)
    (hh : s.Holding artifact points s₀ handled on c.store) (hnone : on p.step = none)
    (hd : d ≠ s₀.result) (hslot : ∃ o property, w₀.observable? o property = some d)
    (hlt : d.index < m.world.cells.size) :
    Running artifact points i w₀ s₀ handled
      { m with stack := σ, world := m.world.attach i s p d }
      ⟨σ, Function.update c.store p.loc (.cell d)⟩ where
  stack := rfl
  alike :=
    have ha := h.alike.modifyListeners d (f := (·.addListener (.binding i p.step))) fun _ ↦ rfl
    ⟨ha.objects, ha.frame, ha.names, ha.size, ha.cell⟩
  result := by
    refine Eq.trans ?_ h.result
    exact (World.cell?_modifyCell ..).trans (if_neg hd)
  told e cell he l hl := by
    have he : (m.world.modifyCell d (·.addListener (.binding i p.step))).cell? e = some cell := he
    rw [World.cell?_modifyCell] at he
    split at he
    · next hde =>
      obtain ⟨cell', hcell, rfl⟩ := Option.map_eq_some_iff.mp he
      rcases List.mem_append.mp hl with hl | hl
      · exact h.told e cell' hcell l hl
      · exact .inr ⟨p, hp, List.mem_singleton.mp hl, hde ▸ hslot⟩
    · exact h.told e cell he l hl
  others j hj := (World.instance?_put_of_ne hj).trans (h.others j hj)
  kept := ⟨_, _, ht.attach hw hp hnone hlt, hh.attached hw hp hd⟩

theorem keepStorage (h : Running artifact points i w₀ s₀ handled m c)
    (ht : Tracks artifact points i m.world s on)
    (hh : s.Holding artifact points s₀ handled on st) :
    Running artifact points i w₀ s₀ handled { m with stack := σ } ⟨σ, st⟩ :=
  ⟨rfl, h.alike, h.result, h.told, h.others, s, on, ht, hh⟩

end Running

/-- What has to hold so that an update can run: the slots of its points are in their places, and the
cells of properties are there and are none that the binding publishes to. -/
structure Ready (artifact : Artifact) (points : List SavePoint) (w₀ : World) (s₀ : Instance)
    (handled : Prop) : Prop where
  placed : WellPlaced points artifact.scratch artifact.counters
  layout : ∃ capacity, artifact.flags = .choose artifact.flags.bits capacity
  exist : w₀.SlotsExist
  apart : ∀ o p d, w₀.observable? o p = some d → d ≠ s₀.result
  few : handled → points.length < 2 ^ 32

/-- An instruction of the code of a binding: one that does not use the storage, or one that uses a
slot of its own. -/
def Op.Placed (artifact : Artifact) (points : List SavePoint) (op : Op) : Prop :=
  op.isPlain ∨ (∃ n, op = .loadCapture n) ∨ ∃ n, (op = .loadScratch n ∨ op = .storeScratch n) ∧
    n < artifact.scratch ∧ ∀ p ∈ points, p.handle ≠ n

/-- The code of a binding uses what its artifact sets aside. The counter of a branch counts the points
in its right operand. -/
def Fragment.Placed (artifact : Artifact) (points : List SavePoint) : Fragment → Prop
  | ops list => ∀ op ∈ list, op.Placed artifact points
  | append f g | nullGuard f g | shortCircuit _ f g => f.Placed artifact points ∧ g.Placed artifact points
  | flagTest flag | flagAssign flag _ => flag < artifact.flags.bits
  | observe _ p => p ∈ points
  | branch _ f g flag counter ps => f.Placed artifact points ∧ g.Placed artifact points ∧
      flag < artifact.flags.bits ∧ counter < artifact.counters ∧ ps ⊆ points ∧
      ∀ P : SavePoint → Bool, points.countP (fun p ↦ counter ∈ p.counters && P p) = ps.countP P

namespace Running

variable {artifact : Artifact} {points : List SavePoint} {i : InstanceId} {w₀ : World}
variable {s₀ s : Instance} {handled : Prop} {m : Machine} {c : Config} {p : SavePoint}
variable {on : Nat → Option CellId} {d : CellId} {σ : List Value} {st : Store}
variable {r : Registry} {update : Updater} {fuel : Nat} {frame : Frame}
variable {answer : MethodId → List Value → Except Stop Value}
variable {enough : MethodId → List Value → Prop}

variable (hr : Ready artifact points w₀ s₀ handled) (hb : frame.binding = some i)
variable (ha : Answers r update fuel w₀.objects answer enough)

section

include hb

theorem follows_loadCapture (n : Nat) (h : Running artifact points i w₀ s₀ handled m c) :
    (runOp r update fuel frame (.loadCapture n) m).Follows enough
      (Running artifact points i w₀ s₀ handled) [] c.store
      ((w₀.reading r answer frame.locals s₀.captures).ordinary (.loadCapture n) c) := by
  obtain ⟨s, on, ht, hh⟩ := h.kept
  have hread : (w₀.reading r answer frame.locals s₀.captures).ordinary (.loadCapture n) c =
      (s₀.captures[n]?).elim (.fail (.fault "capture slot out of range")) fun v ↦
        pure ⟨v :: c.stack, c.store⟩ := by
    simp only [Reading.ordinary, Reading.op, Reading.simple, World.reading]
    cases s₀.captures[n]? <;> rfl
  rw [hread]
  cases hv : s₀.captures[n]? with
  | some v =>
    refine .ok (does_loadCapture hb ht.found (by rw [hh.captures, hv])) ?_ fun _ _ ↦ rfl
    rw [h.stack]
    exact h.keepStorage ht hh
  | none =>
    refine .error (n := m) ?_ h fun _ _ ↦ rfl
    simp only [runOp, step, bind_apply, state_apply hb ht.found, hh.captures, hv]
    rfl

theorem follows_loadScratch {n : Nat} (hn : n < artifact.scratch) (hp : ∀ p ∈ points, p.handle ≠ n)
    (h : Running artifact points i w₀ s₀ handled m c) :
    (runOp r update fuel frame (.loadScratch n) m).Follows enough
      (Running artifact points i w₀ s₀ handled) [] c.store
      ((w₀.reading r answer frame.locals s₀.captures).ordinary (.loadScratch n) c) := by
  obtain ⟨s, on, ht, hh⟩ := h.kept
  refine .ok (does_loadScratch hb ht.found (hh.slots n hn hp)) ?_ fun _ _ ↦ rfl
  rw [h.stack]
  exact h.keepStorage ht hh

theorem follows_storeScratch {n : Nat} (hn : n < artifact.scratch) (hp : ∀ p ∈ points, p.handle ≠ n)
    (h : Running artifact points i w₀ s₀ handled m c) :
    (runOp r update fuel frame (.storeScratch n) m).Follows enough
      (Running artifact points i w₀ s₀ handled) [.slot n] c.store
      ((w₀.reading r answer frame.locals s₀.captures).ordinary (.storeScratch n) c) := by
  obtain ⟨s, on, ht, hh⟩ := h.kept
  have hstack := h.stack
  obtain ⟨_ | ⟨v, σ⟩, st⟩ := c
  · refine .error (n := m) ?_ h fun _ _ ↦ rfl
    simp only [runOp, step, bind_apply, pop_apply, hstack]
    rfl
  · have hlt : n < s.scratch.size := by rwa [ht.fits.scratch]
    refine .ok (does_storeScratch hb ht.found hstack hlt) ?_ fun l hl ↦ ?_
    · exact h.put (ht.setScratch v hp) (hh.setScratch v hlt hp)
    · exact Function.update_of_ne (by simpa using hl) _ _

end

section

include hr hb

theorem follows_assignFlag {flag : Nat} (hf : flag < artifact.flags.bits) (value : Bool)
    (h : Running artifact points i w₀ s₀ handled m c) :
    (assignFlag r update fuel frame (some artifact.flags) flag value m).Follows enough
      (Running artifact points i w₀ s₀ handled) [.flag flag] c.store
      (pure (c.setFlag flag value)) := by
  obtain ⟨s, on, ht, hh⟩ := h.kept
  obtain ⟨capacity, hl⟩ := hr.layout
  have hlt : artifact.flags.wordOf flag < s.flags.size := by
    rw [ht.fits.flags, hl]
    exact FlagLayout.wordOf_lt hf
  let t : Instance := { s with flags := artifact.flags.assigned s.flags flag value }
  have hrun : assignFlag r update fuel frame (some artifact.flags) flag value m =
      ⟨[], .ok (), { m with world := m.world.put i t }⟩ := by
    show runOps r update fuel frame [artifact.flags.assign flag value] m = _
    rw [runOps_cons (does_assign value hb ht.found hlt)]
    rfl
  refine .ok hrun ?_ fun l hl ↦ ?_
  · have hsize := FlagLayout.size_assigned artifact.flags s.flags flag value
    have hput := h.put (σ := c.stack) (ht.setFlags hsize) (hh.assign hl value hf hlt)
    rw [← h.stack] at hput
    exact (show c.setFlag flag value = ⟨m.stack, _⟩ by rw [h.stack]; rfl) ▸ hput
  · exact Function.update_of_ne (by simpa using hl) _ _

theorem follows_flagTest {flag : Nat} (hf : flag < artifact.flags.bits)
    (h : Running artifact points i w₀ s₀ handled m c) :
    (runOps r update fuel frame [artifact.flags.test flag] m).Follows enough
      (Running artifact points i w₀ s₀ handled) [.flag flag] c.store
      (pure ⟨c.store (.flag flag) :: c.stack, c.store⟩) := by
  obtain ⟨s, on, ht, hh⟩ := h.kept
  obtain ⟨capacity, hl⟩ := hr.layout
  have hlt : artifact.flags.wordOf flag < s.flags.size := by
    rw [ht.fits.flags, hl]
    exact FlagLayout.wordOf_lt hf
  rw [hh.flags flag hf, ← h.stack]
  exact .ok (runOps_cons (does_test hb ht.found hlt) []) (h.keepStorage ht hh) fun _ _ ↦ rfl

theorem follows_detach (hp : p ∈ points) (h : Running artifact points i w₀ s₀ handled m c) :
    (detach r update fuel frame p m).Follows enough (Running artifact points i w₀ s₀ handled) [p.loc]
      c.store (pure ⟨c.stack, Function.update c.store p.loc .null⟩) := by
  obtain ⟨s, on, ht, hh⟩ := h.kept
  have hv := ht.handles p hp
  have hcount : ∀ n ∈ p.counters, n < s.counters.size := by
    rw [ht.fits.counters]
    exact hr.placed.counter_lt p hp
  have hstack := h.stack
  have hout : ∀ l ∉ [p.loc], Function.update c.store p.loc .null l = c.store l := fun l hl ↦
    Function.update_of_ne (by simpa using hl) _ _
  cases hon : on p.step with
  | none =>
    rw [hon] at hv
    have hkeep := hh.refresh hp
    rw [hon] at hkeep
    refine .ok (detach_null hb ht.found hv) ?_ hout
    rw [← hstack]
    exact h.keepStorage ht hkeep
  | some d =>
    rw [hon] at hv
    refine .ok (detach_cell hb ht.found hv hcount) ?_ hout
    rw [← hstack]
    exact h.detached hr.placed hp ht hh hon

theorem follows_detachAll {ps : List SavePoint} (hps : ps ⊆ points)
    (h : Running artifact points i w₀ s₀ handled m c) :
    (detachAll r update fuel frame ps m).Follows enough (Running artifact points i w₀ s₀ handled)
      (ps.map SavePoint.loc) c.store (pure ⟨c.stack, c.store.clear ps⟩) := by
  induction ps generalizing m c with
  | nil => exact .ok rfl h fun _ _ ↦ rfl
  | cons p ps ih =>
    have hclear : c.store.clear (p :: ps) = Store.clear ps (Function.update c.store p.loc .null) := by
      funext l
      by_cases hl : l = p.loc
      · simp [Store.clear, hl]
      · simp [Store.clear, hl]
    rw [hclear]
    exact (follows_detach hr hb (hps List.mem_cons_self) h).andThen
      (f := fun c ↦ pure ⟨c.stack, c.store.clear ps⟩)
      fun m c h ↦ ih (fun q hq ↦ hps (List.mem_cons_of_mem _ hq)) h

/-- Skipping a right operand takes off its listeners, also where its counter says that there are
none. -/
theorem follows_skipBranch {flag counter : Nat} {ps : List SavePoint}
    (hf : flag < artifact.flags.bits) (hc : counter < artifact.counters) (hps : ps ⊆ points)
    (hcount : ∀ P : SavePoint → Bool,
      points.countP (fun p ↦ counter ∈ p.counters && P p) = ps.countP P)
    (h : Running artifact points i w₀ s₀ handled m c) :
    (skipBranch r update fuel frame (some artifact.flags) flag counter ps m).Follows enough
      (Running artifact points i w₀ s₀ handled) (.flag flag :: ps.map SavePoint.loc) c.store
      (pure (c.skip flag ps)) := by
  refine (follows_assignFlag hr hb hf false h).andThen
    (f := fun c ↦ pure ⟨c.stack, c.store.clear ps⟩) (V := ps.map SavePoint.loc) fun m c h ↦ ?_
  obtain ⟨s, on, ht, hh⟩ := h.kept
  have hload := ht.counts counter hc
  rw [hcount] at hload
  let n : Int32 := .ofNat (ps.countP fun p ↦ (on p.step).isSome)
  have hrun : runOps r update fuel frame [.counterLoad counter] m =
      ⟨[], .ok (), { m with stack := .int n :: m.stack }⟩ := by
    rw [runOps_cons (does_counterLoad hb ht.found hload)]
    rfl
  rw [andThen_ok hrun, branchOn_jumpIfZero rfl]
  split
  · next hzero =>
    refine .ok (a := .skip) rfl ?_ fun l hl ↦ if_neg hl
    have hclear : s.Holding artifact points s₀ handled on (c.store.clear ps) := by
      refine hh.congr (fun l hl ↦ if_neg ?_) fun hh' p hp ↦ ?_
      · intro hmem
        obtain ⟨p, hp, rfl⟩ := List.mem_map.mp hmem
        exact hl p (hps hp) rfl
      · rw [Store.clear]
        split
        · next hmem =>
          obtain ⟨q, hq, he⟩ := List.mem_map.mp hmem
          have hle : ps.countP (fun p ↦ (on p.step).isSome) ≤ points.length := by
            rw [← hcount]
            exact List.countP_le_length
          have hnone := List.countP_eq_zero.mp
            (counter_eq_zero hzero (Nat.lt_of_le_of_lt hle (hr.few hh'))) q hq
          rw [← hh.handles hh' p hp, ← he, hh.handles hh' q (hps hq)]
          cases hon : on q.step with
          | none => rfl
          | some d => simp [hon] at hnone
        · exact hh.handles hh' p hp
    rw [← h.stack]
    exact h.keepStorage ht hclear
  · exact follows_detachAll hr hb hps h

/-- Listening to a cell. -/
theorem attach_eq (hp : p ∈ points) {o : ObjectId} {property : String}
    (hslot : w₀.observable? o property = some d)
    (h : Running artifact points i w₀ s₀ handled m ⟨.cell d :: σ, st⟩) :
    ∃ m' s, attach r update fuel frame p m = ⟨[], .ok (), m'⟩ ∧
      Running artifact points i w₀ s₀ handled m' ⟨σ, Function.update st p.loc (.cell d)⟩ ∧
      m'.world.instance? i = some s ∧ s.scratch[p.handle]? = some (.cell d) := by
  have hd := hr.apart o property d hslot
  obtain ⟨s, on, ht, hh⟩ := h.kept
  obtain ⟨w, stack, pc, locks⟩ := m
  obtain rfl : stack = .cell d :: σ := h.stack
  have hv := ht.handles p hp
  have hcount : ∀ n ∈ p.counters, n < s.counters.size := by
    rw [ht.fits.counters]
    exact hr.placed.counter_lt p hp
  have hsize : d.index < w.cells.size := by
    rw [h.alike.size]
    exact hr.exist o property d hslot
  cases hon : on p.step with
  | none =>
    rw [hon] at hv
    have ht' := ht.attach hr.placed hp hon hsize
    refine ⟨_, _, attach_fresh hb ht.found hv hcount, h.attached hr.placed hp ht hh hon hd
      ⟨o, property, hslot⟩ hsize, ht'.found, ?_⟩
    rw [ht'.handles p hp, Function.update_self]
    rfl
  | some e =>
    rw [hon] at hv
    by_cases hed : e = d
    · subst hed
      have hkeep := hh.refresh hp
      rw [hon] at hkeep
      exact ⟨_, s, attach_same hb ht.found hv, h.keepStorage ht hkeep, ht.found, hv⟩
    · have hgone := h.detached (σ := .cell d :: σ) hr.placed hp ht hh hon
      have htgone := ht.detach hr.placed hp hon
      have hnone := Function.update_self p.step (none : Option CellId) on
      have hsize' : d.index < (w.detach i s p e).cells.size := by
        simpa [World.detach, World.put, World.modifyInstance, World.modifyCell] using hsize
      have ht' := htgone.attach hr.placed hp hnone hsize'
      have hrun := hgone.attached (σ := σ) hr.placed hp htgone (hh.detached hr.placed hp) hnone hd
        ⟨o, property, hslot⟩ hsize'
      dsimp only at hrun
      rw [Function.update_idem] at hrun
      refine ⟨_, _, attach_move hb ht.found hv hed hcount, hrun, ht'.found, ?_⟩
      rw [ht'.handles p hp, Function.update_self]
      rfl

theorem follows_observe (property : String) (hp : p ∈ points)
    (h : Running artifact points i w₀ s₀ handled m c) :
    (((runOps r update fuel frame [.getObservable property]).andThen
      ((attach r update fuel frame p).andThen (reread r update fuel frame p))) m).Follows enough
      (Running artifact points i w₀ s₀ handled) [p.loc] c.store
      ((w₀.reading r answer frame.locals s₀.captures).observe property p c) := by
  have hmaps : Maps (step r update fuel frame default (.getObservable property))
      ((w₀.reading r answer frame.locals s₀.captures).simple (.getObservable property)) m :=
    @maps_step _ _ _ _ _ _ _ (.getObservable property) rfl (fun _ _ ↦ ⟨nofun, nofun, nofun⟩) _ h.alike
  obtain ⟨τ, hstep⟩ := hmaps
  rw [h.stack] at hstep
  -- the object is of no use, or has no such cell
  have hfail (e : RuntimeError) (hsimple : (w₀.reading r answer frame.locals s₀.captures).simple
      (.getObservable property) c.stack = .error (.error e)) :
      (((runOps r update fuel frame [.getObservable property]).andThen
        ((attach r update fuel frame p).andThen (reread r update fuel frame p))) m).Follows enough
        (Running artifact points i w₀ s₀ handled) [p.loc] c.store (.fail e) := by
    rw [hsimple] at hstep
    refine .error (n := { m with stack := τ }) ?_ (relates.keep h τ m.world.events) fun _ _ ↦ rfl
    simp only [runOps, Block.andThen, runOp, hstep]
    rfl
  have hstack := h.stack
  obtain ⟨_ | ⟨v, σ⟩, st⟩ := c
  · exact hfail _ rfl
  cases hv : v.receiver property with
  | error e =>
    cases e with
    | exhausted => cases v <;> cases hv
    | error e =>
      have hobs : (w₀.reading r answer frame.locals s₀.captures).observe property p ⟨v :: σ, st⟩ =
          .fail e := by
        simp only [Reading.observe, World.reading, hv]
        rfl
      rw [hobs]
      exact hfail e (by simp only [Reading.simple, hv]; rfl)
  | ok o =>
    cases hd : w₀.observable? o property with
    | none =>
      have hobs : (w₀.reading r answer frame.locals s₀.captures).observe property p ⟨v :: σ, st⟩ =
          .fail (.noSuchMember property) := by
        simp only [Reading.observe, World.reading, hv, bind, Except.bind, hd]
        rfl
      rw [hobs]
      exact hfail _ (by simp only [Reading.simple, World.reading, hv, bind, Except.bind, hd]; rfl)
    | some d =>
      have hobs : (w₀.reading r answer frame.locals s₀.captures).observe property p ⟨v :: σ, st⟩ =
          pure ⟨w₀.cellValue d :: σ, Function.update st p.loc (.cell d)⟩ := by
        simp only [Reading.observe, World.reading, hv, bind, Except.bind, hd]
        rfl
      have hget : runOps r update fuel frame [.getObservable property] m =
          ⟨[], .ok (), { m with stack := .cell d :: σ }⟩ := by
        simp only [Reading.simple, World.reading, hv, bind, Except.bind, hd] at hstep
        exact runOps_cons (show runOp r update fuel frame _ m = _ by rw [runOp, hstep]; rfl) []
      obtain ⟨m', s, hattach, hrun, hs, hslot⟩ := attach_eq hr hb hp hd
        (relates.keep h (.cell d :: σ) m.world.events)
      have hread : reread r update fuel frame p m' =
          ⟨[], .ok (), { m' with stack := w₀.cellValue d :: σ }⟩ := by
        rw [reread, runOps_cons (does_loadScratch hb hs hslot), runOps_cons (does_observableValue rfl)]
        show (⟨[], .ok (), { m' with stack := m'.world.cellValue d :: m'.stack }⟩ : Outcome) = _
        rw [hrun.alike.cellValue, hrun.stack]
      rw [hobs]
      refine .ok (n := { m' with stack := w₀.cellValue d :: σ }) ?_
        (relates.keep hrun (w₀.cellValue d :: σ) m'.world.events) fun l hl ↦ ?_
      · rw [andThen_ok hget, andThen_ok hattach, hread]
      · exact Function.update_of_ne (by simpa using hl) _ _

omit hr in
theorem follows_reread (hh : handled) (hp : p ∈ points)
    (h : Running artifact points i w₀ s₀ handled m c) :
    (reread r update fuel frame p m).Follows enough (Running artifact points i w₀ s₀ handled) []
      c.store ((w₀.reading r answer frame.locals s₀.captures).reread p c) := by
  obtain ⟨s, on, ht, hold⟩ := h.kept
  have hslot := ht.handles p hp
  rw [Reading.reread, hold.handles hh p hp, reread, runOps_cons (does_loadScratch hb ht.found hslot)]
  cases on p.step with
  | none =>
    refine .error (n := { m with stack := m.stack }) ?_ h fun _ _ ↦ rfl
    simp only [runOps, Block.andThen, runOp, step, bind_apply, pop_apply]
    rfl
  | some d =>
    refine .ok (n := { m with stack := w₀.cellValue d :: c.stack }) ?_
      (relates.keep h _ m.world.events) fun _ _ ↦ rfl
    rw [runOps_cons (does_observableValue rfl)]
    show (⟨[], .ok (), { m with stack := m.world.cellValue d :: m.stack }⟩ : Outcome) = _
    rw [h.alike.cellValue, h.stack]

end

section

include hb ha

theorem follows_op {op : Op} (hop : op.Placed artifact points)
    (h : Running artifact points i w₀ s₀ handled m c) :
    (runOp r update fuel frame op m).Follows enough (Running artifact points i w₀ s₀ handled)
      ((storesOf [op]).map .slot) c.store
      ((w₀.reading r answer frame.locals s₀.captures).ordinary op c) := by
  obtain hplain | ⟨n, rfl⟩ | ⟨n, rfl | rfl, hn, hp⟩ := hop
  · exact (Exec.follows_op relates ha hplain h).mono (List.nil_subset _)
  · exact follows_loadCapture hb n h
  · exact follows_loadScratch hb hn hp h
  · exact follows_storeScratch hb hn hp h

theorem follows_ops {list : List Op} (hlist : ∀ op ∈ list, op.Placed artifact points)
    (h : Running artifact points i w₀ s₀ handled m c) :
    (runOps r update fuel frame list m).Follows enough (Running artifact points i w₀ s₀ handled)
      ((storesOf list).map .slot) c.store
      ((w₀.reading r answer frame.locals s₀.captures).all list c) := by
  induction list generalizing m c with
  | nil => exact .ok rfl h fun _ _ ↦ rfl
  | cons op list ih =>
    have hstores : storesOf (op :: list) = storesOf [op] ++ storesOf list := by
      rw [storesOf, storesOf, storesOf, ← List.filterMap_append]
      rfl
    rw [hstores, List.map_append]
    exact (follows_op hb ha (hlist op List.mem_cons_self) h).andThen fun _ _ h ↦
      ih (fun op hop ↦ hlist op (List.mem_cons_of_mem _ hop)) h

include hr

/-- Running the code of a binding comes to what it means, and changes only what it writes to. -/
theorem follows_run {f : Fragment} (hf : f.Placed artifact points)
    (h : Running artifact points i w₀ s₀ handled m c) :
    (f.run r update fuel frame (some artifact.flags) m).Follows enough
      (Running artifact points i w₀ s₀ handled) f.writes c.store
      (f.den (w₀.reading r answer frame.locals s₀.captures) c) := by
  induction f generalizing m c with
  | ops list => exact follows_ops hb ha hf h
  | append f g ih ih' => exact (ih hf.1 h).andThen fun _ _ h ↦ ih' hf.2 h
  | nullGuard f g ih ih' =>
    obtain ⟨_ | ⟨v, σ⟩, st⟩ := c
    · refine .error (n := m) ?_ h fun _ _ ↦ rfl
      simp only [run, Block.andThen, runOps_dup_nil h.stack]
    · exact follows_nullGuard relates
        (fun _ _ h ↦ (ih hf.1 h).mono (List.subset_append_left _ _))
        (fun _ _ h ↦ (ih' hf.2 h).mono (List.subset_append_right _ _)) h
  | shortCircuit op f g ih ih' =>
    refine (ih hf.1 h).andThen fun _ _ h ↦ follows_decide relates (fun _ _ h ↦ ?_)
      (fun _ _ h ↦ ih' hf.2 h) h
    exact .ok rfl h fun _ _ ↦ rfl
  | flagTest flag => exact follows_flagTest hr hb hf h
  | flagAssign flag value => exact follows_assignFlag hr hb hf value h
  | observe property p => exact follows_observe hr hb property hf h
  | branch op f g flag counter ps ih ih' =>
    obtain ⟨hf, hg, hflag, hcounter, hps, hcount⟩ := hf
    refine (ih hf h).andThen fun _ _ h ↦ follows_decide relates (fun _ _ h ↦ ?_) (fun _ _ h ↦ ?_) h
    · exact (follows_skipBranch hr hb hflag hcounter hps hcount h).mono (List.subset_append_left _ _)
    · refine ((follows_assignFlag hr hb hflag true h).andThen fun _ _ h ↦ ih' hg h).mono ?_
      exact List.append_subset.mpr ⟨by simp, List.subset_append_right _ _⟩

end

end Running

/-- A place that an artifact sets aside. -/
def Loc.Within (artifact : Artifact) : Loc → Prop
  | .slot n => n < artifact.scratch
  | .flag n => n < artifact.flags.bits

theorem Fragment.placed_of {artifact : Artifact} {points : List SavePoint} {f : Fragment}
    {enclosing : List Nat} (ho : f.isOrdinary) (hn : f.Nested enclosing) (hp : f.points ⊆ points)
    (ht : ∀ l ∈ f.touched, l.Within artifact)
    (hs : ∀ n, n ∈ f.stores ∨ n ∈ f.loads → ∀ p ∈ points, p.handle ≠ n)
    (hb : ∀ e ∈ f.branches, e.2.1 < artifact.counters ∧ ∀ P : SavePoint → Bool,
      points.countP (fun p ↦ e.2.1 ∈ p.counters && P p) = e.2.2.2.countP P) :
    f.Placed artifact points := by
  induction f generalizing enclosing with
  | ops list =>
    intro op hop
    simp only [isOrdinary, List.all_eq_true] at ho
    have hop' := ho op hop
    have hslot (n : Nat) (h : n ∈ storesOf list ∨ n ∈ loadsOf list) :
        n < artifact.scratch ∧ ∀ p ∈ points, p.handle ≠ n :=
      ⟨ht (.slot n) (List.mem_map_of_mem (List.mem_append.mpr h)), hs n h⟩
    cases op with
    | loadCapture n => exact .inr (.inl ⟨n, rfl⟩)
    | loadScratch n =>
      exact .inr (.inr ⟨n, .inl rfl, hslot n (.inr (List.mem_filterMap.mpr ⟨_, hop, rfl⟩))⟩)
    | storeScratch n =>
      exact .inr (.inr ⟨n, .inr rfl, hslot n (.inl (List.mem_filterMap.mpr ⟨_, hop, rfl⟩))⟩)
    | _ => exact .inl hop'
  | flagTest flag | flagAssign flag value => exact ht (.flag flag) (by simp [touched, locs])
  | observe property p => exact hp List.mem_cons_self
  | append f g ih ih' | nullGuard f g ih ih' | shortCircuit _ f g ih ih' =>
    simp only [isOrdinary, Bool.and_eq_true] at ho
    refine ⟨ih ho.1 hn.1 (fun p h ↦ hp (List.mem_append_left _ h))
      (fun l h ↦ ht l (List.mem_append_left _ h))
      (fun n h ↦ hs n (h.imp (List.mem_append_left _) (List.mem_append_left _)))
      (fun e h ↦ hb e (List.mem_append_left _ h)), ?_⟩
    exact ih' ho.2 hn.2 (fun p h ↦ hp (List.mem_append_right _ h))
      (fun l h ↦ ht l (List.mem_append_right _ h))
      (fun n h ↦ hs n (h.imp (List.mem_append_right _) (List.mem_append_right _)))
      (fun e h ↦ hb e (List.mem_append_right _ h))
  | branch op f g flag counter ps ih ih' =>
    simp only [isOrdinary, Bool.and_eq_true] at ho
    obtain ⟨hcounter, hcount⟩ := hb (flag, counter, g, ps) (by simp [branches])
    refine ⟨ih ho.1 hn.1 (fun p h ↦ hp (List.mem_append_left _ h))
      (fun l h ↦ ht l (List.mem_append_left _ h))
      (fun n h ↦ hs n (h.imp (List.mem_append_left _) (List.mem_append_left _)))
      (fun e h ↦ hb e (List.mem_append_left _ h)), ?_, ht (.flag flag) (by simp [touched, locs]),
      hcounter, fun p h ↦ hp (List.mem_append_right _ (hn.2.2.subset h)), hcount⟩
    exact ih' ho.2 hn.2.1 (fun p h ↦ hp (List.mem_append_right _ h))
      (fun l h ↦ ht l (List.mem_append_right _ (List.mem_append_right _ h)))
      (fun n h ↦ hs n (h.imp (List.mem_append_right _) (List.mem_append_right _)))
      (fun e h ↦ hb e (List.mem_append_right _ (List.mem_cons_of_mem _ h)))

theorem Fragment.placed_of_isPlain {artifact : Artifact} {points : List SavePoint} {f : Fragment}
    (h : f.isPlain) : f.Placed artifact points := by
  induction f with
  | ops list =>
    simp only [isPlain, List.all_eq_true] at h
    exact fun op hop ↦ .inl (h op hop)
  | append f g ih ih' | nullGuard f g ih ih' | shortCircuit _ f g ih ih' =>
    rw [isPlain, Bool.and_eq_true] at h
    exact ⟨ih h.1, ih' h.2⟩
  | _ => cases h

theorem FlagLayout.bits_choose (bits capacity : Nat) : (choose bits capacity).bits = bits := by
  unfold choose
  split <;> rfl

namespace Compiles

variable {body coercion : Fragment} {t : Resumable} {layout : FlagLayout} {artifact : Artifact}

theorem layout_eq (h : Compiles body coercion t layout artifact) :
    artifact.flags.bits = t.storage.flags ∧
      ∃ capacity, artifact.flags = .choose artifact.flags.bits capacity := by
  obtain ⟨capacity, hl⟩ := h.chosen
  have hbits : artifact.flags.bits = t.storage.flags := by
    rw [h.flags, hl]
    exact FlagLayout.bits_choose _ _
  exact ⟨hbits, capacity, by rw [hbits, h.flags, hl]; rfl⟩

/-- The artifact sets aside every place that was handed out. -/
theorem within (h : Compiles body coercion t layout artifact) {l : Loc} (hl : l.Between .start t) :
    l.Within artifact := by
  cases l with
  | slot n => exact Nat.lt_of_lt_of_eq hl.2 h.scratch.symm
  | flag n => exact Nat.lt_of_lt_of_eq hl.2 h.layout_eq.1.symm

/-- The code of a binding uses what its artifact sets aside. -/
theorem placed (h : Compiles body coercion t layout artifact) (ho : Ordered .start body t) :
    body.Placed artifact body.points := by
  have hnested : body.Nested [] := h.renders.nested
  have hnodup : ([] ++ body.counters).Nodup := by
    rw [List.nil_append, h.counters_eq]
    exact List.nodup_range
  refine Fragment.placed_of h.renders.ordinary hnested (fun _ ↦ id)
    (fun l hl ↦ h.within (ho.between l hl)) ?_ ?_
  · rintro n hn p hp rfl
    have hstore : p.handle ∈ body.stores := hn.elim id fun hn ↦ ho.loads hn
    exact List.disjoint_of_nodup_append h.nodup_slots hstore (List.mem_map_of_mem hp)
  · rintro ⟨flag, counter, right, ps⟩ he
    refine ⟨?_, hnested.countP_eq hnodup he⟩
    have hmem : counter ∈ body.counters := List.mem_map_of_mem he
    rw [h.counters_eq] at hmem
    exact List.mem_range.mp hmem

end Compiles

end LiveBinding
