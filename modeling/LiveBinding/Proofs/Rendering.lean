import LiveBinding.Proofs.Structured
import LiveBinding.Render.Resumable

namespace LiveBinding

/-- Neither jumps nor uses the storage of a binding. -/
def Op.isPlain : Op → Bool
  | .loadCapture _ | .storeCapture _ | .loadScratch _ | .storeScratch _ | .loadStep | .flagTest _
  | .flagAssign .. | .bitTest _ | .bitAssign .. | .counterLoad _ | .counterAdd .. | .subscribe _
  | .unsubscribe _ | .publish | .lockAcquire | .lockRelease => false
  | op => op.isStraight

/-- A plain instruction, or one that moves a value between the stack and the storage. -/
def Op.isOrdinary : Op → Bool
  | .loadCapture _ | .loadScratch _ | .storeScratch _ => true
  | op => op.isPlain

theorem Op.isOrdinary_of_isPlain {op : Op} (h : op.isPlain) : op.isOrdinary := by
  cases op <;> first | rfl | exact h

theorem Op.isStraight_of_isOrdinary {op : Op} (h : op.isOrdinary) : op.isStraight := by
  cases op <;> first | rfl | simp [Op.isOrdinary, Op.isPlain, Op.isStraight] at h

namespace Fragment

/-- Code of plain instructions. -/
@[simp]
def isPlain : Fragment → Bool
  | ops list => list.all Op.isPlain
  | append f g | nullGuard f g | shortCircuit _ f g => f.isPlain && g.isPlain
  | flagTest _ | flagAssign .. | observe .. | branch .. => false

/-- The instructions of a fragment that are given as such are ordinary. -/
@[simp]
def isOrdinary : Fragment → Bool
  | ops list => list.all Op.isOrdinary
  | append f g | nullGuard f g | shortCircuit _ f g | branch _ f g .. =>
    f.isOrdinary && g.isOrdinary
  | flagTest _ | flagAssign .. | observe .. => true

theorem isStraight_of_isOrdinary {f : Fragment} (h : f.isOrdinary) : f.isStraight := by
  induction f with
  | ops list =>
    simp only [isOrdinary, isStraight, List.all_eq_true] at h ⊢
    exact fun op hop ↦ Op.isStraight_of_isOrdinary (h op hop)
  | append f g ih ih' | nullGuard f g ih ih' | shortCircuit _ f g ih ih'
  | branch _ f g _ _ _ ih ih' =>
    simp only [isOrdinary, isStraight, Bool.and_eq_true] at h ⊢
    exact ⟨ih h.1, ih' h.2⟩
  | flagTest | flagAssign | observe => rfl

/-- The points outside of every branch. -/
@[simp]
def own : Fragment → List SavePoint
  | ops _ | flagTest _ | flagAssign .. => []
  | append f g | nullGuard f g | shortCircuit _ f g => own f ++ own g
  | observe _ p => [p]
  | branch _ f .. => own f

/-- The branches of a fragment, each with its flag, its counter, its right operand and its points,
in the order in which they are opened. -/
@[simp]
def branches : Fragment → List (Nat × Nat × Fragment × List SavePoint)
  | ops _ | flagTest _ | flagAssign .. | observe .. => []
  | append f g | nullGuard f g | shortCircuit _ f g => branches f ++ branches g
  | branch _ f g flag counter points => branches f ++ (flag, counter, g, points) :: branches g

/-- The containers of the outermost branches, numbered from `index` on, if the steps count from
`step` on. -/
@[simp]
def containers (index step : Nat) : Fragment → List Container
  | ops _ | flagTest _ | flagAssign .. | observe .. => []
  | append f g | nullGuard f g | shortCircuit _ f g =>
    containers index step f ++
      containers (index + f.branches.length) (step + f.points.length) g
  | branch _ f g flag _ _ =>
    let index' := index + f.branches.length
    let step' := step + f.points.length
    containers index step f ++
      [.mk index' (some flag) step' (step' + g.points.length) g.own
        (containers (index' + 1) step' g)]

/-- The scratch slots that some instructions store to. -/
def storesOf (list : List Op) : List Nat := list.filterMap fun
  | .storeScratch n => some n
  | _ => none

/-- The scratch slots that belong to a fragment: those that operands are set aside in, and those of
its points. -/
@[simp]
def slots : Fragment → List Nat
  | ops list => storesOf list
  | append f g | nullGuard f g | shortCircuit _ f g | branch _ f g .. => slots f ++ slots g
  | flagTest _ | flagAssign .. => []
  | observe _ p => [p.handle]

/-- Every point has the counters of the branches around it, and every branch lists the points of
its right operand. -/
@[simp]
def Nested : List Nat → Fragment → Prop
  | _, ops _ | _, flagTest _ | _, flagAssign .. => True
  | enclosing, append f g | enclosing, nullGuard f g | enclosing, shortCircuit _ f g =>
    Nested enclosing f ∧ Nested enclosing g
  | enclosing, observe _ p => p.counters = enclosing
  | enclosing, branch _ f g _ counter points =>
    Nested enclosing f ∧ Nested (counter :: enclosing) g ∧ points.Perm g.points

theorem slots_of_isPlain {f : Fragment} (h : f.isPlain) : f.slots = [] := by
  induction f with
  | ops list =>
    simp only [isPlain, List.all_eq_true] at h
    simp only [slots, storesOf, List.filterMap_eq_nil_iff]
    intro op hop
    have := h op hop
    cases op <;> first | rfl | simp [Op.isPlain] at this
  | append f g ih ih' | nullGuard f g ih ih' | shortCircuit op f g ih ih' =>
    simp only [isPlain, Bool.and_eq_true] at h
    simp [ih h.1, ih' h.2]
  | _ => simp at h

end Fragment

open Fragment

/-- What rendering a fragment takes from the state, apart from scratch slots. -/
structure Layout (s : Resumable) (f : Fragment) (t : Resumable) : Prop where
  ordinary : f.isOrdinary
  steps : f.steps = List.range' s.nextStep f.points.length
  nextStep : t.nextStep = s.nextStep + f.points.length
  nextContainer : t.nextContainer = s.nextContainer + f.branches.length
  enclosing : t.enclosing = s.enclosing
  points : t.points = s.points ++ f.own
  children : t.children = s.children ++ f.containers s.nextContainer s.nextStep
  nested : f.Nested s.enclosing
  flags : f.branches.map (·.1) = List.range' s.storage.flags f.branches.length
  nextFlag : t.storage.flags = s.storage.flags + f.branches.length
  counters : f.branches.map (·.2.1) = List.range' s.storage.counters f.branches.length
  nextCounter : t.storage.counters = s.storage.counters + f.branches.length
  captured : s.storage.captured <+: t.storage.captured

namespace Layout

variable {s t u : Resumable} {f g : Fragment}

theorem straight (h : Layout s f t) : f.isStraight := isStraight_of_isOrdinary h.ordinary

theorem plain (s : Resumable) (h : f.isPlain) : Layout s f s := by
  have hpoints : f.points = [] ∧ f.own = [] ∧ f.branches = [] ∧ f.isOrdinary ∧
      (∀ i k, f.containers i k = []) ∧ ∀ e, f.Nested e := by
    induction f with
    | ops list =>
      refine ⟨rfl, rfl, rfl, ?_, fun _ _ ↦ rfl, fun _ ↦ trivial⟩
      simp only [isPlain, isOrdinary, List.all_eq_true] at h ⊢
      exact fun op hop ↦ Op.isOrdinary_of_isPlain (h op hop)
    | append f g ih ih' | nullGuard f g ih ih' | shortCircuit op f g ih ih' =>
      simp only [isPlain, Bool.and_eq_true] at h
      obtain ⟨h₁, h₂, h₃, h₄, h₅, h₆⟩ := ih h.1
      obtain ⟨h₁', h₂', h₃', h₄', h₅', h₆'⟩ := ih' h.2
      simp only [Fragment.points, own, Fragment.branches, isOrdinary, containers, Nested, *]
      simp
    | _ => simp at h
  obtain ⟨h₁, h₂, h₃, h₄, h₅, h₆⟩ := hpoints
  constructor <;> simp [Fragment.steps, *]

theorem ops {list : List Op} (s : Resumable) (h : list.all Op.isOrdinary) :
    Layout s (.ops list) s := by
  constructor <;> simp [Fragment.steps, Fragment.points] at *
  exact h

theorem append (h : Layout s f t) (h' : Layout t g u) : Layout s (f ++ g) u := by
  show Layout s (.append f g) u
  constructor
  · simp [h.ordinary, h'.ordinary]
  · rw [steps_append, h.steps, h'.steps, h.nextStep]
    simp [Fragment.points, List.range'_append_1]
  · simp only [Fragment.points, h'.nextStep, h.nextStep, List.length_append]; omega
  · simp only [Fragment.branches, h'.nextContainer, h.nextContainer, List.length_append]; omega
  · rw [h'.enclosing, h.enclosing]
  · simp [h'.points, h.points]
  · simp [h'.children, h.children, h.nextContainer, h.nextStep]
  · exact ⟨h.nested, h.enclosing ▸ h'.nested⟩
  · simp [h.flags, h'.flags, h.nextFlag, List.range'_append_1]
  · simp only [Fragment.branches, h'.nextFlag, h.nextFlag, List.length_append]; omega
  · simp [h.counters, h'.counters, h.nextCounter, List.range'_append_1]
  · simp only [Fragment.branches, h'.nextCounter, h.nextCounter, List.length_append]; omega
  · exact h.captured.trans h'.captured

theorem shortCircuit (op : BinaryOp) (h : Layout s f t) (h' : Layout t g u) :
    Layout s (.shortCircuit op f g) u :=
  have h := h.append h'
  { h with }

end Layout

theorem Container.allOf_append (cs ds : List Container) :
    allOf (cs ++ ds) = allOf cs ++ allOf ds := by
  induction cs with
  | nil => rfl
  | cons c cs ih => simp [allOf, ih]

/-- The containers of a fragment hold its points, those outside of every branch apart. -/
theorem Fragment.perm_points (f : Fragment) (index step : Nat) :
    (f.own ++ (Container.allOf (f.containers index step)).flatMap Container.points).Perm
      f.points := by
  have hswap (a b c d : List SavePoint) : (a ++ c ++ (b ++ d)).Perm (a ++ b ++ (c ++ d)) := by
    simp only [List.append_assoc]
    refine .append_left a ?_
    simp only [← List.append_assoc]
    exact List.perm_append_comm.append_right d
  induction f generalizing index step with
  | ops | flagTest | flagAssign | observe => simp [points, Container.allOf]
  | append f g ih ih' | nullGuard f g ih ih' | shortCircuit op f g ih ih' =>
    simp only [own, containers, Fragment.points, Container.allOf_append, List.flatMap_append]
    exact (hswap ..).trans ((ih ..).append (ih' ..))
  | branch op f g flag counter ps ih ih' =>
    simp only [own, containers, Fragment.points, Container.allOf_append, List.flatMap_append,
      Container.allOf, Container.all, List.flatMap_cons, Container.points, List.append_nil,
      ← List.append_assoc]
    rw [List.append_assoc _ g.own]
    exact (ih ..).append (ih' ..)

namespace Layout

variable {s t u : Resumable} {f g : Fragment}

/-- The state in which the right operand of a branch is rendered. -/
def inside (t : Resumable) : Resumable where
  storage := { t.storage with flags := t.storage.flags + 1, counters := t.storage.counters + 1 }
  nextStep := t.nextStep
  nextContainer := t.nextContainer + 1
  enclosing := t.storage.counters :: t.enclosing

/-- The container of a right operand that was rendered in a state `t`, up to a state `u`. -/
def childOf (t u : Resumable) : Container :=
  .mk t.nextContainer (some t.storage.flags) t.nextStep u.nextStep u.points u.children

theorem perm_childOf (h : Layout (inside t) g u) : (childOf t u).allPoints.Perm g.points := by
  refine (List.mergeSort_perm _ _).trans ?_
  have hp := g.perm_points (inside t).nextContainer (inside t).nextStep
  simpa only [childOf, Container.all, List.flatMap_cons, Container.points, h.points, h.children,
    inside, List.nil_append] using hp

/-- Rendering the right operand of a branch in its container. -/
theorem branch (op : BinaryOp) (h : Layout s f t) (h' : Layout (inside t) g u) :
    Layout s (.branch op f g t.storage.flags t.storage.counters (childOf t u).allPoints)
      { u with enclosing := t.enclosing, points := t.points
               children := t.children ++ [childOf t u] } := by
  have hn := h'.nextStep
  have hi := h'.nextContainer
  have hf := h'.flags
  have hf' := h'.nextFlag
  have hc := h'.counters
  have hc' := h'.nextCounter
  have hs := h'.steps
  simp only [inside, h.nextStep, h.nextContainer, h.nextFlag, h.nextCounter] at hn hi hf hf' hc hc' hs
  constructor
  · simp [h.ordinary, h'.ordinary]
  · rw [steps_branch, h.steps, hs]
    simp [Fragment.points, List.range'_append_1]
  · simp only [Fragment.points, hn, List.length_append]; omega
  · simp only [Fragment.branches, hi, List.length_append, List.length_cons]; omega
  · exact h.enclosing
  · exact h.points
  · simp only [containers, childOf, h.children, h'.points, h'.children, hn, inside,
      h.nextContainer, h.nextStep, List.nil_append, List.append_assoc]
  · exact ⟨h.nested, h.enclosing ▸ h'.nested, perm_childOf h'⟩
  · simp only [Fragment.branches, List.map_append, List.map_cons, h.flags, hf, h.nextFlag,
      List.length_append, List.length_cons, ← List.range'_succ, List.range'_append_1]
  · simp only [Fragment.branches, hf', List.length_append, List.length_cons]; omega
  · simp only [Fragment.branches, List.map_append, List.map_cons, h.counters, hc, h.nextCounter,
      List.length_append, List.length_cons, ← List.range'_succ, List.range'_append_1]
  · simp only [Fragment.branches, hc', List.length_append, List.length_cons]; omega
  · exact h.captured.trans h'.captured

end Layout

/-- Rendering several fragments one after the other. -/
def InOrder {σ : Type} (rel : σ → Fragment → σ → Prop) : σ → List Fragment → σ → Prop
  | s, [], t => s = t
  | s, f :: fs, t => ∃ u, rel s f u ∧ InOrder rel u fs t

namespace InOrder

variable {σ : Type} {rel rel' : σ → Fragment → σ → Prop} {s t u : σ} {fs gs : List Fragment}

theorem mono (hrel : ∀ s f t, rel s f t → rel' s f t) (h : InOrder rel s fs t) :
    InOrder rel' s fs t := by
  induction fs generalizing s with
  | nil => exact h
  | cons f fs ih =>
    obtain ⟨u, hf, h⟩ := h
    exact ⟨u, hrel _ _ _ hf, ih h⟩

theorem append (h : InOrder rel s fs t) (h' : InOrder rel t gs u) :
    InOrder rel s (fs ++ gs) u := by
  induction fs generalizing s with
  | nil => rw [show s = t from h]; exact h'
  | cons f fs ih =>
    obtain ⟨v, hf, h⟩ := h
    exact ⟨v, hf, ih h⟩

theorem take_drop (h : InOrder rel s fs t) (n : Nat) :
    ∃ u, InOrder rel s (fs.take n) u ∧ InOrder rel u (fs.drop n) t := by
  induction fs generalizing s n with
  | nil => exact ⟨t, by simpa using h, by simp [InOrder]⟩
  | cons f fs ih =>
    cases n with
    | zero => exact ⟨s, rfl, h⟩
    | succ n =>
      obtain ⟨v, hf, h⟩ := h
      obtain ⟨u, h₁, h₂⟩ := ih h n
      exact ⟨u, ⟨v, hf, h₁⟩, h₂⟩

theorem exists_of_mem (h : InOrder rel s fs t) {f : Fragment} (hf : f ∈ fs) : ∃ u v, rel u f v := by
  induction fs generalizing s with
  | nil => cases hf
  | cons g fs ih =>
    obtain ⟨u, hg, h⟩ := h
    rcases List.mem_cons.mp hf with rfl | hf
    · exact ⟨s, u, hg⟩
    · exact ih h hf

end InOrder

namespace Layout

variable {s t : Resumable}

theorem concat {fs : List Fragment} (h : InOrder Layout s fs t) : Layout s (.concat fs) t := by
  induction fs generalizing s with
  | nil => rw [show s = t from h]; exact .plain t rfl
  | cons f fs ih =>
    obtain ⟨u, hf, h⟩ := h
    exact hf.append (ih h)

/-- Operands that are set aside are rendered like operands that stay on the stack. -/
theorem spill {operands : List Operand} (slots : List Nat)
    (h : InOrder Layout s (operands.map Operand.code) t) : Layout s (Resumable.spill operands slots) t := by
  obtain ⟨u, h₁, h₂⟩ := h.take_drop slots.length
  have hload (slots : List Nat) : InOrder Layout u (slots.map fun slot ↦ .op (.loadScratch slot)) u := by
    induction slots with
    | nil => rfl
    | cons n slots ih => exact ⟨u, .ops u rfl, ih⟩
  have hstore (operands : List Operand) (slots : List Nat) (s : Resumable)
      (h : InOrder Layout s ((operands.map Operand.code).take slots.length) u) :
      InOrder Layout s ((operands.zip slots).map fun p ↦ p.1.code ++ .op (.storeScratch p.2)) u := by
    induction operands generalizing slots s with
    | nil => simpa using h
    | cons o operands ih =>
      cases slots with
      | nil => exact h
      | cons n slots =>
        obtain ⟨v, ho, h⟩ := h
        exact ⟨v, ho.append (.ops v rfl), ih slots v h⟩
  rw [List.map_drop.symm] at h₂
  exact concat (((hstore operands slots s h₁).append (hload slots)).append h₂)

end Layout

/-- What rendering a fragment takes from the state. Its scratch slots are fresh, and no two of its
points or operands share one. -/
structure Renders (s : Resumable) (f : Fragment) (t : Resumable) : Prop extends Layout s f t where
  slots : f.slots.Perm (List.range' s.storage.scratch f.slots.length)
  nextSlot : t.storage.scratch = s.storage.scratch + f.slots.length

namespace Renders

variable {s t u : Resumable} {f g : Fragment}

theorem plain (s : Resumable) (h : f.isPlain) : Renders s f s where
  toLayout := .plain s h
  slots := by simp [slots_of_isPlain h]
  nextSlot := by simp [slots_of_isPlain h]

theorem append (h : Renders s f t) (h' : Renders t g u) : Renders s (f ++ g) u where
  toLayout := h.toLayout.append h'.toLayout
  slots := by
    have hs := h.slots.append h'.slots
    rw [h.nextSlot, List.range'_append_1] at hs
    rw [← List.length_append] at hs
    exact hs
  nextSlot := by
    show _ = s.storage.scratch + (f.slots ++ g.slots).length
    rw [h'.nextSlot, h.nextSlot, List.length_append, Nat.add_assoc]

theorem shortCircuit (op : BinaryOp) (h : Renders s f t) (h' : Renders t g u) :
    Renders s (.shortCircuit op f g) u where
  toLayout := h.toLayout.shortCircuit op h'.toLayout
  slots := (h.append h').slots
  nextSlot := (h.append h').nextSlot

theorem branch (op : BinaryOp) (h : Renders s f t) (h' : Renders (Layout.inside t) g u) :
    Renders s (.branch op f g t.storage.flags t.storage.counters (Layout.childOf t u).allPoints)
      { u with enclosing := t.enclosing, points := t.points
               children := t.children ++ [Layout.childOf t u] } where
  toLayout := h.toLayout.branch op h'.toLayout
  slots := by
    have hs := h.slots.append h'.slots
    simp only [Layout.inside, h.nextSlot, List.range'_append_1, ← List.length_append] at hs
    exact hs
  nextSlot := by
    have hn := h'.nextSlot
    simp only [Layout.inside, h.nextSlot] at hn
    simp only [Fragment.slots, hn, List.length_append, Nat.add_assoc]

/-- Listening to a property takes one step and one slot. -/
theorem observe (property : String) (s : Resumable) :
    Renders s (.observe property (Resumable.newPoint s).1) (Resumable.newPoint s).2 := by
  refine ⟨⟨rfl, rfl, rfl, rfl, rfl, rfl, ?_, rfl, rfl, rfl, rfl, rfl, List.prefix_rfl⟩, ?_, rfl⟩
  · exact (List.append_nil _).symm
  · exact List.Perm.refl _

theorem loadCapture (l : Loadable) (s : Resumable) :
    let load := Strategy.resumable.loadScope l s
    Renders s load.1 load.2 := by
  have hstorage : (Storage.capture l s.storage).2.scratch = s.storage.scratch ∧
      (Storage.capture l s.storage).2.flags = s.storage.flags ∧
      (Storage.capture l s.storage).2.counters = s.storage.counters ∧
      s.storage.captured <+: (Storage.capture l s.storage).2.captured := by
    unfold Storage.capture
    split
    · exact ⟨rfl, rfl, rfl, List.prefix_rfl⟩
    · exact ⟨rfl, rfl, rfl, List.prefix_append _ _⟩
  obtain ⟨h₁, h₂, h₃, h₄⟩ := hstorage
  refine ⟨⟨rfl, rfl, rfl, rfl, rfl, ?_, ?_, trivial, rfl, h₂, rfl, h₃, h₄⟩, List.Perm.refl _, h₁⟩
  · exact (List.append_nil _).symm
  · exact (List.append_nil _).symm

theorem newSlots_eq (n : Nat) (s : Resumable) :
    Resumable.newSlots n s = (List.range' s.storage.scratch n,
      { s with storage := { s.storage with scratch := s.storage.scratch + n } }) := by
  induction n generalizing s with
  | zero => rfl
  | succ n ih =>
    show (s.storage.scratch :: (Resumable.newSlots n _).1, (Resumable.newSlots n _).2) = _
    rw [ih]
    simp only [List.range'_succ, Nat.add_assoc, Nat.add_comm 1 n]

theorem spilled_le (operands : List Operand) : Resumable.spilled operands ≤ operands.length := by
  simp only [Resumable.spilled]
  have h := (List.dropWhile_sublist (fun o : Operand ↦ !o.monitored)
    (l := operands.reverse)).length_le
  rw [List.length_reverse] at h
  split
  · exact Nat.zero_le _
  · exact h

/-- What is set aside adds its slots to those of the operands. -/
theorem perm_spill {q : Fragment → List Nat} (happend : ∀ f g, q (f ++ g) = q f ++ q g)
    (hempty : q .empty = []) (hstore : ∀ n, q (.op (.storeScratch n)) = [n])
    (hload : ∀ n, q (.op (.loadScratch n)) = []) (operands : List Operand) (slots : List Nat)
    (h : slots.length ≤ operands.length) :
    (q (Resumable.spill operands slots)).Perm ((operands.map Operand.code).flatMap q ++ slots) := by
  have hconcat (fs : List Fragment) : q (.concat fs) = fs.flatMap q := by
    induction fs with
    | nil => exact hempty
    | cons f fs ih => rw [List.flatMap_cons, ← ih]; exact happend f _
  have hloads : (slots.map fun n ↦ Fragment.op (.loadScratch n)).flatMap q = [] := by
    simp [hload]
  simp only [Resumable.spill, hconcat, List.flatMap_append, hloads, List.append_nil]
  clear hloads
  induction operands generalizing slots with
  | nil => simp_all
  | cons o operands ih =>
    cases slots with
    | nil => simp
    | cons n slots =>
      simp only [List.length_cons, Nat.add_le_add_iff_right] at h
      have hp := ih slots h
      simp only [List.zip_cons_cons, List.map_cons, List.flatMap_cons, List.length_cons,
        List.drop_succ_cons, List.append_assoc, happend, hstore]
      exact .append_left _ ((hp.cons n).trans List.perm_middle.symm)

theorem spill (operands : List Operand) (h : InOrder Renders s (operands.map Operand.code) t) :
    Renders s (Strategy.resumable.operands operands t).1
      (Strategy.resumable.operands operands t).2 := by
  have hall (fs : List Fragment) (s : Resumable) (h : InOrder Renders s fs t) :
      (fs.flatMap Fragment.slots).Perm
        (List.range' s.storage.scratch (fs.flatMap Fragment.slots).length) ∧
      t.storage.scratch = s.storage.scratch + (fs.flatMap Fragment.slots).length := by
    induction fs generalizing s with
    | nil => rw [show s = t from h]; simp
    | cons f fs ih =>
      obtain ⟨u, hf, h⟩ := h
      obtain ⟨h₁, h₂⟩ := ih u h
      have hs := hf.slots.append h₁
      rw [hf.nextSlot, List.range'_append_1, ← List.length_append] at hs
      refine ⟨hs, ?_⟩
      rw [h₂, hf.nextSlot, List.flatMap_cons, List.length_append, Nat.add_assoc]
  obtain ⟨hperm, hnext⟩ := hall _ s h
  have hspill := perm_spill (q := Fragment.slots) (fun _ _ ↦ rfl) rfl (fun _ ↦ rfl) (fun _ ↦ rfl)
    operands (List.range' t.storage.scratch (Resumable.spilled operands))
    (by simpa using spilled_le operands)
  have hlayout := Layout.spill (List.range' t.storage.scratch (Resumable.spilled operands))
    (h.mono fun _ _ _ h ↦ h.toLayout)
  show Renders s (Resumable.spill operands (Resumable.newSlots _ t).1) (Resumable.newSlots _ t).2
  rw [newSlots_eq]
  have hlen := hspill.length_eq
  simp only [List.length_append, List.length_range'] at hlen
  refine ⟨{ hlayout with }, hspill.trans ?_, ?_⟩
  · rw [hlen, ← List.range'_append_1, hnext]
    exact hperm.append (List.Perm.refl _)
  · refine Eq.trans ?_ (congrArg (s.storage.scratch + ·) hlen.symm)
    show t.storage.scratch + Resumable.spilled operands = _
    omega

theorem two (o o' : Operand) (h : Renders s o.code t) (h' : Renders t o'.code u) :
    Renders s (Strategy.resumable.operands [o, o'] u).1
      (Strategy.resumable.operands [o, o'] u).2 := by
  have hboth : InOrder Renders s ([o, o'].map Operand.code) u := ⟨t, h, u, h', rfl⟩
  exact spill [o, o'] hboth

end Renders

/-- The instruction that reads an index. -/
def IndexAccess.op : IndexAccess → Op
  | .chars => .charAt
  | .method m => .invoke m.id 1

namespace Node

mutual

/-- The conversions of operands in a node. -/
def coercions : Node → List Fragment
  | literal .. | scopeRead .. | typeRef .. => []
  | access _ receiver member => coercions receiver ++ memberCoercions member
  | construct _ _ args => argCoercions args
  | binary _ _ (.mk left c) (.mk right c') _ => coercions left ++ coercions right ++ [c, c']
  | unary _ _ (.mk operand c) _ => coercions operand ++ [c]

def memberCoercions : Member → List Fragment
  | .property _ | .staticField _ => []
  | .method _ args | .staticCall _ args => argCoercions args
  | .index (.mk node c) _ => coercions node ++ [c]

def argCoercions : List Arg → List Fragment
  | [] => []
  | .mk node c :: rest => coercions node ++ c :: argCoercions rest

end

theorem isPlain_push (value : Literal) : (Fragment.op value.push).isPlain := by
  cases value <;> rfl

theorem isPlain_plan (op : BinaryOp) (plan : Plan) : (Fragment.ops (plan.ops op)).isPlain := by
  cases plan with
  | refEquality => simp only [Plan.ops]; split <;> rfl
  | _ => rfl

theorem isPlain_unary (op : UnaryOp) (kind : Prim) : (Fragment.op (op.op kind)).isPlain := by
  cases op <;> rfl

section

variable {σ : Type} (st : Strategy σ) (s : σ) (info : NodeInfo)

theorem render_construct (method : MethodInfo) (args : List Arg) :
    (construct info method args).render st s =
      let operands := renderArgs st args s
      let code := st.operands operands.1 operands.2
      (code.1 ++ .op (.construct method.id args.length), code.2) := rfl

theorem render_binary (op : BinaryOp) (left right : Node) (c c' : Fragment) {plan : Plan}
    (h : plan ≠ .shortCircuit) :
    (binary info op (.mk left c) (.mk right c') plan).render st s =
      let first := left.render st s
      let second := right.render st first.2
      let code := st.operands
        [⟨first.1 ++ c, 0 < left.monitoring⟩, ⟨second.1 ++ c', 0 < right.monitoring⟩] second.2
      (code.1 ++ .ops (plan.ops op), code.2) := by
  simp only [render, h, if_false]
  rfl

theorem render_shortCircuit (op : BinaryOp) (left right : Node) (c c' : Fragment) :
    (binary info op (.mk left c) (.mk right c') .shortCircuit).render st s =
      let first := left.render st s
      st.shortCircuit op (first.1 ++ c) ((· ++ c') <$> right.render st) (0 < right.monitoring)
        first.2 := rfl

theorem renderMember_method (method : MethodInfo) (args : List Arg) :
    renderMember st (.method method args) s =
      let operands := renderArgs st args s
      let code := st.operands (.onStack :: operands.1) operands.2
      (code.1 ++ .op (.invoke method.id args.length), code.2) := rfl

theorem renderMember_staticCall (method : MethodInfo) (args : List Arg) :
    renderMember st (.staticCall method args) s =
      let operands := renderArgs st args s
      let code := st.operands operands.1 operands.2
      (code.1 ++ .op (.invokeStatic method.id args.length), code.2) := rfl

theorem renderMember_index (node : Node) (c : Fragment) (reading : IndexAccess) :
    renderMember st (.index (.mk node c) reading) s =
      let index := node.render st s
      let code := st.operands [.onStack, ⟨index.1 ++ c, 0 < node.monitoring⟩] index.2
      (code.1 ++ .op reading.op, code.2) := by
  cases reading <;> rfl

theorem renderMember_property (p : PropertyInfo) :
    renderMember st (.property p) s =
      if p.flags.observable then st.observe p.name s else (.op (.getProperty p.name), s) := by
  simp only [renderMember]
  split <;> rfl

end

mutual

/-- Rendering a node takes fresh steps, slots, flags and counters. -/
theorem renders (n : Node) (h : ∀ c ∈ n.coercions, c.isPlain) (s : Resumable) :
    Renders s (n.render .resumable s).1 (n.render .resumable s).2 :=
  match n with
  | literal _ value => .plain s (isPlain_push value)
  | scopeRead _ (.bound l) => .loadCapture l s
  | scopeRead _ (.pending _) => .plain s rfl
  | typeRef _ _ => .plain s rfl
  | access _ receiver member =>
    (renders receiver (fun c hc ↦ h c (List.mem_append_left _ hc)) s).append
      (rendersMember member (fun c hc ↦ h c (List.mem_append_right _ hc)) _)
  | construct info method args => by
    rw [render_construct]
    exact (Renders.spill _ (rendersArgs args h s)).append (.plain _ rfl)
  | binary info op (.mk left c) (.mk right c') plan => by
    have hl (s : Resumable) := renders left (fun d hd ↦ h d (by simp [coercions, hd])) s
    have hr (s : Resumable) := renders right (fun d hd ↦ h d (by simp [coercions, hd])) s
    have hc (s : Resumable) := Renders.plain s (h c (by simp [coercions]))
    have hc' (s : Resumable) := Renders.plain s (h c' (by simp [coercions]))
    have hleft := (hl s).append (hc _)
    by_cases hp : plan = .shortCircuit
    · subst hp
      rw [render_shortCircuit]
      by_cases hm : 0 < right.monitoring
      · simp only [hm]
        exact hleft.branch op ((hr _).append (hc' _))
      · simp only [hm]
        exact hleft.shortCircuit op ((hr _).append (hc' _))
    · rw [render_binary _ _ _ _ _ _ _ _ hp]
      exact (Renders.two _ _ hleft ((hr _).append (hc' _))).append (.plain _ (isPlain_plan op plan))
  | unary _ op (.mk operand c) kind =>
    ((renders operand (fun d hd ↦ h d (by simp [coercions, hd])) s).append
      (.plain _ (h c (by simp [coercions])))).append (.plain _ (isPlain_unary op kind))

theorem rendersMember (m : Member) (h : ∀ c ∈ memberCoercions m, c.isPlain) (s : Resumable) :
    Renders s (renderMember .resumable m s).1 (renderMember .resumable m s).2 :=
  match m with
  | .property p => by
    rw [renderMember_property]
    split
    · exact .observe p.name s
    · exact .plain s rfl
  | .staticField _ => .plain s rfl
  | .method method args => by
    rw [renderMember_method]
    exact (Renders.spill (.onStack :: _) ⟨s, .plain s rfl, rendersArgs args h s⟩).append
      (.plain _ rfl)
  | .staticCall method args => by
    rw [renderMember_staticCall]
    exact (Renders.spill _ (rendersArgs args h s)).append (.plain _ rfl)
  | .index (.mk node c) reading => by
    have hn := renders node (fun d hd ↦ h d (by simp [memberCoercions, hd])) s
    have hc := Renders.plain (node.render .resumable s).2 (h c (by simp [memberCoercions]))
    rw [renderMember_index]
    exact (Renders.two .onStack _ (.plain s rfl) (hn.append hc)).append
      (.plain _ (by cases reading <;> rfl))

theorem rendersArgs (args : List Arg) (h : ∀ c ∈ argCoercions args, c.isPlain) (s : Resumable) :
    InOrder Renders s ((renderArgs .resumable args s).1.map Operand.code)
      (renderArgs .resumable args s).2 :=
  match args with
  | [] => rfl
  | .mk node c :: rest =>
    ⟨_, (renders node (fun d hd ↦ h d (by simp [argCoercions, hd])) s).append
      (.plain _ (h c (by simp [argCoercions]))),
      rendersArgs rest (fun d hd ↦ h d (by simp [argCoercions, hd])) _⟩

end

end Node

end LiveBinding
