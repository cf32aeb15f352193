import LiveBinding.Code.Fragment
import Mathlib.Data.List.Basic
import Mathlib.Tactic.Common

namespace LiveBinding

namespace Assembler

/-- Everything that was emitted, placed and keyed in `a` is still there in `b`. -/
structure Continues (a b : Assembler) : Prop where
  ops : ∀ (i : Nat) (op : Op), a.ops[i]? = some op → b.ops[i]? = some op
  placed : ∀ (i p : Nat), a.positions[i]? = some (some p) → b.positions[i]? = some (some p)
  keyed : ∀ (key : LabelKey) (l : Label), a.keyed.lookup key = some l → b.keyed.lookup key = some l
  sound : b.firstError = none → a.firstError = none

variable {a b c : Assembler}

theorem Continues.refl (a : Assembler) : Continues a a :=
  ⟨fun _ _ h ↦ h, fun _ _ h ↦ h, fun _ _ h ↦ h, id⟩

theorem Continues.trans (h : Continues a b) (h' : Continues b c) : Continues a c where
  ops i op hi := h'.ops i op (h.ops i op hi)
  placed i p hi := h'.placed i p (h.placed i p hi)
  keyed key l hk := h'.keyed key l (h.keyed key l hk)
  sound he := h.sound (h'.sound he)

theorem Continues.size_le (h : Continues a b) : a.ops.size ≤ b.ops.size := by
  by_contra hlt
  have hb := h.ops b.ops.size a.ops[b.ops.size] (Array.getElem?_eq_getElem (by omega))
  simp at hb

@[simp] theorem size_emit (a : Assembler) (op : Op) : (a.emit op).ops.size = a.ops.size + 1 := by
  simp [emit]

@[simp] theorem size_emitAll (a : Assembler) (ops : List Op) :
    (a.emitAll ops).ops.size = a.ops.size + ops.length := by
  induction ops generalizing a with
  | nil => rfl
  | cons op ops ih =>
    have h := ih (a.emit op)
    simp only [emitAll, List.foldl_cons, List.length_cons, size_emit] at h ⊢
    omega

@[simp] theorem ops_newLabel (a : Assembler) : a.newLabel.2.ops = a.ops := rfl

@[simp] theorem ops_keyedLabel (a : Assembler) (key : LabelKey) :
    (a.keyedLabel key).2.ops = a.ops := by
  unfold keyedLabel
  split <;> rfl

@[simp] theorem ops_place (a : Assembler) (l : Label) : (a.place l).ops = a.ops := by
  unfold place
  split <;> rfl

@[simp] theorem ops_placeKey (a : Assembler) (key : LabelKey) : (a.placeKey key).ops = a.ops := by
  simp [placeKey]

theorem continues_emit (a : Assembler) (op : Op) : Continues a (a.emit op) where
  ops i o h := by
    obtain ⟨hi, -⟩ := Array.getElem?_eq_some_iff.mp h
    simp only [emit, Array.getElem?_push]
    rw [if_neg (by omega)]
    exact h
  placed _ _ h := h
  keyed _ _ h := h
  sound := id

theorem continues_emitAll (a : Assembler) (ops : List Op) : Continues a (a.emitAll ops) := by
  induction ops generalizing a with
  | nil => exact .refl a
  | cons op ops ih => exact (continues_emit a op).trans (ih (a.emit op))

theorem continues_newLabel (a : Assembler) : Continues a a.newLabel.2 where
  ops _ _ h := h
  placed i p h := by
    obtain ⟨hi, -⟩ := Array.getElem?_eq_some_iff.mp h
    simp only [newLabel, Array.getElem?_push]
    rw [if_neg (by omega)]
    exact h
  keyed _ _ h := h
  sound := id

theorem continues_keyedLabel (a : Assembler) (key : LabelKey) :
    Continues a (a.keyedLabel key).2 := by
  unfold keyedLabel
  split
  · exact .refl a
  · next hk =>
    have h := continues_newLabel a
    refine ⟨h.ops, h.placed, fun key' l hl ↦ ?_, h.sound⟩
    have hne : key' ≠ key := by
      rintro rfl
      simp [hk] at hl
    simp only [List.lookup_cons, beq_false_of_ne hne]
    exact hl

theorem lookup_keyedLabel (a : Assembler) (key : LabelKey) :
    (a.keyedLabel key).2.keyed.lookup key = some (a.keyedLabel key).1 := by
  unfold keyedLabel
  split
  · assumption
  · simp [newLabel]

theorem continues_place (a : Assembler) (l : Label) : Continues a (a.place l) := by
  unfold place
  split
  · next hl =>
    refine ⟨fun _ _ h ↦ h, fun i p h ↦ ?_, fun _ _ h ↦ h, id⟩
    have hne : l.index ≠ i := by
      rintro rfl
      simp [hl] at h
    simpa [Array.getElem?_setIfInBounds, hne] using h
  · refine ⟨fun _ _ h ↦ h, fun _ _ h ↦ h, fun _ _ h ↦ h, fun h ↦ ?_⟩
    cases he : a.firstError with
    | none => rfl
    | some e => simp [he] at h

/-- In a run without an error a label that is placed stands in front of the next instruction. -/
theorem placed_of_continues {l : Label} (h : Continues (a.place l) b) (hb : b.firstError = none) :
    b.positions[l.index]? = some (some a.ops.size) := by
  have ha := h.sound hb
  apply h.placed
  unfold place at ha ⊢
  split at ha
  · next hl =>
    obtain ⟨hi, -⟩ := Array.getElem?_eq_some_iff.mp hl
    simp [hi]
  · cases he : a.firstError <;> simp [he] at ha

theorem continues_placeKey (a : Assembler) (key : LabelKey) : Continues a (a.placeKey key) :=
  (continues_keyedLabel a key).trans (continues_place _ _)

theorem keyed_placeKey (a : Assembler) (key : LabelKey) :
    (a.placeKey key).keyed.lookup key = some (a.keyedLabel key).1 :=
  (continues_place _ _).keyed _ _ (lookup_keyedLabel a key)

/-- The routine that comes out of an assembler. -/
structure Assembles (b : Assembler) (R : Routine) : Prop where
  finish : b.finish = .ok R

namespace Assembles

variable {R : Routine}

theorem firstError (h : Assembles b R) : b.firstError = none := by
  have hf := h.finish
  unfold Assembler.finish at hf
  split at hf
  · cases hf
  · assumption

theorem routine_eq (h : Assembles b R) : R = ⟨b.ops, b.positions.map (·.getD 0)⟩ := by
  have hf := h.finish
  unfold Assembler.finish at hf
  split at hf
  · cases hf
  · split at hf
    · cases hf
    · exact (Except.ok.inj hf).symm

theorem target_eq (h : Assembles b R) {l : Label} {p : Nat}
    (hp : b.positions[l.index]? = some (some p)) : R.target l = p := by
  obtain ⟨hi, he⟩ := Array.getElem?_eq_some_iff.mp hp
  simp [h.routine_eq, Routine.target, hi, he]

/-- A label that was placed on the way leads to where it was placed. -/
theorem target_place (h : Assembles b R) {l : Label} (hc : Continues (a.place l) b) :
    R.target l = a.ops.size :=
  h.target_eq (placed_of_continues hc h.firstError)

end Assembles

/-- Where the label of a key leads to. -/
def keyTarget (b : Assembler) (R : Routine) (key : LabelKey) : Nat :=
  ((b.keyed.lookup key).map R.target).getD 0

theorem keyTarget_eq {R : Routine} {key : LabelKey} {l : Label}
    (h : b.keyed.lookup key = some l) : b.keyTarget R key = R.target l := by
  simp [keyTarget, h]

theorem Assembles.keyTarget_placeKey {R : Routine} (h : Assembles b R) {key : LabelKey}
    (hc : Continues (a.placeKey key) b) : b.keyTarget R key = a.ops.size := by
  rw [keyTarget_eq (hc.keyed _ _ (keyed_placeKey a key))]
  have h := h.target_place (a := (a.keyedLabel key).2) (l := (a.keyedLabel key).1) hc
  simpa using h

end Assembler

/-- The instructions stand in the routine from a position on. -/
def Routine.Holds (R : Routine) (i : Nat) (ops : List Op) : Prop :=
  ∀ (k : Nat) (op : Op), ops[k]? = some op → R.ops[i + k]? = some op

namespace Routine.Holds

variable {R : Routine} {i : Nat}

theorem head {op : Op} {ops : List Op} (h : R.Holds i (op :: ops)) : R.ops[i]? = some op :=
  h 0 op rfl

theorem tail {op : Op} {ops : List Op} (h : R.Holds i (op :: ops)) : R.Holds (i + 1) ops := by
  intro k o hk
  rw [Nat.add_assoc, Nat.add_comm 1 k]
  exact h (k + 1) o hk

theorem left {ops ops' : List Op} (h : R.Holds i (ops ++ ops')) : R.Holds i ops := by
  intro k op hk
  obtain ⟨hlt, -⟩ := List.getElem?_eq_some_iff.mp hk
  exact h k op (by rw [List.getElem?_append_left hlt]; exact hk)

theorem right {ops ops' : List Op} (h : R.Holds i (ops ++ ops')) :
    R.Holds (i + ops.length) ops' := by
  intro k op hk
  rw [Nat.add_assoc]
  refine h (ops.length + k) op ?_
  rw [List.getElem?_append_right (by omega)]
  simpa using hk

theorem append {ops ops' : List Op} (h : R.Holds i ops) (h' : R.Holds (i + ops.length) ops') :
    R.Holds i (ops ++ ops') := by
  intro k op hk
  by_cases hlt : k < ops.length
  · exact h k op (by rwa [List.getElem?_append_left hlt] at hk)
  · rw [List.getElem?_append_right (by omega)] at hk
    have := h' (k - ops.length) op hk
    rwa [show i + ops.length + (k - ops.length) = i + k by omega] at this

theorem cons {op : Op} {ops : List Op} (h : R.Holds i [op]) (h' : R.Holds (i + 1) ops) :
    R.Holds i (op :: ops) := h.append h'

theorem take {ops : List Op} (h : R.Holds i ops) (n : Nat) : R.Holds i (ops.take n) := by
  rw [← List.take_append_drop n ops] at h
  exact h.left

theorem drop {ops : List Op} (h : R.Holds i ops) (n : Nat) (hn : n ≤ ops.length) :
    R.Holds (i + n) (ops.drop n) := by
  rw [← List.take_append_drop n ops] at h
  have h := h.right
  rwa [List.length_take_of_le hn] at h

end Routine.Holds

namespace Assembler

variable {a b : Assembler} {R : Routine}

theorem Assembles.holds (h : Assembles b R) {ops : List Op} (hc : Continues (a.emitAll ops) b) :
    R.Holds a.ops.size ops := by
  induction ops generalizing a with
  | nil => intro k op hk; simp at hk
  | cons op ops ih =>
    have htail := ih (a := a.emit op) hc
    have hhead : Continues (a.emit op) b := (continues_emitAll (a.emit op) ops).trans hc
    intro k o hk
    cases k with
    | zero =>
      obtain rfl : op = o := by simpa using hk
      rw [h.routine_eq]
      exact hhead.ops _ _ (by simp [emit])
    | succ k =>
      have := htail k o hk
      rwa [size_emit, Nat.add_assoc, Nat.add_comm 1 k] at this

theorem Assembles.holds_one (h : Assembles b R) {op : Op} (hc : Continues (a.emit op) b) :
    R.Holds a.ops.size [op] := h.holds hc

end Assembler

/-- Put in by fragments themselves, to listen to a property, to resume there and to skip code. -/
def Op.isGlue : Op → Bool
  | .getObservable _ | .observableValue | .dup | .pop | .pushNull | .loadScratch _ | .storeScratch _
  | .counterLoad _ | .counterAdd .. | .subscribe _ | .unsubscribe _ | .jump _ | .jumpIfFalse _
  | .jumpIfTrue _ | .jumpIfNull _ | .jumpIfSame _ | .jumpIfZero _ => true
  | _ => false

namespace Assembler

theorem mem_ops_emitAll {a : Assembler} {ops : List Op} {op : Op} :
    op ∈ (a.emitAll ops).ops ↔ op ∈ a.ops ∨ op ∈ ops := by
  induction ops generalizing a with
  | nil => simp [emitAll]
  | cons o ops ih =>
    show op ∈ ((a.emit o).emitAll ops).ops ↔ _
    rw [ih]
    simp [emit, or_assoc]

/-- What is emitted on the way from one assembler to another satisfies a condition. -/
def Adds (P : Op → Prop) (a b : Assembler) : Prop := ∀ op ∈ b.ops, op ∈ a.ops ∨ P op

namespace Adds

variable {P Q : Op → Prop} {a b c : Assembler}

theorem refl (a : Assembler) : Adds P a a := fun _ ↦ .inl

theorem trans (h : Adds P a b) (h' : Adds P b c) : Adds P a c := by
  intro op hop
  rcases h' op hop with hop | hop
  · exact h op hop
  · exact .inr hop

theorem mono (h : Adds P a b) (hP : ∀ op, P op → Q op) : Adds Q a b :=
  fun op hop ↦ (h op hop).imp id (hP op)

theorem ofEq (h : Adds P a b) (hc : c.ops = b.ops) : Adds P a c := by
  intro op hop
  exact h op (hc ▸ hop)

theorem emit (h : Adds P a b) {op : Op} (hop : P op) : Adds P a (b.emit op) := by
  intro o ho
  rcases Array.mem_push.mp ho with ho | rfl
  · exact h o ho
  · exact .inr hop

theorem emitAll (h : Adds P a b) {ops : List Op} (hops : ∀ op ∈ ops, P op) :
    Adds P a (b.emitAll ops) := by
  intro o ho
  rcases mem_ops_emitAll.mp ho with ho | ho
  · exact h o ho
  · exact .inr (hops o ho)

/-- If what fragments put in satisfies the condition, the labels it names do not matter. -/
theorem glue (h : Adds P a b) (hP : ∀ op : Op, op.isGlue → P op) (ops : List Op)
    (hops : ops.all Op.isGlue) : Adds P a (b.emitAll ops) :=
  h.emitAll fun op hop ↦ hP op (List.all_eq_true.mp hops op hop)

theorem newLabel (h : Adds P a b) : Adds P a b.newLabel.2 := h.ofEq rfl

theorem keyedLabel (h : Adds P a b) (key : LabelKey) : Adds P a (b.keyedLabel key).2 :=
  h.ofEq (ops_keyedLabel b key)

theorem place (h : Adds P a b) (l : Label) : Adds P a (b.place l) := h.ofEq (ops_place b l)

theorem placeKey (h : Adds P a b) (key : LabelKey) : Adds P a (b.placeKey key) :=
  h.ofEq (ops_placeKey b key)

end Adds

end Assembler

namespace Fragment

open Assembler

/-- The instructions that listen to a property, up to those that read it. -/
def observeOps (property : String) (p : SavePoint) (keep noDetach attach resume : Label) : List Op :=
  ([.getObservable property, .dup, .loadScratch p.handle, .jumpIfSame keep,
    .loadScratch p.handle, .dup, .jumpIfNull noDetach, .unsubscribe p.step] : List Op) ++
  (adjust p.counters (-1) ++ (([.jump attach, .pop, .storeScratch p.handle,
    .loadScratch p.handle, .subscribe p.step] : List Op) ++
    (adjust p.counters 1 ++ ([.jump resume, .pop] : List Op))))

def detachOps (p : SavePoint) (skip next : Label) : List Op :=
  ([.loadScratch p.handle, .dup, .jumpIfNull skip, .unsubscribe p.step, .pushNull,
    .storeScratch p.handle] : List Op) ++ (adjust p.counters (-1) ++ ([.jump next, .pop] : List Op))

/-- The code that takes off the listeners of some points stands between two positions. -/
def DetachAt (R : Routine) : List SavePoint → Nat → Nat → Prop
  | [], i, j => i = j
  | p :: ps, i, j => ∃ skip next, R.Holds i (detachOps p skip next) ∧
      R.target skip = i + p.counters.length + 7 ∧ R.target next = i + p.counters.length + 8 ∧
      DetachAt R ps (i + p.counters.length + 8) j

/-- The code of a fragment stands between two positions of a routine, and its labels lead to where
they belong. `resume` gives the position where a step resumes. -/
def CodeAt (R : Routine) (resume : Nat → Nat) (layout : Option FlagLayout) :
    Fragment → Nat → Nat → Prop
  | ops list, i, j => R.Holds i list ∧ j = i + list.length
  | append first second, i, j =>
    ∃ k, CodeAt R resume layout first i k ∧ CodeAt R resume layout second k j
  | nullGuard convert default, i, j => ∃ isNull done k,
      R.Holds i [.dup, .jumpIfNull isNull] ∧ CodeAt R resume layout convert (i + 2) k ∧
      R.Holds k [.jump done, .pop] ∧ R.target isNull = k + 1 ∧
      CodeAt R resume layout default (k + 2) j ∧ R.target done = j
  | shortCircuit op left right, i, j => ∃ done k,
      CodeAt R resume layout left i k ∧ R.Holds k [.dup, skipJump op done, .pop] ∧
      CodeAt R resume layout right (k + 3) j ∧ R.target done = j
  | flagTest flag, i, j => R.Holds i [(layoutFor layout flag).test flag] ∧ j = i + 1
  | flagAssign flag value, i, j => R.Holds i [(layoutFor layout flag).assign flag value] ∧ j = i + 1
  | observe property p, i, j => ∃ keep noDetach attach label,
      R.Holds i (observeOps property p keep noDetach attach label) ∧
      R.target noDetach = i + p.counters.length + 9 ∧ R.target attach = i + p.counters.length + 10 ∧
      R.target keep = i + 2 * p.counters.length + 14 ∧ R.target label = resume p.step ∧
      resume p.step = i + 2 * p.counters.length + 15 ∧
      R.Holds (resume p.step) [.loadScratch p.handle, .observableValue] ∧
      j = i + 2 * p.counters.length + 17
  | branch op left right flag counter points, i, j => ∃ skip done k l,
      CodeAt R resume layout left i k ∧
      R.Holds k [.dup, skipJump op skip, .pop, (layoutFor layout flag).assign flag true] ∧
      CodeAt R resume layout right (k + 4) l ∧
      R.Holds l [.jump done, (layoutFor layout flag).assign flag false, .counterLoad counter,
        .jumpIfZero done] ∧ R.target skip = l + 1 ∧
      DetachAt R points (l + 4) j ∧ R.target done = j

theorem continues_emitDetach (a : Assembler) (p : SavePoint) : Continues a (emitDetach a p) :=
  (continues_newLabel a).trans <| (continues_newLabel _).trans <| (continues_emitAll _ _).trans <|
    (continues_emitAll _ _).trans <| (continues_emit _ _).trans <| (continues_place _ _).trans <|
    (continues_emit _ _).trans <| continues_place _ _

theorem continues_emitDetaches (a : Assembler) (points : List SavePoint) :
    Continues a (points.foldl emitDetach a) := by
  induction points generalizing a with
  | nil => exact .refl a
  | cons p points ih => exact (continues_emitDetach a p).trans (ih _)

theorem continues_emitObserve (property : String) (p : SavePoint) (a : Assembler) :
    Continues a (emitObserve property p a) :=
  (continues_newLabel a).trans <| (continues_newLabel _).trans <| (continues_newLabel _).trans <|
    (continues_emitAll _ _).trans <| (continues_emitAll _ _).trans <| (continues_emit _ _).trans <|
    (continues_place _ _).trans <| (continues_emit _ _).trans <| (continues_place _ _).trans <|
    (continues_emitAll _ _).trans <| (continues_emitAll _ _).trans <|
    (continues_keyedLabel _ _).trans <| (continues_emit _ _).trans <| (continues_place _ _).trans <|
    (continues_emit _ _).trans <| (continues_placeKey _ _).trans <| continues_emitAll _ _

theorem continues_fragment (layout : Option FlagLayout) (f : Fragment) (a : Assembler) :
    Continues a (f.emit layout a) := by
  induction f generalizing a with
  | ops list => exact continues_emitAll a list
  | append first second ih ih' => exact (ih a).trans (ih' _)
  | nullGuard convert default ih ih' =>
    exact (continues_newLabel a).trans <| (continues_newLabel _).trans <|
      (continues_emitAll _ _).trans <| (ih _).trans <| (continues_emit _ _).trans <|
      (continues_place _ _).trans <| (continues_emit _ _).trans <| (ih' _).trans <|
      continues_place _ _
  | shortCircuit op left right ih ih' =>
    exact (continues_newLabel a).trans <| (ih _).trans <| (continues_emitAll _ _).trans <|
      (ih' _).trans <| continues_place _ _
  | flagTest flag => exact continues_emit a _
  | flagAssign flag value => exact continues_emit a _
  | observe property point => exact continues_emitObserve property point a
  | branch op left right flag counter points ih ih' =>
    exact (continues_newLabel a).trans <| (continues_newLabel _).trans <| (ih _).trans <|
      (continues_emitAll _ _).trans <| (continues_emit _ _).trans <| (ih' _).trans <|
      (continues_emit _ _).trans <| (continues_place _ _).trans <| (continues_emit _ _).trans <|
      (continues_emitAll _ _).trans <| (continues_emitDetaches _ points).trans <|
      continues_place _ _

variable {a b : Assembler} {R : Routine}

theorem size_adjust (counters : List Nat) (delta : Int32) :
    (adjust counters delta).length = counters.length := by
  simp [adjust]

theorem codeAt_observe (h : Assembles b R) (layout : Option FlagLayout) (property : String)
    (p : SavePoint) (hc : Continues (emitObserve property p a) b) :
    CodeAt R (fun n ↦ b.keyTarget R (.step n)) layout (observe property p) a.ops.size
      (emitObserve property p a).ops.size := by
  let keep := a.newLabel.1
  let noDetach := a.newLabel.2.newLabel.1
  let attach := a.newLabel.2.newLabel.2.newLabel.1
  let a₁ := a.newLabel.2.newLabel.2.newLabel.2
  let a₂ := a₁.emitAll [.getObservable property, .dup, .loadScratch p.handle, .jumpIfSame keep,
    .loadScratch p.handle, .dup, .jumpIfNull noDetach, .unsubscribe p.step]
  let a₃ := a₂.emitAll (adjust p.counters (-1))
  let a₄ := a₃.emit (.jump attach)
  let a₅ := (a₄.place noDetach).emit .pop
  let a₆ := (a₅.place attach).emitAll
    [.storeScratch p.handle, .loadScratch p.handle, .subscribe p.step]
  let a₇ := a₆.emitAll (adjust p.counters 1)
  let resume := (a₇.keyedLabel (.step p.step)).1
  let a₈ := (a₇.keyedLabel (.step p.step)).2.emit (.jump resume)
  let a₉ := (a₈.place keep).emit .pop
  let a₁₀ := a₉.placeKey (.step p.step)
  have h₁₀ : Continues a₁₀ b := (continues_emitAll _ _).trans hc
  have h₉ : Continues a₉ b := (continues_placeKey _ _).trans h₁₀
  have h₉' : Continues (a₈.place keep) b := (continues_emit _ _).trans h₉
  have h₈ : Continues a₈ b := (continues_place _ _).trans h₉'
  have h₇' : Continues (a₇.keyedLabel (.step p.step)).2 b := (continues_emit _ _).trans h₈
  have h₇ : Continues a₇ b := (continues_keyedLabel _ _).trans h₇'
  have h₆ : Continues a₆ b := (continues_emitAll _ _).trans h₇
  have h₆' : Continues (a₅.place attach) b := (continues_emitAll _ _).trans h₆
  have h₅ : Continues a₅ b := (continues_place _ _).trans h₆'
  have h₅' : Continues (a₄.place noDetach) b := (continues_emit _ _).trans h₅
  have h₄ : Continues a₄ b := (continues_place _ _).trans h₅'
  have h₃ : Continues a₃ b := (continues_emit _ _).trans h₄
  have h₂ : Continues a₂ b := (continues_emitAll _ _).trans h₃
  have s₁ : a₁.ops.size = a.ops.size := rfl
  have s₂ : a₂.ops.size = a.ops.size + 8 := by simp [a₂, s₁]
  have s₃ : a₃.ops.size = a.ops.size + p.counters.length + 8 := by
    simp only [a₃, size_emitAll, s₂, size_adjust]; omega
  have s₄ : a₄.ops.size = a.ops.size + p.counters.length + 9 := by simp [a₄, s₃]
  have s₅ : a₅.ops.size = a.ops.size + p.counters.length + 10 := by simp [a₅, s₄]
  have s₆ : a₆.ops.size = a.ops.size + p.counters.length + 13 := by simp [a₆, s₅]
  have s₇ : a₇.ops.size = a.ops.size + 2 * p.counters.length + 13 := by
    simp only [a₇, size_emitAll, s₆, size_adjust]; omega
  have s₈ : a₈.ops.size = a.ops.size + 2 * p.counters.length + 14 := by simp [a₈, s₇]
  have s₉ : a₉.ops.size = a.ops.size + 2 * p.counters.length + 15 := by simp [a₉, s₈]
  have s₁₀ : a₁₀.ops.size = a.ops.size + 2 * p.counters.length + 15 := by simp [a₁₀, s₉]
  have hresume : b.keyTarget R (.step p.step) = a.ops.size + 2 * p.counters.length + 15 := by
    rw [h.keyTarget_placeKey h₁₀, s₉]
  have hhead : R.Holds a.ops.size (observeOps property p keep noDetach attach resume) := by
    refine (h.holds (a := a₁) h₂).append (.append ?_ (.append ?_ (.append ?_ ?_)))
    · simpa [s₁, s₂] using h.holds h₃
    · have e₄ := h.holds_one h₄
      have e₅ := h.holds_one (a := a₄.place noDetach) h₅
      have e₆ := h.holds h₆
      rw [ops_place, s₄] at e₅
      rw [ops_place, s₅] at e₆
      rw [s₃] at e₄
      refine .cons ?_ (.cons ?_ ?_)
      · convert e₄ using 1; simp [size_adjust]; omega
      · convert e₅ using 1; simp [size_adjust]; omega
      · convert e₆ using 1; simp [size_adjust]; omega
    · have e₇ := h.holds h₇
      rw [s₆] at e₇
      convert e₇ using 1; simp [size_adjust]; omega
    · have e₈ := h.holds_one h₈
      have e₉ := h.holds_one (a := a₈.place keep) h₉
      rw [ops_keyedLabel, s₇] at e₈
      rw [ops_place, s₈] at e₉
      refine .cons ?_ ?_
      · convert e₈ using 1; simp [size_adjust]; omega
      · convert e₉ using 1; simp [size_adjust]; omega
  have hlabel : R.target resume = b.keyTarget R (.step p.step) :=
    (keyTarget_eq (h₇'.keyed _ _ (lookup_keyedLabel a₇ _))).symm
  refine ⟨keep, noDetach, attach, resume, hhead, ?_, ?_, ?_, hlabel, hresume, ?_, ?_⟩
  · rw [h.target_place h₅', s₄]
  · rw [h.target_place h₆', s₅]
  · rw [h.target_place h₉', s₈]
  · have e := h.holds (a := a₁₀) hc
    rwa [s₁₀, ← hresume] at e
  · show (a₁₀.emitAll _).ops.size = _
    simp [s₁₀]

theorem detachAt_emit (h : Assembles b R) (points : List SavePoint)
    (hc : Continues (points.foldl emitDetach a) b) :
    DetachAt R points a.ops.size (points.foldl emitDetach a).ops.size := by
  induction points generalizing a with
  | nil => rfl
  | cons p points ih =>
    let skip := a.newLabel.1
    let next := a.newLabel.2.newLabel.1
    let a₁ := a.newLabel.2.newLabel.2
    let a₂ := a₁.emitAll [.loadScratch p.handle, .dup, .jumpIfNull skip, .unsubscribe p.step,
      .pushNull, .storeScratch p.handle]
    let a₃ := a₂.emitAll (adjust p.counters (-1))
    let a₄ := a₃.emit (.jump next)
    let a₅ := (a₄.place skip).emit .pop
    let a₆ := a₅.place next
    have h₆ : Continues a₆ b := (continues_emitDetaches _ points).trans hc
    have h₅ : Continues a₅ b := (continues_place _ _).trans h₆
    have h₅' : Continues (a₄.place skip) b := (continues_emit _ _).trans h₅
    have h₄ : Continues a₄ b := (continues_place _ _).trans h₅'
    have h₃ : Continues a₃ b := (continues_emit _ _).trans h₄
    have h₂ : Continues a₂ b := (continues_emitAll _ _).trans h₃
    have s₁ : a₁.ops.size = a.ops.size := rfl
    have s₂ : a₂.ops.size = a.ops.size + 6 := by simp [a₂, s₁]
    have s₃ : a₃.ops.size = a.ops.size + p.counters.length + 6 := by
      simp only [a₃, size_emitAll, s₂, size_adjust]; omega
    have s₄ : a₄.ops.size = a.ops.size + p.counters.length + 7 := by simp [a₄, s₃]
    have s₅ : a₅.ops.size = a.ops.size + p.counters.length + 8 := by simp [a₅, s₄]
    have s₆ : a₆.ops.size = a.ops.size + p.counters.length + 8 := by simp [a₆, s₅]
    refine ⟨skip, next, ?_, ?_, ?_, ?_⟩
    · refine (h.holds (a := a₁) h₂).append (.append ?_ ?_)
      · simpa [s₁, s₂] using h.holds h₃
      · have e₄ := h.holds_one h₄
        have e₅ := h.holds_one (a := a₄.place skip) h₅
        rw [s₃] at e₄
        rw [ops_place, s₄] at e₅
        refine .cons ?_ ?_
        · convert e₄ using 1; simp [size_adjust]; omega
        · convert e₅ using 1; simp [size_adjust]; omega
    · rw [h.target_place h₅', s₄]
    · rw [h.target_place h₆, s₅]
    · have e := ih (a := a₆) hc
      rwa [s₆] at e

/-- The code of a fragment stands in the routine where it was emitted. -/
theorem codeAt_emit (h : Assembles b R) (layout : Option FlagLayout) (f : Fragment)
    (hc : Continues (f.emit layout a) b) :
    CodeAt R (fun n ↦ b.keyTarget R (.step n)) layout f a.ops.size (f.emit layout a).ops.size := by
  induction f generalizing a with
  | ops list => exact ⟨h.holds hc, by simp [emit]⟩
  | append first second ih ih' =>
    exact ⟨_, ih ((continues_fragment layout second _).trans hc), ih' hc⟩
  | nullGuard convert default ih ih' =>
    let isNull := a.newLabel.1
    let done := a.newLabel.2.newLabel.1
    let a₁ := a.newLabel.2.newLabel.2.emitAll [.dup, .jumpIfNull isNull]
    let a₂ := convert.emit layout a₁
    let a₃ := a₂.emit (.jump done)
    let a₄ := (a₃.place isNull).emit .pop
    let a₅ := default.emit layout a₄
    have h₆ : Continues (a₅.place done) b := hc
    have h₅ : Continues a₅ b := (continues_place _ _).trans h₆
    have h₄ : Continues a₄ b := (continues_fragment layout default _).trans h₅
    have h₄' : Continues (a₃.place isNull) b := (continues_emit _ _).trans h₄
    have h₃ : Continues a₃ b := (continues_place _ _).trans h₄'
    have h₂ : Continues a₂ b := (continues_emit _ _).trans h₃
    have h₁ : Continues a₁ b := (continues_fragment layout convert _).trans h₂
    have s₁ : a₁.ops.size = a.ops.size + 2 := by simp [a₁]
    have s₃ : a₃.ops.size = a₂.ops.size + 1 := by simp [a₃]
    have s₄ : a₄.ops.size = a₂.ops.size + 2 := by simp [a₄, s₃]
    refine ⟨isNull, done, a₂.ops.size, h.holds (a := a.newLabel.2.newLabel.2) h₁, ?_, ?_, ?_, ?_, ?_⟩
    · simpa only [s₁] using ih h₂
    · have e := h.holds_one (a := a₃.place isNull) h₄
      rw [ops_place, s₃] at e
      exact (h.holds_one h₃).append e
    · rw [h.target_place h₄', s₃]
    · have e := ih' (a := a₄) h₅
      rw [s₄] at e
      simpa only [emit, ops_place] using e
    · rw [h.target_place h₆]
      simp only [emit, ops_place]
      rfl
  | shortCircuit op left right ih ih' =>
    let done := a.newLabel.1
    let a₁ := left.emit layout a.newLabel.2
    let a₂ := a₁.emitAll [.dup, skipJump op done, .pop]
    let a₃ := right.emit layout a₂
    have h₄ : Continues (a₃.place done) b := hc
    have h₃ : Continues a₃ b := (continues_place _ _).trans h₄
    have h₂ : Continues a₂ b := (continues_fragment layout right _).trans h₃
    have h₁ : Continues a₁ b := (continues_emitAll _ _).trans h₂
    have s₂ : a₂.ops.size = a₁.ops.size + 3 := by simp [a₂]
    refine ⟨done, a₁.ops.size, ih (a := a.newLabel.2) h₁, h.holds h₂, ?_, ?_⟩
    · have e := ih' (a := a₂) h₃
      rw [s₂] at e
      simpa only [emit, ops_place] using e
    · rw [h.target_place h₄]
      simp only [emit, ops_place]
      rfl
  | flagTest flag => exact ⟨h.holds_one hc, by simp [emit]⟩
  | flagAssign flag value => exact ⟨h.holds_one hc, by simp [emit]⟩
  | observe property point => exact codeAt_observe h layout property point hc
  | branch op left right flag counter points ih ih' =>
    let skip := a.newLabel.1
    let done := a.newLabel.2.newLabel.1
    let assign := (layoutFor layout flag).assign flag
    let a₁ := left.emit layout a.newLabel.2.newLabel.2
    let a₂ := (a₁.emitAll [.dup, skipJump op skip, .pop]).emit (assign true)
    let a₃ := right.emit layout a₂
    let a₄ := a₃.emit (.jump done)
    let a₅ := (a₄.place skip).emit (assign false)
    let a₆ := a₅.emitAll [.counterLoad counter, .jumpIfZero done]
    let a₇ := points.foldl emitDetach a₆
    have h₈ : Continues (a₇.place done) b := hc
    have h₇ : Continues a₇ b := (continues_place _ _).trans h₈
    have h₆ : Continues a₆ b := (continues_emitDetaches _ points).trans h₇
    have h₅ : Continues a₅ b := (continues_emitAll _ _).trans h₆
    have h₅' : Continues (a₄.place skip) b := (continues_emit _ _).trans h₅
    have h₄ : Continues a₄ b := (continues_place _ _).trans h₅'
    have h₃ : Continues a₃ b := (continues_emit _ _).trans h₄
    have h₂ : Continues a₂ b := (continues_fragment layout right _).trans h₃
    have h₂' : Continues (a₁.emitAll [.dup, skipJump op skip, .pop]) b :=
      (continues_emit _ _).trans h₂
    have h₁ : Continues a₁ b := (continues_emitAll _ _).trans h₂'
    have s₂ : a₂.ops.size = a₁.ops.size + 4 := by simp [a₂]
    have s₄ : a₄.ops.size = a₃.ops.size + 1 := by simp [a₄]
    have s₅ : a₅.ops.size = a₃.ops.size + 2 := by simp [a₅, s₄]
    have s₆ : a₆.ops.size = a₃.ops.size + 4 := by simp [a₆, s₅]
    refine ⟨skip, done, a₁.ops.size, a₃.ops.size, ih (a := a.newLabel.2.newLabel.2) h₁, ?_, ?_, ?_,
      ?_, ?_, ?_⟩
    · have e := h.holds_one (a := a₁.emitAll [.dup, skipJump op skip, .pop]) h₂
      rw [size_emitAll] at e
      exact (h.holds h₂').append e
    · have e := ih' (a := a₂) h₃
      rwa [s₂] at e
    · have e := h.holds_one (a := a₄.place skip) h₅
      have e' := h.holds h₆
      rw [ops_place, s₄] at e
      rw [s₅] at e'
      exact (h.holds_one h₄).append (e.append e')
    · rw [h.target_place h₅', s₄]
    · have e := detachAt_emit h points (a := a₆) h₇
      rw [s₆] at e
      simpa only [emit, ops_place] using e
    · rw [h.target_place h₈]
      simp only [emit, ops_place]
      rfl

end Fragment

end LiveBinding
