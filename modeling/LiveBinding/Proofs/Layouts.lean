import LiveBinding.Proofs.Locks
import LiveBinding.Proofs.Masking

namespace LiveBinding

namespace FlagLayout

/-- Two layouts address a flag by instructions that do the same. -/
structure Agree (layout layout' : FlagLayout) (flag : Nat) : Prop where
  test : (layout.test flag).byMask = (layout'.test flag).byMask
  assign : ∀ value, (layout.assign flag value).byMask = (layout'.assign flag value).byMask

/-- One word is used for at most as many flags as it holds. -/
theorem choose_cases (bits capacity : Nat) :
    (bits ≤ wordSize ∧ choose bits capacity = .word bits) ∨
      choose bits capacity = .words bits ((bits + wordSize - 1) / wordSize) := by
  unfold choose
  split
  · next h => exact .inl ⟨h.trans (Nat.min_le_right _ _), rfl⟩
  · exact .inr rfl

theorem storage_choose (bits capacity : Nat) :
    (choose bits capacity).storage = (bits + wordSize - 1) / wordSize := by
  obtain ⟨hle, h⟩ | h := choose_cases bits capacity <;> rw [h]
  · simp only [storage, wordSize] at hle ⊢
    split <;> omega
  · rfl

/-- For at most one word of flags every layout uses the masks of the first word. -/
theorem byMask_choose {bits flag : Nat} (hle : bits ≤ wordSize) (h : flag < bits) (capacity : Nat) :
    Agree (choose bits capacity) (.word bits) flag := by
  have hflag : flag < wordSize := Nat.lt_of_lt_of_le h hle
  obtain ⟨-, h⟩ | h := choose_cases bits capacity <;> rw [h]
  · exact ⟨rfl, fun _ ↦ rfl⟩
  · constructor
    · simp only [FlagLayout.test, Op.byMask, if_pos hflag]
    · intro value
      simp only [FlagLayout.assign, Op.byMask, if_pos hflag]

theorem agree_choose {bits flag : Nat} (h : flag < bits) (capacity capacity' : Nat) :
    Agree (choose bits capacity) (choose bits capacity') flag := by
  by_cases hle : bits ≤ wordSize
  · have hl := byMask_choose hle h capacity
    have hr := byMask_choose hle h capacity'
    exact ⟨hl.test.trans hr.test.symm, fun value ↦ (hl.assign value).trans (hr.assign value).symm⟩
  · have hwords (capacity : Nat) :
        choose bits capacity = .words bits ((bits + wordSize - 1) / wordSize) :=
      (choose_cases bits capacity).resolve_left fun h ↦ hle h.1
    rw [hwords, hwords]
    exact ⟨rfl, fun _ ↦ rfl⟩

end FlagLayout

namespace Assembler

/-- Two assemblers differ only in how instructions address flags. -/
structure Alike (a b : Assembler) : Prop where
  ops : a.ops.map Op.byMask = b.ops.map Op.byMask
  positions : a.positions = b.positions
  keyed : a.keyed = b.keyed
  firstError : a.firstError = b.firstError

namespace Alike

variable {a b : Assembler} (h : Alike a b)
include h

theorem size_eq : a.ops.size = b.ops.size := by
  simpa using congrArg Array.size h.ops

theorem emit {op op' : Op} (hop : op.byMask = op'.byMask) : Alike (a.emit op) (b.emit op') where
  ops := by simp only [Assembler.emit, Array.map_push, h.ops, hop]
  positions := h.positions
  keyed := h.keyed
  firstError := h.firstError

theorem emitAll {ops ops' : List Op} (hops : ops = ops') : Alike (a.emitAll ops) (b.emitAll ops') := by
  subst hops
  induction ops generalizing a b with
  | nil => exact h
  | cons op ops ih => exact ih (h.emit rfl)

theorem label : a.newLabel.1 = b.newLabel.1 :=
  congrArg (fun p ↦ Label.mk (Array.size p)) h.positions

theorem newLabel : Alike a.newLabel.2 b.newLabel.2 where
  ops := h.ops
  positions := congrArg (·.push none) h.positions
  keyed := h.keyed
  firstError := h.firstError

theorem keyedLabel (key : LabelKey) : (a.keyedLabel key).1 = (b.keyedLabel key).1 ∧
    Alike (a.keyedLabel key).2 (b.keyedLabel key).2 := by
  unfold Assembler.keyedLabel
  rw [← h.keyed]
  cases a.keyed.lookup key with
  | some l => exact ⟨rfl, h⟩
  | none =>
    have hn := h.newLabel
    exact ⟨h.label, hn.ops, hn.positions, congrArg₂ (fun l ↦ ((key, l) :: ·)) h.label h.keyed,
      hn.firstError⟩

theorem place {l l' : Label} (hl : l = l') : Alike (a.place l) (b.place l') := by
  subst hl
  unfold Assembler.place
  rw [← h.positions, ← h.size_eq, ← h.firstError]
  split
  · exact ⟨h.ops, rfl, h.keyed, rfl⟩
  · exact ⟨h.ops, rfl, h.keyed, rfl⟩

theorem placeKey (key : LabelKey) : Alike (a.placeKey key) (b.placeKey key) :=
  (h.keyedLabel key).2.place (h.keyedLabel key).1

/-- Their routines differ only in how instructions address flags. -/
theorem assemble : a.assemble.map Routine.byMask = b.assemble.map Routine.byMask := by
  unfold Assembler.assemble finish
  rw [← h.firstError, ← h.positions]
  cases a.firstError with
  | some e => rfl
  | none =>
    dsimp only
    cases a.positions.findIdx? (·.isNone) with
    | some i => rfl
    | none =>
      have hops : (⟨a.ops, a.positions.map (·.getD 0)⟩ : Routine).byMask =
          (⟨b.ops, a.positions.map (·.getD 0)⟩ : Routine).byMask := by
        simp only [Routine.byMask, h.ops]
      exact congrArg Except.ok hops

end Alike

end Assembler

namespace Fragment

open Assembler

theorem alike_emitDetach {a b : Assembler} (h : Alike a b) (p : SavePoint) :
    Alike (emitDetach a p) (emitDetach b p) := by
  have h₁ := h.newLabel
  have h₂ := h₁.newLabel
  have hcode := (h₂.emitAll (congrArg (fun l ↦ [.loadScratch p.handle, .dup, .jumpIfNull l,
    .unsubscribe p.step, .pushNull, .storeScratch p.handle]) h.label)).emitAll
    (rfl : adjust p.counters (-1) = _)
  have hjump := hcode.emit (congrArg (fun l ↦ (Op.jump l).byMask) h₁.label)
  exact ((hjump.place h.label).emit rfl).place h₁.label

theorem alike_emitDetaches {a b : Assembler} (h : Alike a b) (points : List SavePoint) :
    Alike (points.foldl emitDetach a) (points.foldl emitDetach b) := by
  induction points generalizing a b with
  | nil => exact h
  | cons p points ih => exact ih (alike_emitDetach h p)

theorem alike_emitObserve {a b : Assembler} (h : Alike a b) (property : String) (p : SavePoint) :
    Alike (emitObserve property p a) (emitObserve property p b) := by
  have h₁ := h.newLabel
  have h₂ := h₁.newLabel
  have h₃ := h₂.newLabel
  have hfirst : ([.getObservable property, .dup, .loadScratch p.handle, .jumpIfSame a.newLabel.1,
      .loadScratch p.handle, .dup, .jumpIfNull a.newLabel.2.newLabel.1, .unsubscribe p.step] : List Op) =
      [.getObservable property, .dup, .loadScratch p.handle, .jumpIfSame b.newLabel.1,
      .loadScratch p.handle, .dup, .jumpIfNull b.newLabel.2.newLabel.1, .unsubscribe p.step] := by
    rw [h.label, h₁.label]
  have hmove := ((h₃.emitAll hfirst).emitAll (rfl : adjust p.counters (-1) = _)).emit
    (congrArg (fun l ↦ (Op.jump l).byMask) h₂.label)
  have hattach := ((((hmove.place h₁.label).emit (rfl : Op.pop.byMask = _)).place h₂.label).emitAll
    (rfl : [.storeScratch p.handle, .loadScratch p.handle, .subscribe p.step] = _)).emitAll
    (rfl : adjust p.counters 1 = _)
  obtain ⟨hl, hkeyed⟩ := hattach.keyedLabel (.step p.step)
  have hkeep := ((hkeyed.emit (congrArg (fun l ↦ (Op.jump l).byMask) hl)).place h.label).emit
    (rfl : Op.pop.byMask = _)
  exact (hkeep.placeKey (.step p.step)).emitAll rfl

/-- Under layouts that agree on the flags of a fragment its code differs only in how flags are
addressed. -/
theorem alike_emit (layout layout' : FlagLayout) (f : Fragment)
    (hf : ∀ flag ∈ f.flags, layout.Agree layout' flag) {a b : Assembler} (h : Alike a b) :
    Alike (f.emit (some layout) a) (f.emit (some layout') b) := by
  induction f generalizing a b with
  | ops list => exact h.emitAll rfl
  | append f g ih ih' =>
    obtain ⟨hf, hg⟩ := List.forall_mem_append.mp hf
    exact ih' hg (ih hf h)
  | nullGuard f g ih ih' =>
    obtain ⟨hf, hg⟩ := List.forall_mem_append.mp hf
    have h₁ := h.newLabel
    have hconvert := ih hf (h₁.newLabel.emitAll (congrArg (fun l ↦ [.dup, .jumpIfNull l]) h.label))
    have hjump := hconvert.emit (congrArg (fun l ↦ (Op.jump l).byMask) h₁.label)
    exact (ih' hg ((hjump.place h.label).emit rfl)).place h₁.label
  | shortCircuit op f g ih ih' =>
    obtain ⟨hf, hg⟩ := List.forall_mem_append.mp hf
    have hleft := (ih hf h.newLabel).emitAll (congrArg (fun l ↦ [.dup, skipJump op l, .pop]) h.label)
    exact (ih' hg hleft).place h.label
  | flagTest flag => exact h.emit (hf flag List.mem_cons_self).test
  | flagAssign flag value => exact h.emit ((hf flag List.mem_cons_self).assign value)
  | observe property p => exact alike_emitObserve h property p
  | branch op f g flag counter points ih ih' =>
    obtain ⟨hflag, hrest⟩ := List.forall_mem_cons.mp hf
    obtain ⟨hf, hg⟩ := List.forall_mem_append.mp hrest
    have h₁ := h.newLabel
    have hleft := (ih hf h₁.newLabel).emitAll
      (congrArg (fun l ↦ [.dup, skipJump op l, .pop]) h.label)
    have hright := ih' hg (hleft.emit (hflag.assign true))
    have hskip := (hright.emit (congrArg (fun l ↦ (Op.jump l).byMask) h₁.label)).place h.label
    have htest := (hskip.emit (hflag.assign false)).emitAll
      (congrArg (fun l ↦ [.counterLoad counter, .jumpIfZero l]) h₁.label)
    exact (alike_emitDetaches htest points).place h₁.label

/-- A container of a fragment has a flag of the fragment. -/
theorem flag_of_mem_containers {f : Fragment} {index step : Nat} {c : Container}
    (hc : c ∈ Container.allOf (f.containers index step)) : ∃ flag ∈ f.flags, c.flag = some flag := by
  induction f generalizing index step with
  | ops | flagTest | flagAssign | observe => cases hc
  | append f g ih ih' | nullGuard f g ih ih' | shortCircuit _ f g ih ih' =>
    rw [containers, Container.allOf_append] at hc
    rcases List.mem_append.mp hc with hc | hc
    · obtain ⟨flag, hflag, heq⟩ := ih hc
      exact ⟨flag, List.mem_append_left _ hflag, heq⟩
    · obtain ⟨flag, hflag, heq⟩ := ih' hc
      exact ⟨flag, List.mem_append_right _ hflag, heq⟩
  | branch op f g flag counter points ih ih' =>
    simp only [containers, Container.allOf_append, Container.allOf, Container.all, List.append_nil,
      List.mem_append, List.mem_cons] at hc
    rcases hc with hc | rfl | hc
    · obtain ⟨flag, hflag, heq⟩ := ih hc
      exact ⟨flag, List.mem_cons_of_mem _ (List.mem_append_left _ hflag), heq⟩
    · exact ⟨flag, List.mem_cons_self, rfl⟩
    · obtain ⟨flag, hflag, heq⟩ := ih' hc
      exact ⟨flag, List.mem_cons_of_mem _ (List.mem_append_right _ hflag), heq⟩

end Fragment

namespace Container

open Assembler

variable {layout layout' : FlagLayout} (fault : Label) (tables : List Label)

theorem alike_newLabels {a b : Assembler} (h : Alike a b) (n : Nat) :
    (newLabels a n).1 = (newLabels b n).1 ∧ Alike (newLabels a n).2 (newLabels b n).2 := by
  induction n generalizing a b with
  | zero => exact ⟨rfl, h⟩
  | succ n ih =>
    obtain ⟨hl, hn⟩ := ih h.newLabel
    exact ⟨congrArg₂ List.cons h.label hl, hn⟩

theorem alike_entryLabels {a b : Assembler} (h : Alike a b) (entries : List Entry) :
    (entryLabels fault tables a entries).1 = (entryLabels fault tables b entries).1 ∧
      Alike (entryLabels fault tables a entries).2 (entryLabels fault tables b entries).2 := by
  induction entries generalizing a b with
  | nil => exact ⟨rfl, h⟩
  | cons entry entries ih =>
    cases entry with
    | resume step =>
      obtain ⟨hl, hk⟩ := h.keyedLabel (.step step)
      obtain ⟨hls, hs⟩ := ih hk
      exact ⟨congrArg₂ List.cons hl hls, hs⟩
    | child i =>
      obtain ⟨hls, hs⟩ := ih h
      exact ⟨congrArg (List.cons _) hls, hs⟩
    | gap =>
      obtain ⟨hls, hs⟩ := ih h
      exact ⟨congrArg (List.cons _) hls, hs⟩

theorem alike_emitTable {c : Container} (hc : ∀ flag, c.flag = some flag → layout.Agree layout' flag)
    {a b : Assembler} (h : Alike a b) :
    Alike (emitTable layout fault tables a c) (emitTable layout' fault tables b c) := by
  have htable {a b : Assembler} (h : Alike a b) :
      Alike ((entryLabels fault tables a c.entries).2.emitAll
          [.loadStep, .tableSwitch c.offset (entryLabels fault tables a c.entries).1 fault])
        ((entryLabels fault tables b c.entries).2.emitAll
          [.loadStep, .tableSwitch c.offset (entryLabels fault tables b c.entries).1 fault]) := by
    obtain ⟨hl, hs⟩ := alike_entryLabels fault tables h c.entries
    exact hs.emitAll (by rw [hl])
  unfold emitTable
  cases hflag : c.flag with
  | none => exact htable h
  | some flag =>
    have htest := (h.place (rfl : tables.getD (c.index - 1) fault = _)).emit (hc flag hflag).test
    obtain ⟨hl, hk⟩ := htest.keyedLabel .exit
    exact htable (hk.emit (congrArg (fun l ↦ (Op.jumpIfFalse l).byMask) hl))

theorem alike_emitDispatch (root : Container)
    (hroot : ∀ c ∈ root.all, ∀ flag, c.flag = some flag → layout.Agree layout' flag)
    {a b : Assembler} (h : Alike a b) :
    Alike (root.emitDispatch layout a) (root.emitDispatch layout' b) := by
  have htables {cs : List Container} {a b : Assembler} {fault fault' : Label}
      {tables tables' : List Label} (hf : fault = fault') (ht : tables = tables')
      (hcs : ∀ c ∈ cs, ∀ flag, c.flag = some flag → layout.Agree layout' flag) (h : Alike a b) :
      Alike (cs.foldl (emitTable layout fault tables) a)
        (cs.foldl (emitTable layout' fault' tables') b) := by
    subst hf ht
    induction cs generalizing a b with
    | nil => exact h
    | cons c cs ih =>
      obtain ⟨hc, hcs⟩ := List.forall_mem_cons.mp hcs
      exact ih hcs (alike_emitTable _ _ hc h)
  obtain ⟨hl, hn⟩ := alike_newLabels h.newLabel (root.all.length - 1)
  exact ((htables h.label hl hroot hn).place h.label).emit rfl

end Container

/-- A property that the instructions of a node have, and other code of a binding if its parts do. -/
structure Resumable.Composable (P : Fragment → Prop) : Prop where
  ordinary : ∀ list : List Op, list.all Op.isOrdinary → P (.ops list)
  plain : ∀ f : Fragment, f.isPlain → P f
  append : ∀ f g, P f → P g → P (f ++ g)
  shortCircuit : ∀ op f g, P f → P g → P (.shortCircuit op f g)
  observe : ∀ property p, P (.observe property p)
  branch : ∀ op f g flag counter points, P f → P g → P (.branch op f g flag counter points)

namespace Resumable.Composable

variable {P : Fragment → Prop} (hP : Composable P)
include hP

theorem concat {fs : List Fragment} (h : ∀ f ∈ fs, P f) : P (.concat fs) := by
  induction fs with
  | nil => exact hP.plain _ rfl
  | cons f fs ih =>
    obtain ⟨hf, hfs⟩ := List.forall_mem_cons.mp h
    exact hP.append f _ hf (ih hfs)

theorem operands {list : List Operand} (h : ∀ o ∈ list, P o.code) (s : Resumable) :
    P (Strategy.resumable.operands list s).1 := by
  apply hP.concat
  intro f hf
  rcases List.mem_append.mp hf with hf | hf
  · rcases List.mem_append.mp hf with hf | hf
    · obtain ⟨⟨o, slot⟩, ho, rfl⟩ := List.mem_map.mp hf
      exact hP.append _ _ (h o (List.of_mem_zip ho).1) (hP.ordinary _ rfl)
    · obtain ⟨slot, -, rfl⟩ := List.mem_map.mp hf
      exact hP.ordinary _ rfl
  · obtain ⟨o, ho, rfl⟩ := List.mem_map.mp hf
    exact h o (List.mem_of_mem_drop ho)

end Resumable.Composable

namespace Node

variable {P : Fragment → Prop} (hP : Resumable.Composable P)
include hP

mutual

theorem resumable_composable : (n : Node) → (∀ c ∈ n.coercions, c.isPlain) → ∀ s,
    P (n.render .resumable s).1
  | literal _ value, _, _ => hP.plain _ (isPlain_push value)
  | scopeRead _ (.bound _), _, _ => hP.ordinary _ rfl
  | scopeRead _ (.pending _), _, _ => hP.plain _ rfl
  | typeRef _ _, _, _ => hP.plain _ rfl
  | access _ receiver member, h, _ => by
    obtain ⟨hr, hm⟩ := List.forall_mem_append.mp h
    exact hP.append _ _ (resumable_composable receiver hr _) (resumable_composableMember member hm _)
  | construct info method args, h, s => by
    rw [render_construct]
    exact hP.append _ _ (hP.operands (resumable_composableArgs args h s) _) (hP.plain _ rfl)
  | binary info op (.mk left c) (.mk right c') plan, h, s => by
    have hl (s : Resumable) : P ((left.render .resumable s).1 ++ c) :=
      hP.append _ _ (resumable_composable left (fun d hd ↦ h d (by simp [coercions, hd])) s)
        (hP.plain _ (h c (by simp [coercions])))
    have hr (s : Resumable) : P ((right.render .resumable s).1 ++ c') :=
      hP.append _ _ (resumable_composable right (fun d hd ↦ h d (by simp [coercions, hd])) s)
        (hP.plain _ (h c' (by simp [coercions])))
    by_cases hp : plan = .shortCircuit
    · subst hp
      rw [render_shortCircuit]
      by_cases hm : 0 < right.monitoring
      · simp only [hm]
        exact hP.branch op _ _ _ _ _ (hl s) (hr _)
      · simp only [hm]
        exact hP.shortCircuit op _ _ (hl s) (hr _)
    · rw [render_binary _ _ _ _ _ _ _ _ hp]
      refine hP.append _ _ (hP.operands ?_ _) (hP.plain _ (isPlain_plan op plan))
      intro o ho
      rcases List.mem_pair.mp ho with rfl | rfl
      · exact hl _
      · exact hr _
  | unary _ op (.mk operand c) kind, h, s =>
    hP.append _ _ (hP.append _ _
      (resumable_composable operand (fun d hd ↦ h d (by simp [coercions, hd])) s)
      (hP.plain _ (h c (by simp [coercions])))) (hP.plain _ (isPlain_unary op kind))

theorem resumable_composableMember : (m : Member) → (∀ c ∈ memberCoercions m, c.isPlain) → ∀ s,
    P (renderMember .resumable m s).1
  | .property p, _, s => by
    rw [renderMember_property]
    split
    · exact hP.observe _ _
    · exact hP.plain _ rfl
  | .staticField _, _, _ => hP.plain _ rfl
  | .method method args, h, s => by
    rw [renderMember_method]
    refine hP.append _ _ (hP.operands ?_ _) (hP.plain _ rfl)
    exact List.forall_mem_cons.mpr ⟨hP.plain _ rfl, resumable_composableArgs args h s⟩
  | .staticCall method args, h, s => by
    rw [renderMember_staticCall]
    exact hP.append _ _ (hP.operands (resumable_composableArgs args h s) _) (hP.plain _ rfl)
  | .index (.mk node c) reading, h, s => by
    rw [renderMember_index]
    refine hP.append _ _ (hP.operands ?_ _) (hP.plain _ (by cases reading <;> rfl))
    intro o ho
    rcases List.mem_pair.mp ho with rfl | rfl
    · exact hP.plain _ rfl
    · exact hP.append _ _
        (resumable_composable node (fun d hd ↦ h d (by simp [memberCoercions, hd])) s)
        (hP.plain _ (h c (by simp [memberCoercions])))

theorem resumable_composableArgs : (args : List Arg) → (∀ c ∈ argCoercions args, c.isPlain) →
    ∀ s, ∀ o ∈ (renderArgs .resumable args s).1, P o.code
  | [], _, _ => fun _ h ↦ nomatch h
  | .mk node c :: rest, h, s => by
    refine List.forall_mem_cons.mpr ⟨?_, ?_⟩
    · exact hP.append _ _
        (resumable_composable node (fun d hd ↦ h d (by simp [argCoercions, hd])) s)
        (hP.plain _ (h c (by simp [argCoercions])))
    · exact resumable_composableArgs rest (fun d hd ↦ h d (by simp [argCoercions, hd])) _

end

end Node

namespace Fragment

theorem flags_of_isPlain {f : Fragment} (h : f.isPlain) : f.flags = [] := by
  induction f with
  | ops list => rfl
  | append f g ih ih' | nullGuard f g ih ih' | shortCircuit _ f g ih ih' =>
    obtain ⟨hf, hg⟩ := Bool.and_eq_true_iff.mp h
    simp only [flags, ih hf, ih' hg, List.append_nil]
  | flagTest | flagAssign | observe | branch => cases h

theorem composable_noFlags : Composable (·.flags = []) where
  plain _ := flags_of_isPlain
  append _ _ hf hg := List.append_eq_nil_iff.mpr ⟨hf, hg⟩
  shortCircuit _ _ _ hf hg := List.append_eq_nil_iff.mpr ⟨hf, hg⟩

/-- Every flag of rendered code is the flag of a branch. -/
theorem composable_flags :
    Resumable.Composable fun f ↦ ∀ flag ∈ f.flags, flag ∈ f.branches.map (·.1) where
  ordinary _ _ _ h := absurd h List.not_mem_nil
  plain f hf flag h := by
    rw [flags_of_isPlain hf] at h
    exact absurd h List.not_mem_nil
  append f g hf hg flag h := by
    rw [show (f ++ g).branches = f.branches ++ g.branches from rfl, List.map_append]
    exact List.mem_append.mpr ((List.mem_append.mp h).imp (hf flag) (hg flag))
  shortCircuit op f g hf hg flag h := by
    rw [branches, List.map_append]
    exact List.mem_append.mpr ((List.mem_append.mp h).imp (hf flag) (hg flag))
  observe _ _ _ h := absurd h List.not_mem_nil
  branch op f g flag counter points hf hg flag' h := by
    simp only [branches, List.map_append, List.map_cons, List.mem_append, List.mem_cons]
    rcases List.mem_cons.mp h with rfl | h
    · exact .inr (.inl rfl)
    · exact (List.mem_append.mp h).imp (hf flag') fun h ↦ .inr (hg flag' h)

end Fragment

section

variable {n : Node} (hn : ∀ c ∈ n.coercions, c.isPlain)
include hn

/-- The code of a node has only flags that were handed out while it was rendered. -/
theorem Node.flag_lt {flag : Nat} (h : flag ∈ (n.render .resumable .start).1.flags) :
    flag < (n.render .resumable .start).2.storage.flags := by
  have hrenders := n.renders hn .start
  have hmem := resumable_composable Fragment.composable_flags n hn .start flag h
  have hstart : Resumable.start.storage.flags = 0 := rfl
  rw [hrenders.flags, List.mem_range'_1, hstart] at hmem
  have hnext := hrenders.nextFlag
  omega

/-- So have its containers. -/
theorem Node.containerFlag_lt {c : Container}
    (hc : c ∈ (n.render .resumable .start).2.root.all) {flag : Nat} (hflag : c.flag = some flag) :
    flag < (n.render .resumable .start).2.storage.flags := by
  have hchildren : (n.render .resumable .start).2.children =
      (n.render .resumable .start).1.containers 1 1 := (n.renders hn .start).children
  simp only [Resumable.root, Container.all, List.mem_cons, hchildren] at hc
  rcases hc with rfl | hc
  · cases hflag
  · obtain ⟨flag', hmem, heq⟩ := Fragment.flag_of_mem_containers hc
    obtain rfl : flag' = flag := Option.some.inj (heq.symm.trans hflag)
    exact n.flag_lt hn hmem

end

/-- Results that agree in an image, continued in a way that it does not lose. -/
theorem map_bind_congr {ε α α' β β' : Type} {g : α → α'} {h : β → β'} {x y : Except ε α}
    {k l : α → Except ε β} (hxy : x.map g = y.map g)
    (hkl : ∀ a b, g a = g b → (k a).map h = (l b).map h) :
    (x >>= k).map h = (y >>= l).map h := by
  cases x with
  | error e =>
    cases y with
    | error e' => exact congrArg Except.error (Except.error.inj hxy)
    | ok b => cases hxy
  | ok a =>
    cases y with
    | error e' => cases hxy
    | ok b => exact hkl a b (Except.ok.inj hxy)

theorem error_iff_of_map_eq {ε α β : Type} {g : α → β} {x y : Except ε α} (h : x.map g = y.map g)
    (e : ε) : x = .error e ↔ y = .error e := by
  cases x with
  | error e₁ =>
    cases y with
    | error e₂ =>
      obtain rfl : e₁ = e₂ := Except.error.inj h
      exact Iff.rfl
    | ok b => cases h
  | ok a =>
    cases y with
    | error e₂ => cases h
    | ok b => simp

def DynamicBinding.byMask (b : DynamicBinding) : DynamicBinding :=
  { b with artifact := b.artifact.byMask }

namespace CompileContext

open Assembler

variable {cx : CompileContext} {tree : Tree}

/-- The same compilation with flags packed in another way. -/
def withCapacity (cx : CompileContext) (capacity : Nat) : CompileContext :=
  { cx with flagCapacity := capacity }

section

variable (hroot : ∀ c ∈ tree.root.coercions, c.isPlain)
  (hinit : (tree.root.render .resumable .start).2.storage.init.flags = [])
include hroot hinit

theorem assembleArtifact_byMask (ty : Ty) {coercion : Fragment} (hc : coercion.isPlain)
    (capacity capacity' : Nat) :
    (assembleArtifact (cx.withCapacity capacity) tree ty coercion).map DynamicBinding.byMask =
      (assembleArtifact (cx.withCapacity capacity') tree ty coercion).map DynamicBinding.byMask := by
  let t := (tree.root.render .resumable .start).2
  let body := (tree.root.render .resumable .start).1
  have hagree {flag : Nat} (h : flag < t.storage.flags) :
      (t.storage.layout capacity).Agree (t.storage.layout capacity') flag :=
    FlagLayout.agree_choose h capacity capacity'
  have hempty : Alike Assembler.empty Assembler.empty := ⟨rfl, rfl, rfl, rfl⟩
  have hdispatch := Container.alike_emitDispatch t.root
    (fun c hc flag hflag ↦ hagree (tree.root.containerFlag_lt hroot hc hflag))
    (hempty.emit (rfl : Op.lockAcquire.byMask = _))
  have hbody := Fragment.alike_emit (t.storage.layout capacity) (t.storage.layout capacity')
    body (fun flag h ↦ hagree (tree.root.flag_lt hroot h))
    (hdispatch.placeKey (.step 0))
  have hcoercion := Fragment.alike_emit (t.storage.layout capacity) (t.storage.layout capacity')
    coercion (by simp [Fragment.flags_of_isPlain hc]) hbody
  have hupdate := (((hcoercion.emit (rfl : Op.publish.byMask = _)).placeKey .exit).emitAll
    (rfl : [.lockRelease, .return] = _)).assemble
  have hloads := (Fragment.alike_emit (t.storage.layout capacity) (t.storage.layout capacity')
    t.storage.init (by simp [t, hinit]) hempty).emit
    (rfl : Op.return.byMask = _)
  have hlayout : FlagLayout.words (t.storage.layout capacity).bits (t.storage.layout capacity).storage =
      .words (t.storage.layout capacity').bits (t.storage.layout capacity').storage := by
    simp only [Storage.layout, FlagLayout.bits_choose, FlagLayout.storage_choose]
  unfold assembleArtifact
  dsimp only [withCapacity]
  apply map_bind_congr hupdate
  intro R R' hR
  apply map_bind_congr hloads.assemble
  intro I I' hI
  refine congrArg Except.ok ?_
  simp only [DynamicBinding.byMask, Artifact.byMask, hR, hI]
  rw [hlayout]

/-- Compiling a tree for two capacities fails alike or gives artifacts that differ only in how their
flags are addressed. -/
theorem compileArtifact_byMask (target : Option BindingTarget) (capacity capacity' : Nat) :
    ((cx.withCapacity capacity).compileArtifact tree target).map DynamicBinding.byMask =
      ((cx.withCapacity capacity').compileArtifact tree target).map DynamicBinding.byMask := by
  have hassemble (ty : Ty) {coercion : Fragment} (hc : coercion.isPlain) :=
    @assembleArtifact_byMask cx tree hroot hinit ty coercion hc capacity capacity'
  unfold compileArtifact
  cases requireWritable target with
  | error e => rfl
  | ok _ =>
    cases target with
    | none => exact hassemble tree.ty rfl
    | some t =>
      have hrequire (capacity : Nat) : Coercion.require (cx.withCapacity capacity).model tree.ty t.ty =
        Coercion.require cx.model tree.ty t.ty := rfl
      dsimp only [Option.map_some, Option.getD_some]
      rw [hrequire, hrequire]
      cases hcoerce : Coercion.require cx.model tree.ty t.ty with
      | error e => rfl
      | ok coercion => exact hassemble t.ty (Coercion.isPlain_coerce (require_eq hcoerce))

end

end CompileContext

/-- What is done with an artifact and the bindings made from it. -/
inductive HostCall where
  | create
  | set (o : ObjectId) (property : String) (v : Value)
  | assign (c : CellId) (v : Value)
  | update (i : InstanceId) (step : Nat)
  | lock (c : CellId)
  | release (c : CellId)

section

variable (r : Registry) (fuel : Nat) (artifact : Artifact)

/-- Making a binding gives the binding, other calls give nothing. -/
def HostCall.run : HostCall → Run (Option InstanceId)
  | create => do
    let i ← createInstance r fuel artifact
    return some i
  | set o property v => do
    setProperty r fuel o property v
    return none
  | assign c v => do
    setCell r fuel c v
    return none
  | update i step => do
    updateInstance r fuel i step
    return none
  | lock c => do
    lockCell c
    return none
  | release c => do
    releaseCell r fuel c
    return none

/-- Makes calls one after the other, also after one that fails, and gives what each came to. -/
def runCalls : List HostCall → World → List (Except Stop (Option InstanceId)) × World
  | [], w => ([], w)
  | call :: calls, w =>
    let (result, w) := call.run r fuel artifact w
    let (results, w) := runCalls calls w
    (result :: results, w)

end

/-- Everything in a world apart from the artifacts of its bindings, which are replaced. -/
def World.withCode (code : Artifact) (w : World) : World :=
  { w with instances := w.instances.map ({ · with artifact := code }) }

theorem World.withCode_byMask (code : Artifact) (w : World) :
    w.byMask.withCode code = w.withCode code := by
  simp only [withCode, byMask, Array.map_map]
  rfl

theorem World.withCode_eq {w w' : World} (h : w.byMask = w'.byMask) (code : Artifact) :
    w.withCode code = w'.withCode code := by
  rw [← withCode_byMask, h, withCode_byMask]

section

variable (r : Registry) (fuel : Nat)

theorem HostCall.blind_run (artifact : Artifact) (call : HostCall) :
    Mirrors World.byMask (call.run r fuel artifact) (call.run r fuel artifact.byMask) := by
  have hu := blind_updateInstance r fuel
  have hnone {x : Run Unit} (h : x.Blind) : Run.Blind (do x; return (none : Option InstanceId)) :=
    h.bind fun _ ↦ .pure _
  cases call with
  | create => exact (blind_createInstance r fuel artifact).bind fun _ ↦ .pure _
  | set o property v => exact hnone ((blind_host hu fuel).writeProperty o property v)
  | assign c v => exact hnone ((blind_host hu fuel).writeCell c v)
  | update i step => exact hnone (hu i step)
  | lock c => exact hnone (Run.blind_modifyCell c Cell.lock)
  | release c => exact hnone (blind_unlockCell hu fuel c)

theorem HostCall.run_byMask {artifact artifact' : Artifact} (ha : artifact.byMask = artifact'.byMask)
    {w w' : World} (hw : w.byMask = w'.byMask) (call : HostCall) :
    (call.run r fuel artifact w).1 = (call.run r fuel artifact' w').1 ∧
      (call.run r fuel artifact w).2.byMask = (call.run r fuel artifact' w').2.byMask := by
  have h := call.blind_run r fuel artifact w
  have h' := call.blind_run r fuel artifact' w'
  rw [← ha, ← hw, h] at h'
  exact Prod.mk.inj h'

/-- Artifacts that differ only in how their flags are addressed behave the same. -/
theorem runCalls_byMask {artifact artifact' : Artifact} (ha : artifact.byMask = artifact'.byMask)
    {w w' : World} (hw : w.byMask = w'.byMask) (calls : List HostCall) :
    (runCalls r fuel artifact calls w).1 = (runCalls r fuel artifact' calls w').1 ∧
      (runCalls r fuel artifact calls w).2.byMask = (runCalls r fuel artifact' calls w').2.byMask := by
  induction calls generalizing w w' with
  | nil => exact ⟨rfl, hw⟩
  | cons call calls ih =>
    obtain ⟨hresult, hw⟩ := call.run_byMask r fuel ha hw
    obtain ⟨hresults, hw⟩ := ih hw
    exact ⟨congrArg₂ List.cons hresult hresults, hw⟩

end

end LiveBinding
