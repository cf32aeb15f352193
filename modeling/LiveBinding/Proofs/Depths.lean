import LiveBinding.Proofs.StackEffect

namespace LiveBinding

namespace Op

/-- The depths in front of some instructions, of which the first is run at depth `d`. -/
@[simp]
def depths : Nat → List Op → List Nat
  | _, [] => []
  | d, op :: ops => d :: depths (op.after d) ops

/-- The depth that some instructions leave the stack at. -/
@[simp]
def afterAll : Nat → List Op → Nat
  | d, [] => d
  | d, op :: ops => afterAll (op.after d) ops

/-- Every one of some instructions finds its operands. -/
@[simp]
def Supplied : Nat → List Op → Prop
  | _, [] => True
  | d, op :: ops => op.pops ≤ d ∧ Supplied (op.after d) ops

theorem length_depths (d : Nat) (ops : List Op) : (depths d ops).length = ops.length := by
  induction ops generalizing d with
  | nil => rfl
  | cons op ops ih => simp [ih]

end Op

namespace Fragment

/-- The depth that the code of a fragment leaves the stack at, from depth `d` on. -/
@[simp]
def leaves : Fragment → Nat → Nat
  | ops list, d => Op.afterAll d list
  | append f g, d => g.leaves (f.leaves d)
  | nullGuard f _, d | shortCircuit _ f _, d | branch _ f .., d => f.leaves d
  | flagTest _, d => d + 1
  | flagAssign .., d | observe .., d => d

def detachDepths (d : Nat) (points : List SavePoint) : List Nat :=
  points.flatMap fun p ↦
    [d, d + 1, d + 2, d + 1, d, d + 1] ++ (.replicate p.counters.length d ++ [d, d + 1])

/-- The depths in front of the instructions of a fragment, of which the first is run at depth `d`. A
property is observed with nothing else on the stack. -/
@[simp]
def depths : Fragment → Nat → List Nat
  | ops list, d => Op.depths d list
  | append f g, d => f.depths d ++ g.depths (f.leaves d)
  | nullGuard f g, d => [d, d + 1] ++ (f.depths d ++ ([f.leaves d, d] ++ g.depths (d - 1)))
  | shortCircuit _ f g, d =>
    let e := f.leaves d
    f.depths d ++ ([e, e + 1, e] ++ g.depths (e - 1))
  | flagTest _, d | flagAssign .., d => [d]
  | observe _ p, _ =>
    [1, 1, 2, 3, 1, 2, 3, 2] ++ (.replicate p.counters.length 1 ++ ([1, 2, 1, 0, 1] ++
      (.replicate p.counters.length 0 ++ ([0, 1] ++ [0, 1]))))
  | branch _ f g _ _ points, d =>
    let e := f.leaves d
    f.depths d ++ ([e, e + 1, e, e - 1] ++ (g.depths (e - 1) ++ ([e, e, e, e + 1] ++
      detachDepths e points)))

/-- Run at depth `d`, every instruction of a fragment finds its operands, and the ways through the
fragment leave the stack at one depth. -/
@[simp]
def WellStacked : Fragment → Nat → Prop
  | ops list, d => Op.Supplied d list
  | append f g, d => f.WellStacked d ∧ g.WellStacked (f.leaves d)
  | nullGuard f g, d =>
    0 < d ∧ f.WellStacked d ∧ g.WellStacked (d - 1) ∧ g.leaves (d - 1) = f.leaves d
  | shortCircuit _ f g, d | branch _ f g .., d =>
    let e := f.leaves d
    f.WellStacked d ∧ 0 < e ∧ g.WellStacked (e - 1) ∧ g.leaves (e - 1) = e
  | flagTest _, _ | flagAssign .., _ => True
  | observe .., d => d = 1

end Fragment

namespace Routine

variable {R : Routine} {depth : Nat → Nat} {i j k : Nat}

/-- The depths stand from a position on. -/
@[simp]
def Shows (depth : Nat → Nat) : Nat → List Nat → Prop
  | _, [] => True
  | i, d :: ds => depth i = d ∧ Shows depth (i + 1) ds

theorem shows_append {ds es : List Nat} :
    Shows depth i (ds ++ es) ↔ Shows depth i ds ∧ Shows depth (i + ds.length) es := by
  induction ds generalizing i with
  | nil => simp
  | cons d ds ih => simp [ih, and_assoc, Nat.add_assoc, Nat.add_comm 1]

theorem shows_replicate {n d : Nat} :
    Shows depth i (.replicate n d) ↔ ∀ k, i ≤ k → k < i + n → depth k = d := by
  induction n generalizing i with
  | zero =>
    simp
    omega
  | succ n ih =>
    rw [List.replicate_succ, Shows, ih]
    constructor
    · rintro ⟨h, h'⟩ k hi hk
      rcases Nat.eq_or_lt_of_le hi with rfl | hi
      · exact h
      · exact h' k hi (by omega)
    · exact fun h ↦ ⟨h i (Nat.le_refl i) (by omega), fun k hi hk ↦ h k (by omega) (by omega)⟩

/-- The instructions between two positions fit the depths. -/
def LevelsIn (R : Routine) (depth : Nat → Nat) (i j : Nat) : Prop :=
  ∀ pc op, i ≤ pc → pc < j → R.ops[pc]? = some op → R.Levels depth pc op

/-- Instructions that stand from a position on fit the depths. -/
@[simp]
def Follows (R : Routine) (depth : Nat → Nat) : Nat → List Op → Prop
  | _, [] => True
  | i, op :: ops => R.Levels depth i op ∧ Follows R depth (i + 1) ops

theorem LevelsIn.trans (h : R.LevelsIn depth i j) (h' : R.LevelsIn depth j k) : R.LevelsIn depth i k := by
  intro pc op hi hk
  by_cases hj : pc < j
  · exact h pc op hi hj
  · exact h' pc op (Nat.le_of_not_lt hj) hk

theorem LevelsIn.refl : R.LevelsIn depth i i := fun pc op hi hj ↦ by omega

theorem follows_append {ops ops' : List Op} :
    R.Follows depth i (ops ++ ops') ↔ R.Follows depth i ops ∧ R.Follows depth (i + ops.length) ops' := by
  induction ops generalizing i with
  | nil => simp
  | cons op ops ih => simp [ih, and_assoc, Nat.add_assoc, Nat.add_comm 1]

theorem Levels.of_isOrdinary {op : Op} (ho : op.isOrdinary) (hp : op.pops ≤ depth i)
    (hn : depth (i + 1) = op.after (depth i)) : R.Levels depth i op where
  supplied := hp
  falls _ := hn
  jumps l hl := by cases op <;> simp_all [Op.isOrdinary, Op.isPlain, Op.isStraight, Op.targets]
  publishes h := by
    subst h
    cases ho

theorem Holds.levels {ops : List Op} (h : R.Holds i ops) (hf : R.Follows depth i ops)
    (hj : j = i + ops.length) : R.LevelsIn depth i j := by
  subst hj
  induction ops generalizing i with
  | nil => exact LevelsIn.refl
  | cons o ops ih =>
    intro pc op hi hj hop
    by_cases he : pc = i
    · rw [he, h.head] at hop
      cases hop
      exact he ▸ hf.1
    · exact ih h.tail hf.2 pc op (by omega) (by simp only [List.length_cons] at hj; omega) hop

end Routine

namespace Fragment

open Routine

variable {R : Routine} {depth : Nat → Nat} {at_ : Nat → Nat} {layout : Option FlagLayout}
variable {f : Fragment} {d i j : Nat}

theorem length_detachDepths {points : List SavePoint} (h : DetachAt R points i j) :
    i + (detachDepths d points).length = j := by
  induction points generalizing i with
  | nil => exact h
  | cons p points ih =>
    obtain ⟨-, -, -, -, -, h⟩ := h
    have := ih h
    simp only [detachDepths, List.flatMap_cons, List.length_append, List.length_cons,
      List.length_nil, List.length_replicate] at this ⊢
    omega

theorem CodeAt.length_depths (h : CodeAt R at_ layout f i j) : i + (f.depths d).length = j := by
  induction f generalizing d i j with
  | ops list => rw [depths, Op.length_depths, h.2]
  | append f g ih ih' =>
    obtain ⟨k, h, h'⟩ := h
    rw [depths, List.length_append, ← Nat.add_assoc, ih h, ih' h']
  | nullGuard f g ih ih' =>
    obtain ⟨_, _, k, -, h, -, -, h', -⟩ := h
    have := ih h (d := d)
    have := ih' h' (d := d - 1)
    simp only [depths, List.length_append, List.length_cons, List.length_nil]
    omega
  | shortCircuit op f g ih ih' =>
    obtain ⟨_, k, h, -, h', -⟩ := h
    have := ih h (d := d)
    have := ih' h' (d := f.leaves d - 1)
    simp only [depths, List.length_append, List.length_cons, List.length_nil]
    omega
  | flagTest | flagAssign => exact h.2.symm
  | observe property p =>
    obtain ⟨-, -, -, -, -, -, -, -, -, -, -, rfl⟩ := h
    simp only [depths, List.length_append, List.length_cons, List.length_nil,
      List.length_replicate]
    omega
  | branch op f g flag counter points ih ih' =>
    obtain ⟨_, _, k, l, h, -, h', -, -, hd, -⟩ := h
    have := ih h (d := d)
    have := ih' h' (d := f.leaves d - 1)
    have := length_detachDepths hd (d := f.leaves d)
    simp only [depths, List.length_append, List.length_cons, List.length_nil]
    omega

/-- Also if there is no code the depths in front of a fragment and behind it go together. -/
theorem depth_start (hb : f.WellStacked d) (hs : Shows depth i (f.depths d))
    (he : depth (i + (f.depths d).length) = f.leaves d) : depth i = d := by
  induction f generalizing d i with
  | ops list =>
    cases list with
    | nil => exact he
    | cons op list => exact hs.1
  | append f g ih ih' =>
    obtain ⟨hs, hs'⟩ := shows_append.mp hs
    rw [depths, List.length_append, ← Nat.add_assoc] at he
    exact ih hb.1 hs (ih' hb.2 hs' he)
  | shortCircuit op f g ih ih' | branch op f g _ _ _ ih ih' =>
    obtain ⟨hs, hs'⟩ := shows_append.mp hs
    exact ih hb.1 hs hs'.1
  | nullGuard | flagTest | flagAssign => exact hs.1
  | observe => exact hs.1.trans hb.symm

theorem follows_ops {list : List Op} (ho : list.all Op.isOrdinary) (hb : Op.Supplied d list)
    (hs : Shows depth i (Op.depths d list)) (he : depth (i + list.length) = Op.afterAll d list) :
    R.Follows depth i list := by
  induction list generalizing d i with
  | nil => trivial
  | cons op list ih =>
    obtain ⟨hd, hs⟩ := hs
    rw [List.all_cons, Bool.and_eq_true] at ho
    rw [List.length_cons, Nat.add_comm list.length, ← Nat.add_assoc] at he
    have hnext : depth (i + 1) = op.after d :=
      depth_start (f := .ops list) hb.2 hs (by rwa [depths, Op.length_depths])
    exact ⟨.of_isOrdinary ho.1 (hd ▸ hb.1) (hd ▸ hnext), ih ho.2 hb.2 hs he⟩

theorem follows_adjust {counters : List Nat} {delta : Int32}
    (h : ∀ k, i ≤ k → k ≤ i + counters.length → depth k = d) :
    R.Follows depth i (adjust counters delta) := by
  induction counters generalizing i with
  | nil => trivial
  | cons n counters ih =>
    rw [List.length_cons] at h
    have h₀ := h i (by omega) (by omega)
    have h₁ := h (i + 1) (by omega) (by omega)
    refine ⟨?_, ih fun k hi hk ↦ h k (by omega) (by omega)⟩
    simp [levels_iff, Op.after, Op.targets, h₀, h₁]

theorem levels_skipJump {op : BinaryOp} {l : Label} (h : depth i = d + 1) (hn : depth (i + 1) = d)
    (hl : depth (R.target l) = d) : R.Levels depth i (skipJump op l) := by
  unfold skipJump
  split <;> simp [levels_iff, Op.targets, Op.after, h, hn, hl]

/-- To skip the right operand of an operation or to run it. -/
theorem follows_choice {op : BinaryOp} {l : Label} (hpos : 0 < d) (h₀ : depth i = d)
    (h₁ : depth (i + 1) = d + 1) (h₂ : depth (i + 2) = d) (h₃ : depth (i + 3) = d - 1)
    (hl : depth (R.target l) = d) : R.Follows depth i [.dup, skipJump op l, .pop] := by
  refine ⟨?_, levels_skipJump h₁ h₂ hl, ?_, trivial⟩
  · simp [levels_iff, Op.targets, Op.after, h₀, h₁]
    omega
  · simp [levels_iff, Op.targets, Op.after, h₂, h₃]
    omega

theorem levels_test {layout : FlagLayout} {flag : Nat} (h : depth i = d) (hn : depth (i + 1) = d + 1) :
    R.Levels depth i (layout.test flag) := by
  cases layout <;> simp [FlagLayout.test, levels_iff, Op.targets, Op.after, h, hn]

theorem levels_assign {layout : FlagLayout} {flag : Nat} {value : Bool} (h : depth i = d)
    (hn : depth (i + 1) = d) : R.Levels depth i (layout.assign flag value) := by
  cases layout <;>
    simp [FlagLayout.assign, levels_iff, Op.targets, Op.after, h, hn]

/-- A property is observed from depth 1 to depth 1, and where its step resumes the stack is empty. -/
theorem levels_observe {property : String} {p : SavePoint}
    (h : CodeAt R at_ layout (observe property p) i j)
    (hs : Shows depth i ((observe property p).depths 1)) (he : depth j = 1) :
    R.LevelsIn depth i j ∧ depth (at_ p.step) = 0 := by
  obtain ⟨keep, noDetach, attach, label, hops, hnd, hat, hk, hl, hres, hlast, rfl⟩ := h
  simp only [depths, shows_append, Shows, shows_replicate, List.length_cons, List.length_nil,
    List.length_replicate, and_true, Nat.zero_add, Nat.reduceAdd] at hs
  obtain ⟨⟨h₀, h₁, h₂, h₃, h₄, h₅, h₆, h₇⟩, ha, ⟨hj, hp, hst, hld, hsub⟩, ha', ⟨hj', hp'⟩, hr, hv⟩ := hs
  have hminus (k : Nat) (h : i + 8 ≤ k) (h' : k ≤ i + 8 + p.counters.length) : depth k = 1 := by
    rcases Nat.eq_or_lt_of_le h' with rfl | h'
    · exact hj
    · exact ha k h h'
  have hplus (k : Nat) (h : i + 8 + p.counters.length + 5 ≤ k)
      (h' : k ≤ i + 8 + p.counters.length + 5 + p.counters.length) : depth k = 0 := by
    rcases Nat.eq_or_lt_of_le h' with rfl | h'
    · exact hj'
    · exact ha' k h h'
  have hstart := hminus (i + 8) (Nat.le_refl _) (by omega)
  have hstart' := hplus (i + 8 + p.counters.length + 5) (Nat.le_refl _) (by omega)
  have hnd' : depth (R.target noDetach) = 2 := (congrArg depth (by omega)).trans hp
  have hat' : depth (R.target attach) = 1 := (congrArg depth (by omega)).trans hst
  have hk' : depth (R.target keep) = 1 := (congrArg depth (by omega)).trans hp'
  have hres' : depth (at_ p.step) = 0 := (congrArg depth (by omega)).trans hr
  have hl' : depth (R.target label) = 0 := hl ▸ hres'
  refine ⟨.trans (j := at_ p.step) (hops.levels ?_ ?_) (hlast.levels ?_ ?_), hres'⟩
  · simp only [observeOps, follows_append, size_adjust, List.length_cons, List.length_nil,
      Nat.zero_add, Nat.reduceAdd]
    refine ⟨?_, follows_adjust hminus, ?_, follows_adjust hplus, ?_⟩
    · simp [levels_iff, Op.targets, Op.after, h₀, h₁, h₂, h₃, h₄, h₅, h₆, h₇, hstart, hk', hnd']
    · simp [levels_iff, Op.targets, Op.after, hj, hp, hst, hld, hsub, hstart', hat',
        Op.isTerminator]
    · simp [levels_iff, Op.targets, Op.after, hj', hp', hl', hr, Op.isTerminator]
  · simp only [observeOps, List.length_append, List.length_cons, List.length_nil, size_adjust]
    omega
  · rw [show at_ p.step = i + 8 + p.counters.length + 5 + p.counters.length + 2 by omega]
    have hend : depth (i + 8 + p.counters.length + 5 + p.counters.length + 2 + 1 + 1) = 1 :=
      (congrArg depth (by omega)).trans he
    simp [levels_iff, Op.targets, Op.after, hr, hv, hend]
  · simp only [List.length_cons, List.length_nil]
    omega

theorem levels_detach {points : List SavePoint} (h : DetachAt R points i j)
    (hs : Shows depth i (detachDepths d points)) (he : depth j = d) :
    R.LevelsIn depth i j ∧ depth i = d := by
  induction points generalizing i with
  | nil =>
    obtain rfl : i = j := h
    exact ⟨.refl, he⟩
  | cons p points ih =>
    obtain ⟨skip, next, hops, hskip, hnext, hd⟩ := h
    rw [detachDepths, List.flatMap_cons] at hs
    simp only [shows_append, Shows, shows_replicate, List.length_append, List.length_cons,
      List.length_nil, List.length_replicate, and_true, Nat.zero_add, Nat.reduceAdd] at hs
    obtain ⟨⟨⟨h₀, h₁, h₂, h₃, h₄, h₅⟩, ha, hj, hp⟩, hs⟩ := hs
    have hlast : i + (6 + (p.counters.length + 2)) = i + p.counters.length + 8 := by omega
    rw [hlast] at hs
    obtain ⟨hrest, hnext'⟩ := ih hd hs
    have hminus (k : Nat) (h : i + 6 ≤ k) (h' : k ≤ i + 6 + p.counters.length) : depth k = d := by
      rcases Nat.eq_or_lt_of_le h' with rfl | h'
      · exact hj
      · exact ha k h h'
    have hstart := hminus (i + 6) (Nat.le_refl _) (by omega)
    have hskip' : depth (R.target skip) = d + 1 := (congrArg depth (by omega)).trans hp
    have hend : depth (i + 6 + p.counters.length + 1 + 1) = d :=
      (congrArg depth (by omega)).trans hnext'
    have hnext'' : depth (R.target next) = d := hnext ▸ hnext'
    refine ⟨.trans (hops.levels ?_ ?_) hrest, h₀⟩
    · simp only [detachOps, follows_append, size_adjust, List.length_cons, List.length_nil,
        Nat.zero_add, Nat.reduceAdd]
      refine ⟨?_, follows_adjust hminus, ?_⟩
      · simp [levels_iff, Op.targets, Op.after, h₀, h₁, h₂, h₃, h₄, h₅, hstart, hskip']
      · simp [levels_iff, Op.targets, Op.after, hj, hp, hend, hnext'', Op.isTerminator]
    · simp only [detachOps, List.length_append, List.length_cons, List.length_nil, size_adjust]
      omega

section

variable (R at_ layout depth)

/-- Where the code of a fragment parts, to guard against null or to skip a right operand, its two
sides end at the depth at which they meet. -/
def Meets : Fragment → Nat → Nat → Prop
  | ops _, _, _ | flagTest _, _, _ | flagAssign .., _, _ | observe .., _, _ => True
  | append f g, i, j => ∃ k, CodeAt R at_ layout f i k ∧ CodeAt R at_ layout g k j ∧
      Meets f i k ∧ Meets g k j
  | nullGuard f g, i, j => ∃ done k, CodeAt R at_ layout f (i + 2) k ∧
      R.ops[k]? = some (.jump done) ∧ CodeAt R at_ layout g (k + 2) j ∧ R.target done = j ∧
      depth k = depth j ∧ Meets f (i + 2) k ∧ Meets g (k + 2) j
  | shortCircuit op f g, i, j => ∃ done k, CodeAt R at_ layout f i k ∧
      R.ops[k + 1]? = some (skipJump op done) ∧ CodeAt R at_ layout g (k + 3) j ∧
      R.target done = j ∧ depth k = depth j ∧ Meets f i k ∧ Meets g (k + 3) j
  | branch op f g _ _ points, i, j => ∃ skip done k l, CodeAt R at_ layout f i k ∧
      R.ops[k + 1]? = some (skipJump op skip) ∧ CodeAt R at_ layout g (k + 4) l ∧
      R.ops[l]? = some (.jump done) ∧ R.target skip = l + 1 ∧ DetachAt R points (l + 4) j ∧
      R.target done = j ∧ depth l = depth j ∧ depth (l + 1) = depth j ∧ Meets f i k ∧
      Meets g (k + 4) l

/-- The depths fit the code of a fragment. -/
structure Mapped (f : Fragment) (i j : Nat) : Prop where
  levels : R.LevelsIn depth i j
  resumes : ∀ k ∈ f.steps, depth (at_ k) = 0
  meets : f.Meets R depth at_ layout i j

end

/-- The depths of a balanced fragment fit its code. -/
theorem CodeAt.mapped (h : CodeAt R at_ layout f i j) (ho : f.isOrdinary) (hb : f.WellStacked d)
    (hs : Shows depth i (f.depths d)) (he : depth j = f.leaves d) :
    f.Mapped R depth at_ layout i j := by
  induction f generalizing d i j with
  | ops list =>
    obtain ⟨hops, rfl⟩ := h
    exact ⟨hops.levels (follows_ops ho hb hs he) rfl, nofun, trivial⟩
  | flagTest flag =>
    obtain ⟨hops, rfl⟩ := h
    exact ⟨hops.levels ⟨levels_test hs.1 he, trivial⟩ rfl, nofun, trivial⟩
  | flagAssign flag value =>
    obtain ⟨hops, rfl⟩ := h
    exact ⟨hops.levels ⟨levels_assign hs.1 he, trivial⟩ rfl, nofun, trivial⟩
  | observe property p =>
    obtain rfl : d = 1 := hb
    obtain ⟨hlevels, hres⟩ := levels_observe h hs he
    exact ⟨hlevels, by simpa [steps, points] using hres, trivial⟩
  | append f g ih ih' =>
    obtain ⟨k, h, h'⟩ := h
    obtain ⟨hof, hog⟩ := Bool.and_eq_true_iff.mp ho
    obtain ⟨hs, hs'⟩ := shows_append.mp hs
    rw [h.length_depths] at hs'
    have hk : depth k = f.leaves d := depth_start hb.2 hs' (h'.length_depths ▸ he)
    have hf := ih h hof hb.1 hs hk
    have hg := ih' h' hog hb.2 hs' he
    refine ⟨hf.levels.trans hg.levels, ?_, k, h, h', hf.meets, hg.meets⟩
    rw [steps_append]
    exact List.forall_mem_append.mpr ⟨hf.resumes, hg.resumes⟩
  | nullGuard f g ih ih' =>
    obtain ⟨isNull, done, k, hops, h, hjump, hnull, h', rfl⟩ := h
    obtain ⟨hof, hog⟩ := Bool.and_eq_true_iff.mp ho
    obtain ⟨hpos, hbf, hbg, hmeet⟩ := hb
    simp only [depths, shows_append, Shows, List.length_cons, List.length_nil, and_true,
      Nat.zero_add, Nat.reduceAdd] at hs
    obtain ⟨⟨h₀, h₁⟩, hs, ⟨hk, hpop⟩, hs'⟩ := hs
    rw [h.length_depths] at hk hpop hs'
    rw [leaves] at he
    have hd : depth (i + 2) = d := depth_start hbf hs (h.length_depths ▸ hk)
    have hmid : depth (k + 2) = d - 1 :=
      depth_start hbg hs' (h'.length_depths ▸ he.trans hmeet.symm)
    have hf := ih h hof hbf hs hk
    have hg := ih' h' hog hbg hs' (he.trans hmeet.symm)
    have htest : R.LevelsIn depth i (i + 2) := hops.levels (by
      simp only [Follows, levels_iff, Op.targets, List.forall_mem_singleton, hnull]
      simp [Op.after, h₀, h₁, hd, hpop]
      omega) rfl
    have hend : R.LevelsIn depth k (k + 2) := hjump.levels (by
      simp only [Follows, levels_iff, Op.targets, List.forall_mem_singleton]
      simp [Op.after, Op.isTerminator, hk, hpop, hmid, he]
      omega) rfl
    refine ⟨((htest.trans hf.levels).trans hend).trans hg.levels, ?_, done, k, h, hjump.head, h', rfl,
      hk.trans he.symm, hf.meets, hg.meets⟩
    rw [steps_nullGuard]
    exact List.forall_mem_append.mpr ⟨hf.resumes, hg.resumes⟩
  | shortCircuit op f g ih ih' =>
    obtain ⟨done, k, h, hops, h', rfl⟩ := h
    obtain ⟨hof, hog⟩ := Bool.and_eq_true_iff.mp ho
    obtain ⟨hbf, hpos, hbg, hmeet⟩ := hb
    simp only [depths, shows_append, Shows, List.length_cons, List.length_nil, and_true,
      Nat.zero_add, Nat.reduceAdd] at hs
    obtain ⟨hs, ⟨hk, hjump, hpop⟩, hs'⟩ := hs
    rw [h.length_depths] at hk hjump hpop hs'
    rw [leaves] at he
    have hmid : depth (k + 3) = f.leaves d - 1 :=
      depth_start hbg hs' (h'.length_depths ▸ he.trans hmeet.symm)
    have hf := ih h hof hbf hs hk
    have hg := ih' h' hog hbg hs' (he.trans hmeet.symm)
    have htest : R.LevelsIn depth k (k + 3) :=
      hops.levels (follows_choice hpos hk hjump hpop hmid he) rfl
    refine ⟨(hf.levels.trans htest).trans hg.levels, ?_, done, k, h, hops.tail.head, h', rfl,
      hk.trans he.symm, hf.meets, hg.meets⟩
    rw [steps_shortCircuit]
    exact List.forall_mem_append.mpr ⟨hf.resumes, hg.resumes⟩
  | branch op f g flag counter points ih ih' =>
    obtain ⟨skip, done, k, l, h, hops, h', htail, hskip, hd, rfl⟩ := h
    obtain ⟨hof, hog⟩ := Bool.and_eq_true_iff.mp ho
    obtain ⟨hbf, hpos, hbg, hmeet⟩ := hb
    simp only [depths, shows_append, Shows, List.length_cons, List.length_nil, and_true,
      Nat.zero_add, Nat.reduceAdd] at hs
    obtain ⟨hs, ⟨hk, hjump, hpop, hflag⟩, hs', ⟨hl, hclear, hload, hzero⟩, hsd⟩ := hs
    rw [h.length_depths] at hk hjump hpop hflag hs' hl hclear hload hzero hsd
    rw [h'.length_depths] at hl hclear hload hzero hsd
    rw [leaves] at he
    have hmid : depth (k + 4) = f.leaves d - 1 :=
      depth_start hbg hs' (h'.length_depths ▸ hl.trans hmeet.symm)
    have hf := ih h hof hbf hs hk
    have hg := ih' h' hog hbg hs' (hl.trans hmeet.symm)
    obtain ⟨hfd, hstart⟩ := levels_detach hd hsd he
    have hskip' : depth (R.target skip) = f.leaves d := hskip ▸ hclear
    have htest : R.LevelsIn depth k (k + 4) := by
      obtain ⟨hdup, hjump, hpop, -⟩ := follows_choice hpos hk hjump hpop hflag hskip'
      exact hops.levels ⟨hdup, hjump, hpop, levels_assign hflag hmid, trivial⟩ rfl
    have hend : R.LevelsIn depth l (l + 4) := by
      refine htail.levels ⟨?_, levels_assign hclear hload, ?_, ?_, trivial⟩ rfl
      · simp [levels_iff, Op.targets, Op.after, Op.isTerminator, hl, he]
      · simp [levels_iff, Op.targets, Op.after, hload, hzero]
      · simp [levels_iff, Op.targets, Op.after, hzero, hstart, he]
    refine ⟨(((hf.levels.trans htest).trans hg.levels).trans hend).trans hfd, ?_, skip, done, k, l, h,
      hops.tail.head, h', htail.head, hskip, hd, rfl, hl.trans he.symm, hclear.trans he.symm,
      hf.meets, hg.meets⟩
    rw [steps_branch]
    exact List.forall_mem_append.mpr ⟨hf.resumes, hg.resumes⟩

end Fragment

end LiveBinding
