import LiveBinding.Proofs.Nesting

namespace LiveBinding

namespace Routine

variable {R : Routine} {i j k : Nat}

/-- Control only goes forward. -/
def Forward (R : Routine) : Prop :=
  ∀ pc op, R.ops[pc]? = some op → ∀ l ∈ op.targets, pc < R.target l

/-- Control only goes forward between two positions. -/
def ForwardIn (R : Routine) (i j : Nat) : Prop :=
  ∀ pc op, i ≤ pc → pc < j → R.ops[pc]? = some op → ∀ l ∈ op.targets, pc < R.target l

/-- Instructions that stand from a position on name labels that lead further on. -/
def Ahead (R : Routine) : Nat → List Op → Prop
  | _, [] => True
  | i, op :: ops => (∀ l ∈ op.targets, i < R.target l) ∧ Ahead R (i + 1) ops

theorem ForwardIn.trans (h : R.ForwardIn i j) (h' : R.ForwardIn j k) : R.ForwardIn i k := by
  intro pc op hi hk
  by_cases hj : pc < j
  · exact h pc op hi hj
  · exact h' pc op (Nat.le_of_not_lt hj) hk

theorem ForwardIn.forward (h : R.ForwardIn 0 R.size) : R.Forward := by
  intro pc op hop
  obtain ⟨hlt, -⟩ := Array.getElem?_eq_some_iff.mp hop
  exact h pc op (Nat.zero_le pc) hlt hop

theorem ahead_append {ops ops' : List Op} :
    R.Ahead i (ops ++ ops') ↔ R.Ahead i ops ∧ R.Ahead (i + ops.length) ops' := by
  induction ops generalizing i with
  | nil => simp [Ahead]
  | cons op ops ih => simp [Ahead, ih, and_assoc, Nat.add_assoc, Nat.add_comm 1]

theorem ahead_of_jumpless {ops : List Op} (h : ops.all (·.targets.isEmpty)) : R.Ahead i ops := by
  induction ops generalizing i with
  | nil => trivial
  | cons op ops ih =>
    rw [List.all_cons, Bool.and_eq_true, List.isEmpty_iff] at h
    exact ⟨by simp [h.1], ih h.2⟩

theorem Holds.forward {ops : List Op} (h : R.Holds i ops) (ha : R.Ahead i ops)
    (hj : j = i + ops.length) : R.ForwardIn i j := by
  subst hj
  induction ops generalizing i with
  | nil => intro pc op hi hj; simp at hj; omega
  | cons o ops ih =>
    intro pc op hi hj hop
    by_cases he : pc = i
    · rw [he, h.head] at hop
      cases hop
      exact he ▸ ha.1
    · exact ih h.tail ha.2 pc op (by omega) (by simp only [List.length_cons] at hj; omega) hop

end Routine

namespace Fragment

variable {R : Routine} {at_ : Nat → Nat} {layout : Option FlagLayout} {f : Fragment} {i j : Nat}

theorem ahead_adjust (counters : List Nat) (delta : Int32) : R.Ahead i (adjust counters delta) :=
  Routine.ahead_of_jumpless (by simp [adjust, Op.targets])

theorem targets_skipJump (op : BinaryOp) (l : Label) : (skipJump op l).targets = [l] := by
  unfold skipJump
  split <;> rfl

theorem ahead_skipTest {op : BinaryOp} {l : Label} (h : i + 1 < R.target l) :
    R.Ahead i [.dup, skipJump op l, .pop] := by
  simp only [Routine.Ahead, targets_skipJump]
  simpa [Op.targets] using h

theorem DetachAt.forward {ps : List SavePoint} (h : DetachAt R ps i j) : R.ForwardIn i j := by
  induction ps generalizing i with
  | nil =>
    obtain rfl : i = j := h
    intro pc op hi hj
    omega
  | cons p ps ih =>
    obtain ⟨skip, next, hops, hskip, hnext, hd⟩ := h
    refine Routine.ForwardIn.trans (hops.forward ?_ ?_) (ih hd)
    · simp only [detachOps, Routine.ahead_append, ahead_adjust, Routine.Ahead, Op.targets,
        size_adjust, List.length_cons, List.length_nil]
      simp
      omega
    · simp only [detachOps, List.length_append, List.length_cons, List.length_nil, size_adjust]
      omega

theorem forward_observe {property : String} {p : SavePoint}
    (h : CodeAt R at_ layout (observe property p) i j) : R.ForwardIn i j := by
  obtain ⟨keep, noDetach, attach, label, hops, hnd, hat, hk, hl, hres, hlast, rfl⟩ := h
  refine Routine.ForwardIn.trans (j := i + 2 * p.counters.length + 15) (hops.forward ?_ ?_) ?_
  · simp only [observeOps, Routine.ahead_append, ahead_adjust, Routine.Ahead, Op.targets,
      size_adjust, List.length_cons, List.length_nil]
    simp
    omega
  · simp only [observeOps, List.length_append, List.length_cons, List.length_nil, size_adjust]
    omega
  · rw [hres] at hlast
    exact hlast.forward (Routine.ahead_of_jumpless rfl) rfl

/-- The code of a fragment only goes forward, if what is given of it does not jump. -/
theorem CodeAt.forward (hf : f.isJumpless) (h : CodeAt R at_ layout f i j) : R.ForwardIn i j := by
  induction f generalizing i j with
  | ops list => exact h.1.forward (Routine.ahead_of_jumpless hf) h.2
  | flagTest flag => exact h.1.forward (by simp [Routine.Ahead, targets_test]) h.2
  | flagAssign flag value => exact h.1.forward (by simp [Routine.Ahead, targets_assign]) h.2
  | observe property p => exact forward_observe h
  | append f g ih ih' =>
    obtain ⟨hf, hg⟩ := Bool.and_eq_true_iff.mp hf
    obtain ⟨k, h, h'⟩ := h
    exact (ih hf h).trans (ih' hg h')
  | nullGuard f g ih ih' =>
    obtain ⟨hf, hg⟩ := Bool.and_eq_true_iff.mp hf
    obtain ⟨isNull, done, k, hops, h, hjump, hnull, h', hdone⟩ := h
    have hle := h.le
    have hle' := h'.le
    have htest := hops.forward (j := i + 2) (by simp [Routine.Ahead, Op.targets]; omega) rfl
    have hend := hjump.forward (j := k + 2) (by simp [Routine.Ahead, Op.targets]; omega) rfl
    exact ((htest.trans (ih hf h)).trans hend).trans (ih' hg h')
  | shortCircuit op f g ih ih' =>
    obtain ⟨hf, hg⟩ := Bool.and_eq_true_iff.mp hf
    obtain ⟨done, k, h, hops, h', rfl⟩ := h
    have hle := h'.le
    have htest := hops.forward (j := k + 3) (ahead_skipTest (by omega)) rfl
    exact ((ih hf h).trans htest).trans (ih' hg h')
  | branch op f g flag counter points ih ih' =>
    obtain ⟨hf, hg⟩ := Bool.and_eq_true_iff.mp hf
    obtain ⟨skip, done, k, l, h, hops, h', htail, hskip, hd, hdone⟩ := h
    have hle := h'.le
    have hle' := hd.le
    have htest := (hops.take 3).forward (ahead_skipTest (by omega)) rfl
    have hflag := (hops.drop 3 (by simp)).forward (j := k + 4)
      (by simp [Routine.Ahead, targets_assign]) rfl
    have hend := htail.forward (j := l + 4) (by
      simp only [Routine.Ahead, targets_assign]
      simp [Op.targets]
      omega) rfl
    exact (((ih hf h).trans (htest.trans hflag)).trans (ih' hg h')).trans (hend.trans hd.forward)

/-- Every step resumes inside the code. -/
theorem CodeAt.resume_mem {k : Nat} (h : CodeAt R at_ layout f i j) (hk : k ∈ f.steps) :
    i ≤ at_ k ∧ at_ k < j := by
  induction f generalizing i j with
  | ops | flagTest | flagAssign => simp [steps, points] at hk
  | observe property p =>
    obtain rfl : k = p.step := by simpa [steps, points] using hk
    obtain ⟨-, -, -, -, -, -, -, -, -, hres, -, rfl⟩ := h
    omega
  | append f g ih ih' =>
    obtain ⟨l, h, h'⟩ := h
    have := h.le
    have := h'.le
    rcases List.mem_append.mp (steps_append f g ▸ hk) with hk | hk
    · have := ih h hk; omega
    · have := ih' h' hk; omega
  | nullGuard f g ih ih' =>
    obtain ⟨_, _, l, -, h, -, -, h', -⟩ := h
    have := h.le
    have := h'.le
    rcases List.mem_append.mp (steps_nullGuard f g ▸ hk) with hk | hk
    · have := ih h hk; omega
    · have := ih' h' hk; omega
  | shortCircuit op f g ih ih' =>
    obtain ⟨_, l, h, -, h', -⟩ := h
    have := h.le
    have := h'.le
    rcases List.mem_append.mp (steps_shortCircuit op f g ▸ hk) with hk | hk
    · have := ih h hk; omega
    · have := ih' h' hk; omega
  | branch op f g flag counter points ih ih' =>
    obtain ⟨_, _, l, l', h, -, h', -, -, hd, -⟩ := h
    have := h.le
    have := h'.le
    have := hd.le
    rcases List.mem_append.mp (steps_branch op f g flag counter points ▸ hk) with hk | hk
    · have := ih h hk; omega
    · have := ih' h' hk; omega

end Fragment

namespace Container

open Assembler

variable {a b : Assembler} {R : Routine} {layout : FlagLayout} {fault : Label} {tables : List Label}

theorem exists_child {c : Container} {n : Nat} (h : .child n ∈ c.entries) :
    ∃ d ∈ c.children, d.index = n := by
  obtain ⟨k, -, hentry⟩ := List.mem_map.mp h
  unfold entry at hentry
  split at hentry
  · cases hentry
  · split at hentry
    · next d hd => exact ⟨d, List.mem_of_find?_eq_some hd, Entry.child.inj hentry⟩
    · cases hentry

/-- A table goes forward if its entries lead behind it. -/
theorem forwardIn_table (h : Assembles b R) (c : Container) {stop : Nat}
    (hc : Continues (emitTable layout fault tables a c) b)
    (hstop : stop = (emitTable layout fault tables a c).ops.size)
    (hexit : stop ≤ b.keyTarget R .exit) (hfault : stop ≤ R.target fault)
    (hentries : ∀ e ∈ c.entries, stop ≤ entryTarget b R fault tables e) :
    R.ForwardIn a.ops.size stop := by
  have ht := tableAt_emit h c hc (Nat.le_refl _)
  obtain ⟨targets, htargets, hholds⟩ := ht.body
  rw [size_emitTable] at hstop
  have hguard : R.ForwardIn a.ops.size (a.ops.size + if c.flag.isSome then 2 else 0) := by
    cases hf : c.flag with
    | none => exact fun pc op hi hj ↦ by simp at hj; omega
    | some flag =>
      obtain ⟨-, exit, hto, hops⟩ := ht.guard flag hf
      refine hops.forward ?_ rfl
      simp only [hf, Option.isSome_some, if_true] at hstop
      simp only [Routine.Ahead, Fragment.targets_test]
      simp [Op.targets]
      omega
  refine hguard.trans (hholds.forward ?_ hstop)
  simp only [Routine.Ahead, Op.targets, List.not_mem_nil, false_implies, implies_true, true_and,
    and_true, List.mem_append, List.mem_singleton]
  rintro l (hl | rfl)
  · obtain ⟨e, he, heq⟩ := List.mem_map.mp (htargets ▸ List.mem_map_of_mem hl)
    have := hentries e he
    omega
  · omega

/-- Tables of containers that are numbered upwards go forward, to the tables of children too. -/
theorem forwardIn_tables (h : Assembles b R) {cs : List Container} {stop : Nat}
    (hc : Continues (cs.foldl (emitTable layout fault tables) a) b)
    (hstop : stop = (cs.foldl (emitTable layout fault tables) a).ops.size)
    (hexit : stop ≤ b.keyTarget R .exit) (hfault : stop ≤ R.target fault)
    (hsorted : cs.Pairwise fun c d ↦ c.index < d.index) (htidy : ∀ c ∈ cs, c.Tidy)
    (hchildren : ∀ c ∈ cs, ∀ d ∈ c.children, d ∈ cs ∧ d.flag.isSome)
    (hresume : ∀ c ∈ cs, ∀ k, .resume k ∈ c.entries → stop ≤ b.keyTarget R (.step k)) :
    R.ForwardIn a.ops.size stop := by
  induction cs generalizing a with
  | nil => exact fun pc op hi hj ↦ by simp at hstop; omega
  | cons c cs ih =>
    rw [List.pairwise_cons] at hsorted
    rw [List.forall_mem_cons] at htidy hresume hchildren
    rw [List.foldl_cons] at hc hstop
    have hafter : ∀ d ∈ c.children, d ∈ cs := fun d hd ↦ by
      have := htidy.1.numbered d hd
      refine (List.mem_cons.mp (hchildren.1 d hd).1).resolve_left ?_
      rintro rfl
      omega
    have hrest : ∀ e ∈ cs, ∀ d ∈ e.children, d ∈ cs ∧ d.flag.isSome := fun e he d hd ↦ by
      have := (htidy.2 e he).numbered d hd
      have := hsorted.1 e he
      refine ⟨(List.mem_cons.mp (hchildren.2 e he d hd).1).resolve_left ?_, (hchildren.2 e he d hd).2⟩
      rintro rfl
      omega
    have htables := tablesAt_emit h cs hc (Nat.le_refl _)
    have hle : (emitTable layout fault tables a c).ops.size ≤ stop :=
      hstop ▸ (continues_tables ..).size_le
    refine (forwardIn_table h c ((continues_tables ..).trans hc) rfl (by omega) (by omega) ?_).trans
      (ih hc hstop hsorted.2 htidy.2 hrest hresume.2)
    intro e he
    cases e with
    | resume k => exact Nat.le_trans hle (hresume.1 k he)
    | gap => exact absurd he htidy.1.full
    | child n =>
      obtain ⟨d, hd, rfl⟩ := exists_child he
      obtain ⟨pos, hpos, ht⟩ := htables d (hafter d hd)
      obtain ⟨flag, hflag⟩ := Option.isSome_iff_exists.mp (hchildren.1 d hd).2
      have := htidy.1.numbered d hd
      rw [entryTarget, if_neg (by omega), (ht.guard flag hflag).1]
      exact hpos

end Container

open Assembler Container

namespace Fragment

/-- Dispatch goes forward: from table to table, to a step or out of the update. -/
theorem forwardIn_dispatch {f : Fragment} {a b : Assembler} {R : Routine} {layout : FlagLayout}
    {start : Nat} (h : Assembles b R)
    (hc : Continues (emitDispatch
      (.mk 0 none 0 (1 + f.points.length) f.own (f.containers 1 1)) layout a) b)
    (hsteps : f.steps = List.range' 1 f.points.length)
    (hstart : (emitDispatch
      (.mk 0 none 0 (1 + f.points.length) f.own (f.containers 1 1)) layout a).ops.size = start)
    (hexit : start ≤ b.keyTarget R .exit)
    (hresume : ∀ k, k = 0 ∨ k ∈ f.steps → start ≤ b.keyTarget R (.step k)) :
    R.ForwardIn a.ops.size start := by
  obtain ⟨fault, tables, a', ha, htables, hend, hfault, hsize⟩ := dispatch_parts h hc
  obtain rfl : start = R.target fault + 1 := hstart.symm.trans hsize
  let root : Container := .mk 0 none 0 (1 + f.points.length) f.own (f.containers 1 1)
  have hindex : root.all.map Container.index = List.range' 0 (1 + f.branches.length) := by
    rw [Nat.add_comm, List.range'_succ]
    exact congrArg (0 :: ·) (index_containers f 1 1).1
  have hsorted : root.all.Pairwise fun c d ↦ c.index < d.index := by
    rw [← List.pairwise_map (f := Container.index) (R := (· < ·)), hindex]
    exact List.pairwise_lt_range'
  have hflag : ∀ c ∈ root.all, ∀ d ∈ c.children, d ∈ root.all ∧ d.flag.isSome := fun c hcc d hd ↦ by
    have hmem := child_mem_all hcc hd
    refine ⟨hmem, (index_containers f 1 1).2 d ((List.mem_cons.mp hmem).resolve_left ?_)⟩
    rintro rfl
    exact absurd ((tidy_root hsteps c hcc).numbered _ hd) (Nat.not_lt_zero _)
  have hrun := forwardIn_tables h htables hend.symm (by omega) (Nat.le_refl _) hsorted
    (tidy_root hsteps) hflag fun c hcc k hk ↦ by
      have := hresume k (mem_steps_of_resume hcc hk)
      omega
  rw [ha] at hrun
  exact hrun.trans (hfault.forward (Routine.ahead_of_jumpless rfl) rfl)

/-- The routine of a fragment alone. -/
theorem forward_alone {f : Fragment} {layout : Option FlagLayout} {R : Routine}
    (h : Assembles ((f.emit layout .empty).emit .return) R) (hf : f.isJumpless) : R.Forward := by
  have hcode := (codeAt_emit h layout f (continues_emit _ _)).forward hf
  have hreturn : R.ForwardIn (f.emit layout .empty).ops.size R.size := by
    refine (h.holds_one (.refl _)).forward (Routine.ahead_of_jumpless rfl) ?_
    rw [Routine.size, h.routine_eq]
    exact size_emit _ _
  exact (hcode.trans hreturn).forward

end Fragment

open Fragment

theorem Compiles.forward_update {body coercion : Fragment} {t : Resumable} {layout : FlagLayout}
    {artifact : Artifact} (h : Compiles body coercion t layout artifact) :
    artifact.update.Forward := by
  obtain ⟨fault, middle, stop, hp⟩ := h.positions
  have hbody := hp.bodyAt.le
  have hcoercion := hp.coercionAt.le
  have hdispatch := hp.dispatchAt
  have hend := hp.dispatchEnd
  rw [h.root_eq] at hdispatch hend
  have hfirst : artifact.update.Holds 0 [.lockAcquire] := fun k op hk ↦ by
    obtain ⟨rfl, rfl⟩ : k = 0 ∧ op = .lockAcquire := by
      cases k <;> simp_all
    exact hp.lockAt
  have hlock : artifact.update.ForwardIn 0 1 :=
    hfirst.forward (Routine.ahead_of_jumpless rfl) rfl
  have htables := forwardIn_dispatch h.update hdispatch h.steps_eq hend (by rw [hp.exitAt]; omega)
    fun k hk ↦ by
      rcases hk with rfl | hk
      · exact hp.startAt.ge
      · exact (hp.bodyAt.resume_mem hk).1
  have hcode := hp.bodyAt.forward (isJumpless_of_isStraight h.renders.straight)
  have hconvert := hp.coercionAt.forward (composable_isJumpless.plain coercion h.plain)
  have hpublish := hp.publishAt.forward (Routine.ahead_of_jumpless rfl) hp.size_eq
  exact (hlock.trans (htables.trans (hcode.trans (hconvert.trans hpublish)))).forward

end LiveBinding
