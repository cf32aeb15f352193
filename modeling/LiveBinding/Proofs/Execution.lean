import LiveBinding.Proofs.Structured

namespace LiveBinding

namespace Exec

variable (r : Registry) (update : Updater) (fuel : Nat) (frame : Frame) (R : Routine)

/-- Running the routine for `k` instructions from `m` comes to an outcome. If that is no failure,
the routine goes on at position `j`. -/
def Goes (k : Nat) (m : Machine) (o : Outcome) (j : Nat) : Prop := ∀ n,
  match o.result with
  | .ok _ => execute r update fuel frame R (n + k) m =
        execute r update fuel frame R n { o.machine with pc := j } ∧
      history r update fuel frame R (n + k) m =
        o.calls ++ history r update fuel frame R n { o.machine with pc := j }
  | .error e =>
      (∃ p, execute r update fuel frame R (n + k) m = (.error e, { o.machine with pc := p })) ∧
      history r update fuel frame R (n + k) m = o.calls

/-- Control goes from position `i` to a later position `j`, by at most one instruction for each
position in between. -/
def Reaches (i : Nat) (m : Machine) (o : Outcome) (j : Nat) : Prop :=
  i ≤ j ∧ ∃ k ≤ j - i, Goes r update fuel frame R k { m with pc := i } o j

variable {r update fuel frame R}

theorem Reaches.skip (i : Nat) (m : Machine) :
    Reaches r update fuel frame R i m (Block.skip m) i :=
  ⟨Nat.le_refl i, 0, by omega, fun _ ↦ ⟨rfl, rfl⟩⟩

theorem Reaches.andThen {first second : Block} {m : Machine} {i j l : Nat}
    (h : Reaches r update fuel frame R i m (first m) j)
    (h' : ∀ m, Reaches r update fuel frame R j m (second m) l) (hl : j ≤ l) :
    Reaches r update fuel frame R i m (first.andThen second m) l := by
  obtain ⟨hij, k, hk, hg⟩ := h
  unfold Block.andThen
  cases ho : (first m).result with
  | error e =>
    refine ⟨by omega, k, by omega, fun n ↦ ?_⟩
    have h := hg n
    simp only [ho] at h ⊢
    exact h
  | ok u =>
    obtain ⟨-, k', hk', hg'⟩ := h' (first m).machine
    refine ⟨by omega, k' + k, by omega, fun n ↦ ?_⟩
    have h₁ := hg (n + k')
    have h₂ := hg' n
    simp only [ho] at h₁ ⊢
    rw [← Nat.add_assoc, h₁.1, h₁.2]
    cases ho' : (second (first m).machine).result with
    | error e =>
      simp only [ho'] at h₂ ⊢
      exact ⟨h₂.1, by rw [h₂.2]⟩
    | ok u =>
      simp only [ho'] at h₂ ⊢
      exact ⟨h₂.1, by rw [h₂.2, List.append_assoc]⟩

theorem callsOf_pc (op : Op) (m : Machine) (p : Nat) :
    callsOf r update fuel op { m with pc := p } = callsOf r update fuel op m := by
  cases op <;> rfl

theorem execute_succ {op : Op} (n : Nat) (m : Machine) (h : R.ops[m.pc]? = some op)
    (hr : op ≠ .return) :
    execute r update fuel frame R (n + 1) m =
      match step r update fuel frame R op { m with pc := m.pc + 1 } with
      | (.ok _, m') => execute r update fuel frame R n m'
      | (.error e, m') => (.error e, m') := by
  rw [execute, bind_apply, get_apply]
  simp only [h]
  rw [bind_apply]
  simp only [goto, modify_apply]
  rw [bind_apply]
  rcases step r update fuel frame R op { m with pc := m.pc + 1 } with ⟨_ | _, _⟩ <;> rfl

theorem history_succ {op : Op} (n : Nat) (m : Machine) (h : R.ops[m.pc]? = some op)
    (hr : op ≠ .return) :
    history r update fuel frame R (n + 1) m = callsOf r update fuel op m ++
      match step r update fuel frame R op { m with pc := m.pc + 1 } with
      | (.ok _, m') => history r update fuel frame R n m'
      | (.error _, _) => [] := by
  rcases hstep : step r update fuel frame R op { m with pc := m.pc + 1 } with ⟨_ | _, _⟩ <;>
    simp only [history, h, hstep]

theorem Op.ne_return_of_isStraight {op : Op} (h : op.isStraight) : op ≠ .return := by
  rintro rfl
  simp [Op.isStraight] at h

theorem reaches_op {op : Op} {i : Nat} (hs : op.isStraight) (h : R.ops[i]? = some op)
    (m : Machine) : Reaches r update fuel frame R i m (runOp r update fuel frame op m) (i + 1) := by
  refine ⟨by omega, 1, by omega, fun n ↦ ?_⟩
  have hne := Op.ne_return_of_isStraight hs
  have hstep : step r update fuel frame R op { m with pc := i + 1 } =
      ((step r update fuel frame default op m).1,
        { (step r update fuel frame default op m).2 with pc := i + 1 }) := by
    rw [step_routine r update fuel frame hs R default]
    exact pcFree_step r update fuel frame hs default m (i + 1)
  rw [execute_succ n _ h hne, history_succ n _ h hne]
  simp only [runOp, hstep, callsOf_pc]
  rcases step r update fuel frame default op m with ⟨e | u, m'⟩
  · exact ⟨⟨i + 1, rfl⟩, by simp⟩
  · exact ⟨rfl, rfl⟩

theorem reaches_ops {ops : List Op} {i j : Nat} (hs : ops.all Op.isStraight) (h : R.Holds i ops)
    (hj : j = i + ops.length) (m : Machine) :
    Reaches r update fuel frame R i m (runOps r update fuel frame ops m) j := by
  subst hj
  induction ops generalizing i m with
  | nil => exact .skip i m
  | cons op ops ih =>
    simp only [List.all_cons, Bool.and_eq_true] at hs
    refine (reaches_op hs.1 h.head m).andThen (fun m ↦ ?_) (by simp)
    have h := ih hs.2 h.tail m
    rwa [Nat.add_assoc, Nat.add_comm 1] at h

theorem Closed.condition {C : {α : Type} → Exec α → Prop} (hC : Closed C) (op : Op) :
    C (condition op) := by
  cases op with
  | jumpIfFalse => exact hC.bind hC.pop fun _ ↦ hC.bind (hC.ofExcept _) fun _ ↦ hC.pure _
  | jumpIfTrue => exact hC.bind hC.pop fun _ ↦ hC.ofExcept _
  | jumpIfNull => exact hC.bind hC.pop fun _ ↦ hC.pure _
  | jumpIfSame => exact hC.bind hC.pop fun _ ↦ hC.bind hC.pop fun _ ↦ hC.pure _
  | jumpIfZero => exact hC.bind hC.popInt fun _ ↦ hC.pure _
  | _ => exact hC.pure _

theorem condition_pc (op : Op) : PcFree (condition op) := PcFree.closed.condition op

/-- An instruction that jumps to its label if its condition holds. -/
structure IsJump (jump : Label → Op) : Prop where
  ne_return : ∀ l, jump l ≠ .return
  calls : ∀ (r : Registry) (update : Updater) (fuel : Nat) (l : Label) (m : Machine),
    callsOf r update fuel (jump l) m = []
  step_eq : ∀ (r : Registry) (update : Updater) (fuel : Nat) (frame : Frame) (R : Routine) (l : Label),
    step r update fuel frame R (jump l) = condition (jump default) >>= fun b ↦ jumpIf R b l

theorem isJump_jumpIfNull : IsJump .jumpIfNull :=
  ⟨fun _ ↦ by simp, fun _ _ _ _ _ ↦ rfl, fun _ _ _ _ _ _ ↦ by simp [step, condition]⟩

theorem isJump_jumpIfSame : IsJump .jumpIfSame :=
  ⟨fun _ ↦ by simp, fun _ _ _ _ _ ↦ rfl, fun _ _ _ _ _ _ ↦ by simp [step, condition]⟩

theorem isJump_jumpIfZero : IsJump .jumpIfZero :=
  ⟨fun _ ↦ by simp, fun _ _ _ _ _ ↦ rfl, fun _ _ _ _ _ _ ↦ by simp [step, condition]⟩

theorem isJump_skipJump (op : BinaryOp) : IsJump (Fragment.skipJump op) := by
  by_cases h : op = .and
  · subst h
    exact ⟨fun _ ↦ by simp [Fragment.skipJump], fun _ _ _ _ _ ↦ rfl,
      fun _ _ _ _ _ _ ↦ by simp [Fragment.skipJump, step, condition]⟩
  · refine ⟨fun _ ↦ by simp [Fragment.skipJump, h], fun _ _ _ _ _ ↦ ?_, fun _ _ _ _ _ _ ↦ ?_⟩
    · simp only [Fragment.skipJump, if_neg h]; rfl
    · simp [Fragment.skipJump, h, step, condition]

theorem reaches_branchOn {jump : Label → Op} {l : Label} {taken untaken : Block} {i j : Nat}
    (hj : IsJump jump) (h : R.ops[i]? = some (jump l)) (ht : i < R.target l)
    (hy : ∀ m, Reaches r update fuel frame R (R.target l) m (taken m) j)
    (hn : ∀ m, Reaches r update fuel frame R (i + 1) m (untaken m) j) (m : Machine) :
    Reaches r update fuel frame R i m (branchOn jump taken untaken m) j := by
  have hcond := condition_pc (jump default) m (i + 1)
  have hexec (n : Nat) := @execute_succ r update fuel frame R _ n { m with pc := i } h (hj.ne_return l)
  have hhist (n : Nat) := @history_succ r update fuel frame R _ n { m with pc := i } h (hj.ne_return l)
  simp only [hj.step_eq, hj.calls, bind_apply, hcond] at hexec hhist
  unfold branchOn
  rcases hc : condition (jump default) m with ⟨e | b, m'⟩
  · simp only [hc] at hexec hhist ⊢
    refine ⟨?_, 1, ?_, fun n ↦ ⟨⟨i + 1, hexec n⟩, hhist n⟩⟩
    · have := (hn m).1; omega
    · have := (hn m).1; omega
  · cases b with
    | true =>
      simp only [hc, jumpIf, goto, modify_apply, if_true] at hexec hhist ⊢
      obtain ⟨hle, k, hk, hg⟩ := hy m'
      refine ⟨by omega, k + 1, by omega, fun n ↦ ?_⟩
      rw [← Nat.add_assoc, hexec, hhist]
      exact hg n
    | false =>
      simp only [hc, jumpIf, pure_apply, Bool.false_eq_true, if_false] at hexec hhist ⊢
      obtain ⟨hle, k, hk, hg⟩ := hn m'
      refine ⟨by omega, k + 1, by omega, fun n ↦ ?_⟩
      rw [← Nat.add_assoc, hexec, hhist]
      exact hg n

theorem Reaches.thenJump {l : Label} {i j : Nat} {o : Outcome} {m : Machine}
    (h : Reaches r update fuel frame R i m o j) (hj : R.ops[j]? = some (.jump l))
    (ht : j < R.target l) : Reaches r update fuel frame R i m o (R.target l) := by
  obtain ⟨hle, k, hk, hg⟩ := h
  refine ⟨by omega, k + 1, by omega, fun n ↦ ?_⟩
  have h := hg (n + 1)
  rw [show n + 1 + k = n + (k + 1) by omega] at h
  cases ho : o.result with
  | error e => simpa only [ho] using h
  | ok u =>
    simp only [ho] at h ⊢
    rw [execute_succ n { o.machine with pc := j } hj (by simp),
      history_succ n { o.machine with pc := j } hj (by simp)] at h
    exact h

end Exec

namespace Fragment

open Exec

variable {r : Registry} {update : Updater} {fuel : Nat} {frame : Frame} {R : Routine}
variable {layout : Option FlagLayout} {at_ : Nat → Nat}

theorem all_adjust (counters : List Nat) (delta : Int32) :
    (adjust counters delta).all Op.isStraight := by
  simp [adjust, Op.isStraight]

theorem isStraight_test (layout : FlagLayout) (flag : Nat) : (layout.test flag).isStraight := by
  cases layout <;> rfl

theorem isStraight_assign (layout : FlagLayout) (flag : Nat) (value : Bool) :
    (layout.assign flag value).isStraight := by
  cases layout <;> rfl

theorem DetachAt.le {ps : List SavePoint} {i j : Nat} (h : DetachAt R ps i j) : i ≤ j := by
  induction ps generalizing i with
  | nil => exact Nat.le_of_eq h
  | cons p ps ih =>
    obtain ⟨_, _, -, -, -, hd⟩ := h
    have := ih hd
    omega

theorem CodeAt.le {f : Fragment} {i j : Nat} (h : CodeAt R at_ layout f i j) : i ≤ j := by
  induction f generalizing i j with
  | ops list | flagTest flag | flagAssign flag value => obtain ⟨-, rfl⟩ := h; omega
  | append f g ih ih' =>
    obtain ⟨k, hf, hg⟩ := h
    exact Nat.le_trans (ih hf) (ih' hg)
  | nullGuard f g ih ih' =>
    obtain ⟨_, _, k, -, hf, -, -, hg, -⟩ := h
    have := ih hf
    have := ih' hg
    omega
  | shortCircuit op f g ih ih' =>
    obtain ⟨_, k, hf, -, hg, -⟩ := h
    have := ih hf
    have := ih' hg
    omega
  | observe property p =>
    obtain ⟨_, _, _, _, -, -, -, -, -, -, -, rfl⟩ := h
    omega
  | branch op f g flag counter points ih ih' =>
    obtain ⟨_, _, k, l, hf, -, hg, -, -, hd, -⟩ := h
    have := ih hf
    have := ih' hg
    have := hd.le
    omega

theorem reaches_reread {property : String} {p : SavePoint} {i j : Nat}
    (h : CodeAt R at_ layout (observe property p) i j) (m : Machine) :
    Reaches r update fuel frame R (at_ p.step) m (reread r update fuel frame p m) j := by
  obtain ⟨_, _, _, _, -, -, -, -, -, hres, hlast, rfl⟩ := h
  exact reaches_ops rfl hlast (by simp [hres]) m

theorem reaches_observe {property : String} {p : SavePoint} {i j : Nat}
    (h : CodeAt R at_ layout (observe property p) i j) (m : Machine) :
    Reaches r update fuel frame R i m
      ((observe property p).run r update fuel frame layout m) j := by
  have hread := @reaches_reread r update fuel frame R layout at_ property p i j h
  obtain ⟨keep, noDetach, attach, label, hops, hnd, hat, hk, hl, hres, -, rfl⟩ := h
  generalize hn : p.counters.length = n at *
  have h₁ := hops.left
  have hminus := hops.right.left
  have h₂ := hops.right.right.left
  have hplus := hops.right.right.right.left
  have h₃ := hops.right.right.right.right
  simp only [List.length_cons, List.length_nil, size_adjust, Nat.zero_add, Nat.reduceAdd, hn]
    at hminus h₂ hplus h₃
  have e₂ : i + 8 + n = i + n + 8 := by omega
  have e₃ : i + n + 8 + 5 + n = i + 2 * n + 13 := by omega
  rw [e₂] at h₂ hplus h₃
  rw [e₃] at h₃
  -- The listener moves to another cell: the old one is detached first, if there is one.
  have hdetach (m : Machine) := @reaches_branchOn r update fuel frame R .jumpIfNull noDetach
    (runOps r update fuel frame [.pop])
    (runOps r update fuel frame (.unsubscribe p.step :: adjust p.counters (-1))) (i + 6)
    (i + n + 10) isJump_jumpIfNull (h₁ 6 _ rfl) (by omega)
    (fun m ↦ reaches_ops rfl (by rw [hnd]; exact (h₂.drop 1 (by simp)).take 1) (by simp [hnd]) m)
    (fun m ↦ by
      rw [← hat]
      refine (reaches_ops ?_ ?_ ?_ m).thenJump (h₂ 0 _ rfl) (by omega)
      · simp [Op.isStraight, all_adjust]
      · exact Routine.Holds.cons (h₁.drop 7 (by simp)) hminus
      · simp [size_adjust, hn]; omega) m
  have hmove (m : Machine) : Reaches r update fuel frame R (i + 4) m
      (((runOps r update fuel frame [.loadScratch p.handle, .dup]).andThen <|
        branchOn .jumpIfNull (runOps r update fuel frame [.pop])
          (runOps r update fuel frame (.unsubscribe p.step :: adjust p.counters (-1)))).andThen
        (runOps r update fuel frame ([Op.storeScratch p.handle, .loadScratch p.handle,
          .subscribe p.step] ++ adjust p.counters 1)) m) (at_ p.step) := by
    rw [← hl]
    refine Reaches.thenJump ?_ (h₃ 0 _ rfl) (by omega)
    refine Reaches.andThen ?_ (fun m ↦ ?_) (show i + n + 10 ≤ _ by omega)
    · exact (reaches_ops rfl ((h₁.drop 4 (by simp)).take 2) rfl m).andThen hdetach (by simp; omega)
    · refine reaches_ops (by simp [Op.isStraight, all_adjust]) ?_ ?_ m
      · exact Routine.Holds.append (h₂.drop 2 (by simp)) (by simpa [Nat.add_assoc] using hplus)
      · simp [size_adjust, hn]; omega
  refine (reaches_ops rfl (h₁.take 1) rfl m).andThen (fun m ↦ ?_) (by simp; omega)
  refine Reaches.andThen (j := at_ p.step) ?_ hread (by omega)
  refine (reaches_ops rfl ((h₁.drop 1 (by simp)).take 2) rfl m).andThen (fun m ↦ ?_) (by simp; omega)
  refine reaches_branchOn isJump_jumpIfSame (h₁ 3 _ rfl) (by omega) (fun m ↦ ?_) hmove m
  exact reaches_ops rfl (by rw [hk]; exact h₃.drop 1 (by simp)) (by simp [hk, hres]) m

theorem reaches_detachAll {ps : List SavePoint} {i j : Nat} (h : DetachAt R ps i j) (m : Machine) :
    Reaches r update fuel frame R i m (detachAll r update fuel frame ps m) j := by
  induction ps generalizing i m with
  | nil => rw [show i = j from h]; exact .skip j m
  | cons p ps ih =>
    obtain ⟨skip, next, hops, hskip, hnext, hd⟩ := h
    have hle := hd.le
    refine Reaches.andThen ?_ (fun m ↦ ih hd m) hle
    generalize hn : p.counters.length = n at *
    have h₁ := hops.left
    have hminus := hops.right.left
    have h₂ := hops.right.right
    simp only [List.length_cons, List.length_nil, size_adjust, Nat.zero_add, Nat.reduceAdd, hn]
      at hminus h₂
    refine (reaches_ops rfl (h₁.take 2) rfl m).andThen (fun m ↦ ?_) (by simp; omega)
    refine reaches_branchOn isJump_jumpIfNull (h₁ 2 _ rfl) (by omega) (fun m ↦ ?_) (fun m ↦ ?_) m
    · refine reaches_ops rfl ?_ (by simp [hskip]) m
      rw [hskip, show i + n + 7 = i + 6 + n + 1 by omega]
      exact h₂.drop 1 (by simp)
    · rw [← hnext]
      refine Reaches.thenJump ?_ (h₂ 0 _ rfl) (by omega)
      refine reaches_ops (by simp [Op.isStraight, all_adjust]) ?_ ?_ m
      · exact Routine.Holds.append (h₁.drop 3 (by simp)) hminus
      · simp [size_adjust, hn]; omega

/-- What `&&` and `||` do once the left operand is there. -/
theorem reaches_decide {op : BinaryOp} {skip : Label} {decided undecided : Block} {k j : Nat}
    (h : R.Holds k [.dup, skipJump op skip, .pop]) (ht : k + 1 < R.target skip)
    (hd : ∀ m, Reaches r update fuel frame R (R.target skip) m (decided m) j)
    (hu : ∀ m, Reaches r update fuel frame R (k + 3) m (undecided m) j) (m : Machine) :
    Reaches r update fuel frame R k m (decide r update fuel frame op decided undecided m) j := by
  have hle := (hu m).1
  refine (reaches_ops rfl (h.take 1) rfl m).andThen (fun m ↦ ?_) (by simp; omega)
  refine reaches_branchOn (isJump_skipJump op) (h 1 _ rfl) ht hd (fun m ↦ ?_) m
  exact (reaches_ops rfl (h.drop 2 (by simp)) rfl m).andThen hu (by simp; omega)

section

variable {op : BinaryOp} {left right : Fragment} {flag counter : Nat} {points : List SavePoint}
variable {i j k l : Nat} {skip done : Label}

theorem reaches_skipBranch
    (h : R.Holds l [.jump done, (layoutFor layout flag).assign flag false, .counterLoad counter,
      .jumpIfZero done]) (hd : DetachAt R points (l + 4) j) (hdone : R.target done = j)
    (m : Machine) :
    Reaches r update fuel frame R (l + 1) m
      (skipBranch r update fuel frame layout flag counter points m) j := by
  have hle := hd.le
  refine (reaches_ops ?_ ((h.drop 1 (by simp)).take 1) rfl m).andThen (fun m ↦ ?_) (by simp; omega)
  · simp [isStraight_assign]
  refine (reaches_ops rfl ((h.drop 2 (by simp)).take 1) rfl m).andThen (fun m ↦ ?_) (by simp; omega)
  refine reaches_branchOn isJump_jumpIfZero (h 3 _ rfl) (by omega) (fun m ↦ ?_)
    (reaches_detachAll hd) m
  rw [hdone]
  exact .skip j m

/-- The right operand of a branch, up to the end of the branch. -/
theorem reaches_branchRight {block : Block}
    (h : R.Holds l [.jump done, (layoutFor layout flag).assign flag false, .counterLoad counter,
      .jumpIfZero done]) (hd : DetachAt R points (l + 4) j) (hdone : R.target done = j) {m : Machine}
    (hr : Reaches r update fuel frame R i m (block m) l) :
    Reaches r update fuel frame R i m (block m) j := by
  have hle := hd.le
  have hr := hr.thenJump h.head (by omega)
  rwa [hdone] at hr

end

/-- The code of a fragment runs as its structure says. -/
theorem reaches_run {f : Fragment} {i j : Nat} (hs : f.isStraight) (h : CodeAt R at_ layout f i j)
    (m : Machine) :
    Reaches r update fuel frame R i m (f.run r update fuel frame layout m) j := by
  induction f generalizing i j m with
  | ops list => exact reaches_ops hs h.1 h.2 m
  | flagTest flag => exact reaches_ops (by simp [isStraight_test]) h.1 h.2 m
  | flagAssign flag value => exact reaches_ops (by simp [isStraight_assign]) h.1 h.2 m
  | observe property p => exact reaches_observe h m
  | append f g ih ih' =>
    obtain ⟨hf, hg⟩ := Bool.and_eq_true_iff.mp hs
    obtain ⟨k, h, h'⟩ := h
    exact (ih hf h m).andThen (ih' hg h') h'.le
  | nullGuard f g ih ih' =>
    obtain ⟨hf, hg⟩ := Bool.and_eq_true_iff.mp hs
    obtain ⟨isNull, done, k, hops, h, hjump, hnull, h', hdone⟩ := h
    have hle := h.le
    have hle' := h'.le
    refine (reaches_ops rfl (hops.take 1) rfl m).andThen (fun m ↦ ?_) (by simp; omega)
    refine reaches_branchOn isJump_jumpIfNull (hops 1 _ rfl) (by omega) (fun m ↦ ?_) (fun m ↦ ?_) m
    · rw [hnull]
      refine (reaches_ops rfl (hjump.drop 1 (by simp)) rfl m).andThen (fun m ↦ ?_) (by simp; omega)
      exact ih' hg h' m
    · have hr := (ih hf h m).thenJump hjump.head (by omega)
      rwa [hdone] at hr
  | shortCircuit op f g ih ih' =>
    obtain ⟨hf, hg⟩ := Bool.and_eq_true_iff.mp hs
    obtain ⟨done, k, h, hops, h', rfl⟩ := h
    have hle := h'.le
    refine (ih hf h m).andThen (fun m ↦ ?_) (by omega)
    exact reaches_decide hops (by omega) (fun m ↦ .skip _ m) (ih' hg h') m
  | branch op f g flag counter points ih ih' =>
    obtain ⟨hf, hg⟩ := Bool.and_eq_true_iff.mp hs
    obtain ⟨skip, done, k, l, h, hops, h', htail, hskip, hd, hdone⟩ := h
    have hle := h'.le
    have hle' := hd.le
    refine (ih hf h m).andThen (fun m ↦ ?_) (by omega)
    refine reaches_decide (hops.take 3) (by omega) (fun m ↦ ?_) (fun m ↦ ?_) m
    · rw [hskip]
      exact reaches_skipBranch htail hd hdone m
    · refine reaches_branchRight htail hd hdone ?_
      refine (reaches_ops ?_ (hops.drop 3 (by simp)) rfl m).andThen (ih' hg h') hle
      simp [isStraight_assign]

/-- From where a step resumes, the rest of the code runs as its structure says. -/
theorem reaches_resume {f : Fragment} {i j k : Nat} (hs : f.isStraight)
    (h : CodeAt R at_ layout f i j) (hk : k ∈ f.steps) (m : Machine) :
    Reaches r update fuel frame R (at_ k) m (f.resume r update fuel frame layout k m) j := by
  induction f generalizing i j m with
  | ops | flagTest | flagAssign => simp [steps, points] at hk
  | observe property p =>
    obtain rfl : k = p.step := by simpa [steps, points] using hk
    exact reaches_reread h m
  | append f g ih ih' =>
    obtain ⟨hf, hg⟩ := Bool.and_eq_true_iff.mp hs
    obtain ⟨l, h, h'⟩ := h
    simp only [resume]
    split
    · next hk => exact (ih hf h hk m).andThen (reaches_run hg h') h'.le
    · next hk' => exact ih' hg h' ((List.mem_append.mp (by simpa using hk)).resolve_left hk') m
  | nullGuard f g ih ih' =>
    obtain ⟨hf, hg⟩ := Bool.and_eq_true_iff.mp hs
    obtain ⟨isNull, done, l, hops, h, hjump, hnull, h', hdone⟩ := h
    have hle' := h'.le
    simp only [resume]
    split
    · next hk =>
      have hr := (ih hf h hk m).thenJump hjump.head (by omega)
      rwa [hdone] at hr
    · next hk' => exact ih' hg h' ((List.mem_append.mp (by simpa using hk)).resolve_left hk') m
  | shortCircuit op f g ih ih' =>
    obtain ⟨hf, hg⟩ := Bool.and_eq_true_iff.mp hs
    obtain ⟨done, l, h, hops, h', rfl⟩ := h
    have hle := h'.le
    simp only [resume]
    split
    · next hk =>
      refine (ih hf h hk m).andThen (fun m ↦ ?_) (by omega)
      exact reaches_decide hops (by omega) (fun m ↦ .skip _ m) (reaches_run hg h') m
    · next hk' => exact ih' hg h' ((List.mem_append.mp (by simpa using hk)).resolve_left hk') m
  | branch op f g flag counter points ih ih' =>
    obtain ⟨hf, hg⟩ := Bool.and_eq_true_iff.mp hs
    obtain ⟨skip, done, l, l', h, hops, h', htail, hskip, hd, hdone⟩ := h
    have hle := h'.le
    have hle' := hd.le
    simp only [resume]
    split
    · next hk =>
      refine (ih hf h hk m).andThen (fun m ↦ ?_) (by omega)
      refine reaches_decide (hops.take 3) (by omega) (fun m ↦ ?_) (fun m ↦ ?_) m
      · rw [hskip]
        exact reaches_skipBranch htail hd hdone m
      · refine reaches_branchRight htail hd hdone ?_
        refine (reaches_ops ?_ (hops.drop 3 (by simp)) rfl m).andThen (reaches_run hg h') hle
        simp [isStraight_assign]
    · next hk' =>
      exact reaches_branchRight htail hd hdone (ih' hg h' ((List.mem_append.mp (by simpa using hk)).resolve_left hk') m)

end Fragment

end LiveBinding
