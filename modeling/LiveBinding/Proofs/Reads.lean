import LiveBinding.Proofs.Direct

namespace LiveBinding

open Exec Fragment

/-- The observable cell of which an instruction reads the value as that of a property. -/
def World.cellRead (w : World) : Op → List Value → Option CellId
  | .getProperty p, .object o :: _ => w.observable? o p
  | _, _ => none

namespace Exec

variable (r : Registry) (update : Updater) (fuel : Nat) (frame : Frame) (R : Routine)

/-- The cells that a routine reads through observable properties, in order. It follows `execute`. -/
def cellHistory : Nat → Machine → List CellId
  | 0, _ => []
  | steps + 1, m =>
    match R.ops[m.pc]? with
    | none | some .return => []
    | some op =>
      (m.world.cellRead op m.stack).toList ++
        match step r update fuel frame R op { m with pc := m.pc + 1 } with
        | (.ok _, m') => cellHistory steps m'
        | (.error _, _) => []

/-- Control goes from position `i` to a later position `j`, by at most one instruction for each
position in between, and some cells are read on the way. -/
def Passes (i : Nat) (m : Machine) (cells : List CellId) (j : Nat) (m' : Machine) : Prop :=
  i ≤ j ∧ ∃ k ≤ j - i, ∀ n, cellHistory r update fuel frame R (n + k) { m with pc := i } =
    cells ++ cellHistory r update fuel frame R n { m' with pc := j }

variable {r update fuel frame R}

theorem cellHistory_succ {op : Op} (n : Nat) (m : Machine) (h : R.ops[m.pc]? = some op)
    (hr : op ≠ .return) :
    cellHistory r update fuel frame R (n + 1) m = (m.world.cellRead op m.stack).toList ++
      match step r update fuel frame R op { m with pc := m.pc + 1 } with
      | (.ok _, m') => cellHistory r update fuel frame R n m'
      | (.error _, _) => [] := by
  simp only [cellHistory, h]

namespace Passes

variable {i j l : Nat} {m m' m'' : Machine} {cells cells' : List CellId}

theorem refl (i : Nat) (m : Machine) : Passes r update fuel frame R i m [] i m :=
  ⟨Nat.le_refl i, 0, Nat.zero_le _, fun _ ↦ rfl⟩

theorem trans (h : Passes r update fuel frame R i m cells j m')
    (h' : Passes r update fuel frame R j m' cells' l m'') :
    Passes r update fuel frame R i m (cells ++ cells') l m'' := by
  obtain ⟨hij, k, hk, hg⟩ := h
  obtain ⟨hjl, k', hk', hg'⟩ := h'
  refine ⟨by omega, k' + k, by omega, fun n ↦ ?_⟩
  rw [← Nat.add_assoc, hg, hg', List.append_assoc]

/-- An instruction that does not jump. -/
theorem op {op : Op} (hs : op.isStraight) (h : R.ops[i]? = some op)
    (hrun : (runOp r update fuel frame op m).result = .ok ()) :
    Passes r update fuel frame R i m (m.world.cellRead op m.stack).toList (i + 1)
      (runOp r update fuel frame op m).machine := by
  refine ⟨by omega, 1, by omega, fun n ↦ ?_⟩
  have hstep : step r update fuel frame R op { m with pc := i + 1 } =
      ((step r update fuel frame default op m).1,
        { (step r update fuel frame default op m).2 with pc := i + 1 }) := by
    rw [step_routine r update fuel frame hs R default]
    exact pcFree_step r update fuel frame hs default m (i + 1)
  rw [cellHistory_succ n { m with pc := i } h (Op.ne_return_of_isStraight hs)]
  rw [hstep]
  unfold runOp at hrun ⊢
  generalize step r update fuel frame default op m = x at hrun ⊢
  obtain ⟨_ | _, m'⟩ := x
  · cases hrun
  · rfl

theorem dup {v : Value} {σ : List Value} (h : R.ops[i]? = some .dup) (hm : m.stack = v :: σ) :
    Passes r update fuel frame R i m [] (i + 1) { m with stack := v :: v :: σ } := by
  have hrun : runOp r update fuel frame .dup m = _ := does_dup hm
  have hpass := @op r update fuel frame R i m .dup rfl h (by rw [hrun])
  rwa [hrun] at hpass

theorem pop {v : Value} {σ : List Value} (h : R.ops[i]? = some .pop) (hm : m.stack = v :: σ) :
    Passes r update fuel frame R i m [] (i + 1) { m with stack := σ } := by
  have hrun : runOp r update fuel frame .pop m = _ := does_pop hm
  have hpass := @op r update fuel frame R i m .pop rfl h (by rw [hrun])
  rwa [hrun] at hpass

/-- A jump, which is taken or not. -/
theorem branchOn {jump : Label → Op} {l : Label} {b : Bool} (hj : IsJump jump)
    (h : R.ops[i]? = some (jump l)) (hread : m.world.cellRead (jump l) m.stack = none)
    (hcond : condition (jump default) m = (.ok b, m')) (ht : i < R.target l) :
    Passes r update fuel frame R i m [] (if b then R.target l else i + 1) m' := by
  have hcond' : condition (jump default) { m with pc := i + 1 } = (.ok b, { m' with pc := i + 1 }) := by
    rw [condition_pc (jump default) m (i + 1), hcond]
  refine ⟨by split <;> omega, 1, by split <;> omega, fun n ↦ ?_⟩
  rw [cellHistory_succ n { m with pc := i } h (hj.ne_return l)]
  simp only [hread, Option.toList_none, List.nil_append, hj.step_eq, bind_apply, hcond']
  cases b <;> simp only [jumpIf, goto, modify_apply, pure_apply, if_true, if_false, Bool.false_eq_true]

/-- Looks whether the value on top is `null`. -/
theorem guard {l : Label} {v : Value} {σ : List Value} (h : R.Holds i [.dup, .jumpIfNull l])
    (hm : m.stack = v :: σ) (ht : i + 1 < R.target l) :
    Passes r update fuel frame R i m [] (if v.isNull then R.target l else i + 2)
      { m with stack := v :: σ } := by
  have hbranch := @branchOn r update fuel frame R (i + 1) { m with stack := v :: v :: σ }
    { m with stack := v :: σ } .jumpIfNull l v.isNull isJump_jumpIfNull (h 1 _ rfl) rfl rfl ht
  exact (dup (h 0 _ rfl) hm).trans hbranch

/-- Looks whether the left operand of `&&` or `||` decides, and takes it off if it does not. -/
theorem decide {op : BinaryOp} {l : Label} {v : Value} {σ : List Value} {t : Bool}
    (h : R.Holds i [.dup, Fragment.skipJump op l, .pop]) (hm : m.stack = v :: σ) (hv : v.toBool = .ok t)
    (ht : i + 1 < R.target l) :
    Passes r update fuel frame R i m [] (if op.skips t then R.target l else i + 3)
      { m with stack := if op.skips t then v :: σ else σ } := by
  have hcond : condition (Fragment.skipJump op default) { m with stack := v :: v :: σ } =
      (.ok (op.skips t), { m with stack := v :: σ }) := by
    by_cases hop : op = .and <;>
      simp only [Fragment.skipJump, BinaryOp.skips, hop, if_true, if_false, condition, bind_apply,
        pop_apply, hv] <;> rfl
  have hread : m.world.cellRead (Fragment.skipJump op l) (v :: v :: σ) = none := by
    unfold Fragment.skipJump
    split <;> rfl
  have hbranch := @branchOn r update fuel frame R (i + 1) { m with stack := v :: v :: σ } _ _ l _
    (isJump_skipJump op) (h 1 _ rfl) hread hcond ht
  have hstart := (dup (h 0 _ rfl) hm).trans hbranch
  by_cases hskip : op.skips t
  · simp only [hskip, if_true] at hstart ⊢
    exact hstart
  · simp only [hskip, if_false, Bool.false_eq_true] at hstart ⊢
    exact hstart.trans (pop (h 2 _ rfl) rfl)

/-- A jump at the end. -/
theorem thenJump {l : Label} (h : Passes r update fuel frame R i m cells j m')
    (hj : R.ops[j]? = some (.jump l)) (ht : j < R.target l) :
    Passes r update fuel frame R i m cells (R.target l) m' := by
  rw [← List.append_nil cells]
  refine h.trans ⟨by omega, 1, by omega, fun n ↦ ?_⟩
  rw [cellHistory_succ n { m' with pc := j } hj (by simp)]
  rfl

end Passes

end Exec

/-- What is gathered after a computation, if that comes to a result. -/
def Effect.after {α β : Type} (x : Effect α) (f : α → List β) : List β :=
  match x.result with
  | .ok a => f a
  | .error _ => []

namespace Effect

variable {α β γ δ : Type} {x : Effect α} {f g : α → List γ}

theorem after_of_ok {a : α} (h : x.result = .ok a) (f : α → List γ) : x.after f = f a := by
  simp only [after, h]

theorem after_of_error {e : Stop} (h : x.result = .error e) (f : α → List γ) : x.after f = [] := by
  simp only [after, h]

theorem after_congr (h : ∀ a, x.result = .ok a → f a = g a) : x.after f = x.after g := by
  unfold after
  split
  · next a ha => exact h a ha
  · rfl

theorem after_nil : (x.after fun _ ↦ ([] : List γ)) = [] := by
  unfold after
  split <;> rfl

/-- What is gathered after related computations. -/
theorem Rel.after {k : Prop} {P : α → β → Prop} {y : Effect β} {g : β → List γ} (h : Rel k P x y)
    (hfg : ∀ a b, x.result = .ok a → y.result = .ok b → P a b → f a = g b) : x.after f = y.after g := by
  obtain ⟨-, ⟨a, b, hx, hy, hp⟩ | ⟨e, hx, hy⟩⟩ := h
  · rw [after_of_ok hx, after_of_ok hy, hfg a b hx hy hp]
  · rw [after_of_error hx, after_of_error hy]

end Effect

namespace Reading

variable (rd : Reading)

/-- The cell that an instruction reads through an observable property. -/
def cellRead : Op → List Value → Option CellId
  | .getProperty p, .object o :: _ => (rd.cell o p).toOption
  | _, _ => none

def cellsRead : List Op → Config → List CellId
  | [], _ => []
  | op :: list, c => (rd.cellRead op c.stack).toList ++ (rd.ordinary op c).after (cellsRead list)

end Reading

/-- What the right operand of `&&` or `||` reads, if the left one on the stack does not decide. -/
def Config.readsBehind (op : BinaryOp) (undecided : Config → List CellId) : Config → List CellId
  | ⟨[], _⟩ => []
  | ⟨v :: σ, st⟩ => (Effect.of (Stop.raise v.toBool)).after fun b ↦
    if op.skips b then [] else undecided ⟨σ, st⟩

theorem Config.readsBehind_of_toBool {op : BinaryOp} {undecided : Config → List CellId} {v : Value}
    {σ : List Value} {st : Store} {t : Bool} (h : v.toBool = .ok t) :
    readsBehind op undecided ⟨v :: σ, st⟩ = if op.skips t then [] else undecided ⟨σ, st⟩ := by
  simp only [readsBehind, h]
  rfl

namespace Fragment

/-- The cells that a fragment reads through observable properties, in order. -/
def cellsRead (rd : Reading) : Fragment → Config → List CellId
  | ops list, c => rd.cellsRead list c
  | append f g, c => cellsRead rd f c ++ (f.den rd c).after (cellsRead rd g)
  | nullGuard _ _, ⟨[], _⟩ => []
  | nullGuard f g, ⟨v :: σ, st⟩ => if v.isNull then cellsRead rd g ⟨σ, st⟩ else cellsRead rd f ⟨v :: σ, st⟩
  | shortCircuit op f g, c =>
    cellsRead rd f c ++ (f.den rd c).after (Config.readsBehind op (cellsRead rd g))
  | flagTest _, _ | flagAssign .., _ => []
  | observe property _, c => (rd.cellRead (.getProperty property) c.stack).toList
  | branch op f g flag _ _, c =>
    cellsRead rd f c ++
      (f.den rd c).after (Config.readsBehind op fun c ↦ cellsRead rd g (c.setFlag flag true))

end Fragment

theorem World.Alike.cellRead {r : Registry} {answer : MethodId → List Value → Except Stop Value}
    {locals : List Value} {captures : Array Value} {w w' : World} (h : w.Alike w') (op : Op)
    (σ : List Value) : w'.cellRead op σ = (w.reading r answer locals captures).cellRead op σ := by
  unfold World.cellRead Reading.cellRead
  split
  · next p o _ =>
    rw [h.observable?]
    simp only [World.reading]
    cases w.observable? o p <;> rfl
  · rfl

namespace Exec

theorem andThen_ok_of_ok {a b : Block} {m : Machine} (h : (a.andThen b m).result = .ok ()) :
    (a m).result = .ok () ∧ (b (a m).machine).result = .ok () ∧
      (a.andThen b m).machine = (b (a m).machine).machine := by
  cases ha : (a m).result with
  | error e =>
    rw [andThen_of_error ha, ha] at h
    cases h
  | ok u =>
    rw [andThen_of_ok ha] at h ⊢
    exact ⟨rfl, h, rfl⟩

end Exec

theorem Outcome.Follows.of_ok {enough : MethodId → List Value → Prop} {P : Machine → Config → Prop}
    {W : List Loc} {st : Store} {o : Outcome} {e : Effect Config} (h : o.Follows enough P W st e)
    {c : Config} (he : e.result = .ok c) (ho : o.result = .ok ()) : P o.machine c := by
  obtain ⟨hx, -⟩ | ⟨-, ⟨d, hd, -, hP⟩ | ⟨x, -, hx⟩⟩ := h.ends (by simp [he])
  · rw [ho] at hx
    cases hx
  · rw [he] at hd
    cases hd
    exact hP
  · rw [ho] at hx
    cases hx

theorem Evaluating.keep {w : World} {m : Machine} {c : Config} (h : Evaluating w m c) (σ : List Value) :
    Evaluating w { m with stack := σ } ⟨σ, c.store⟩ := (Evaluating.relates w).keep h σ m.world.events

section

variable {r : Registry} {update : Updater} {fuel : Nat} {frame : Frame} {R : Routine} {w : World}
variable {answer : MethodId → List Value → Except Stop Value} {captures : Array Value}
variable {enough : MethodId → List Value → Prop} (ha : Answers r update fuel w.objects answer enough)
include ha

theorem passes_ops {list : List Op} (hlist : list.all Op.isPlain) {i j : Nat} (h : R.Holds i list)
    (hj : j = i + list.length) {m : Machine} {c c' : Config} (hc : Evaluating w m c)
    (hden : ((w.reading r answer frame.locals captures).all list c).result = .ok c')
    (hrun : (runOps r update fuel frame list m).result = .ok ()) :
    Passes r update fuel frame R i m ((w.reading r answer frame.locals captures).cellsRead list c) j
      (runOps r update fuel frame list m).machine := by
  subst hj
  induction list generalizing i m c with
  | nil => exact .refl i m
  | cons op list ih =>
    simp only [List.all_cons, Bool.and_eq_true] at hlist
    obtain ⟨c₁, h₁, hden⟩ := Effect.result_bind_eq_ok.mp hden
    obtain ⟨hop, hops, hmachine⟩ := andThen_ok_of_ok hrun
    have hc₁ := (follows_op (Evaluating.relates w) ha hlist.1 hc).of_ok h₁ hop
    have halike := (Evaluating.relates w).alike hc
    have hfirst := Passes.op (Op.isStraight_of_isOrdinary (Op.isOrdinary_of_isPlain hlist.1)) h.head hop
    rw [halike.cellRead, hc.stack] at hfirst
    have hrest := ih hlist.2 h.tail hc₁ hden hops
    simp only [runOps, Reading.cellsRead, Effect.after_of_ok h₁, List.length_cons]
    rw [hmachine, show i + (list.length + 1) = i + 1 + list.length by omega]
    exact hfirst.trans hrest

/-- The code of a plain fragment reads the cells that its structure says. -/
theorem passes_run {f : Fragment} (hf : f.isPlain) {layout : Option FlagLayout} {at_ : Nat → Nat}
    {i j : Nat} (h : CodeAt R at_ layout f i j) {m : Machine} {c c' : Config} (hc : Evaluating w m c)
    (hden : (f.den (w.reading r answer frame.locals captures) c).result = .ok c')
    (hrun : (f.run r update fuel frame layout m).result = .ok ()) :
    Passes r update fuel frame R i m (f.cellsRead (w.reading r answer frame.locals captures) c) j
      (f.run r update fuel frame layout m).machine := by
  induction f generalizing i j m c c' with
  | ops list => exact passes_ops ha hf h.1 h.2 hc hden hrun
  | append f g ih ih' =>
    rw [isPlain, Bool.and_eq_true] at hf
    obtain ⟨k, h, h'⟩ := h
    obtain ⟨c₁, h₁, hden⟩ := Effect.result_bind_eq_ok.mp hden
    obtain ⟨hok, hok', hmachine⟩ := andThen_ok_of_ok hrun
    have hc₁ := (follows_plain (Evaluating.relates w) ha layout hf.1 hc).of_ok h₁ hok
    simp only [run, cellsRead, Effect.after_of_ok h₁]
    rw [hmachine]
    exact (ih hf.1 h hc h₁ hok).trans (ih' hf.2 h' hc₁ hden hok')
  | nullGuard f g ih ih' =>
    rw [isPlain, Bool.and_eq_true] at hf
    obtain ⟨isNull, done, k, hops, h, hjump, hnull, h', hdone⟩ := h
    have hle := h.le
    have hle' := h'.le
    obtain ⟨_ | ⟨v, σ⟩, st⟩ := c
    · cases hden
    have hstack := hc.stack
    rw [show (nullGuard f g).run r update fuel frame layout m = _ from nullGuard_eq hstack] at hrun ⊢
    have hstart := @Passes.guard r update fuel frame R i m isNull v σ hops hstack (by omega)
    simp only [den, cellsRead] at hden ⊢
    by_cases hv : v.isNull
    · simp only [hv, if_true, hnull] at hrun hden hstart ⊢
      exact (hstart.trans (.pop (hjump 1 _ rfl) rfl)).trans
        (ih' hf.2 h' (hc.keep σ) hden hrun)
    · simp only [hv, if_false, Bool.false_eq_true] at hrun hden hstart ⊢
      have hconvert := hstart.trans (ih hf.1 h (hc.keep (v :: σ)) hden hrun)
      have hend := hconvert.thenJump hjump.head (by omega)
      rwa [hdone] at hend
  | shortCircuit op f g ih ih' =>
    rw [isPlain, Bool.and_eq_true] at hf
    obtain ⟨done, k, h, hops, h', rfl⟩ := h
    have hle' := h'.le
    obtain ⟨c₁, h₁, hden⟩ := Effect.result_bind_eq_ok.mp hden
    obtain ⟨hok, hok', hmachine⟩ := andThen_ok_of_ok hrun
    have hc₁ := (follows_plain (Evaluating.relates w) ha layout hf.1 hc).of_ok h₁ hok
    have hleft := ih hf.1 h hc h₁ hok
    simp only [run, cellsRead, Effect.after_of_ok h₁]
    rw [hmachine]
    generalize (f.run r update fuel frame layout m).machine = m₁ at hc₁ hok' hleft ⊢
    obtain ⟨v, σ, t, hv, ht, hden⟩ := Config.fork_eq_ok hden
    obtain ⟨σ₁, st₁⟩ := c₁
    obtain rfl : σ₁ = v :: σ := hv
    have hstack := hc₁.stack
    have hstart := hleft.trans (@Passes.decide r update fuel frame R k m₁ op done v σ t hops hstack ht
      (by omega))
    rw [decide_eq hstack, ht] at hok' ⊢
    rw [Config.readsBehind_of_toBool ht]
    by_cases hskip : op.skips t
    · simp only [hskip, if_true] at hstart ⊢
      exact hstart
    · simp only [hskip, if_false, Bool.false_eq_true, List.append_nil] at hok' hden hstart ⊢
      exact hstart.trans (ih' hf.2 h' (hc₁.keep σ) hden hok')
  | flagTest | flagAssign | observe | branch => cases hf

end

theorem Exec.cellHistory_atEnd {r : Registry} {update : Updater} {fuel : Nat} {frame : Frame} {R : Routine}
    {m : Machine} (h : AtEnd R m.pc) (n : Nat) : cellHistory r update fuel frame R n m = [] := by
  cases n with
  | zero => rfl
  | succ n => rcases h with h | h <;> simp only [cellHistory, h]

/-- The cells that evaluating a routine reads through observable properties, in order. -/
def evaluationReads (r : Registry) (fuel : Nat) (R : Routine) (w : World) : List CellId :=
  cellHistory r (updateInstance r fuel) fuel { locals := w.frame } R fuel { world := w }

/-- Evaluating plain code reads the cells that the code means. -/
theorem evaluationReads_eq {r : Registry} {fuel : Nat} {w : World} {f : Fragment} {R : Routine}
    {answer : MethodId → List Value → Except RuntimeError Value} (hr : r.Functional w.objects answer)
    (hR : Assembler.Assembles ((f.emit none .empty).emit .return) R) (hf : f.isPlain) (st : Store)
    {c : Config} (hden : (f.den (w.reading r (asked answer) w.frame #[]) ⟨[], st⟩).result = .ok c)
    (hfuel : R.size ≤ fuel) (hne : (evaluate r fuel R w).1 ≠ .error .exhausted) :
    evaluationReads r fuel R w = f.cellsRead (w.reading r (asked answer) w.frame #[]) ⟨[], st⟩ := by
  have ha := hr.answers (updateInstance r fuel) fuel
  have hstart : Evaluating w { world := w } ⟨[], st⟩ := ⟨rfl, w.events, rfl⟩
  have hfollows := @follows_plain r (updateInstance r fuel) fuel { locals := w.frame } w _ #[] _ _
    (Evaluating.relates w) ha none _ hf _ _ hstart
  have hfin : Finishes r (updateInstance r fuel) fuel { locals := w.frame } R _ { world := w } _ :=
    finishes_fragment hR (Layout.plain .start hf).straight w
  have hrun : (f.run r (updateInstance r fuel) fuel { locals := w.frame } none { world := w }).result =
      .ok () := by
    obtain ⟨hx, -⟩ | ⟨-, ⟨_, -, ho, -⟩ | ⟨x, hx, -⟩⟩ := hfollows.ends (by simp [hden])
    · obtain ⟨⟨pc, hexec⟩, -⟩ := hfin.execute_of (.inl hfuel)
      refine absurd (evaluate_error (runRoutine_exhausted ?_)) hne
      rw [hexec]
      simp only [Exec.answer, hx]
    · exact ho
    · rw [hden] at hx
      cases hx
  have hcode := codeAt_emit hR none f (Assembler.continues_emit _ _)
  have hend : AtEnd R (f.emit none .empty).ops.size := .inr (hR.holds_one (.refl _)).head
  have hsize : R.size = (f.emit none .empty).ops.size + 1 := by
    rw [Routine.size, hR.routine_eq]
    exact Assembler.size_emit _ _
  obtain ⟨-, k, hk, hpass⟩ := passes_run ha hf hcode hstart hden hrun
  have hreads := hpass (fuel - k)
  rw [Nat.sub_add_cancel (by omega)] at hreads
  exact hreads.trans (by rw [cellHistory_atEnd hend, List.append_nil])

end LiveBinding
