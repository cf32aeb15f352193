import LiveBinding.Proofs.Destination
import LiveBinding.Proofs.Halting
import LiveBinding.Proofs.Incremental

/-!
Updates that nothing calls for. Between its updates a binding keeps what its code would leave there when
it is run again (`Deployment.Pending.settled`). Running it, from the start or from a point on, then stores
in every slot what is there, sets no flag to another value, and moves no listener
(`Instance.Reflects.follows_run`). So it comes to the value that is published, and publishing that tells
nobody.
-/

namespace LiveBinding

open Exec Fragment Config

namespace FlagLayout

theorem or_mask_self {bits : UInt64} {a : Nat} (h : (bits &&& mask a) ≠ 0) :
    bits ||| mask a = bits := by
  have hbit : bits.toBitVec.getLsbD (a % 64) = true := by
    by_contra hoff
    refine h (UInt64.toBitVec_inj.mp ?_)
    ext i hi
    simp [mask]
    grind
  apply UInt64.toBitVec_inj.mp
  ext i hi
  simp [mask]
  grind

theorem and_not_mask_self {bits : UInt64} {a : Nat} (h : (bits &&& mask a) = 0) :
    bits &&& ~~~mask a = bits := by
  apply UInt64.toBitVec_inj.mp
  ext i hi
  have hbit := congrArg (fun x ↦ x.toBitVec.getLsbD i) h
  simp at hbit ⊢
  grind

/-- Assigning to a flag what it holds changes no word. -/
theorem assigned_self {layout : FlagLayout} {flags : Array UInt64} {bit : Nat} {value : Bool}
    (h : layout.isSet flags bit = value) : layout.assigned flags bit value = flags := by
  refine Array.ext_getElem? fun j ↦ ?_
  rw [assigned, Array.getElem?_modify]
  split
  · next hj =>
    subst hj
    cases hx : flags[layout.wordOf bit]? with
    | none => rfl
    | some x =>
      simp only [isSet, Array.getD_eq_getD_getElem?, hx, Option.getD_some] at h
      cases value with
      | true => simp [or_mask_self (by simpa using h)]
      | false => simp [and_not_mask_self (by simpa using h)]
  · rfl

end FlagLayout

/-- A part goes on from what the one before it has come to. -/
theorem Outcome.Follows.andThen_ok {enough : MethodId → List Value → Prop}
    {P : Machine → Config → Prop} {a b : Block} {m : Machine} {st : Store} {e : Effect Config}
    {f : Config → Effect Config} {c : Config} (h : (a m).Follows enough P [] st e)
    (he : e.result = .ok c) (h' : ∀ m, P m c → (b m).Follows enough P [] st (f c)) :
    (a.andThen b m).Follows enough P [] st (e >>= f) := by
  rw [Effect.bind_of_ok f he]
  obtain ⟨hr, call, hmem, hnot⟩ | ⟨hcalls, ⟨d, hd, hr, hP⟩ | ⟨x, hx, -⟩⟩ :=
    h.ends (by rw [he]; simp)
  · rw [andThen_of_error hr]
    exact ⟨h.within, fun _ ↦ .inl ⟨hr, call, List.mem_append_left _ hmem, hnot⟩⟩
  · obtain rfl : c = d := Except.ok.inj (he.symm.trans hd)
    have hb := h' _ hP
    rw [andThen_of_ok hr]
    refine ⟨hb.within, fun hne ↦ (hb.ends hne).imp ?_ ?_⟩
    · rintro ⟨hx, call, hmem, hnot⟩
      exact ⟨hx, call, List.mem_append_right _ hmem, hnot⟩
    · exact And.imp_left fun hcalls' ↦ by rw [hcalls, hcalls']
  · rw [he] at hx
    cases hx

theorem Effect.Within.result_of_ok {α : Type} {x y : Effect α} {a : α} (h : x.Within y)
    (hx : x.result = .ok a) : x = y ∧ y.result = .ok a := by
  have heq := h.eq_of_ne (by rw [hx]; nofun)
  exact ⟨heq, heq ▸ hx⟩

theorem Evaluating.instance? {w₀ : World} {m : Machine} {c : Config} (h : Evaluating w₀ m c)
    (i : InstanceId) : m.world.instance? i = w₀.instance? i := by
  obtain ⟨events, hw⟩ := h.world
  rw [hw]
  rfl

/-- What a binding keeps reflects a store: its slots, its flags, and its counters, which count the
points that hold a cell. -/
structure Instance.Reflects (artifact : Artifact) (points : List SavePoint) (s : Instance)
    (st : Store) : Prop where
  slots : ∀ n < artifact.scratch, s.scratch[n]? = some (st (.slot n))
  handles : ∀ p ∈ points, p.handle < artifact.scratch
  words : ∀ n < artifact.flags.bits, artifact.flags.wordOf n < s.flags.size
  flags : ∀ n < artifact.flags.bits, st (.flag n) = .bool (artifact.flags.isSet s.flags n)
  counters : ∀ n < artifact.counters, s.counters[n]? =
    some (.ofNat (points.countP fun p ↦ n ∈ p.counters && !(st p.loc).isNull))

theorem Instance.setScratch_self {s : Instance} {n : Nat} {v : Value} (h : s.scratch[n]? = some v) :
    s.setScratch n v = s := by
  obtain ⟨hn, rfl⟩ := Array.getElem?_eq_some_iff.mp h
  simp only [setScratch, Array.setIfInBounds_def, hn, dif_pos, Array.set_getElem_self]

theorem Fragment.sequential_of_writes {f : Fragment} (h : f.writes = []) : f.Sequential := by
  have hpoints {g : Fragment} (hg : g.writes = []) : g.points = [] :=
    List.map_eq_nil_iff.mp (List.subset_nil.mp (hg ▸ g.points_subset_writes))
  induction f with
  | ops list => exact .inl (List.map_eq_nil_iff.mp h)
  | observe => trivial
  | flagTest | flagAssign | branch => simp [writes, locs] at h
  | append f g ih ih' =>
    obtain ⟨hf, hg⟩ := List.append_eq_nil_iff.mp h
    exact ⟨ih hf, ih' hg, fun _ _ ↦ by simp [show g.writes = [] from hg]⟩
  | nullGuard f g =>
    obtain ⟨hf, hg⟩ := List.append_eq_nil_iff.mp h
    exact ⟨⟨hpoints hf, hpoints hg⟩, hf, hg⟩
  | shortCircuit op f g ih ih' =>
    obtain ⟨hf, hg⟩ := List.append_eq_nil_iff.mp h
    exact ⟨ih hf, ih' hg, hpoints hg, fun _ _ ↦ by simp [show g.writes = [] from hg]⟩

/-- Resuming at a point that is reached comes to what evaluating comes to. -/
theorem Fragment.Reached.denFrom_of_ok {rd : Reading} {f : Fragment} {k : Nat} {c c' : Config}
    (h : f.Reached rd.guarded k c) (hrd : rd.strict = false)
    (hok : (f.den rd.guarded c).result = .ok c') :
    (f.denFrom rd k ⟨[], c.store⟩).result = .ok c' :=
  ((denFrom_guarded hrd k f _).result_of_ok (h.denFrom_eq.trans hok)).2

theorem Exec.does_getObservable {r : Registry} {update : Updater} {fuel : Nat} {frame : Frame}
    {m : Machine} {property : String} {v : Value} {σ : List Value} {o : ObjectId} {d : CellId}
    (hm : m.stack = v :: σ) (hv : v.receiver property = .ok o)
    (hd : m.world.observable? o property = some d) :
    Does r update fuel frame (.getObservable property) m { m with stack := .cell d :: σ } := by
  cases v <;> cases hv
  simp only [Does, runOp, step, popReceiver, bind_apply, pop_apply, hm, get_apply, pure_apply, hd,
    push_apply]
  rfl

namespace Instance.Reflects

variable {artifact : Artifact} {points : List SavePoint} {s : Instance} {st : Store}
variable {r : Registry} {update : Updater} {fuel : Nat} {frame : Frame} {i : InstanceId}
variable {m : Machine} {p : SavePoint} {σ σ' : List Value}

theorem slot (h : s.Reflects artifact points st) (hp : p ∈ points) :
    s.scratch[p.handle]? = some (st p.loc) := h.slots _ (h.handles p hp)

section

variable (h : s.Reflects artifact points st) (hb : frame.binding = some i)
variable (hs : m.world.instance? i = some s)
include h hb hs

theorem does_storeScratch {n : Nat} (hn : n < artifact.scratch)
    (hm : m.stack = st (.slot n) :: σ) :
    Does r update fuel frame (.storeScratch n) m { m with stack := σ } := by
  have hslot := h.slots n hn
  obtain ⟨hlt, -⟩ := Array.getElem?_eq_some_iff.mp hslot
  have hdoes : Does r update fuel frame (.storeScratch n) m _ := Exec.does_storeScratch hb hs hm hlt
  rwa [setScratch_self hslot, World.put_self hs] at hdoes

/-- Assigning to a flag what it holds. -/
theorem assignFlag_self {flag : Nat} {value : Bool} (hf : flag < artifact.flags.bits)
    (hv : st (.flag flag) = .bool value) :
    assignFlag r update fuel frame (some artifact.flags) flag value m = ⟨[], .ok (), m⟩ := by
  have hset : artifact.flags.isSet s.flags flag = value := by
    rw [h.flags flag hf] at hv
    exact Value.bool.inj hv
  have hself : { s with flags := artifact.flags.assigned s.flags flag value } = s := by
    rw [FlagLayout.assigned_self hset]
  have hdoes : Does r update fuel frame (artifact.flags.assign flag value) m _ :=
    does_assign value hb hs (h.words flag hf)
  rw [hself, World.put_self hs] at hdoes
  exact runOps_cons hdoes []

/-- Skipping a right operand that is off and has no listeners. -/
theorem skipBranch_self {flag counter : Nat} {ps : List SavePoint} (hf : flag < artifact.flags.bits)
    (hc : counter < artifact.counters)
    (hcount : ∀ P : SavePoint → Bool, points.countP (fun p ↦ counter ∈ p.counters && P p) = ps.countP P)
    (hv : st (.flag flag) = .bool false) (hnull : ∀ p ∈ ps, st p.loc = .null) :
    skipBranch r update fuel frame (some artifact.flags) flag counter ps m = ⟨[], .ok (), m⟩ := by
  have hzero : s.counters[counter]? = some 0 := by
    rw [h.counters counter hc, hcount,
      List.countP_eq_zero.mpr fun p hp ↦ by simp [hnull p hp, Value.isNull]]
    rfl
  rw [skipBranch, andThen_ok (h.assignFlag_self hb hs hf hv),
    andThen_ok (runOps_cons (does_counterLoad hb hs hzero) []), branchOn_jumpIfZero rfl, if_pos rfl]
  rfl

/-- Listening to the cell that a point listens to. -/
theorem observe_self {property : String} {v : Value} {o : ObjectId} {d : CellId} (hp : p ∈ points)
    (hm : m.stack = v :: σ) (hv : v.receiver property = .ok o)
    (hd : m.world.observable? o property = some d) (hpoint : st p.loc = .cell d)
    (layout : Option FlagLayout) :
    (observe property p).run r update fuel frame layout m =
      ⟨[], .ok (), { m with stack := m.world.cellValue d :: σ }⟩ := by
  have hslot := hpoint ▸ h.slot hp
  show ((runOps r update fuel frame [.getObservable property]).andThen
    ((attach r update fuel frame p).andThen (reread r update fuel frame p))) m = _
  rw [andThen_ok (runOps_cons (does_getObservable hm hv hd) []), andThen_ok (attach_same hb hs hslot),
    reread, runOps_cons (does_loadScratch (m := { m with stack := σ }) hb hs hslot),
    runOps_cons (does_observableValue rfl)]
  rfl

end

section

variable {w₀ : World} {answer : MethodId → List Value → Except Stop Value}
variable {enough : MethodId → List Value → Prop}
variable (h : s.Reflects artifact points st) (hb : frame.binding = some i)
variable (hs : w₀.instance? i = some s) (ha : Answers r update fuel w₀.objects answer enough)
include h hb hs ha

theorem follows_op {op : Op} (hop : op.Placed artifact points) (hm : Evaluating w₀ m ⟨σ, st⟩)
    (hok : ((w₀.reading r answer frame.locals s.captures).ordinary op ⟨σ, st⟩).result = .ok ⟨σ', st⟩) :
    (runOp r update fuel frame op m).Follows enough (Evaluating w₀) [] st
      ((w₀.reading r answer frame.locals s.captures).ordinary op ⟨σ, st⟩) := by
  have hfound := (hm.instance? i).trans hs
  obtain hplain | ⟨n, rfl⟩ | ⟨n, rfl | rfl, hn, -⟩ := hop
  · exact Exec.follows_op (Evaluating.relates w₀) ha hplain hm
  · have hread : (w₀.reading r answer frame.locals s.captures).ordinary (.loadCapture n) ⟨σ, st⟩ =
        (s.captures[n]?).elim (.fail (.fault "capture slot out of range"))
          fun v ↦ pure ⟨v :: σ, st⟩ := by
      simp only [Reading.ordinary, Reading.op, Reading.simple, World.reading]
      cases s.captures[n]? <;> rfl
    rw [hread] at hok ⊢
    cases hv : s.captures[n]? with
    | none =>
      rw [hv] at hok
      cases hok
    | some v =>
      exact .ok (does_loadCapture hb hfound hv) ⟨congrArg (v :: ·) hm.stack, hm.world⟩ fun _ _ ↦ rfl
  · exact .ok (does_loadScratch hb hfound (h.slots n hn)) ⟨congrArg (_ :: ·) hm.stack, hm.world⟩
      fun _ _ ↦ rfl
  · obtain _ | ⟨v, τ⟩ := σ
    · cases hok
    have hupdate : Function.update st (.slot n) v = st := congrArg Config.store (Except.ok.inj hok)
    obtain rfl : st (.slot n) = v := by
      rw [← hupdate]
      exact Function.update_self _ _ _
    refine .ok (h.does_storeScratch hb hfound hn hm.stack) ⟨rfl, hm.world⟩ fun _ _ ↦ ?_
    exact congrFun hupdate _

theorem follows_ops {list : List Op} (hlist : ∀ op ∈ list, op.Placed artifact points)
    (hstores : storesOf list = [] ∨ ∃ n, list = [.storeScratch n]) (hm : Evaluating w₀ m ⟨σ, st⟩)
    (hok : ((w₀.reading r answer frame.locals s.captures).all list ⟨σ, st⟩).result = .ok ⟨σ', st⟩) :
    (runOps r update fuel frame list m).Follows enough (Evaluating w₀) [] st
      ((w₀.reading r answer frame.locals s.captures).all list ⟨σ, st⟩) := by
  obtain hnone | ⟨n, rfl⟩ := hstores
  · induction list generalizing m σ with
    | nil => exact .ok rfl hm fun _ _ ↦ rfl
    | cons op list ih =>
      have hop : ∀ n, op ≠ .storeScratch n := by
        rintro n rfl
        simp [storesOf] at hnone
      have hrest : storesOf list = [] := by
        rw [storesOf, List.filterMap_eq_nil_iff] at hnone ⊢
        exact fun op hop ↦ hnone op (List.mem_cons_of_mem _ hop)
      obtain ⟨⟨τ, st₁⟩, h₁, h₂⟩ := Effect.result_bind_eq_ok.mp hok
      obtain rfl : st₁ = st := funext fun l ↦
        Reading.ordinary_store h₁ fun n he ↦ absurd he (hop n)
      exact (h.follows_op hb hs ha (hlist op List.mem_cons_self) hm h₁).andThen_ok h₁ fun _ hm ↦
        ih (fun op hop ↦ hlist op (List.mem_cons_of_mem _ hop)) hm h₂ hrest
  · have hone : (w₀.reading r answer frame.locals s.captures).all [.storeScratch n] ⟨σ, st⟩ =
        (w₀.reading r answer frame.locals s.captures).ordinary (.storeScratch n) ⟨σ, st⟩ :=
      bind_pure _
    rw [hone] at hok ⊢
    rw [runOps_one]
    exact h.follows_op hb hs ha (hlist _ List.mem_cons_self) hm hok

section

variable {g : Fragment} (hg : ∀ {m : Machine} {σ σ' : List Value}, Evaluating w₀ m ⟨σ, st⟩ →
  (g.den (w₀.reading r answer frame.locals s.captures) ⟨σ, st⟩).result = .ok ⟨σ', st⟩ →
  (g.run r update fuel frame (some artifact.flags) m).Follows enough (Evaluating w₀) [] st
    (g.den (w₀.reading r answer frame.locals s.captures) ⟨σ, st⟩))
include hg

omit h hb hs ha in
/-- What comes after the left operand of `&&` or `||` does so if its right operand does. -/
theorem follows_right {op : BinaryOp} (hm : Evaluating w₀ m ⟨σ, st⟩)
    (hok : (fork op pure (g.den (w₀.reading r answer frame.locals s.captures)) ⟨σ, st⟩).result =
      .ok ⟨σ', st⟩) :
    (decide r update fuel frame op .skip (g.run r update fuel frame (some artifact.flags)) m).Follows
      enough (Evaluating w₀) [] st
      (fork op pure (g.den (w₀.reading r answer frame.locals s.captures)) ⟨σ, st⟩) := by
  obtain ⟨v, τ, t, rfl, ht, hok⟩ := fork_eq_ok hok
  rw [fork_of_toBool ht, decide_eq hm.stack, ht]
  dsimp only
  split
  · exact .ok (a := .skip) rfl ⟨rfl, hm.world⟩ fun _ _ ↦ rfl
  · next hskip =>
    rw [if_neg hskip] at hok
    exact hg ⟨rfl, hm.world⟩ hok

omit ha in
/-- The same where the right operand listens to cells. -/
theorem follows_branchRight {op : BinaryOp} {flag counter : Nat} {ps : List SavePoint} {v : Value}
    {t : Bool} (hflag : flag < artifact.flags.bits) (hcounter : counter < artifact.counters)
    (hcount : ∀ P : SavePoint → Bool, points.countP (fun p ↦ counter ∈ p.counters && P p) = ps.countP P)
    (hm : Evaluating w₀ m ⟨v :: σ, st⟩) (ht : v.toBool = .ok t)
    (hok : if op.skips t then skip flag ps ⟨v :: σ, st⟩ = ⟨σ', st⟩
      else st (.flag flag) = .bool true ∧
        (g.den (w₀.reading r answer frame.locals s.captures) ⟨σ, st⟩).result = .ok ⟨σ', st⟩) :
    (decide r update fuel frame op
      (skipBranch r update fuel frame (some artifact.flags) flag counter ps)
      ((assignFlag r update fuel frame (some artifact.flags) flag true).andThen
        (g.run r update fuel frame (some artifact.flags))) m).Follows enough (Evaluating w₀) [] st
      (fork op (fun c ↦ pure (c.skip flag ps))
        (fun c ↦ g.den (w₀.reading r answer frame.locals s.captures) (c.setFlag flag true))
        ⟨v :: σ, st⟩) := by
  have hfound := (hm.instance? i).trans hs
  rw [fork_of_toBool ht, decide_eq hm.stack, ht]
  dsimp only
  split
  · next hskip =>
    rw [if_pos hskip] at hok
    obtain ⟨hoff, hnull⟩ := off_of_skip hok
    rw [hok]
    exact .ok (h.skipBranch_self hb (m := { m with stack := v :: σ }) hfound hflag hcounter hcount hoff
      hnull) ⟨congrArg Config.stack hok, hm.world⟩ fun _ _ ↦ rfl
  · next hskip =>
    rw [if_neg hskip] at hok
    obtain ⟨hon, hok⟩ := hok
    have hself : Config.setFlag flag true ⟨σ, st⟩ = ⟨σ, st⟩ := by
      simp only [Config.setFlag, ← hon, Function.update_eq_self]
    rw [hself, andThen_ok (h.assignFlag_self hb (m := { m with stack := σ }) hfound hflag hon)]
    exact hg ⟨rfl, hm.world⟩ hok

end

/-- Code that would change nothing changes nothing when it runs, up to what the host records. -/
theorem follows_run {f : Fragment} (hf : f.Placed artifact points) (hseq : f.Sequential)
    (hm : Evaluating w₀ m ⟨σ, st⟩)
    (hok : (f.den (w₀.reading r answer frame.locals s.captures) ⟨σ, st⟩).result = .ok ⟨σ', st⟩) :
    (f.run r update fuel frame (some artifact.flags) m).Follows enough (Evaluating w₀) [] st
      (f.den (w₀.reading r answer frame.locals s.captures) ⟨σ, st⟩) := by
  induction f generalizing m σ σ' with
  | ops list => exact h.follows_ops hb hs ha hf hseq hm hok
  | flagTest | flagAssign => exact hseq.elim
  | append f g ih ih' =>
    obtain ⟨σ₁, h₁, h₂⟩ := noop_append hseq hok
    exact (ih hf.1 hseq.1 hm h₁).andThen_ok h₁ fun _ hm ↦ ih' hf.2 hseq.2.1 hm h₂
  | nullGuard f g ih ih' =>
    obtain _ | ⟨v, σ⟩ := σ
    · cases hok
    simp only [den] at hok ⊢
    simp only [run]
    rw [nullGuard_eq hm.stack]
    split
    · next hv =>
      rw [if_pos hv] at hok
      exact ih' hf.2 (sequential_of_writes hseq.2.2) ⟨rfl, hm.world⟩ hok
    · next hv =>
      rw [if_neg hv] at hok
      exact ih hf.1 (sequential_of_writes hseq.2.1) ⟨rfl, hm.world⟩ hok
  | shortCircuit op f g ih ih' =>
    obtain ⟨σ₁, h₁, h₂⟩ := noop_shortCircuit hseq hok
    exact (ih hf.1 hseq.1 hm h₁).andThen_ok h₁ fun _ hm ↦ follows_right (ih' hf.2 hseq.2.1) hm h₂
  | observe property p =>
    obtain ⟨v, τ, o, d, hσ, -, hv, hd, hc⟩ := Reading.observe_eq_ok.mp hok
    obtain rfl : σ = v :: τ := hσ
    have hupdate : Function.update st p.loc (.cell d) = st := (congrArg Config.store hc).symm
    have hpoint : st p.loc = .cell d := by
      rw [← hupdate]
      exact Function.update_self _ _ _
    have hslot : w₀.observable? o property = some d := by
      simp only [World.reading] at hd
      split at hd
      · next hslot => rw [hslot, Except.ok.inj hd]
      · cases hd
    have hden : (observe property p).den (w₀.reading r answer frame.locals s.captures) ⟨v :: τ, st⟩ =
        pure ⟨w₀.cellValue d :: τ, st⟩ := by
      simp only [den, Reading.observe, World.reading, hv, hslot, bind, Except.bind, hupdate]
      rfl
    have halike := (Evaluating.relates w₀).alike hm
    have hrun : (observe property p).run r update fuel frame (some artifact.flags) m = _ :=
      h.observe_self hb ((hm.instance? i).trans hs) hf hm.stack hv
        ((halike.observable? o property).trans hslot) hpoint _
    rw [hden]
    exact .ok hrun ⟨congrArg (· :: τ) (halike.cellValue d), hm.world⟩ fun _ _ ↦ rfl
  | branch op f g flag counter ps ih ih' =>
    obtain ⟨hf, hg, hflag, hcounter, -, hcount⟩ := hf
    obtain ⟨v, τ, t, h₁, ht, h₂⟩ := noop_branch hseq hok
    exact (ih hf hseq.1 hm h₁).andThen_ok h₁ fun _ hm ↦
      h.follows_branchRight hb hs (ih' hg hseq.2.1) hflag hcounter hcount hm ht h₂

/-- So does what is left of it from a point on that is reached. -/
theorem follows_resume {f : Fragment} (hf : f.Placed artifact points) (hseq : f.Sequential) {k : Nat}
    (hk : k ∈ f.steps) (hm : Evaluating w₀ m ⟨[], st⟩)
    (hok : (f.den (w₀.reading r answer frame.locals s.captures).guarded ⟨σ, st⟩).result = .ok ⟨σ', st⟩)
    (hreach : f.Reached (w₀.reading r answer frame.locals s.captures).guarded k ⟨σ, st⟩) :
    (f.resume r update fuel frame (some artifact.flags) k m).Follows enough (Evaluating w₀) [] st
      (f.denFrom (w₀.reading r answer frame.locals s.captures) k ⟨[], st⟩) := by
  induction f generalizing m σ σ' with
  | ops | flagTest | flagAssign | nullGuard => exact hreach.elim
  | observe property p =>
    obtain ⟨v, o, d, -, -, -, hpoint⟩ := hreach
    have hpoint : st p.loc = .cell d := hpoint
    have hfound := (hm.instance? i).trans hs
    have hden : (observe property p).denFrom (w₀.reading r answer frame.locals s.captures) k ⟨[], st⟩ =
        pure ⟨[w₀.cellValue d], st⟩ := by
      simp only [denFrom, Reading.reread, hpoint]
      rfl
    have hrun : reread r update fuel frame p m =
        ⟨[], .ok (), { m with stack := [m.world.cellValue d] }⟩ := by
      rw [reread, runOps_cons (does_loadScratch hb hfound (hpoint ▸ h.slot hf)),
        runOps_cons (does_observableValue rfl), hm.stack]
      rfl
    rw [hden]
    exact .ok hrun ⟨congrArg ([·]) (((Evaluating.relates w₀).alike hm).cellValue d), hm.world⟩
      fun _ _ ↦ rfl
  | append f g ih ih' =>
    obtain ⟨σ₁, h₁, h₂⟩ := noop_append hseq hok
    simp only [resume, denFrom, Reached] at hreach ⊢
    by_cases hkf : k ∈ f.steps
    · rw [if_pos hkf] at hreach ⊢
      rw [if_pos hkf]
      exact (ih hf.1 hseq.1 hkf hm h₁ hreach).andThen_ok (hreach.denFrom_of_ok rfl h₁) fun _ hm ↦
        h.follows_run hb hs ha hf.2 hseq.2.1 hm ((den_guarded rfl g _).result_of_ok h₂).2
    · rw [if_neg hkf] at hreach ⊢
      rw [if_neg hkf]
      obtain ⟨τ, h₁', hreach⟩ := hreach
      obtain rfl : τ = σ₁ := congrArg Config.stack (Except.ok.inj (h₁'.symm.trans h₁))
      rw [steps_append, List.mem_append] at hk
      exact ih' hf.2 hseq.2.1 (hk.resolve_left hkf) hm h₂ hreach
  | shortCircuit op f g ih ih' =>
    obtain ⟨σ₁, h₁, h₂⟩ := noop_shortCircuit hseq hok
    obtain ⟨hkf, hreach⟩ := hreach
    simp only [resume, denFrom]
    rw [if_pos hkf, if_pos hkf]
    exact (ih hf.1 hseq.1 hkf hm h₁ hreach).andThen_ok (hreach.denFrom_of_ok rfl h₁) fun _ hm ↦
      follows_right (h.follows_run hb hs ha hf.2 hseq.2.1) hm
        ((fork_within (fun _ ↦ .refl _) (den_guarded rfl g) _).result_of_ok h₂).2
  | branch op f g flag counter ps ih ih' =>
    obtain ⟨hf, hg, hflag, hcounter, -, hcount⟩ := hf
    obtain ⟨v, τ, t, h₁, ht, h₂⟩ := noop_branch hseq hok
    simp only [resume, denFrom, Reached] at hreach ⊢
    by_cases hkf : k ∈ f.steps
    · rw [if_pos hkf] at hreach ⊢
      rw [if_pos hkf]
      have hright : if op.skips t then skip flag ps ⟨v :: τ, st⟩ = ⟨σ', st⟩
          else st (.flag flag) = .bool true ∧
            (g.den (w₀.reading r answer frame.locals s.captures) ⟨τ, st⟩).result = .ok ⟨σ', st⟩ := by
        split
        · next hskip => rwa [if_pos hskip] at h₂
        · next hskip =>
          rw [if_neg hskip] at h₂
          exact h₂.imp_right fun h₂ ↦ ((den_guarded rfl g _).result_of_ok h₂).2
      exact (ih hf hseq.1 hkf hm h₁ hreach).andThen_ok (hreach.denFrom_of_ok rfl h₁) fun _ hm ↦
        h.follows_branchRight hb hs (h.follows_run hb hs ha hg hseq.2.1) hflag hcounter hcount hm ht
          hright
    · rw [if_neg hkf] at hreach ⊢
      rw [if_neg hkf]
      obtain ⟨v', τ', t', h₁', ht', hskip, -, hreach⟩ := hreach
      obtain ⟨rfl, rfl⟩ := List.cons.inj (congrArg Config.stack (Except.ok.inj (h₁'.symm.trans h₁)))
      obtain rfl : t' = t := Except.ok.inj (ht'.symm.trans ht)
      rw [if_neg (by simp [hskip])] at h₂
      rw [steps_branch, List.mem_append] at hk
      exact ih' hg hseq.2.1 (hk.resolve_left hkf) hm h₂.2 hreach

end

end Instance.Reflects

namespace World

variable {w : World} {c : CellId} {cell : Cell}

/-- What a binding publishes is listened to by others. -/
def listened (w : World) (i : InstanceId) (ls : List Listener) : World :=
  match w.resultCell? i with
  | some c => w.modifyCell c ({ · with listeners := ls })
  | none => w

end World

/-- Publishing what is held already and giving back the lock tells nobody. -/
theorem Exec.publish_release_same {r : Registry} {update : Updater} {fuel : Nat} {frame : Frame}
    {i : InstanceId} {s : Instance} {m : Machine} {u v : Value} {σ : List Value} {ls : List Listener}
    (hb : frame.binding = some i) (hs : m.world.instance? i = some s) (hm : m.stack = u :: σ)
    (hc : m.world.cell? s.result = some ⟨v, ls, 1, false⟩) (hsame : v.same u) (hfuel : 2 ≤ fuel) :
    (runOp r update fuel frame .publish).andThen (runOp r update fuel frame .lockRelease) m =
      ⟨[], .ok (),
        ⟨m.world.modifyCell s.result ({ · with lockDepth := 0 }), σ, m.pc, m.locks.pred⟩⟩ := by
  have hpublish : Does r update fuel frame .publish m _ := does_publish hb hs hm hc (.inl hfuel)
  have hkept : m.world.putCell s.result ⟨v.replaced u, ls, 1, !v.same u⟩ = m.world :=
    World.modifyCell_id hc (by simp [Value.replaced, hsame])
  rw [hkept] at hpublish
  have hrelease : Does r update fuel frame .lockRelease { m with stack := σ } _ :=
    does_lockRelease_unchanged hb hs hc rfl
  rw [andThen_ok hpublish, show runOp r update fuel frame .lockRelease _ = _ from hrelease]
  simp only [LockDepth.pred_one]

theorem updateRoute_congr {layout : FlagLayout} {body : Fragment} {i : InstanceId} {k : Nat}
    {w w' : World} (h : w.instance? i = w'.instance? i) :
    updateRoute layout body i k w = updateRoute layout body i k w' := by
  simp only [updateRoute, h]

/-- An outcome is good, and leaves a world as it was up to what the host records. -/
def Outcome.EndsAs (o : Outcome) (w : World) : Prop :=
  o.result = .ok () ∧ ∃ events, o.machine.world = { w with events }

namespace Deployment

variable {D : Deployment} {w w₁ : World} {s : Instance} {on : Nat → Option CellId} {u v : Value}
variable {ls : List Listener} {k fuel : Nat}

variable (D) in
/-- Others listen to what a binding publishes in a world. All that an update reads is as in another one. -/
structure Heard (w w₁ : World) (s : Instance) (v : Value) (ls : List Listener) : Prop where
  objects : w₁.objects = w.objects
  values : w₁.cellValue = w.cellValue
  found : w₁.instance? D.id = some s
  cell : w₁.cell? s.result = some ⟨v, ls, 0, false⟩

namespace Sound

variable (hs : D.Sound w s on)
include hs

theorem heard_listened {ls₀ : List Listener} (hc : w.cell? D.result = some ⟨v, ls₀, 0, false⟩)
    (ls : List Listener) : D.Heard w (w.listened D.id ls) s v ls := by
  have hlistened : w.listened D.id ls = w.modifyCell D.result ({ · with listeners := ls }) := by
    simp only [World.listened, World.resultCell?, hs.tracks.found, Option.map_some, hs.result]
  rw [hlistened]
  refine ⟨rfl, World.cellValue_modifyCell _ (fun _ ↦ ?_) w D.result, hs.tracks.found, ?_⟩
  · rfl
  · rw [hs.result, World.cell?_modifyCell, if_pos rfl, hc]
    rfl

/-- What a binding keeps between its updates reflects a store. -/
theorem reflects : s.Reflects D.artifact D.body.points (D.store s) where
  slots n hn := by
    have hlt : n < s.scratch.size := hs.tracks.fits.scratch.symm ▸ hn
    simp [Deployment.store, Instance.store, hlt]
  handles := D.compiles.wellPlaced.handle_lt
  words n hn := by
    obtain ⟨-, capacity, hl⟩ := D.compiles.layout_eq
    rw [hs.tracks.fits.flags, hl]
    exact FlagLayout.wordOf_lt hn
  flags n hn := by simp [Deployment.store, Instance.store, hn]
  counters n hn := by
    rw [hs.tracks.counts n hn, List.countP_congr]
    intro p hp
    rw [hs.store_point hp]
    cases on p.step <;> simp [Value.ofCell?, Value.isNull]

/-- An update at what is no step fails, and leaves everything as it was. -/
theorem update_fault (h : D.Heard w w₁ s v ls) (hk : min k 2147483647 ∉ D.artifact.steps) {fuel : Nat}
    (hfuel : D.artifact.update.size + 1 < fuel) :
    updateInstance D.host fuel D.id k w₁ =
      (.error (.error (.fault "dispatch step out of range")), w₁) := by
  obtain ⟨fuel, rfl⟩ : ∃ n, fuel = n + 1 := ⟨fuel - 1, by omega⟩
  have hblock : updateBlock D.host (updateInstance D.host fuel) fuel { binding := some D.id, step := k }
      D.layout D.body D.coercion D.id (min k 2147483647) { world := w₁ } =
      ⟨[], .error (.error (.fault "dispatch step out of range")), Compiles.locked w₁ s⟩ := by
    rw [Compiles.updateBlock_eq rfl h.found]
    simp only [Block.andThen, updateBody, D.compiles.route_eq_fault hk]
  have hfinishes : ∃ n, Finishes D.host (updateInstance D.host fuel) fuel
      { binding := some D.id, step := k } D.artifact.update n { world := w₁ } _ :=
    D.compiles.finishes_step rfl h.found (by rw [hs.tracks.fits.flags, D.compiles.flags])
      (toInt_countInt k)
  rw [hblock] at hfinishes
  obtain ⟨n, hfin⟩ := hfinishes
  obtain ⟨pc, hx⟩ := hfin.execute_of_forward D.compiles.forward_update (by simp)
    (show D.artifact.update.size - 0 < fuel by omega)
  have hrun := runRoutine_error_unchanged rfl hx rfl h.found (World.cell?_lock h.cell) rfl rfl
  rw [updateInstance_run h.found h.cell, Run.bind_apply, hs.tracks.fits.code, hrun]
  exact congrArg (Except.error _, ·) (World.unlock_lock h.cell LockDepth.pred_one)

variable (hhost : D.host = D.registry) (hfun : D.host.Functional D.objects D.answer)
include hhost hfun

/-- From the start, or from a point on that is reached, an update only computes again what is
published. -/
theorem follows_computed {w₀ : World} (ho : w₀.objects = w.objects) (hv : w₀.cellValue = w.cellValue)
    (hfound : w₀.instance? D.id = some s) {τ : List Value}
    (hden : (D.code.den (D.reading w) ⟨[], D.store s⟩).result = .ok ⟨τ, D.store s⟩)
    (hk : k = 0 ∨ k ∈ D.body.steps ∧ D.code.Reached (D.reading w) k ⟨[], D.store s⟩) :
    ∃ e : Effect Config, e.result = .ok ⟨τ, D.store s⟩ ∧ ∀ fuel m, Evaluating w₀ m ⟨[], D.store s⟩ →
      (Compiles.computed D.host fuel D.id k D.body D.coercion D.layout m).Follows
        (Registry.Functional.Enough D.host (updateInstance D.host fuel) fuel D.objects) (Evaluating w₀)
        [] (D.store s) e := by
  have hrd : (w₀.reading D.host (asked D.answer) [] s.captures).guarded = D.reading w := by
    rw [hhost, hs.captures]
    exact D.reading_eq ho hv
  have hplaced : D.code.Placed D.artifact D.body.points :=
    ⟨D.compiles.placed D.ordered, placed_of_isPlain D.compiles.plain⟩
  have hanswers (fuel : Nat) : Answers D.host (updateInstance D.host fuel) fuel w₀.objects
      (asked D.answer)
      (Registry.Functional.Enough D.host (updateInstance D.host fuel) fuel D.objects) := by
    rw [ho, hs.objects]
    exact hfun.answers (updateInstance D.host fuel) fuel
  rw [← hrd] at hden hk
  simp only [Compiles.computed, ← D.compiles.flags]
  obtain rfl | ⟨hmem, hreach⟩ := hk
  · have hplain := ((den_guarded rfl D.code _).result_of_ok hden).2
    exact ⟨_, hplain, fun fuel m hm ↦ hs.reflects.follows_run
      (show ({ binding := some D.id } : Frame).binding = some D.id from rfl) hfound (hanswers fuel)
      hplaced D.sequential_code hm hplain⟩
  · have h0 : k ≠ 0 := by
      rintro rfl
      rw [D.compiles.steps_eq, List.mem_range'_1] at hmem
      omega
    refine ⟨_, hreach.denFrom_of_ok rfl hden, fun fuel m hm ↦ ?_⟩
    have hresume := hs.reflects.follows_resume
      (show ({ binding := some D.id, step := k } : Frame).binding = some D.id from rfl) hfound
      (hanswers fuel) hplaced D.sequential_code (D.steps_code.symm ▸ hmem) hm hden hreach
    simp only [code, resume, if_pos hmem] at hresume
    rwa [if_neg h0]

section

variable (h : D.Heard w w₁ s v ls)
variable (hden : (D.code.den (D.reading w) ⟨[], D.store s⟩).result = .ok ⟨[u], D.store s⟩)
variable (hsame : v.same u)
include h hden hsame

/-- From a step on that is reached, an update computes what is published, and publishes nothing. -/
theorem updateBlock_reached
    (hroute : updateRoute D.layout D.body D.id k (Compiles.locked w₁ s).world = .resume)
    (hk : k = 0 ∨ k ∈ D.body.steps ∧ D.code.Reached (D.reading w) k ⟨[], D.store s⟩) :
    ∃ N, ∀ fuel ≥ N, (updateBlock D.host (updateInstance D.host fuel) fuel
      { binding := some D.id, step := k } D.layout D.body D.coercion D.id k
      { world := w₁ }).EndsAs w₁ := by
  obtain ⟨e, he, hcomputed⟩ := hs.follows_computed hhost hfun
    (show (Compiles.locked w₁ s).world.objects = w.objects from h.objects)
    ((World.cellValue_modifyCell Cell.lock (fun _ ↦ rfl) w₁ _).trans h.values) h.found hden hk
  obtain ⟨N, hN⟩ := hfun.exists_enough e.calls
  refine ⟨max N 2, fun fuel hfuel ↦ ?_⟩
  have hends := (hcomputed fuel (Compiles.locked w₁ s) ⟨rfl, w₁.events, rfl⟩).ends (by rw [he]; nofun)
  rw [Compiles.updateBlock_resume h.found hroute]
  obtain ⟨-, call, hcall, hnot⟩ | ⟨-, ⟨c, hc', hok, hm⟩ | ⟨x, hx, -⟩⟩ := hends
  · exact absurd (hN _ fuel (by omega) call hcall) hnot
  · obtain rfl : c = ⟨[u], D.store s⟩ := Except.ok.inj (hc'.symm.trans he)
    obtain ⟨events, hw⟩ := hm.world
    rw [andThen_of_ok hok, publish_release_same rfl ((hm.instance? D.id).trans h.found) hm.stack
      (by rw [hw]; exact World.cell?_lock h.cell) hsame (by omega)]
    refine ⟨rfl, events, ?_⟩
    have hcell : ({ w₁ with events } : World).cell? s.result = some ⟨v, ls, 0, false⟩ := h.cell
    exact (congrArg (World.modifyCell · _ _) hw).trans (World.unlock_lock hcell rfl)
  · rw [he] at hx
    cases hx

/-- An update at any of its steps leaves a settled binding as it was. -/
theorem updateBlock_idle (hk : k ∈ D.artifact.steps) :
    ∃ N, ∀ fuel ≥ N, (updateBlock D.host (updateInstance D.host fuel) fuel
      { binding := some D.id, step := k } D.layout D.body D.coercion D.id k
      { world := w₁ }).EndsAs w₁ := by
  have hk := D.compiles.mem_steps.mp hk
  have hsteps (hmem : k ∈ D.body.steps) :
      updateRoute D.layout D.body D.id k (Compiles.locked w₁ s).world =
        D.code.route (D.store s).isSet k :=
    (updateRoute_congr (h.found.trans hs.tracks.found.symm)).trans (hs.route_eq hmem)
  cases hroute : updateRoute D.layout D.body D.id k (Compiles.locked w₁ s).world with
  | resume =>
    refine hs.updateBlock_reached hhost hfun h hden hsame hroute (hk.imp_right fun hmem ↦ ?_)
    rw [hsteps hmem] at hroute
    exact ⟨hmem, reached_of_noop (D.strict_reading w) D.sequential_code hden
      (D.steps_code.symm ▸ hmem) hroute⟩
  | exit =>
    -- the branch of the step is off: the lock is given back
    refine ⟨0, fun fuel _ ↦ ?_⟩
    exact ⟨(Compiles.updateBlock_exit h.found h.cell hroute).1, w₁.events,
      (Compiles.updateBlock_exit h.found h.cell hroute).2⟩
  | fault =>
    obtain rfl | hmem := hk
    · cases hroute
    · rw [hsteps hmem] at hroute
      exact absurd hroute (route_ne_fault (D.steps_code.symm ▸ hmem))

/-- So does running the update, which ends well. -/
theorem update_idle (hq : s.queued = []) (hk : k ∈ D.artifact.steps) :
    ∃ N, ∀ fuel ≥ N, ∃ events, updateInstance D.host fuel D.id k w₁ = (.ok (), { w₁ with events }) := by
  obtain ⟨N, hN⟩ := hs.updateBlock_idle hhost hfun h hden hsame hk
  refine ⟨N + D.artifact.update.size + 2, fun fuel hfuel ↦ ?_⟩
  obtain ⟨fuel, rfl⟩ : ∃ n, fuel = n + 2 := ⟨fuel - 2, by omega⟩
  obtain ⟨hok, events, hw⟩ := hN (fuel + 1) (by omega)
  obtain ⟨n, hfin⟩ := hs.finishes_update h.found (List.mem_cons.mpr (D.compiles.mem_steps.mp hk))
  obtain ⟨pc, hx⟩ := hfin.execute_of_forward D.compiles.forward_update (by rw [hok]; nofun)
    (show D.artifact.update.size - 0 < fuel + 1 by omega)
  refine ⟨events, ?_⟩
  rw [updateInstance_run h.found h.cell, Run.bind_apply, hs.tracks.fits.code, runRoutine_ok hx hok]
  simp only [hw]
  exact drainQueue_nil (s := s) h.found hq

end

end Sound

/-- While others listen to its value, a settled binding stays as it is when it is updated at one of its
steps, and also when it is updated at another one, which fails. -/
theorem Pending.update_idle (hd : D.Determined) (hhost : D.host = D.registry)
    (hfun : D.host.Functional D.objects D.answer) (h : D.Pending True [] w) (ls : List Listener)
    (k : Nat) :
    (k ∈ D.artifact.steps → ∃ N, ∀ fuel ≥ N, ∃ events,
      updateInstance D.host fuel D.id k (w.listened D.id ls) =
        (.ok (), { w.listened D.id ls with events })) ∧
    (min k 2147483647 ∉ D.artifact.steps → ∃ N, ∀ fuel ≥ N,
      updateInstance D.host fuel D.id k (w.listened D.id ls) =
        (.error (.error (.fault "dispatch step out of range")), w.listened D.id ls)) := by
  obtain ⟨s, on, v, ls₀, u, hs, hq, hc, hsame, hden⟩ := h.settled hd
  have hheard := hs.heard_listened hc ls
  constructor
  · exact hs.update_idle hhost hfun hheard hden hsame hq
  · exact fun hk ↦ ⟨D.artifact.update.size + 2, fun fuel hfuel ↦ hs.update_fault hheard hk hfuel⟩

end Deployment

section

variable {cx : CompileContext} {scope : Scope} {parsed : ParsedExpr} {tree : Tree}
variable {target : Option BindingTarget} {b : DynamicBinding} {r : Registry} {env : Loadable → Value}
variable {w w' w'' : World} {fuel : Nat} {i : InstanceId}
variable {answer : MethodId → List Value → Except RuntimeError Value}

/-- A binding has one step to start from and one for every place where it listens. -/
theorem CompileContext.length_steps (htree : cx.buildTree scope parsed = .ok tree)
    (hcompile : cx.compileArtifact tree target = .ok b) :
    b.artifact.steps.length = tree.root.monitoring + 1 := by
  have hn := (Tree.build_resolved htree).1
  obtain ⟨c, -, -, h⟩ := compileArtifact_eq hcompile (Node.Resolved.isPlain tree.root hn)
  rw [h.steps, Resumable.steps, List.length_range, h.renders.nextStep,
    Node.length_points tree.root hn .start, Resumable.start, Nat.add_comm]

/-- A binding that was made is deployed in the heap of its host, and settled after some properties were
set. -/
theorem deployed_after_sets (htree : cx.buildTree scope parsed = .ok tree)
    (hcompile : cx.compileArtifact tree target = .ok b) (hfew : tree.root.monitoring < 2 ^ 31)
    (hmodel : cx.model = r.model) (hw : w.Admits r answer scope env)
    (hcreate : createInstance r fuel b.artifact w = (.ok i, w')) (hsets : w'.Sets r w'') :
    ∃ D : Deployment, (D.host = r ∧ D.registry = r ∧ D.id = i ∧ D.artifact = b.artifact) ∧ D.Determined ∧
      D.host.Functional D.objects D.answer ∧ D.Pending True [] w'' := by
  obtain ⟨c, ty, layout, -, hcoerces, hcompiles, hordered, few, D, hD, rfl, hpending⟩ :=
    pending_after_sets htree hcompile hfew hmodel hw
      (show Registry.model { r with methods := r.methods } = r.model from rfl)
      (fun _ hr hm ha ho _ ↦ hw.functional.calm hr hm ha ho) (.inl rfl) hcreate hsets
  have hd := Node.deploy_determined hw hmodel (Tree.build_resolved htree) hcoerces hcompiles hordered few
    _ hD
  subst hD
  exact ⟨_, ⟨rfl, rfl, rfl, rfl⟩, hd, hw.functional, hpending⟩

/-- Where the steps can be told apart, an update at anything that is none of them fails. -/
theorem update_fails_after_sets (htree : cx.buildTree scope parsed = .ok tree)
    (hcompile : cx.compileArtifact tree target = .ok b) (hfew : b.artifact.steps.length ≤ 2147483647)
    (hmodel : cx.model = r.model) (hw : w.Admits r answer scope env)
    (hcreate : createInstance r fuel b.artifact w = (.ok i, w')) (hsets : w'.Sets r w'')
    (ls : List Listener) {k : Nat} (hk : k ∉ b.artifact.steps) :
    ∃ N, ∀ fuel ≥ N, updateInstance r fuel i k (w''.listened i ls) =
      (.error (.error (.fault "dispatch step out of range")), w''.listened i ls) := by
  obtain ⟨D, ⟨rfl, hr, rfl, ha⟩, hd, hfun, hpending⟩ :=
    deployed_after_sets htree hcompile (by rw [CompileContext.length_steps htree hcompile] at hfew; omega) hmodel hw hcreate hsets
  rw [← ha, ← D.compiles.min_mem_steps (ha ▸ hfew)] at hk
  exact (hpending.update_idle hd hr.symm hfun ls k).2 hk

end

namespace Sample

/-- A listener that does not accept any value. -/
def refusing : Listener := .callback fun _ ↦ .fail (.fault "refused")

end Sample

namespace Sample

/-- A binding is made in a world and a property is set. After that an update at one of its steps, for
which nothing calls, changes its value. -/
structure Wakes (cx : CompileContext) (r : Registry) (scope : Scope) (parsed : ParsedExpr) (w : World)
    (o : ObjectId) (property : String) (v : Value) (step : Nat) (held fresh : Value) : Prop extends
    Compiled cx scope parsed where
  declared : w.isDeclared r
  assigned : step ∈ (bindingOf cx (treeOf cx scope parsed)).artifact.steps
  runs : let made := createInstance r 60 (bindingOf cx (treeOf cx scope parsed)).artifact w
    let changed := setProperty r 60 o property v made.2
    let updated := updateInstance r 60 ⟨w.instances.size⟩ step changed.2
    made.1 = .ok ⟨w.instances.size⟩ ∧ (made.2.observable? o property).isSome ∧ changed.1 = .ok () ∧
      updated.1 = .ok () ∧ changed.2.valueOf ⟨w.instances.size⟩ = held ∧
      updated.2.valueOf ⟨w.instances.size⟩ = fresh
  differs : ¬held.same fresh

end Sample

end LiveBinding
