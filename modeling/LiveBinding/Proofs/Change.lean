import LiveBinding.Proofs.Resumption

namespace LiveBinding

/-- A right operand that is skipped stays so when it is skipped once more. -/
theorem Config.skip_skip (flag : Nat) (ps : List SavePoint) (c : Config) :
    (c.skip flag ps).skip flag ps = c.skip flag ps := by
  refine congrArg (Config.mk c.stack) (funext fun l ↦ ?_)
  simp only [setFlag, skip, Store.clear, Function.update_apply]
  by_cases hl : l ∈ ps.map SavePoint.loc
  · rw [if_pos hl, if_pos hl]
  · rw [if_neg hl, if_neg hl]
    split <;> rfl

namespace Fragment

open Config

variable {rd : Reading} {f g : Fragment} {k : Nat} {c : Config} {σ τ : List Value}

theorem step_mem_steps {p : SavePoint} (h : p ∈ f.points) : p.step ∈ f.steps :=
  List.mem_map_of_mem h

theorem loc_mem_touched {p : SavePoint} (h : p ∈ f.points) : p.loc ∈ f.touched := by
  induction f with
  | ops | flagTest | flagAssign => cases h
  | observe => rw [List.mem_singleton.mp h]; exact List.mem_singleton_self _
  | append f g ih ih' | nullGuard f g ih ih' | shortCircuit _ f g ih ih' =>
    exact List.mem_append.mpr ((List.mem_append.mp h).imp ih ih')
  | branch _ f g flag _ ps ih ih' =>
    refine List.mem_append.mpr ((List.mem_append.mp h).imp ih fun hg ↦ ?_)
    exact List.mem_append_right _ (ih' hg)

namespace Reached

theorem append_left (hk : k ∈ f.steps) (h : f.Reached rd k c) : (append f g).Reached rd k c := by
  unfold Reached
  rwa [if_pos hk]

theorem append_right (hk : k ∉ f.steps) (hf : (f.den rd c).result = .ok ⟨σ, c.store⟩)
    (h : g.Reached rd k ⟨σ, c.store⟩) : (append f g).Reached rd k c := by
  unfold Reached
  rw [if_neg hk]
  exact ⟨σ, hf, h⟩

variable {op : BinaryOp} {flag counter : Nat} {ps : List SavePoint}

theorem branch_left (hk : k ∈ f.steps) (h : f.Reached rd k c) :
    (branch op f g flag counter ps).Reached rd k c := by
  unfold Reached
  rwa [if_pos hk]

theorem branch_right {v : Value} {t : Bool} (hk : k ∉ f.steps)
    (hf : (f.den rd c).result = .ok ⟨v :: σ, c.store⟩) (ht : v.toBool = .ok t)
    (hskip : op.skips t = false) (hflag : c.store (.flag flag) = .bool true)
    (h : g.Reached rd k ⟨σ, c.store⟩) : (branch op f g flag counter ps).Reached rd k c := by
  unfold Reached
  rw [if_neg hk]
  exact ⟨v, σ, t, hf, ht, hskip, hflag, h⟩

end Reached

/-- Where a point is reached, every earlier one is that no skipped branch is around. -/
theorem Reached.earlier {j : Nat} (hstrict : rd.strict) (hs : f.Sequential)
    (hsort : f.steps.Pairwise (· < ·)) (h : f.Reached rd j c) (hj : j ∈ f.steps) (hk : k ∈ f.steps)
    (hle : k ≤ j) (hr : f.route c.store.isSet k = .resume) : f.Reached rd k c := by
  induction f generalizing c with
  | ops | nullGuard | flagTest | flagAssign => exact h.elim
  | observe => exact h
  | append f g ih ih' =>
    rw [steps_append, List.pairwise_append] at hsort
    rw [steps_append, List.mem_append] at hk hj
    simp only [route] at hr
    by_cases hkf : k ∈ f.steps
    · rw [if_pos hkf] at hr
      refine append_left hkf ?_
      unfold Reached at h
      split at h
      · next hjf => exact ih hs.1 hsort.1 h hjf hkf hr
      · obtain ⟨σ, hf, -⟩ := h
        exact reached_of_noop hstrict hs.1 hf hkf hr
    · have hjf : j ∉ f.steps := fun hjf ↦
        absurd (hsort.2.2 j hjf k (hk.resolve_left hkf)) (by omega)
      rw [if_neg hkf] at hr
      unfold Reached at h
      rw [if_neg hjf] at h
      obtain ⟨σ, hf, h⟩ := h
      exact append_right hkf hf
        (ih' hs.2.1 hsort.2.1 h (hj.resolve_left hjf) (hk.resolve_left hkf) hr)
  | shortCircuit op f g ih ih' =>
    rw [steps_shortCircuit_of_points hs.2.2.1] at hsort hk
    simp only [route, if_pos hk] at hr
    exact ⟨hk, ih hs.1 hsort h.2 h.1 hk hr⟩
  | branch op f g flag counter ps ih ih' =>
    rw [steps_branch, List.pairwise_append] at hsort
    rw [steps_branch, List.mem_append] at hk hj
    simp only [route] at hr
    by_cases hkf : k ∈ f.steps
    · rw [if_pos hkf] at hr
      refine branch_left hkf ?_
      unfold Reached at h
      split at h
      · next hjf => exact ih hs.1 hsort.1 h hjf hkf hr
      · obtain ⟨v, σ, t, hf, -⟩ := h
        exact reached_of_noop hstrict hs.1 hf hkf hr
    · have hjf : j ∉ f.steps := fun hjf ↦
        absurd (hsort.2.2 j hjf k (hk.resolve_left hkf)) (by omega)
      unfold Reached at h
      rw [if_neg hjf] at h
      obtain ⟨v, σ, t, hf, ht, hskip, hflag, h⟩ := h
      rw [if_neg hkf, if_pos (by simp [Store.isSet, hflag])] at hr
      exact branch_right hkf hf ht hskip hflag
        (ih' hs.2.1 hsort.2.1 h (hj.resolve_left hjf) (hk.resolve_left hkf) hr)

/-- What is left from a point on does not move the listeners up to that point. -/
theorem loc_notMem_writesFrom {p : SavePoint} (hs : f.Sequential) (hsort : f.steps.Pairwise (· < ·))
    (hp : p ∈ f.points) (hk : k ∈ f.steps) (hle : p.step ≤ k) : p.loc ∉ f.writesFrom k := by
  induction f with
  | ops | flagTest | flagAssign | observe => simp [writesFrom]
  | nullGuard f g => simp [steps, points, hs.1] at hk
  | append f g ih ih' =>
    obtain ⟨hsf, hsg, hd⟩ := hs
    rw [steps_append, List.pairwise_append] at hsort
    rw [steps_append, List.mem_append] at hk
    simp only [writesFrom]
    rcases List.mem_append.mp hp with hpf | hpg
    · split
      · next hkf =>
        exact fun h ↦ (List.mem_append.mp h).elim (ih hsf hsort.1 hpf hkf) (hd _ (loc_mem_touched hpf))
      · exact fun h ↦ hd _ (loc_mem_touched hpf) (writesFrom_subset_writes k g h)
    · have hkf : k ∉ f.steps := fun hkf ↦
        absurd (hsort.2.2 k hkf _ (step_mem_steps hpg)) (by omega)
      rw [if_neg hkf]
      exact ih' hsg hsort.2.1 hpg (hk.resolve_left hkf)
  | shortCircuit op f g ih ih' =>
    obtain ⟨hsf, -, hg, hd⟩ := hs
    rw [steps_shortCircuit_of_points hg] at hsort hk
    simp only [points, hg, List.append_nil] at hp
    simp only [writesFrom, if_pos hk]
    exact fun h ↦ (List.mem_append.mp h).elim (ih hsf hsort hp hk) (hd _ (loc_mem_touched hp))
  | branch op f g flag counter ps ih ih' =>
    obtain ⟨hsf, hsg, -, hd, -⟩ := hs
    rw [steps_branch, List.pairwise_append] at hsort
    rw [steps_branch, List.mem_append] at hk
    simp only [writesFrom]
    rcases List.mem_append.mp hp with hpf | hpg
    · split
      · next hkf =>
        exact fun h ↦ (List.mem_append.mp h).elim (ih hsf hsort.1 hpf hkf) (hd _ (loc_mem_touched hpf))
      · exact fun h ↦ hd _ (loc_mem_touched hpf)
          (List.mem_append_right _ (writesFrom_subset_writes k g h))
    · have hkf : k ∉ f.steps := fun hkf ↦
        absurd (hsort.2.2 k hkf _ (step_mem_steps hpg)) (by omega)
      rw [if_neg hkf]
      exact ih' hsg hsort.2.1 hpg (hk.resolve_left hkf)

/-- The same host with other values in its cells. -/
def withValues (rd : Reading) (value : CellId → Value) : Reading := { rd with value := value }

/-- A point listens to a cell that holds another value than it is read with. -/
def Outdated (rd : Reading) (value : CellId → Value) (st : Store) (p : SavePoint) : Prop :=
  ∃ d, st p.loc = .cell d ∧ value d ≠ rd.value d

section

variable (value : CellId → Value)

theorem all_withValues (list : List Op) (c : Config) :
    (withValues rd value).all list c = rd.all list c := by
  induction list generalizing c with
  | nil => rfl
  | cons op list ih =>
    have hop : (withValues rd value).ordinary op c = rd.ordinary op c := rfl
    simp only [Reading.all, hop]
    exact bind_congr fun c' ↦ ih c'

theorem den_withValues_of_points (h : f.points = []) (c : Config) :
    f.den (withValues rd value) c = f.den rd c := by
  induction f generalizing c with
  | ops list => exact all_withValues value list c
  | flagTest | flagAssign => rfl
  | observe => simp [points] at h
  | append f g ih ih' =>
    simp only [points, List.append_eq_nil_iff] at h
    simp only [den, ih h.1]
    exact bind_congr fun c' ↦ ih' h.2 c'
  | nullGuard f g ih ih' =>
    simp only [points, List.append_eq_nil_iff] at h
    obtain ⟨_ | ⟨v, σ⟩, st⟩ := c
    · rfl
    · simp only [den, ih h.1, ih' h.2]
  | shortCircuit op f g ih ih' =>
    simp only [points, List.append_eq_nil_iff] at h
    simp only [den, ih h.1, funext (ih' h.2)]
  | branch op f g flag counter ps ih ih' =>
    simp only [points, List.append_eq_nil_iff] at h
    simp only [den, ih h.1, ih' h.2]

variable (hstrict : rd.strict)
include hstrict

/-- When cells take other values, nothing is different, or a point that listens to one of them is
reached. -/
theorem noop_change (hs : f.Sequential) (hsort : f.steps.Pairwise (· < ·))
    (h : (f.den rd c).result = .ok ⟨σ, c.store⟩) :
    f.den (withValues rd value) c = f.den rd c ∨
      ∃ p ∈ f.points, Outdated rd value c.store p ∧ f.Reached (withValues rd value) p.step c := by
  induction f generalizing c σ with
  | ops | flagTest | flagAssign => exact .inl (den_withValues_of_points value rfl c)
  | nullGuard f g ih ih' =>
    exact .inl (den_withValues_of_points value (by simp [points, hs.1]) c)
  | observe property p =>
    obtain ⟨v, o, d, hstack, ho, hd, hp⟩ := noop_observe hstrict h
    by_cases hv : value d = rd.value d
    · obtain ⟨σ₀, st⟩ := c
      cases hstack
      exact .inl (by simp only [den, Reading.observe, withValues, ho, hd, bind, Except.bind, hv])
    · exact .inr ⟨p, List.mem_singleton_self p, ⟨d, hp, hv⟩, ⟨v, o, d, hstack, ho, hd, hp⟩⟩
  | append f g ih ih' =>
    obtain ⟨σ₁, hf, hg⟩ := noop_append hs h
    rw [steps_append, List.pairwise_append] at hsort
    rcases ih hs.1 hsort.1 hf with heq | ⟨p, hp, hout, hreach⟩
    · rcases ih' (c := ⟨σ₁, c.store⟩) hs.2.1 hsort.2.1 hg with heq' | ⟨p, hp, hout, hreach⟩
      · exact .inl (by simp only [den, heq, Effect.bind_of_ok _ hf, heq'])
      · have hnot : p.step ∉ f.steps := fun hpf ↦
          absurd (hsort.2.2 _ hpf _ (step_mem_steps hp)) (Nat.lt_irrefl _)
        exact .inr ⟨p, List.mem_append_right _ hp, hout,
          .append_right hnot (by rw [heq]; exact hf) hreach⟩
    · exact .inr ⟨p, List.mem_append_left _ hp, hout, .append_left (step_mem_steps hp) hreach⟩
  | shortCircuit op f g ih ih' =>
    obtain ⟨σ₁, hf, -⟩ := noop_shortCircuit hs h
    rw [steps_shortCircuit_of_points hs.2.2.1] at hsort
    rcases ih hs.1 hsort hf with heq | ⟨p, hp, hout, hreach⟩
    · exact .inl (by simp only [den, heq, funext (den_withValues_of_points value hs.2.2.1)])
    · exact .inr ⟨p, List.mem_append_left _ hp, hout, step_mem_steps hp, hreach⟩
  | branch op f g flag counter ps ih ih' =>
    obtain ⟨v, σ₁, t, hf, ht, hrest⟩ := noop_branch hs h
    rw [steps_branch, List.pairwise_append] at hsort
    rcases ih hs.1 hsort.1 hf with heq | ⟨p, hp, hout, hreach⟩
    · split at hrest
      · next hskip =>
        exact .inl (by simp only [den, heq, Effect.bind_of_ok _ hf, fork_of_toBool ht, if_pos hskip])
      · next hskip =>
        obtain ⟨hflag, hg⟩ := hrest
        have hset : Config.setFlag flag true ⟨σ₁, c.store⟩ = ⟨σ₁, c.store⟩ := by
          simp only [setFlag, ← hflag, Function.update_eq_self]
        rcases ih' (c := ⟨σ₁, c.store⟩) hs.2.1 hsort.2.1 hg with heq' | ⟨p, hp, hout, hreach⟩
        · exact .inl (by
            simp only [den, heq, Effect.bind_of_ok _ hf, fork_of_toBool ht, if_neg hskip, hset, heq'])
        · have hnot : p.step ∉ f.steps := fun hpf ↦
            absurd (hsort.2.2 _ hpf _ (step_mem_steps hp)) (Nat.lt_irrefl _)
          exact .inr ⟨p, List.mem_append_right _ hp, hout,
            .branch_right hnot (by rw [heq]; exact hf) ht (by simpa using hskip) hflag hreach⟩
    · exact .inr ⟨p, List.mem_append_left _ hp, hout, .branch_left (step_mem_steps hp) hreach⟩

/-- When cells take other values, a point stays reached, or an earlier one that listens to one of them
is. -/
theorem Reached.change (hs : f.Sequential) (hsort : f.steps.Pairwise (· < ·)) (hk : k ∈ f.steps)
    (h : f.Reached rd k c) : f.Reached (withValues rd value) k c ∨
      ∃ p ∈ f.points, p.step < k ∧ Outdated rd value c.store p ∧
        f.Reached (withValues rd value) p.step c := by
  induction f generalizing c with
  | ops | nullGuard | flagTest | flagAssign => exact h.elim
  | observe => exact .inl h
  | append f g ih ih' =>
    rw [steps_append, List.pairwise_append] at hsort
    rw [steps_append, List.mem_append] at hk
    unfold Reached at h
    split at h
    · next hkf =>
      rcases ih hs.1 hsort.1 hkf h with hf | ⟨p, hp, hlt, hout, hreach⟩
      · exact .inl (.append_left hkf hf)
      · exact .inr ⟨p, List.mem_append_left _ hp, hlt, hout, .append_left (step_mem_steps hp) hreach⟩
    · next hkf =>
      have hkg := hk.resolve_left hkf
      obtain ⟨σ, hf, h⟩ := h
      rcases noop_change value hstrict hs.1 hsort.1 hf with heq | ⟨p, hp, hout, hreach⟩
      · have hf' : (f.den (withValues rd value) c).result = .ok ⟨σ, c.store⟩ := by rw [heq, hf]
        rcases ih' hs.2.1 hsort.2.1 hkg h with hg | ⟨p, hp, hlt, hout, hreach⟩
        · exact .inl (.append_right hkf hf' hg)
        · have hnot : p.step ∉ f.steps := fun hpf ↦
            absurd (hsort.2.2 _ hpf _ (step_mem_steps hp)) (Nat.lt_irrefl _)
          exact .inr ⟨p, List.mem_append_right _ hp, hlt, hout, .append_right hnot hf' hreach⟩
      · exact .inr ⟨p, List.mem_append_left _ hp, hsort.2.2 _ (step_mem_steps hp) _ hkg, hout,
          .append_left (step_mem_steps hp) hreach⟩
  | shortCircuit op f g ih ih' =>
    rw [steps_shortCircuit_of_points hs.2.2.1] at hsort hk
    rcases ih hs.1 hsort hk h.2 with hf | ⟨p, hp, hlt, hout, hreach⟩
    · exact .inl ⟨hk, hf⟩
    · exact .inr ⟨p, List.mem_append_left _ hp, hlt, hout, step_mem_steps hp, hreach⟩
  | branch op f g flag counter ps ih ih' =>
    rw [steps_branch, List.pairwise_append] at hsort
    rw [steps_branch, List.mem_append] at hk
    unfold Reached at h
    split at h
    · next hkf =>
      rcases ih hs.1 hsort.1 hkf h with hf | ⟨p, hp, hlt, hout, hreach⟩
      · exact .inl (.branch_left hkf hf)
      · exact .inr ⟨p, List.mem_append_left _ hp, hlt, hout, .branch_left (step_mem_steps hp) hreach⟩
    · next hkf =>
      have hkg := hk.resolve_left hkf
      obtain ⟨v, σ, t, hf, ht, hskip, hflag, h⟩ := h
      rcases noop_change value hstrict hs.1 hsort.1 hf with heq | ⟨p, hp, hout, hreach⟩
      · have hf' : (f.den (withValues rd value) c).result = .ok ⟨v :: σ, c.store⟩ := by rw [heq, hf]
        rcases ih' hs.2.1 hsort.2.1 hkg h with hg | ⟨p, hp, hlt, hout, hreach⟩
        · exact .inl (.branch_right hkf hf' ht hskip hflag hg)
        · have hnot : p.step ∉ f.steps := fun hpf ↦
            absurd (hsort.2.2 _ hpf _ (step_mem_steps hp)) (Nat.lt_irrefl _)
          exact .inr ⟨p, List.mem_append_right _ hp, hlt, hout,
            .branch_right hnot hf' ht hskip hflag hreach⟩
      · exact .inr ⟨p, List.mem_append_left _ hp, hsort.2.2 _ (step_mem_steps hp) _ hkg, hout,
          .branch_left (step_mem_steps hp) hreach⟩

end

/-- What observing fails with depends neither on what cells hold nor on the storage. -/
theorem observe_error {value : CellId → Value} {property : String} {p : SavePoint} {e : Stop}
    {st st' : Store} (h : (rd.observe property p ⟨σ, st⟩).result = .error e) :
    ((withValues rd value).observe property p ⟨σ, st'⟩).result = .error e := by
  obtain _ | ⟨v, σ⟩ := σ
  · exact h
  by_cases hσ : (rd.strict && !σ.isEmpty) = true
  · have hopen : rd.observe property p ⟨v :: σ, st⟩ = .of (.error .exhausted) := if_pos hσ
    rw [hopen] at h
    exact (congrArg Effect.result (if_pos hσ)).trans h
  · have heq : rd.observe property p ⟨v :: σ, st⟩ = _ := if_neg hσ
    rw [heq] at h
    refine (congrArg Effect.result (if_neg hσ)).trans ?_
    simp only [Effect.of, withValues] at h ⊢
    cases ho : v.receiver property with
    | error e => rw [ho] at h; exact h
    | ok o =>
      simp only [ho, bind, Except.bind] at h ⊢
      cases hc : rd.cell o property with
      | error e => rw [hc] at h; exact h
      | ok d => rw [hc] at h; cases h

/-- The code in front of an instruction whose result is left open would change nothing, and comes to
it. -/
def Open (rd : Reading) : Fragment → Config → Prop
  | append f g, c => Open rd f c ∨
      ∃ σ, (f.den rd c).result = .ok ⟨σ, c.store⟩ ∧ Open rd g ⟨σ, c.store⟩
  | shortCircuit op f g, c => Open rd f c ∨
      ∃ v σ t, (f.den rd c).result = .ok ⟨v :: σ, c.store⟩ ∧ v.toBool = .ok t ∧
        op.skips t = false ∧ Open rd g ⟨σ, c.store⟩
  | branch op f g flag _ _, c => Open rd f c ∨
      ∃ v σ t, (f.den rd c).result = .ok ⟨v :: σ, c.store⟩ ∧ v.toBool = .ok t ∧
        op.skips t = false ∧ c.store (.flag flag) = .bool true ∧ Open rd g ⟨σ, c.store⟩
  | ops list, c => ((ops list).den rd c).result = .error .exhausted
  | nullGuard f g, c => ((nullGuard f g).den rd c).result = .error .exhausted
  | observe property p, c => ((observe property p).den rd c).result = .error .exhausted
  | flagTest _, _ | flagAssign .., _ => False

namespace Open

theorem den_eq (h : f.Open rd c) : (f.den rd c).result = .error .exhausted := by
  induction f generalizing c with
  | ops | nullGuard | observe => exact h
  | flagTest | flagAssign => exact h.elim
  | append f g ih ih' =>
    rcases h with h | ⟨σ, hf, h⟩
    · exact congrArg Effect.result (Effect.bind_of_error _ (ih h))
    · simp only [den, Effect.bind_of_ok _ hf, ih' h]
  | shortCircuit op f g ih ih' =>
    rcases h with h | ⟨v, σ, t, hf, ht, hskip, h⟩
    · exact congrArg Effect.result (Effect.bind_of_error _ (ih h))
    · simp only [den, Effect.bind_of_ok _ hf, fork_of_toBool ht, hskip, Bool.false_eq_true, if_false, ih' h]
  | branch op f g flag counter ps ih ih' =>
    rcases h with h | ⟨v, σ, t, hf, ht, hskip, hflag, h⟩
    · exact congrArg Effect.result (Effect.bind_of_error _ (ih h))
    · simp only [den, Effect.bind_of_ok _ hf, fork_of_toBool ht, hskip, Bool.false_eq_true, if_false,
        setFlag, ← hflag, Function.update_eq_self, ih' h]

/-- What stands at places that a fragment does not touch does not matter. -/
theorem of_eq_off {st st' : Store} {W : List Loc} (h : f.Open rd ⟨σ, st⟩) (hW : ∀ l ∈ f.touched, l ∉ W)
    (heq : ∀ l ∉ W, st' l = st l) : f.Open rd ⟨σ, st'⟩ := by
  have hleaf {f : Fragment} {σ : List Value} (hW : ∀ l ∈ f.touched, l ∉ W)
      (h : (f.den rd ⟨σ, st⟩).result = .error .exhausted) :
      (f.den rd ⟨σ, st'⟩).result = .error .exhausted := by
    have hm : (f.den rd (Config.mix W st' ⟨σ, st⟩)).result =
        (Config.mix W st' <$> f.den rd ⟨σ, st⟩).result := congrArg _ (den_mix hW st' ⟨σ, st⟩)
    rw [Effect.result_map, h, Config.mix, Store.mix_of_agree heq] at hm
    exact hm
  induction f generalizing σ with
  | ops | nullGuard | observe => exact hleaf hW h
  | flagTest | flagAssign => exact h.elim
  | append f g ih ih' =>
    simp only [touched, locs, List.mem_append] at hW ih ih'
    have hWf := fun l hl ↦ hW l (.inl hl)
    rcases h with h | ⟨σ₁, hf, h⟩
    · exact .inl (ih h hWf)
    · exact .inr ⟨σ₁, den_of_eq_off hf hWf heq, ih' h (fun l hl ↦ hW l (.inr hl))⟩
  | shortCircuit op f g ih ih' =>
    simp only [touched, locs, List.mem_append] at hW ih ih'
    have hWf := fun l hl ↦ hW l (.inl hl)
    rcases h with h | ⟨v, σ₁, t, hf, ht, hskip, h⟩
    · exact .inl (ih h hWf)
    · exact .inr ⟨v, σ₁, t, den_of_eq_off hf hWf heq, ht, hskip, ih' h (fun l hl ↦ hW l (.inr hl))⟩
  | branch op f g flag counter ps ih ih' =>
    simp only [touched, locs, List.mem_append, List.mem_cons] at hW ih ih'
    have hWf := fun l hl ↦ hW l (.inl hl)
    rcases h with h | ⟨v, σ₁, t, hf, ht, hskip, hflag, h⟩
    · exact .inl (ih h hWf)
    · exact .inr ⟨v, σ₁, t, den_of_eq_off hf hWf heq, ht, hskip,
        (heq _ (hW _ (.inr (.inl (.inl rfl))))).trans hflag,
        ih' h (fun l hl ↦ hW l (.inr (.inr hl)))⟩

variable {value : CellId → Value}

/-- When cells take other values, the result stays left open, or a point that listens to one of them
is reached. -/
theorem change (hstrict : rd.strict) (hs : f.Sequential) (hsort : f.steps.Pairwise (· < ·))
    (h : f.Open rd c) : f.Open (withValues rd value) c ∨
      ∃ p ∈ f.points, Outdated rd value c.store p ∧ f.Reached (withValues rd value) p.step c := by
  induction f generalizing c with
  | ops list => exact .inl ((congrArg Effect.result (all_withValues value list c)).trans h)
  | nullGuard f g =>
    exact .inl ((congrArg Effect.result
      (den_withValues_of_points value (by simp [points, hs.1]) c)).trans h)
  | observe property p =>
    exact .inl (observe_error h)
  | flagTest | flagAssign => exact h.elim
  | append f g ih ih' =>
    rw [steps_append, List.pairwise_append] at hsort
    rcases h with h | ⟨σ, hf, h⟩
    · rcases ih hs.1 hsort.1 h with h | ⟨p, hp, hout, hreach⟩
      · exact .inl (.inl h)
      · exact .inr ⟨p, List.mem_append_left _ hp, hout, .append_left (step_mem_steps hp) hreach⟩
    · rcases noop_change value hstrict hs.1 hsort.1 hf with heq | ⟨p, hp, hout, hreach⟩
      · have hf' : (f.den (withValues rd value) c).result = .ok ⟨σ, c.store⟩ := by rw [heq, hf]
        rcases ih' hs.2.1 hsort.2.1 h with h | ⟨p, hp, hout, hreach⟩
        · exact .inl (.inr ⟨σ, hf', h⟩)
        · have hnot : p.step ∉ f.steps := fun hpf ↦
            absurd (hsort.2.2 _ hpf _ (step_mem_steps hp)) (Nat.lt_irrefl _)
          exact .inr ⟨p, List.mem_append_right _ hp, hout, .append_right hnot hf' hreach⟩
      · exact .inr ⟨p, List.mem_append_left _ hp, hout, .append_left (step_mem_steps hp) hreach⟩
  | shortCircuit op f g ih ih' =>
    rw [steps_shortCircuit_of_points hs.2.2.1] at hsort
    have hleft : (∃ p ∈ f.points, Outdated rd value c.store p ∧
        f.Reached (withValues rd value) p.step c) → ∃ p ∈ (shortCircuit op f g).points,
        Outdated rd value c.store p ∧ (shortCircuit op f g).Reached (withValues rd value) p.step c := by
      rintro ⟨p, hp, hout, hreach⟩
      exact ⟨p, List.mem_append_left _ hp, hout, step_mem_steps hp, hreach⟩
    rcases h with h | ⟨v, σ, t, hf, ht, hskip, h⟩
    · exact (ih hs.1 hsort h).imp .inl hleft
    · refine (noop_change value hstrict hs.1 hsort hf).imp (fun heq ↦ .inr ⟨v, σ, t, by rw [heq, hf],
        ht, hskip, ?_⟩) hleft
      have hnone : g.steps = [] := by simp [steps, hs.2.2.1]
      rcases ih' hs.2.1 (by simp [hnone]) h with h | ⟨p, hp, -⟩
      · exact h
      · simp [hs.2.2.1] at hp
  | branch op f g flag counter ps ih ih' =>
    rw [steps_branch, List.pairwise_append] at hsort
    rcases h with h | ⟨v, σ, t, hf, ht, hskip, hflag, h⟩
    · rcases ih hs.1 hsort.1 h with h | ⟨p, hp, hout, hreach⟩
      · exact .inl (.inl h)
      · exact .inr ⟨p, List.mem_append_left _ hp, hout, .branch_left (step_mem_steps hp) hreach⟩
    · rcases noop_change value hstrict hs.1 hsort.1 hf with heq | ⟨p, hp, hout, hreach⟩
      · have hf' : (f.den (withValues rd value) c).result = .ok ⟨v :: σ, c.store⟩ := by rw [heq, hf]
        rcases ih' hs.2.1 hsort.2.1 h with h | ⟨p, hp, hout, hreach⟩
        · exact .inl (.inr ⟨v, σ, t, hf', ht, hskip, hflag, h⟩)
        · have hnot : p.step ∉ f.steps := fun hpf ↦
            absurd (hsort.2.2 _ hpf _ (step_mem_steps hp)) (Nat.lt_irrefl _)
          exact .inr ⟨p, List.mem_append_right _ hp, hout, .branch_right hnot hf' ht hskip hflag hreach⟩
      · exact .inr ⟨p, List.mem_append_left _ hp, hout, .branch_left (step_mem_steps hp) hreach⟩

end Open

/-- Evaluating from the start leaves a stack and changes nothing, or it comes without a change to the
point of one of some steps, at which something is left to do, or to something that is left open. -/
def Current (rd : Reading) (D : List Nat) (f : Fragment) (σ : List Value) (st : Store)
    (τ : List Value) : Prop :=
  (f.den rd ⟨σ, st⟩).result = .ok ⟨τ, st⟩ ∨ (∃ k ∈ D, k ∈ f.steps ∧ f.Reached rd k ⟨σ, st⟩) ∨
    f.Open rd ⟨σ, st⟩

namespace Current

variable {D D' : List Nat} {st st' : Store} {ρ : List Value}

theorem reached (hk : k ∈ D) (hmem : k ∈ f.steps) (h : f.Reached rd k ⟨σ, st⟩) :
    f.Current rd D σ st τ := .inr (.inl ⟨k, hk, hmem, h⟩)

theorem mono (h : f.Current rd D σ st τ) (hD : D ⊆ D') : f.Current rd D' σ st τ := by
  refine h.imp_right (Or.imp_left ?_)
  rintro ⟨k, hk, hreach⟩
  exact ⟨k, hD hk, hreach⟩

/-- What stands at places that a fragment does not touch does not matter. -/
theorem of_eq_off {W : List Loc} (h : f.Current rd D σ st τ) (hW : ∀ l ∈ f.touched, l ∉ W)
    (heq : ∀ l ∉ W, st' l = st l) : f.Current rd D σ st' τ := by
  refine h.imp (den_of_eq_off · hW heq) (Or.imp ?_ (·.of_eq_off hW heq))
  rintro ⟨k, hk, hmem, hreach⟩
  exact ⟨k, hk, hmem, hreach.of_eq_off hW heq⟩

/-- Cells may take other values as long as the points that listen to them are noted. -/
theorem change {value : CellId → Value} (hstrict : rd.strict) (hs : f.Sequential)
    (hsort : f.steps.Pairwise (· < ·)) (h : f.Current rd D σ st τ) (hD : D ⊆ D')
    (htold : ∀ p ∈ f.points, Outdated rd value st p → p.step ∈ D') :
    f.Current (withValues rd value) D' σ st τ := by
  have hpoint : (∃ p ∈ f.points, Outdated rd value st p ∧
      f.Reached (withValues rd value) p.step ⟨σ, st⟩) → f.Current (withValues rd value) D' σ st τ := by
    rintro ⟨p, hp, hout, hreach⟩
    exact .reached (htold p hp hout) (step_mem_steps hp) hreach
  rcases h with h | ⟨k, hk, hmem, h⟩ | h
  · exact (noop_change value hstrict hs hsort h).elim (fun heq ↦ .inl (by rw [heq, h])) hpoint
  · rcases h.change value hstrict hs hsort hmem with h | ⟨p, hp, -, hout, hreach⟩
    · exact .reached (hD hk) hmem h
    · exact hpoint ⟨p, hp, hout, hreach⟩
  · exact (h.change hstrict hs hsort).elim (.inr <| .inr ·) hpoint

theorem append (hdisj : f.steps.Disjoint g.steps) (hf : f.Current rd D σ st ρ)
    (hg : g.Current rd D ρ st τ) : (append f g).Current rd D σ st τ := by
  rcases hf with hf | ⟨k, hk, hmem, hf⟩ | hf
  · rcases hg with hg | ⟨k, hk, hmem, hg⟩ | hg
    · exact .inl (Effect.result_bind_eq_ok.mpr ⟨_, hf, hg⟩)
    · exact .reached hk (by simp [hmem]) (.append_right (fun hkf ↦ hdisj hkf hmem) hf hg)
    · exact .inr (.inr (.inr ⟨_, hf, hg⟩))
  · exact .reached hk (by simp [hmem]) (.append_left hmem hf)
  · exact .inr (.inr (.inl hf))

variable {op : BinaryOp} {v : Value} {t : Bool}

/-- The right operand of `&&` or `||` that listens to nothing. -/
theorem shortCircuit (hnone : g.points = []) (hf : f.Current rd D σ st (v :: ρ)) (ht : v.toBool = .ok t)
    (hg : if op.skips t then v :: ρ = τ else g.Current rd D ρ st τ) :
    (shortCircuit op f g).Current rd D σ st τ := by
  rcases hf with hf | ⟨k, hk, hmem, hf⟩ | hf
  · split at hg
    · next hskip =>
      refine .inl (Effect.result_bind_eq_ok.mpr ⟨_, hf, ?_⟩)
      rw [fork_of_toBool ht, if_pos hskip, ← hg]
      rfl
    · next hskip =>
      rcases hg with hg | ⟨k, -, hmem, -⟩ | hg
      · refine .inl (Effect.result_bind_eq_ok.mpr ⟨_, hf, ?_⟩)
        rwa [fork_of_toBool ht, if_neg hskip]
      · simp [steps, hnone] at hmem
      · exact .inr (.inr (.inr ⟨v, ρ, t, hf, ht, by simpa using hskip, hg⟩))
  · exact .reached hk (by simp [hmem]) ⟨hmem, hf⟩
  · exact .inr (.inr (.inl hf))

variable {flag counter : Nat} {ps : List SavePoint}

theorem branch_skip (hf : f.Current rd D σ st (v :: ρ)) (ht : v.toBool = .ok t)
    (hskip : op.skips t) (hst : skip flag ps ⟨v :: ρ, st⟩ = ⟨v :: ρ, st⟩) :
    (branch op f g flag counter ps).Current rd D σ st (v :: ρ) := by
  rcases hf with hf | ⟨k, hk, hmem, hf⟩ | hf
  · refine .inl (Effect.result_bind_eq_ok.mpr ⟨_, hf, ?_⟩)
    rw [fork_of_toBool ht, if_pos hskip, hst]
    rfl
  · exact .reached hk (by simp [hmem]) (.branch_left hmem hf)
  · exact .inr (.inr (.inl hf))

theorem branch_run (hdisj : f.steps.Disjoint g.steps) (hf : f.Current rd D σ st (v :: ρ))
    (ht : v.toBool = .ok t) (hskip : op.skips t = false) (hflag : st (.flag flag) = .bool true)
    (hg : g.Current rd D ρ st τ) : (branch op f g flag counter ps).Current rd D σ st τ := by
  rcases hf with hf | ⟨k, hk, hmem, hf⟩ | hf
  · rcases hg with hg | ⟨k, hk, hmem, hg⟩ | hg
    · refine .inl (Effect.result_bind_eq_ok.mpr ⟨_, hf, ?_⟩)
      rw [fork_of_toBool ht, if_neg (by simp [hskip])]
      simp only [setFlag, ← hflag, Function.update_eq_self]
      exact hg
    · exact .reached hk (by simp [hmem])
        (.branch_right (fun hkf ↦ hdisj hkf hmem) hf ht hskip hflag hg)
    · exact .inr (.inr (.inr ⟨v, ρ, t, hf, ht, hskip, hflag, hg⟩))
  · exact .reached hk (by simp [hmem]) (.branch_left hmem hf)
  · exact .inr (.inr (.inl hf))

/-- A point where the update resumes is reached, or an earlier one is that is left to do. -/
theorem reached_or (hstrict : rd.strict) (hs : f.Sequential) (hsort : f.steps.Pairwise (· < ·))
    (hopen : ¬f.Open rd ⟨σ, st⟩) (h : f.Current rd (k :: D) σ st τ) (hk : k ∈ f.steps)
    (hr : f.route st.isSet k = .resume) :
    f.Reached rd k ⟨σ, st⟩ ∨ ∃ j ∈ D, j ∈ f.steps ∧ j < k ∧ f.Reached rd j ⟨σ, st⟩ := by
  rcases h with h | ⟨j, hj, hmem, h⟩ | h
  · exact .inl (reached_of_noop hstrict hs h hk hr)
  · by_cases hle : k ≤ j
    · exact .inl (h.earlier hstrict hs hsort hmem hk hle hr)
    · exact .inr ⟨j, (List.mem_cons.mp hj).resolve_left (by omega), hmem, by omega, h⟩
  · exact absurd h hopen

/-- A point that is left to do stays so, or an earlier one takes its place, when the update resumes at
a later one. -/
theorem of_later {value : CellId → Value} {j : Nat} (hstrict : rd.strict) (hs : f.Sequential)
    (hsort : f.steps.Pairwise (· < ·)) (hj : j ∈ f.steps) (hk : k ∈ f.steps) (hlt : j < k)
    (h : f.Reached rd j ⟨σ, st⟩) (heq : ∀ l ∉ f.writesFrom k, st' l = st l) (hD : j ∈ D)
    (htold : ∀ p ∈ f.points, p.loc ∉ f.writesFrom k → Outdated rd value st p → p.step ∈ D) :
    f.Current (withValues rd value) D σ st' τ := by
  have hlater := h.of_later hs hsort hj hk (Nat.le_of_lt hlt) heq
  rcases hlater.change value hstrict hs hsort hj with h | ⟨p, hp, hpj, ⟨d, hd, hne⟩, hreach⟩
  · exact .reached hD hj h
  · have hloc := loc_notMem_writesFrom hs hsort hp hk (by omega)
    exact .reached (htold p hp hloc ⟨d, (heq _ hloc).symm.trans hd, hne⟩) (step_mem_steps hp) hreach

end Current

end Fragment

end LiveBinding
