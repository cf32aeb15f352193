import LiveBinding.Proofs.Denotation
import LiveBinding.Proofs.Dispatch

namespace LiveBinding

namespace Fragment

open Config

/-- No part of a fragment writes to a place that an earlier part touches, and only the right operand
of a branch is passed over with points in it. An operand is set aside by an instruction that stands
alone. -/
def Sequential : Fragment → Prop
  | ops list => storesOf list = [] ∨ ∃ n, list = [.storeScratch n]
  | observe .. => True
  | append f g => Sequential f ∧ Sequential g ∧ ∀ l ∈ f.touched, l ∉ g.writes
  | nullGuard f g => (f.points = [] ∧ g.points = []) ∧ f.writes = [] ∧ g.writes = []
  | shortCircuit _ f g => Sequential f ∧ Sequential g ∧ g.points = [] ∧ ∀ l ∈ f.touched, l ∉ g.writes
  | flagTest _ | flagAssign .. => False
  | branch _ f g flag _ ps => Sequential f ∧ Sequential g ∧ ps.Perm g.points ∧
      (∀ l ∈ f.touched, l ∉ .flag flag :: ps.map SavePoint.loc ++ g.writes) ∧ .flag flag ∉ g.writes

theorem writes_subset_touched (f : Fragment) : f.writes ⊆ f.touched := by
  induction f with
  | ops list =>
    simp only [writes, touched, locs, List.map_append]
    exact List.subset_append_left _ _
  | append f g ih ih' | nullGuard f g ih ih' | shortCircuit op f g ih ih' =>
    simp only [writes, touched, locs] at ih ih' ⊢
    exact List.append_subset.mpr ⟨fun _ h ↦ List.mem_append_left _ (ih h),
      fun _ h ↦ List.mem_append_right _ (ih' h)⟩
  | flagTest | flagAssign | observe => exact fun _ h ↦ h
  | branch op f g flag counter ps ih ih' =>
    simp only [writes, touched, locs] at ih ih' ⊢
    intro l hl
    simp only [List.mem_append, List.mem_cons] at hl ⊢
    rcases hl with h | h | h
    · exact .inl (ih h)
    · exact .inr (.inl h)
    · exact .inr (.inr (ih' h))

theorem writesFrom_subset_writes (k : Nat) (f : Fragment) : f.writesFrom k ⊆ f.writes := by
  induction f with
  | ops | flagTest | flagAssign | observe => exact List.nil_subset _
  | append f g ih ih' | nullGuard f g ih ih' | shortCircuit op f g ih ih' =>
    simp only [writesFrom, writes, locs] at ih ih' ⊢
    intro l hl
    split at hl <;> simp only [List.mem_append] at hl ⊢
    · first
        | exact hl.imp_left fun h ↦ ih h
        | exact .inl (ih hl)
    · exact .inr (ih' hl)
  | branch op f g flag counter ps ih ih' =>
    simp only [writesFrom, writes, locs] at ih ih' ⊢
    intro l hl
    split at hl <;> simp only [List.mem_append] at hl ⊢
    · exact hl.imp_left fun h ↦ ih h
    · exact .inr (.inr (ih' hl))

section

variable (rd : Reading)

/-- The code in front of the point of a step would change nothing, and comes to the point. -/
def Reached (k : Nat) : Fragment → Config → Prop
  | append f g, c =>
    if k ∈ f.steps then Reached k f c
    else ∃ σ, (f.den rd c).result = .ok ⟨σ, c.store⟩ ∧ Reached k g ⟨σ, c.store⟩
  | shortCircuit _ f _, c => k ∈ f.steps ∧ Reached k f c
  | observe property p, c => ∃ v o d, c.stack = [v] ∧ v.receiver property = .ok o ∧
      rd.cell o property = .ok d ∧ c.store p.loc = .cell d
  | branch op f g flag _ _, c =>
    if k ∈ f.steps then Reached k f c
    else ∃ v σ t, (f.den rd c).result = .ok ⟨v :: σ, c.store⟩ ∧ v.toBool = .ok t ∧
      op.skips t = false ∧ c.store (.flag flag) = .bool true ∧ Reached k g ⟨σ, c.store⟩
  | _, _ => False

end

variable {rd : Reading} {f : Fragment} {k : Nat}

/-- Where nothing changes up to a point, resuming there is evaluating from the start. -/
theorem Reached.denFrom_eq {c : Config} (h : f.Reached rd k c) :
    (f.denFrom rd k ⟨[], c.store⟩).result = (f.den rd c).result := by
  induction f generalizing c with
  | ops | nullGuard | flagTest | flagAssign => exact h.elim
  | observe property p =>
    obtain ⟨v, o, d, hstack, ho, hc, hp⟩ := h
    have hden : (rd.observe property p c).result =
        .ok ⟨rd.value d :: [], Function.update c.store p.loc (.cell d)⟩ :=
      Reading.observe_eq_ok.mpr ⟨v, [], o, d, hstack, fun _ ↦ rfl, ho, hc, rfl⟩
    have hsame : Function.update c.store p.loc (.cell d) = c.store := by
      rw [← hp, Function.update_eq_self]
    simp only [denFrom, Reading.reread, hp, den, hden, hsame]
    rfl
  | append f g ih ih' =>
    simp only [Reached] at h
    simp only [denFrom, den]
    split at h
    · next hk =>
      rw [if_pos hk]
      exact Effect.result_bind_congr _ (ih h)
    · next hk =>
      obtain ⟨σ, hf, h⟩ := h
      rw [if_neg hk, Effect.bind_of_ok _ hf]
      exact ih' h
  | shortCircuit op f g ih ih' =>
    obtain ⟨hk, h⟩ := h
    simp only [denFrom, den, if_pos hk]
    exact Effect.result_bind_congr _ (ih h)
  | branch op f g flag counter ps ih ih' =>
    simp only [Reached] at h
    simp only [denFrom, den]
    split at h
    · next hk =>
      rw [if_pos hk]
      exact Effect.result_bind_congr _ (ih h)
    · next hk =>
      obtain ⟨v, σ, t, hf, ht, hskip, hflag, h⟩ := h
      rw [if_neg hk, Effect.bind_of_ok _ hf, fork_of_toBool ht, hskip]
      have hset : Config.setFlag flag true ⟨σ, c.store⟩ = ⟨σ, c.store⟩ := by
        simp only [setFlag, ← hflag, Function.update_eq_self]
      simp only [Bool.false_eq_true, if_false, hset]
      exact ih' h

/-- Every branch around a point that is reached is one that ran. -/
theorem Reached.route_eq {c : Config} (h : f.Reached rd k c) : f.route c.store.isSet k = .resume := by
  induction f generalizing c with
  | ops | nullGuard | flagTest | flagAssign => exact h.elim
  | observe => rfl
  | append f g ih ih' =>
    simp only [Reached] at h
    simp only [route]
    split at h
    · next hk => rw [if_pos hk]; exact ih h
    · next hk =>
      obtain ⟨σ, -, h⟩ := h
      rw [if_neg hk]
      exact (ih' h :)
  | shortCircuit op f g ih ih' =>
    obtain ⟨hk, h⟩ := h
    simp only [route, if_pos hk]
    exact ih h
  | branch op f g flag counter ps ih ih' =>
    simp only [Reached] at h
    simp only [route]
    split at h
    · next hk => rw [if_pos hk]; exact ih h
    · next hk =>
      obtain ⟨v, σ, t, -, -, -, hflag, h⟩ := h
      have hset : c.store.isSet flag := by simp [Store.isSet, hflag]
      rw [if_neg hk, if_pos hset]
      exact (ih' h :)

/-- Where a step leads to depends on the flags of the fragment only. -/
theorem route_congr {isSet isSet' : Nat → Bool}
    (h : ∀ flag, .flag flag ∈ f.touched → isSet flag = isSet' flag) :
    f.route isSet k = f.route isSet' k := by
  induction f with
  | ops | flagTest | flagAssign | observe => rfl
  | append f g ih ih' | nullGuard f g ih ih' | shortCircuit op f g ih ih' =>
    simp only [touched, locs, List.mem_append] at h ih ih'
    simp only [route, ih fun n hn ↦ h n (.inl hn), ih' fun n hn ↦ h n (.inr hn)]
  | branch op f g flag counter ps ih ih' =>
    simp only [touched, locs, List.mem_append, List.mem_cons] at h ih ih'
    simp only [route, ih fun n hn ↦ h n (.inl hn), ih' fun n hn ↦ h n (.inr (.inr hn)),
      h flag (.inr (.inl (.inl rfl)))]

/-- What stands at places that a fragment does not touch does not matter to what is reached. -/
theorem Reached.mix {c : Config} {D : List Loc} (h : f.Reached rd k c)
    (hD : ∀ l ∈ f.touched, l ∉ D) (x : Store) : f.Reached rd k (c.mix D x) := by
  have hpure {g : Fragment} {c : Config} {σ : List Value} (hg : ∀ l ∈ g.touched, l ∉ D)
      (h : (g.den rd c).result = .ok ⟨σ, c.store⟩) :
      (g.den rd (c.mix D x)).result = .ok ⟨σ, (c.mix D x).store⟩ := by
    rw [den_mix hg, Effect.result_map, h]
    rfl
  induction f generalizing c with
  | ops | nullGuard | flagTest | flagAssign => exact h.elim
  | observe property p =>
    obtain ⟨v, o, d, hstack, ho, hc, hp⟩ := h
    exact ⟨v, o, d, hstack, ho, hc, (if_neg (hD _ (by simp [touched, locs]))).trans hp⟩
  | append f g ih ih' =>
    simp only [touched, locs, List.mem_append] at hD ih ih'
    simp only [Reached] at h ⊢
    split at h
    · next hk =>
      rw [if_pos hk]
      exact ih h fun l hl ↦ hD l (.inl hl)
    · next hk =>
      obtain ⟨σ, hf, h⟩ := h
      rw [if_neg hk]
      exact ⟨σ, hpure (fun l hl ↦ hD l (.inl hl)) hf, ih' h fun l hl ↦ hD l (.inr hl)⟩
  | shortCircuit op f g ih ih' =>
    simp only [touched, locs, List.mem_append] at hD ih
    exact ⟨h.1, ih h.2 fun l hl ↦ hD l (.inl hl)⟩
  | branch op f g flag counter ps ih ih' =>
    simp only [touched, locs, List.mem_append, List.mem_cons] at hD ih ih'
    simp only [Reached] at h ⊢
    split at h
    · next hk =>
      rw [if_pos hk]
      exact ih h fun l hl ↦ hD l (.inl hl)
    · next hk =>
      obtain ⟨v, σ, t, hf, ht, hskip, hflag, h⟩ := h
      rw [if_neg hk]
      refine ⟨v, σ, t, hpure (fun l hl ↦ hD l (.inl hl)) hf, ht, hskip, ?_,
        ih' h fun l hl ↦ hD l (.inr (.inr hl))⟩
      exact (if_neg (hD _ (.inr (.inl (.inl rfl))))).trans hflag

theorem Reached.of_eq_off {σ : List Value} {st st' : Store} {D : List Loc}
    (h : f.Reached rd k ⟨σ, st⟩) (hD : ∀ l ∈ f.touched, l ∉ D) (heq : ∀ l ∉ D, st' l = st l) :
    f.Reached rd k ⟨σ, st'⟩ := by
  have hm := h.mix hD st'
  rwa [Config.mix, Store.mix_of_agree heq] at hm

theorem den_of_eq_off {σ σ' : List Value} {st st' : Store} {D : List Loc}
    (h : (f.den rd ⟨σ, st⟩).result = .ok ⟨σ', st⟩) (hD : ∀ l ∈ f.touched, l ∉ D)
    (heq : ∀ l ∉ D, st' l = st l) : (f.den rd ⟨σ, st'⟩).result = .ok ⟨σ', st'⟩ := by
  have hm : (f.den rd (Config.mix D st' ⟨σ, st⟩)).result =
      (Config.mix D st' <$> f.den rd ⟨σ, st⟩).result := congrArg _ (den_mix hD st' ⟨σ, st⟩)
  rw [Effect.result_map, h, Config.mix, Store.mix_of_agree heq] at hm
  exact hm.trans (congrArg Except.ok (congrArg (Config.mk σ') (Store.mix_of_agree heq)))

/-- Evaluating once more changes nothing. -/
theorem den_idem {σ τ : List Value} {st st' : Store} (hs : f.Sequential)
    (h : (f.den rd ⟨σ, st⟩).result = .ok ⟨τ, st'⟩) : (f.den rd ⟨σ, st'⟩).result = .ok ⟨τ, st'⟩ := by
  have hsame {f : Fragment} {σ τ : List Value} {st st' : Store} (hw : f.writes = [])
      (h : (f.den rd ⟨σ, st⟩).result = .ok ⟨τ, st'⟩) :
      (f.den rd ⟨σ, st'⟩).result = .ok ⟨τ, st'⟩ := by
    obtain rfl : st' = st := funext fun l ↦ den_store h (by simp [hw])
    exact h
  induction f generalizing σ τ st st' with
  | ops list =>
    obtain hs | ⟨n, rfl⟩ := hs
    · exact hsame (by simp [writes, locs, hs]) h
    · rcases σ with _ | ⟨v, σ⟩
      · cases h
      · cases h
        exact congrArg (fun x ↦ Except.ok (Config.mk τ x)) (Function.update_idem ..)
  | flagTest | flagAssign => exact hs.elim
  | nullGuard f g => exact hsame (List.append_eq_nil_iff.mpr hs.2) h
  | observe property p =>
    obtain ⟨v, σ', o, d, hstack, hσ, ho, hd, hc⟩ := Reading.observe_eq_ok.mp h
    cases hc
    exact Reading.observe_eq_ok.mpr ⟨v, σ', o, d, hstack, hσ, ho, hd, by rw [Function.update_idem]⟩
  | append f g ih ih' =>
    obtain ⟨hsf, hsg, hd⟩ := hs
    obtain ⟨⟨σ₁, st₁⟩, h₁, h⟩ := Effect.result_bind_eq_ok.mp h
    have hf := den_of_eq_off (ih hsf h₁) hd fun l hl ↦ den_store h hl
    exact Effect.result_bind_eq_ok.mpr ⟨_, hf, ih' hsg h⟩
  | shortCircuit op f g ih ih' =>
    obtain ⟨hsf, hsg, -, hd⟩ := hs
    obtain ⟨⟨σ₁, st₁⟩, h₁, h⟩ := Effect.result_bind_eq_ok.mp h
    obtain ⟨v, σ₂, t, rfl, ht, h⟩ := fork_eq_ok h
    by_cases hskip : op.skips t
    · rw [if_pos hskip] at h
      cases h
      refine Effect.result_bind_eq_ok.mpr ⟨_, ih hsf h₁, ?_⟩
      rw [fork_of_toBool ht, if_pos hskip]
      rfl
    · rw [if_neg hskip] at h
      have hf := den_of_eq_off (ih hsf h₁) hd fun l hl ↦ den_store h hl
      refine Effect.result_bind_eq_ok.mpr ⟨_, hf, ?_⟩
      rw [fork_of_toBool ht, if_neg hskip]
      exact ih' hsg h
  | branch op f g flag counter ps ih ih' =>
    obtain ⟨hsf, hsg, -, hd, hflag⟩ := hs
    obtain ⟨⟨σ₁, st₁⟩, h₁, h⟩ := Effect.result_bind_eq_ok.mp h
    obtain ⟨v, σ₂, t, rfl, ht, h⟩ := fork_eq_ok h
    by_cases hskip : op.skips t
    · rw [if_pos hskip] at h
      have hc : Config.skip flag ps ⟨v :: σ₂, st₁⟩ = ⟨τ, st'⟩ := Except.ok.inj h
      cases hc
      have hf := @den_of_eq_off _ _ _ _ _ (Store.clear ps (Function.update st₁ (.flag flag) (.bool false)))
        _ (ih hsf h₁) hd fun l hl ↦ by
          simp only [List.cons_append, List.mem_cons, List.mem_append, not_or] at hl
          exact (Store.clear_of_not_mem hl.2.1).trans (Function.update_of_ne hl.1 _ _)
      refine Effect.result_bind_eq_ok.mpr ⟨_, hf, ?_⟩
      rw [fork_of_toBool ht, if_pos hskip]
      refine congrArg Except.ok (congrArg (Config.mk _) (funext fun l ↦ ?_))
      simp only [setFlag, Store.clear, Function.update_apply]
      by_cases hl : l ∈ ps.map SavePoint.loc
      · rw [if_pos hl, if_pos hl]
      · rw [if_neg hl, if_neg hl]
        split <;> rfl
    · rw [if_neg hskip] at h
      have hset : st' (.flag flag) = .bool true :=
        (den_store h hflag).trans (Function.update_self _ _ _)
      have hf := den_of_eq_off (ih hsf h₁) hd fun l hl ↦ by
        simp only [List.cons_append, List.mem_cons, List.mem_append, not_or] at hl
        exact (den_store h hl.2.2).trans (Function.update_of_ne hl.1 _ _)
      refine Effect.result_bind_eq_ok.mpr ⟨_, hf, ?_⟩
      rw [fork_of_toBool ht, if_neg hskip]
      simp only [setFlag, ← hset, Function.update_eq_self]
      exact ih' hsg h

/-- Later code may write to other places as well. -/
theorem Reached.of_prefix {k₀ : Nat} {σ : List Value} {st st' : Store} {D : List Loc}
    (h : ∀ st₁ : Store, (∀ l ∉ f.writesFrom k, st₁ l = st l) → f.Reached rd k₀ ⟨σ, st₁⟩)
    (hD : ∀ l ∈ f.touched, l ∉ D) (heq : ∀ l ∉ f.writesFrom k ++ D, st' l = st l) :
    f.Reached rd k₀ ⟨σ, st'⟩ := by
  refine (h (st.mix D st') fun l hl ↦ ?_).of_eq_off hD fun l hl ↦ (if_neg hl).symm
  unfold Store.mix
  split
  · rfl
  · next hD => exact heq l (by simp [hl, hD])

/-- A point stays reached when the storage changes only as it does from a later point on. -/
theorem Reached.of_later {k₀ : Nat} {σ : List Value} {st st' : Store} (hs : f.Sequential)
    (hsort : f.steps.Pairwise (· < ·)) (hk₀ : k₀ ∈ f.steps) (hk : k ∈ f.steps) (hle : k₀ ≤ k)
    (h : f.Reached rd k₀ ⟨σ, st⟩) (heq : ∀ l ∉ f.writesFrom k, st' l = st l) :
    f.Reached rd k₀ ⟨σ, st'⟩ := by
  induction f generalizing σ st' with
  | ops | nullGuard | flagTest | flagAssign => exact h.elim
  | observe property p =>
    have hst : st' = st := funext fun l ↦ heq l (by simp [writesFrom])
    exact hst ▸ h
  | append f g ih ih' =>
    obtain ⟨hsf, hsg, hd⟩ := hs
    rw [steps_append, List.pairwise_append] at hsort
    rw [steps_append, List.mem_append] at hk hk₀
    have hlater : ∀ l ∈ f.touched, l ∉ g.writesFrom k := fun l hl hw ↦
      hd l hl (writesFrom_subset_writes k g hw)
    simp only [Reached, writesFrom] at h heq ⊢
    by_cases hf₀ : k₀ ∈ f.steps
    · rw [if_pos hf₀] at h ⊢
      by_cases hf : k ∈ f.steps
      · rw [if_pos hf] at heq
        exact of_prefix (fun _ heq₁ ↦ ih hsf hsort.1 hf₀ hf h heq₁) hd heq
      · rw [if_neg hf] at heq
        exact h.of_eq_off hlater heq
    · have hg₀ := hk₀.resolve_left hf₀
      have hf : k ∉ f.steps := fun hf ↦ absurd (hsort.2.2 k hf k₀ hg₀) (by omega)
      rw [if_neg hf₀] at h ⊢
      rw [if_neg hf] at heq
      obtain ⟨σ', hden, h⟩ := h
      exact ⟨σ', den_of_eq_off hden hlater heq,
        ih' hsg hsort.2.1 hg₀ (hk.resolve_left hf) h heq⟩
  | shortCircuit op f g ih ih' =>
    obtain ⟨hsf, -, hpoints, hd⟩ := hs
    obtain ⟨hf₀, h⟩ := h
    have hsteps : (shortCircuit op f g).steps = f.steps := by simp [steps, points, hpoints]
    rw [hsteps] at hsort hk
    simp only [writesFrom, if_pos hk] at heq
    exact ⟨hf₀, of_prefix (fun _ heq₁ ↦ ih hsf hsort hf₀ hk h heq₁) hd heq⟩
  | branch op f g flag counter ps ih ih' =>
    obtain ⟨hsf, hsg, -, hd, hflag⟩ := hs
    rw [steps_branch, List.pairwise_append] at hsort
    rw [steps_branch, List.mem_append] at hk hk₀
    have hlater : ∀ l ∈ f.touched, l ∉ g.writesFrom k := fun l hl hw ↦
      hd l hl (List.mem_append_right _ (writesFrom_subset_writes k g hw))
    simp only [Reached, writesFrom] at h heq ⊢
    by_cases hf₀ : k₀ ∈ f.steps
    · rw [if_pos hf₀] at h ⊢
      by_cases hf : k ∈ f.steps
      · rw [if_pos hf] at heq
        exact of_prefix (fun _ heq₁ ↦ ih hsf hsort.1 hf₀ hf h heq₁) hd heq
      · rw [if_neg hf] at heq
        exact h.of_eq_off hlater heq
    · have hg₀ := hk₀.resolve_left hf₀
      have hf : k ∉ f.steps := fun hf ↦ absurd (hsort.2.2 k hf k₀ hg₀) (by omega)
      rw [if_neg hf₀] at h ⊢
      rw [if_neg hf] at heq
      obtain ⟨v, σ', t, hden, ht, hskip, hset, h⟩ := h
      refine ⟨v, σ', t, den_of_eq_off hden hlater heq, ht, hskip, ?_,
        ih' hsg hsort.2.1 hg₀ (hk.resolve_left hf) h heq⟩
      exact (heq _ fun hw ↦ hflag (writesFrom_subset_writes k g hw)).trans hset

/-- Where the whole changes nothing, no part does. -/
theorem store_eq_of_noop {c c₁ : Config} {W : List Loc} (h₁ : (f.den rd c).result = .ok c₁)
    (hW : ∀ l ∉ W, c.store l = c₁.store l) (hd : ∀ l ∈ f.touched, l ∉ W) : c₁.store = c.store := by
  funext l
  by_cases hl : l ∈ W
  · exact den_store h₁ fun hw ↦ hd l (writes_subset_touched f hw) hl
  · exact (hW l hl).symm

theorem noop_append {g : Fragment} {c : Config} {σ : List Value} (hs : (append f g).Sequential)
    (h : ((append f g).den rd c).result = .ok ⟨σ, c.store⟩) :
    ∃ σ₁, (f.den rd c).result = .ok ⟨σ₁, c.store⟩ ∧
      (g.den rd ⟨σ₁, c.store⟩).result = .ok ⟨σ, c.store⟩ := by
  obtain ⟨⟨σ₁, st₁⟩, h₁, h⟩ := Effect.result_bind_eq_ok.mp h
  obtain rfl : st₁ = c.store := store_eq_of_noop h₁ (fun l hl ↦ den_store h hl) hs.2.2
  exact ⟨σ₁, h₁, h⟩

theorem noop_shortCircuit {g : Fragment} {op : BinaryOp} {c : Config} {σ : List Value}
    (hs : (shortCircuit op f g).Sequential)
    (h : ((shortCircuit op f g).den rd c).result = .ok ⟨σ, c.store⟩) :
    ∃ σ₁, (f.den rd c).result = .ok ⟨σ₁, c.store⟩ ∧
      (fork op pure (g.den rd) ⟨σ₁, c.store⟩).result = .ok ⟨σ, c.store⟩ := by
  obtain ⟨⟨σ₁, st₁⟩, h₁, h⟩ := Effect.result_bind_eq_ok.mp h
  obtain rfl : st₁ = c.store := by
    refine store_eq_of_noop h₁ (fun l hl ↦ ?_) hs.2.2.2
    obtain ⟨v, σ', t, -, -, h⟩ := fork_eq_ok h
    split at h
    · cases h; rfl
    · exact (den_store h hl :)
  exact ⟨σ₁, h₁, h⟩

theorem noop_branch {g : Fragment} {op : BinaryOp} {flag counter : Nat} {ps : List SavePoint}
    {c : Config} {σ : List Value} (hs : (branch op f g flag counter ps).Sequential)
    (h : ((branch op f g flag counter ps).den rd c).result = .ok ⟨σ, c.store⟩) :
    ∃ v σ₁ t, (f.den rd c).result = .ok ⟨v :: σ₁, c.store⟩ ∧ v.toBool = .ok t ∧
      if op.skips t then
        (skip flag ps ⟨v :: σ₁, c.store⟩ = ⟨σ, c.store⟩)
      else c.store (.flag flag) = .bool true ∧ (g.den rd ⟨σ₁, c.store⟩).result = .ok ⟨σ, c.store⟩ := by
  obtain ⟨-, -, -, hd, hflag⟩ := hs
  obtain ⟨⟨σ₀, st₁⟩, h₁, h⟩ := Effect.result_bind_eq_ok.mp h
  obtain ⟨v, σ₁, t, rfl, ht, h⟩ := fork_eq_ok h
  by_cases hskip : op.skips t
  · rw [if_pos hskip] at h
    have hc : skip flag ps ⟨v :: σ₁, st₁⟩ = ⟨σ, c.store⟩ := Except.ok.inj h
    obtain rfl : st₁ = c.store := by
      refine store_eq_of_noop h₁ (fun l hl ↦ ?_) hd
      rw [← congrArg Config.store hc]
      simp only [List.cons_append, List.mem_cons, List.mem_append, not_or] at hl
      exact (Store.clear_of_not_mem hl.2.1).trans (Function.update_of_ne hl.1 _ _)
    exact ⟨v, σ₁, t, h₁, ht, by rw [if_pos hskip]; exact hc⟩
  · rw [if_neg hskip] at h
    obtain rfl : st₁ = c.store := by
      refine store_eq_of_noop h₁ (fun l hl ↦ ?_) hd
      simp only [List.cons_append, List.mem_cons, List.mem_append, not_or] at hl
      exact (den_store h hl.2.2).trans (Function.update_of_ne hl.1 _ _)
    have hset : c.store (.flag flag) = .bool true :=
      (den_store h hflag).trans (Function.update_self _ _ _)
    refine ⟨v, σ₁, t, h₁, ht, ?_⟩
    rw [if_neg hskip]
    refine ⟨hset, ?_⟩
    simpa only [setFlag, ← hset, Function.update_eq_self] using h

/-- Where skipping a right operand changes nothing, it is off and listens to nothing. -/
theorem off_of_skip {flag : Nat} {ps : List SavePoint} {σ σ' : List Value} {st : Store}
    (h : skip flag ps ⟨σ, st⟩ = ⟨σ', st⟩) :
    st (.flag flag) = .bool false ∧ ∀ p ∈ ps, st p.loc = .null := by
  have hstore : Store.clear ps (Function.update st (.flag flag) (.bool false)) = st :=
    congrArg Config.store h
  constructor
  · rw [← hstore]
    refine (Store.clear_of_not_mem fun hmem ↦ ?_).trans (Function.update_self _ _ _)
    obtain ⟨p, -, hp⟩ := List.mem_map.mp hmem
    cases hp
  · intro p hp
    rw [← hstore]
    exact if_pos (List.mem_map_of_mem hp)

theorem noop_observe {property : String} {p : SavePoint} {c : Config} {σ : List Value}
    (hstrict : rd.strict) (h : ((observe property p).den rd c).result = .ok ⟨σ, c.store⟩) :
    ∃ v o d, c.stack = [v] ∧ v.receiver property = .ok o ∧ rd.cell o property = .ok d ∧
      c.store p.loc = .cell d := by
  obtain ⟨v, σ', o, d, hstack, hσ, ho, hd, hc⟩ := Reading.observe_eq_ok.mp h
  rw [hσ hstrict] at hstack
  refine ⟨v, o, d, hstack, ho, hd, ?_⟩
  rw [congrArg Config.store hc]
  exact Function.update_self _ _ _

theorem steps_shortCircuit_of_points {g : Fragment} {op : BinaryOp} (h : g.points = []) :
    (shortCircuit op f g).steps = f.steps := by
  simp [steps, points, h]

/-- Where evaluating changes nothing, every point is reached that no skipped branch is around. -/
theorem reached_of_noop {c : Config} {σ : List Value} (hstrict : rd.strict) (hs : f.Sequential)
    (h : (f.den rd c).result = .ok ⟨σ, c.store⟩) (hk : k ∈ f.steps)
    (hr : f.route c.store.isSet k = .resume) : f.Reached rd k c := by
  induction f generalizing c σ with
  | ops | flagTest | flagAssign => simp [steps, points] at hk
  | nullGuard f g => simp [steps, points, hs.1] at hk
  | observe property p => exact noop_observe hstrict h
  | append f g ih ih' =>
    obtain ⟨σ₁, hf, hg⟩ := noop_append hs h
    rw [steps_append, List.mem_append] at hk
    simp only [route] at hr
    unfold Reached
    by_cases hkf : k ∈ f.steps
    · rw [if_pos hkf] at hr ⊢
      exact ih hs.1 hf hkf hr
    · rw [if_neg hkf] at hr ⊢
      exact ⟨σ₁, hf, ih' (c := ⟨σ₁, c.store⟩) hs.2.1 hg (hk.resolve_left hkf) hr⟩
  | shortCircuit op f g ih ih' =>
    obtain ⟨σ₁, hf, -⟩ := noop_shortCircuit hs h
    rw [steps_shortCircuit_of_points hs.2.2.1] at hk
    simp only [route, if_pos hk] at hr
    exact ⟨hk, ih hs.1 hf hk hr⟩
  | branch op f g flag counter ps ih ih' =>
    obtain ⟨v, σ₁, t, hf, ht, hrest⟩ := noop_branch hs h
    rw [steps_branch, List.mem_append] at hk
    simp only [route] at hr
    unfold Reached
    by_cases hkf : k ∈ f.steps
    · rw [if_pos hkf] at hr ⊢
      exact ih hs.1 hf hkf hr
    · rw [if_neg hkf] at hr ⊢
      by_cases hset : c.store.isSet flag
      · rw [if_pos hset] at hr
        split at hrest
        · -- a skipped branch has its flag off
          simp [Store.isSet, (off_of_skip hrest).1] at hset
        · next hskip =>
          exact ⟨v, σ₁, t, hf, ht, by simpa using hskip, hrest.1,
            ih' (c := ⟨σ₁, c.store⟩) hs.2.1 hrest.2 (hk.resolve_left hkf) hr⟩
      · rw [if_neg hset] at hr
        cases hr

end Fragment

end LiveBinding
