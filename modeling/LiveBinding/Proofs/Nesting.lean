import LiveBinding.Proofs.Labels

namespace LiveBinding

namespace Container

theorem mem_all_self (c : Container) : c ∈ c.all := by
  cases c
  exact List.mem_cons_self

theorem mem_allOf {cs : List Container} {d : Container} : d ∈ allOf cs ↔ ∃ c ∈ cs, d ∈ c.all := by
  induction cs with
  | nil => simp [allOf]
  | cons c cs ih => simp [allOf, ih]

mutual

/-- What is inside a container includes the children of everything inside. -/
theorem child_mem_all {e : Container} : ∀ {c d : Container}, d ∈ c.all → e ∈ d.children → e ∈ c.all
  | .mk _ _ _ _ _ cs, d, hd, he => by
    rcases List.mem_cons.mp hd with rfl | hd
    · exact List.mem_cons_of_mem _ (mem_allOf.mpr ⟨e, he, e.mem_all_self⟩)
    · exact List.mem_cons_of_mem _ (child_mem_allOf hd he)

theorem child_mem_allOf {e : Container} :
    ∀ {cs : List Container} {d : Container}, d ∈ allOf cs → e ∈ d.children → e ∈ allOf cs
  | [], _, hd, _ => nomatch hd
  | _ :: _, _, hd, he => List.mem_append.mpr <| (List.mem_append.mp hd).imp
      (child_mem_all · he) (child_mem_allOf · he)

end

theorem contains_iff {c : Container} {k : Nat} : c.contains k ↔ c.offset ≤ k ∧ k < c.stop := by
  simp [contains]

/-- How the children of a container lie in it: they are numbered after it, their ranges lie in its
range one after the other, and with its own points they take up all of it. -/
structure Tidy (c : Container) : Prop where
  numbered : ∀ d ∈ c.children, c.index < d.index
  inside : ∀ d ∈ c.children, c.offset ≤ d.offset ∧ d.stop ≤ c.stop
  apart : c.children.Pairwise fun d e ↦ d.stop ≤ e.offset
  full : .gap ∉ c.entries

end Container

namespace Fragment

open Container

variable {f : Fragment} {index step : Nat}

/-- The containers of the outermost branches lie one after the other. -/
theorem pairwise_containers (f : Fragment) (index step : Nat) :
    (f.containers index step).Pairwise fun c d ↦ c.stop ≤ d.offset := by
  induction f generalizing index step with
  | ops | flagTest | flagAssign | observe => exact .nil
  | append f g ih ih' | nullGuard f g ih ih' | shortCircuit op f g ih ih' =>
    refine List.pairwise_append.mpr ⟨ih .., ih' .., fun c hc d hd ↦ ?_⟩
    exact Nat.le_trans (containers_range hc).2.2 (containers_range hd).2.1
  | branch op f g flag counter points ih ih' =>
    refine List.pairwise_append.mpr ⟨ih .., List.pairwise_singleton .., fun c hc d hd ↦ ?_⟩
    obtain rfl := List.mem_singleton.mp hd
    exact (containers_range hc).2.2

/-- Every step of a fragment is one of its own, or one of an outermost branch. -/
theorem own_or_contained {k : Nat} (hsteps : f.steps = List.range' step f.points.length)
    (hk : k ∈ f.steps) :
    k ∈ f.own.map SavePoint.step ∨ ∃ c ∈ f.containers index step, c.contains k := by
  induction f generalizing index step with
  | ops | flagTest | flagAssign => simp [steps, points] at hk
  | observe => exact .inl hk
  | append f g ih ih' | nullGuard f g ih ih' | shortCircuit op f g ih ih' =>
    simp only [steps_append, steps_nullGuard, steps_shortCircuit] at hsteps hk
    obtain ⟨hf, hg⟩ := steps_split hsteps
    simp only [own, containers, List.map_append, List.mem_append]
    rcases List.mem_append.mp hk with hk | hk
    · exact (@ih index _ hf hk).imp .inl <| Exists.imp fun _ ↦ And.imp_left .inl
    · exact (@ih' (index + f.branches.length) _ hg hk).imp .inr <| Exists.imp fun _ ↦ And.imp_left .inr
  | branch op f g flag counter points ih ih' =>
    simp only [steps_branch] at hsteps hk
    obtain ⟨hf, hg⟩ := steps_split hsteps
    simp only [own, containers, List.mem_append, List.mem_singleton]
    rcases List.mem_append.mp hk with hk | hk
    · exact (@ih index _ hf hk).imp id <| Exists.imp fun _ ↦ And.imp_left .inl
    · rw [hg, List.mem_range'_1] at hk
      exact .inr ⟨_, .inr rfl, contains_iff.mpr hk⟩

/-- The container that a fragment is the content of. A part of its range in front of the steps of the
fragment is taken up by step 0. -/
theorem tidy_content {number offset : Nat} {flag : Option Nat}
    (hsteps : f.steps = List.range' step f.points.length) (hnumber : number < index)
    (hoffset : offset ≤ step) (hzero : ∀ k, offset ≤ k → k < step → k = 0 ∧ number = 0) :
    (Container.mk number flag offset (step + f.points.length) f.own
      (f.containers index step)).Tidy where
  numbered d hd := Nat.lt_of_lt_of_le hnumber (containers_range hd).1
  inside d hd := ⟨Nat.le_trans hoffset (containers_range hd).2.1, (containers_range hd).2.2⟩
  apart := pairwise_containers ..
  full hgap := by
    obtain ⟨k, hk, hentry⟩ := List.mem_map.mp hgap
    simp only [Container.offset, Container.stop, List.mem_range'_1] at hk
    unfold entry at hentry
    split at hentry
    · cases hentry
    next hown =>
      simp only [Container.index, Container.points, Container.children, Bool.or_eq_true,
        Bool.and_eq_true, beq_iff_eq, List.any_eq_true, not_or] at hown hentry
      have hmem : k ∈ f.steps := by
        rw [hsteps, List.mem_range'_1]
        have := hzero k hk.1
        omega
      rcases own_or_contained hsteps hmem with h | ⟨c, hc, hcontains⟩
      · exact hown.2 (List.mem_map.mp h)
      · cases hfind : (f.containers index step).find? (·.contains k) with
        | none => exact List.find?_eq_none.mp hfind c hc hcontains
        | some d => simp [hfind] at hentry

theorem tidy_containers (hsteps : f.steps = List.range' step f.points.length) :
    ∀ c ∈ allOf (f.containers index step), c.Tidy := by
  induction f generalizing index step with
  | ops | flagTest | flagAssign | observe => simp [containers, allOf]
  | append f g ih ih' | nullGuard f g ih ih' | shortCircuit op f g ih ih' =>
    simp only [steps_append, steps_nullGuard, steps_shortCircuit] at hsteps
    obtain ⟨hf, hg⟩ := steps_split hsteps
    simp only [containers, allOf_append, List.mem_append]
    rintro c (hc | hc)
    · exact ih hf c hc
    · exact ih' hg c hc
  | branch op f g flag counter points ih ih' =>
    simp only [steps_branch] at hsteps
    obtain ⟨hf, hg⟩ := steps_split hsteps
    simp only [containers, allOf_append, List.mem_append, allOf, all, List.append_nil, List.mem_cons]
    rintro c (hc | rfl | hc)
    · exact ih hf c hc
    · exact tidy_content hg (Nat.lt_succ_self _) (Nat.le_refl _) (by omega)
    · exact ih' hg c hc

/-- The containers of a whole expression, whose steps count from 1 on. -/
theorem tidy_root (hsteps : f.steps = List.range' 1 f.points.length) :
    ∀ c ∈ (Container.mk 0 none 0 (1 + f.points.length) f.own (f.containers 1 1)).all, c.Tidy := by
  intro c hc
  rcases List.mem_cons.mp hc with rfl | hc
  · exact tidy_content hsteps Nat.zero_lt_one (Nat.zero_le _) (by omega)
  · exact tidy_containers hsteps c hc

end Fragment

end LiveBinding
