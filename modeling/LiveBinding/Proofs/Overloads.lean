import LiveBinding.Host.Registry
import LiveBinding.Tree.Overload
import Mathlib.Algebra.BigOperators.Intervals

/-!
Which overload a call selects. The methods met so far with the highest score are, at every point of
the loop, those of the methods behind it that no other one outdoes (`Keeps`). So the outcome is
decided by the viable methods and their points alone, whatever the order of the list.
-/

namespace LiveBinding.Overload

section

variable (model : TypeModel)

/-- The argument at `i` can be used as the parameter at `j` without any conversion. -/
def takes (params args : List Ty) (i j : ℕ) : Bool :=
  match args[i]?, params[j]? with
  | some arg, some param => model.isAssignable arg param
  | _, _ => false

/-- The places of an argument and of a parameter, there or later, that takes it. -/
def fits (params args : List Ty) : Finset (ℕ × ℕ) :=
  (Finset.range args.length ×ˢ Finset.range params.length).filter fun p ↦
    p.1 ≤ p.2 ∧ takes model params args p.1 p.2

def points (params args : List Ty) : ℕ := (fits model params args).card

/-- The method can be called with arguments of the types. -/
structure Viable (args : List Ty) (m : MethodInfo) : Prop where
  accessible : m.flags.accessible
  /-- There is an argument for every parameter, and it has a value that converts to it. -/
  converts : List.Forall₂
    (fun arg param ↦ arg ≠ .void ∧ (Coercion.coerce? model arg param).isSome) args m.params

/-- The method can be called, and no other one of the list has more points. -/
def Leads (args : List Ty) (candidates : List MethodInfo) (m : MethodInfo) : Prop :=
  Viable model args m ∧
    ∀ c ∈ candidates, Viable model args c → points model c.params args ≤ points model m.params args

/-- The entry is viable and has more points than every other viable entry of the list. -/
def Wins (args : List Ty) (candidates : List MethodInfo) (m : MethodInfo) : Prop :=
  ∃ before after, candidates = before ++ m :: after ∧ Viable model args m ∧
    ∀ c ∈ before ++ after, Viable model args c →
      points model c.params args < points model m.params args

end

variable {model : TypeModel} {args params : List Ty} {m c : MethodInfo}
  {candidates : List MethodInfo}

theorem mem_fits {i j : ℕ} : (i, j) ∈ fits model params args ↔
    i < args.length ∧ j < params.length ∧ i ≤ j ∧ takes model params args i j := by
  simp only [fits, Finset.mem_filter, Finset.mem_product, Finset.mem_range, and_assoc]

theorem takes_eq {i j : ℕ} (hi : i < args.length) (hj : j < params.length) :
    takes model params args i j = model.isAssignable args[i] params[j] := by
  simp only [takes, List.getElem?_eq_getElem hi, List.getElem?_eq_getElem hj]

@[simp]
theorem takes_succ (param arg : Ty) (i j : ℕ) :
    takes model (param :: params) (arg :: args) (i + 1) (j + 1) = takes model params args i j := rfl

theorem points_eq_sum : points model params args = ∑ i ∈ Finset.range args.length,
    ∑ j ∈ Finset.range params.length, if i ≤ j ∧ takes model params args i j then 1 else 0 := by
  rw [points, fits, Finset.card_filter, Finset.sum_product]

theorem countP_eq_sum (p : Ty → Bool) (tys : List Ty) :
    tys.countP p = ∑ j ∈ Finset.range tys.length, if (tys[j]?).any p then 1 else 0 := by
  induction tys with
  | nil => rfl
  | cons ty tys ih =>
    rw [List.countP_cons, ih, List.length_cons, Finset.sum_range_succ']
    simp

theorem points_cons (param arg : Ty) : points model (param :: params) (arg :: args) =
    (param :: params).countP (model.isAssignable arg) + points model params args := by
  have hfirst (j : ℕ) : takes model (param :: params) (arg :: args) 0 j =
      ((param :: params)[j]?).any (model.isAssignable arg) := by
    cases hj : (param :: params)[j]? <;> simp [takes, hj]
  have hlater (i : ℕ) : ∑ j ∈ Finset.range (params.length + 1),
      (if i + 1 ≤ j ∧ takes model (param :: params) (arg :: args) (i + 1) j then 1 else 0) =
      ∑ j ∈ Finset.range params.length, if i ≤ j ∧ takes model params args i j then 1 else 0 := by
    rw [Finset.sum_range_succ']
    simp
  rw [points_eq_sum, points_eq_sum, countP_eq_sum, List.length_cons, List.length_cons,
    Finset.sum_range_succ', Nat.add_comm]
  simp only [hlater, hfirst, Nat.zero_le, true_and]

/-- The score of a call counts the pairs of an argument and a parameter that takes it. -/
theorem score_eq_points (h : args.length = params.length) :
    score model params args = points model params args := by
  induction params generalizing args with
  | nil =>
    obtain rfl := List.length_eq_zero_iff.mp h
    rfl
  | cons param params ih =>
    cases args with
    | nil => cases h
    | cons arg args => rw [score, points_cons, ih (Nat.succ.inj h)]

theorem isApplicable_iff (h : args.length = params.length) : isApplicable model params args ↔
    List.Forall₂ (fun arg param ↦ arg ≠ .void ∧ (Coercion.coerce? model arg param).isSome)
      args params := by
  induction params generalizing args with
  | nil =>
    obtain rfl := List.length_eq_zero_iff.mp h
    simp [isApplicable]
  | cons param params ih =>
    cases args with
    | nil => cases h
    | cons arg args =>
      simp only [isApplicable, List.zip_cons_cons, List.all_cons, Bool.and_eq_true, bne_iff_ne,
        List.forall₂_cons] at ih ⊢
      rw [ih (Nat.succ.inj h)]

theorem Viable.length (h : Viable model args m) : args.length = m.params.length := h.converts.length_eq

theorem viable_of (h : Viable model args m) :
    viable? model args m = some (points model m.params args) := by
  rw [viable?, if_pos, score_eq_points h.length]
  simp only [Bool.and_eq_true, beq_iff_eq]
  exact ⟨⟨h.accessible, h.length.symm⟩, (isApplicable_iff h.length).mpr h.converts⟩

theorem viable_none (h : ¬Viable model args m) : viable? model args m = none := by
  rw [viable?, if_neg]
  intro hall
  simp only [Bool.and_eq_true, beq_iff_eq] at hall
  exact h ⟨hall.1.1, (isApplicable_iff hall.1.2.symm).mp hall.2⟩

theorem viable?_isSome_iff : (viable? model args m).isSome ↔ Viable model args m := by
  by_cases h : Viable model args m
  · simp [h, viable_of h]
  · simp [h, viable_none h]

instance (args : List Ty) (m : MethodInfo) : Decidable (Viable model args m) :=
  decidable_of_iff _ viable?_isSome_iff

instance (args : List Ty) (candidates : List MethodInfo) (m : MethodInfo) :
    Decidable (Leads model args candidates m) :=
  inferInstanceAs (Decidable (_ ∧ _))

/-- The viable methods with the highest score, in the order of the list. -/
def leaders (model : TypeModel) (args : List Ty) (candidates : List MethodInfo) :
    List MethodInfo := candidates.filter (Leads model args candidates ·)

theorem forall_viable_concat {P : MethodInfo → Prop}
    (h : ∀ d ∈ candidates, Viable model args d → P d) (hc : Viable model args c → P c) :
    ∀ d ∈ candidates ++ [c], Viable model args d → P d := by
  intro d hd hv
  rcases List.mem_append.mp hd with hd | hd
  · exact h d hd hv
  · obtain rfl := List.mem_singleton.mp hd
    exact hc hv

/-- The methods kept behind some candidates, with their score: those that no other one outdoes. -/
structure Keeps (model : TypeModel) (args : List Ty) (candidates : List MethodInfo)
    (kept : List MethodInfo × ℕ) : Prop where
  eq : kept.1 = candidates.filter fun m ↦
    Viable model args m ∧ points model m.params args = kept.2
  le : ∀ c ∈ candidates, Viable model args c → points model c.params args ≤ kept.2
  ne_nil : ∀ c ∈ candidates, Viable model args c → kept.1 ≠ []

namespace Keeps

variable {kept : List MethodInfo × ℕ}

theorem start : Keeps model args [] ([], 0) := ⟨rfl, by simp, by simp⟩

/-- A method that cannot be called is passed over. -/
theorem skip (h : Keeps model args candidates kept) (hc : ¬Viable model args c) :
    Keeps model args (candidates ++ [c]) kept where
  eq := by simp [h.eq, hc]
  le := forall_viable_concat h.le fun hv ↦ absurd hv hc
  ne_nil := forall_viable_concat h.ne_nil fun hv ↦ absurd hv hc

/-- The first method that can be called, or one with a higher score, replaces those kept. -/
theorem replace (h : Keeps model args candidates kept) (hc : Viable model args c)
    (hbest : kept.1 = [] ∨ kept.2 < points model c.params args) :
    Keeps model args (candidates ++ [c]) ([c], points model c.params args) := by
  have hlt : ∀ d ∈ candidates, Viable model args d →
      points model d.params args < points model c.params args := by
    intro d hd hv
    rcases hbest with hnil | hlt
    · exact absurd hnil (h.ne_nil d hd hv)
    · exact (h.le d hd hv).trans_lt hlt
  refine ⟨?_, ?_, by simp⟩
  · have hnone : candidates.filter (fun m ↦
        Viable model args m ∧ points model m.params args = points model c.params args) = [] := by
      rw [List.filter_eq_nil_iff]
      intro d hd hkept
      obtain ⟨hv, heq⟩ := of_decide_eq_true hkept
      exact (hlt d hd hv).ne heq
    rw [List.filter_append, hnone]
    simp [hc]
  · exact forall_viable_concat (fun d hd hv ↦ (hlt d hd hv).le) fun _ ↦ le_rfl

/-- A method with the same score joins those kept. -/
theorem join (h : Keeps model args candidates kept) (hc : Viable model args c)
    (heq : points model c.params args = kept.2) :
    Keeps model args (candidates ++ [c]) (kept.1 ++ [c], points model c.params args) where
  eq := by simp [h.eq, hc, heq]
  le := forall_viable_concat (fun d hd hv ↦ (h.le d hd hv).trans_eq heq.symm) fun _ ↦ le_rfl
  ne_nil := by simp

/-- A method with a lower score changes nothing. -/
theorem stay (h : Keeps model args candidates kept) (hnil : kept.1 ≠ [])
    (hlt : points model c.params args < kept.2) : Keeps model args (candidates ++ [c]) kept where
  eq := by simp [h.eq, hlt.ne]
  le := forall_viable_concat h.le fun _ ↦ hlt.le
  ne_nil := fun _ _ _ ↦ hnil

theorem keepBest (h : Keeps model args candidates kept) (hc : Viable model args c) :
    Keeps model args (candidates ++ [c])
      (keepBest kept c (points model c.params args)) := by
  unfold Overload.keepBest
  split
  · next hbest =>
    apply h.replace hc
    simpa using hbest
  · next hbest =>
    simp only [Bool.or_eq_true, List.isEmpty_iff, decide_eq_true_eq, not_or, not_lt] at hbest
    split
    · next heq => exact h.join hc (beq_iff_eq.mp heq)
    · next hne => exact h.stay hbest.1 (lt_of_le_of_ne hbest.2 fun heq ↦ hne (beq_iff_eq.mpr heq))

end Keeps

theorem best_eq_foldl (args : List Ty) (candidates : List MethodInfo) :
    best model args candidates = (candidates.foldl (fun kept method ↦
      (viable? model args method).elim kept (keepBest kept method)) ([], 0)).1 := by
  rw [best]
  congr
  funext kept method
  cases viable? model args method <;> rfl

variable (model) in
theorem keeps_foldl (args : List Ty) (candidates : List MethodInfo) :
    Keeps model args candidates (candidates.foldl (fun kept method ↦
      (viable? model args method).elim kept (keepBest kept method)) ([], 0)) := by
  induction candidates using List.reverseRecOn with
  | nil => exact .start
  | append_singleton candidates c ih =>
    rw [List.foldl_append, List.foldl_cons, List.foldl_nil]
    by_cases hc : Viable model args c
    · rw [viable_of hc]
      exact ih.keepBest hc
    · rw [viable_none hc]
      exact ih.skip hc

theorem best_eq_leaders (args : List Ty) (candidates : List MethodInfo) :
    best model args candidates = leaders model args candidates := by
  have h := keeps_foldl model args candidates
  rw [best_eq_foldl, h.eq, leaders]
  apply List.filter_congr
  intro m hm
  rw [decide_eq_decide]
  constructor
  · rintro ⟨hv, heq⟩
    exact ⟨hv, fun c hc hcv ↦ heq ▸ h.le c hc hcv⟩
  · rintro ⟨hv, hle⟩
    refine ⟨hv, (h.le m hm hv).antisymm ?_⟩
    obtain ⟨d, hd⟩ := List.exists_mem_of_ne_nil _ (h.ne_nil m hm hv)
    rw [h.eq] at hd
    obtain ⟨hmem, hkept⟩ := List.mem_filter.mp hd
    obtain ⟨hdv, heq⟩ := of_decide_eq_true hkept
    exact heq ▸ hle d hmem hdv

theorem leaders_eq_nil_iff : leaders model args candidates = [] ↔
    ∀ c ∈ candidates, ¬Viable model args c := by
  constructor
  · intro hnil c hc hv
    apply (keeps_foldl model args candidates).ne_nil c hc hv
    rw [← best_eq_foldl, best_eq_leaders, hnil]
  · intro hnone
    rw [leaders, List.filter_eq_nil_iff]
    intro m hm hleads
    exact hnone m hm (of_decide_eq_true hleads).1

theorem leaders_eq_singleton_iff : leaders model args candidates = [m] ↔
    Wins model args candidates m := by
  rw [leaders, List.filter_eq_cons_iff]
  constructor
  · rintro ⟨before, after, rfl, hbefore, hm, hafter⟩
    rw [List.filter_eq_nil_iff] at hafter
    obtain ⟨hv, hle⟩ := of_decide_eq_true hm
    refine ⟨before, after, rfl, hv, ?_⟩
    intro c hc hcv
    have hmem : c ∈ before ++ m :: after :=
      ((List.sublist_cons_self m after).append_left before).subset hc
    apply (hle c hmem hcv).lt_of_ne
    intro heq
    have hleads : decide (Leads model args (before ++ m :: after) c) = true :=
      decide_eq_true ⟨hcv, fun d hd hdv ↦ heq ▸ hle d hd hdv⟩
    rcases List.mem_append.mp hc with hc | hc
    · exact hbefore c hc hleads
    · exact hafter c hc hleads
  · rintro ⟨before, after, rfl, hv, hlt⟩
    have hloses : ∀ c ∈ before ++ after,
        ¬decide (Leads model args (before ++ m :: after) c) = true := by
      intro c hc hleads
      obtain ⟨hcv, hle⟩ := of_decide_eq_true hleads
      exact (hlt c hc hcv).not_ge (hle m (by simp) hv)
    refine ⟨before, after, rfl, fun c hc ↦ hloses c (List.mem_append_left _ hc), ?_, ?_⟩
    · apply decide_eq_true
      refine ⟨hv, fun c hc hcv ↦ ?_⟩
      rcases List.mem_append.mp hc with hc | hc
      · exact (hlt c (List.mem_append_left _ hc) hcv).le
      · rcases List.mem_cons.mp hc with rfl | hc
        · exact le_rfl
        · exact (hlt c (List.mem_append_right _ hc) hcv).le
    · rw [List.filter_eq_nil_iff]
      exact fun c hc ↦ hloses c (List.mem_append_right _ hc)

theorem leaders_perm {candidates' : List MethodInfo} (h : candidates.Perm candidates') :
    (leaders model args candidates).Perm (leaders model args candidates') := by
  have hsame : candidates'.filter (Leads model args candidates ·) =
      leaders model args candidates' := by
    apply List.filter_congr
    intro m _
    rw [decide_eq_decide]
    simp only [Leads, h.mem_iff]
  exact hsame ▸ h.filter _

theorem Wins.perm {candidates' : List MethodInfo} (h : candidates.Perm candidates') :
    Wins model args candidates m ↔ Wins model args candidates' m := by
  rw [← leaders_eq_singleton_iff, ← leaders_eq_singleton_iff, ← List.perm_singleton,
    ← List.perm_singleton]
  exact ⟨(leaders_perm h).symm.trans, (leaders_perm h).trans⟩

variable (model) in
/-- What a call ends with, by the number of the viable methods with the highest score. -/
theorem select_cases (kind : MemberKind) (name : String) (owner : Ty)
    (candidates : List MethodInfo) (hargs : args.length ≤ maxArgs) :
    leaders model args candidates = [] ∧ select model kind name owner candidates args =
        .error (Problem.noApplicableMember kind name (model.display owner)) ∨
      (∃ m, leaders model args candidates = [m] ∧
        select model kind name owner candidates args = .ok m) ∨
      2 ≤ (leaders model args candidates).length ∧ select model kind name owner candidates args =
        .error (Problem.ambiguousCall name (model.display owner)
          ((leaders model args candidates).map model.signature)) := by
  rw [select, if_neg hargs.not_gt, best_eq_leaders]
  rcases leaders model args candidates with - | ⟨m, - | ⟨m', rest⟩⟩
  · exact .inl ⟨rfl, rfl⟩
  · exact .inr (.inl ⟨m, rfl, rfl⟩)
  · exact .inr (.inr ⟨by simp, rfl⟩)

theorem select_eq_ok_iff {kind : MemberKind} {name : String} {owner : Ty} (hargs : args.length ≤ maxArgs) :
    select model kind name owner candidates args = .ok m ↔ Wins model args candidates m := by
  rw [← leaders_eq_singleton_iff]
  rcases select_cases model kind name owner candidates hargs with ⟨h, hs⟩ | ⟨m', h, hs⟩ | ⟨h, hs⟩
  · simp [h, hs]
  · simp [h, hs]
  · have hne : leaders model args candidates ≠ [m] := fun heq ↦ by simp [heq] at h
    simp [hs, hne]

/-- A call selects the one viable method that has more points than every other viable one, in
whatever order they are listed. Viable methods that share the highest score are reported in the
order of the list, and a call for which there is none is an error of its own. -/
theorem select_iff (model : TypeModel) (kind : MemberKind) (name : String) (owner : Ty)
    (candidates : List MethodInfo) (args : List Ty) (hargs : args.length ≤ maxArgs) :
    (∀ m, select model kind name owner candidates args = .ok m ↔ Wins model args candidates m) ∧
    (∀ name' owner' signatures, select model kind name owner candidates args =
        .error (Problem.ambiguousCall name' owner' signatures) ↔
      2 ≤ (leaders model args candidates).length ∧ name' = name ∧ owner' = model.display owner ∧
        signatures = (leaders model args candidates).map model.signature) ∧
    (∀ kind' name' owner', select model kind name owner candidates args =
        .error (Problem.noApplicableMember kind' name' owner') ↔
      (∀ c ∈ candidates, ¬Viable model args c) ∧ kind' = kind ∧ name' = name ∧
        owner' = model.display owner) ∧
    ∀ candidates', candidates.Perm candidates' → ∀ m,
      select model kind name owner candidates args = .ok m ↔
        select model kind name owner candidates' args = .ok m := by
  refine ⟨fun m ↦ select_eq_ok_iff hargs, ?_, ?_, fun candidates' hperm m ↦ ?_⟩
  · intro name' owner' signatures
    rcases select_cases model kind name owner candidates hargs with
      ⟨h, hs⟩ | ⟨m', h, hs⟩ | ⟨h, hs⟩
    · simp [h, hs]
    · simp [h, hs]
    · simp [h, hs, eq_comm]
  · intro kind' name' owner'
    rw [← leaders_eq_nil_iff]
    rcases select_cases model kind name owner candidates hargs with
      ⟨h, hs⟩ | ⟨m', h, hs⟩ | ⟨h, hs⟩
    · simp [h, hs, eq_comm]
    · simp [h, hs]
    · have hne : leaders model args candidates ≠ [] := by
        rintro heq
        simp [heq] at h
      simp [hs, hne]
  · rw [select_eq_ok_iff hargs, select_eq_ok_iff hargs, Wins.perm hperm]

namespace Sample

/-- Squares are shapes. -/
def shapes : Registry where
  classes := #[⟨"Shape", none, [], none⟩, ⟨"Square", some ⟨0⟩, [], none⟩]

abbrev shape : Ty := .class ⟨0⟩

abbrev square : Ty := .class ⟨1⟩

def overload (index : ℕ) (params : List Ty) : MethodInfo :=
  ⟨⟨index⟩, shape, "put", params, .void, { accessible := true }⟩

/-- Overloads that score 2, 3 and 1, and in front of them one that is not accessible. -/
def overloads : List MethodInfo :=
  [{ overload 0 [square, .int] with flags := {} }, overload 1 [shape, .int],
    overload 2 [.object, .int, .int], overload 3 [square, .object], overload 4 [.str, .int]]

end Sample

open LiveBinding.Overload.Sample in
theorem select_iff_shapes : [square, .boxed .int].length ≤ maxArgs ∧
    Wins shapes.model [square, .boxed .int] overloads (overload 3 [square, .object]) ∧
    select shapes.model .method "put" shape overloads.reverse [square, .boxed .int] =
      .ok (overload 3 [square, .object]) := by
  have hargs : [square, .boxed .int].length ≤ maxArgs := by decide
  have hwins : Wins shapes.model [square, .boxed .int] overloads (overload 3 [square, .object]) :=
    leaders_eq_singleton_iff.mp (by decide +kernel)
  obtain ⟨hok, -, -, hperm⟩ := select_iff shapes.model .method "put" shape overloads _ hargs
  exact ⟨hargs, hwins, (hperm _ (List.reverse_perm _).symm _).mp ((hok _).mpr hwins)⟩

/-! ### An overload for exactly the types of the arguments -/

/-- The pairs for which some parameters score and those of an exact overload do not. -/
def gains (model : TypeModel) (params args : List Ty) : Finset (ℕ × ℕ) :=
  fits model params args \ fits model args args

/-- The pairs for which an exact overload scores and some parameters do not. -/
def losses (model : TypeModel) (params args : List Ty) : Finset (ℕ × ℕ) :=
  fits model args args \ fits model params args

theorem points_add_losses : points model params args + (losses model params args).card =
    points model args args + (gains model params args).card := by
  have hparams := Finset.card_sdiff_add_card_inter (fits model params args) (fits model args args)
  have hexact := Finset.card_sdiff_add_card_inter (fits model args args) (fits model params args)
  rw [Finset.inter_comm] at hexact
  rw [points, points, losses, gains]
  omega

theorem takes_self {i : ℕ} (hi : i < args.length) : takes model args args i i := by
  rw [takes_eq hi hi]
  exact model.isAssignable_refl _

/-- An exact overload misses no argument at its own place. -/
theorem lt_of_mem_gains (hlen : params.length = args.length) {p : ℕ × ℕ}
    (h : p ∈ gains model params args) : p.1 < p.2 := by
  obtain ⟨i, j⟩ := p
  obtain ⟨hfits, hexact⟩ := Finset.mem_sdiff.mp h
  obtain ⟨hi, hj, hle, -⟩ := mem_fits.mp hfits
  apply hle.lt_of_ne
  rintro rfl
  exact hexact (mem_fits.mpr ⟨hi, hlen ▸ hj, hle, takes_self hi⟩)

theorem mem_losses {i : ℕ} (hi : i < args.length) (h : takes model params args i i = false) :
    (i, i) ∈ losses model params args := by
  rw [losses, Finset.mem_sdiff, mem_fits, mem_fits, h]
  exact ⟨⟨hi, hi, le_rfl, takes_self hi⟩, by simp⟩

theorem viable_exact (haccess : m.flags.accessible) (hexact : m.params = args)
    (hvoid : ∀ arg ∈ args, arg ≠ .void) : Viable model args m where
  accessible := haccess
  converts := by
    rw [hexact, List.forall₂_same]
    intro arg harg
    refine ⟨hvoid arg harg, ?_⟩
    rw [Coercion.coerce?, if_pos (model.isAssignable_refl arg)]
    rfl

theorem select_mem_leaders {kind : MemberKind} {name : String} {owner : Ty}
    (hargs : args.length ≤ maxArgs)
    (h : select model kind name owner candidates args = .ok m) :
    m ∈ leaders model args candidates := by
  rcases select_cases model kind name owner candidates hargs with
    ⟨-, hs⟩ | ⟨m', hl, hs⟩ | ⟨-, hs⟩
  · cases hs.symm.trans h
  · cases hs.symm.trans h
    rw [hl]
    exact List.mem_singleton_self _
  · cases hs.symm.trans h

/-- An overload whose parameters are exactly the types of the arguments beats one that converts an
argument, and is not tied with it, if that one gains fewer pairs than it loses. It never beats one
that gains as many. What can be gained are only parameters behind an argument, so there is nothing
to gain where there is one argument only; and every converted argument is lost. -/
theorem exact_overload_beats (model : TypeModel) (kind : MemberKind) (name : String) (owner : Ty)
    (candidates : List MethodInfo) (args : List Ty) (exact converting : MethodInfo)
    (hargs : args.length ≤ maxArgs) (hvoid : ∀ arg ∈ args, arg ≠ .void)
    (hall : ∀ m ∈ candidates, m.flags.accessible ∧ m.arity = args.length)
    (hexact : exact ∈ candidates) (hparams : exact.params = args)
    (hconverting : converting ∈ candidates)
    (hconverts : ∃ i < args.length, takes model converting.params args i i = false) :
    ((gains model converting.params args).card < (losses model converting.params args).card →
      select model kind name owner candidates args ≠ .ok converting ∧
        converting ∉ best model args candidates) ∧
    ((losses model converting.params args).card ≤ (gains model converting.params args).card →
      Viable model args converting → select model kind name owner candidates args ≠ .ok exact) ∧
    (∀ p ∈ gains model converting.params args, p.1 < p.2) ∧
    (∀ i < args.length, takes model converting.params args i i = false →
      (i, i) ∈ losses model converting.params args) ∧
    (args.length = 1 → select model kind name owner candidates args ≠ .ok converting ∧
      converting ∉ best model args candidates) := by
  have hlen : converting.params.length = args.length := (hall converting hconverting).2
  have hviable : Viable model args exact := viable_exact (hall exact hexact).1 hparams hvoid
  have hpoints : points model converting.params args + _ = _ := points_add_losses
  have hbeaten (hlt : (gains model converting.params args).card <
      (losses model converting.params args).card) :
      select model kind name owner candidates args ≠ .ok converting ∧
        converting ∉ best model args candidates := by
    have hnot : converting ∉ leaders model args candidates := by
      intro hmem
      have hle := (of_decide_eq_true (List.mem_filter.mp hmem).2).2 exact hexact hviable
      rw [hparams] at hle
      omega
    rw [best_eq_leaders]
    exact ⟨fun hs ↦ hnot (select_mem_leaders hargs hs), hnot⟩
  refine ⟨hbeaten, fun hge hcv hs ↦ ?_, fun p ↦ lt_of_mem_gains hlen, fun i ↦ mem_losses,
    fun hone ↦ hbeaten ?_⟩
  · obtain ⟨i, hi, hi'⟩ := hconverts
    obtain ⟨before, after, rfl, -, hlt⟩ := (select_eq_ok_iff hargs).mp hs
    have hne : converting ≠ exact := by
      rintro rfl
      rw [hparams, takes_self hi] at hi'
      cases hi'
    have hmem : converting ∈ before ++ after := by
      simpa [hne] using hconverting
    have := hlt converting hmem hcv
    rw [hparams] at this
    omega
  · obtain ⟨i, hi, hi'⟩ := hconverts
    have hnone : gains model converting.params args = ∅ := by
      apply Finset.eq_empty_of_forall_notMem
      intro p hp
      have hlt := lt_of_mem_gains hlen hp
      have hj := (mem_fits.mp (Finset.mem_sdiff.mp hp).1).2.1
      omega
    rw [hnone, Finset.card_empty]
    exact Finset.card_pos.mpr ⟨_, mem_losses hi hi'⟩

open LiveBinding.Overload.Sample in
theorem exact_overload_beats_longs :
    ((gains shapes.model [.long, .long] [.int, .int]).card <
      (losses shapes.model [.long, .long] [.int, .int]).card) ∧
    select shapes.model .method "put" shape [overload 0 [.long, .long], overload 1 [.int, .int]]
      [.int, .int] ≠ .ok (overload 0 [.long, .long]) := by
  have hfew : (gains shapes.model [.long, .long] [.int, .int]).card <
      (losses shapes.model [.long, .long] [.int, .int]).card := by decide
  have h := exact_overload_beats shapes.model .method "put" shape
    [overload 0 [.long, .long], overload 1 [.int, .int]] [.int, .int] (overload 1 [.int, .int])
    (overload 0 [.long, .long]) (by decide) (by decide) (by decide) (by decide) rfl (by decide)
    ⟨0, by decide, by decide⟩
  exact ⟨hfew, (h.1 hfew).1⟩

open LiveBinding.Overload.Sample in
/-- An overload that converts the first arguments is selected before an exact one, because the
others take them at later places. With two arguments it can be as good. -/
theorem converting_overload_selected :
    ¬shapes.model.isAssignable (.boxed .int) .int ∧
    select shapes.model .method "put" shape
        [overload 0 [.boxed .int, .boxed .int, .str], overload 1 [.int, .object, .object]]
        [.boxed .int, .boxed .int, .str] = .ok (overload 1 [.int, .object, .object]) ∧
    select shapes.model .method "put" shape
        [overload 0 [.boxed .int, .str], overload 1 [.int, .object]] [.boxed .int, .str] =
      .error (Problem.ambiguousCall "put" "Shape" ["put(Integer, String)", "put(int, Object)"]) := by
  refine ⟨by decide, by decide +kernel, by decide +kernel⟩

end LiveBinding.Overload
