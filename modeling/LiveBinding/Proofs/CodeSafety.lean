import LiveBinding.Proofs.HostSafety

namespace LiveBinding

open Exec

namespace Registry

variable {r : Registry}

/-- A class has the properties of its superclasses, or others of their names. -/
theorem isSome_property {c d : ClassId} {name : String} (hd : r.model.isSubclass d c)
    (h : (r.model.property (.class c) name).isSome) : (r.model.property (.class d) name).isSome := by
  have hmem (a e : ClassId) : Ty.class e ∈ r.lineage (.class a) ↔ r.model.isSubclass a e := by
    simp only [lineage, TypeModel.isSubclass, model, List.mem_append, List.mem_cons, List.mem_map,
      Ty.class.injEq, exists_eq_right, Bool.or_eq_true, beq_iff_eq, List.contains_iff_mem]
    grind
  obtain ⟨t, ht, hp⟩ := List.findSome?_isSome_iff.mp h
  cases t with
  | «class» e =>
    exact List.findSome?_isSome_iff.mpr
      ⟨_, (hmem d e).mpr (isSubclass_trans hd ((hmem c e).mp ht)), hp⟩
  | _ => cases hp

end Registry

theorem MethodInfo.Takes.later {r : Registry} {m : MethodInfo} {w w' : World} {args : List Value}
    (h : m.Takes (r.HasTy w.classOf) args) (hw : w.Later r w') : m.Takes (r.HasTy w'.classOf) args := by
  unfold Takes at h ⊢
  split at h
  · next hs => exact (if_pos hs).mpr (hw.forall₂ h)
  · next hs =>
    obtain ⟨receiver, rest, rfl, hnull, hr, hrest⟩ := h
    exact (if_neg hs).mpr ⟨receiver, rest, rfl, hnull, hw.hasTy hr, hw.forall₂ hrest⟩

namespace Exec

section

variable {r : Registry} {update : Updater} {fuel : Nat} {frame : Frame} {op : Op} {m : Machine}

theorem step_of_call {R : Routine} {id : MethodId} {args rest : List Value}
    (h : op.call? m.stack = some (id, args, rest)) :
    step r update fuel frame R op m = call r update fuel id args { m with stack := rest } := by
  cases op with
  | invoke m' argc =>
    simp only [Op.call?] at h
    split at h
    · cases h
    · next hlen =>
      cases hd : m.stack.drop argc with
      | nil =>
        rw [hd] at h
        cases h
      | cons receiver rest' =>
        rw [hd] at h
        dsimp only at h
        split at h
        · cases h
        · next hnull =>
          cases h
          simp only [step, bind_apply, popArgs_apply, if_neg hlen, hd, pop_apply, if_neg hnull]
  | invokeStatic m' argc | construct m' argc =>
    simp only [Op.call?] at h
    split at h
    · cases h
    · next hlen =>
      cases h
      simp only [step, bind_apply, popArgs_apply, if_neg hlen]
  | _ => cases h

end

/-- A plain instruction that makes no call. -/
theorem maps_op (r : Registry) (update : Updater) (fuel : Nat) (frame : Frame)
    (answer : MethodId → List Value → Except Stop Value) (captures : Array Value) {op : Op}
    {m : Machine} (hop : op.isPlain) (h : op.call? m.stack = none) :
    Maps (step r update fuel frame default op)
      (fun σ ↦ ((m.world.reading r answer frame.locals captures).op op σ).result) m := by
  have halike : m.world.Alike m.world := ⟨rfl, rfl, rfl, rfl, fun _ ↦ rfl⟩
  cases op with
  | invoke id argc =>
    simp only [Op.call?] at h
    by_cases hlen : m.stack.length < argc
    · refine .of_error (τ := m.stack) (e := .underflow) ?_ ?_
      · simp only [step, bind_apply, popArgs_apply, if_pos hlen]
      · simp only [Reading.op, if_pos hlen]
        rfl
    rw [if_neg hlen] at h
    cases hd : m.stack.drop argc with
    | nil =>
      refine .of_error (τ := []) (e := .underflow) ?_ ?_
      · simp only [step, bind_apply, popArgs_apply, if_neg hlen, hd, pop_apply]
      · simp only [Reading.op, if_neg hlen, hd]
        rfl
    | cons receiver rest =>
      rw [hd] at h
      dsimp only at h
      have hnull : receiver.isNull := by
        by_contra hnot
        rw [if_neg hnot] at h
        cases h
      refine .of_error (τ := rest)
        (e := .nullReference ("call of " ++ Problem.tick (r.methodName id))) ?_ ?_
      · simp only [step, bind_apply, popArgs_apply, if_neg hlen, hd, pop_apply, if_pos hnull]
        rfl
      · simp only [Reading.op, if_neg hlen, hd, if_pos hnull]
        rfl
  | invokeStatic id argc | construct id argc =>
    have hlen : m.stack.length < argc := by
      by_contra hnot
      simp only [Op.call?, if_neg hnot] at h
      cases h
    refine .of_error (τ := m.stack) (e := .underflow) ?_ ?_
    · simp only [step, bind_apply, popArgs_apply, if_pos hlen]
    · simp only [Reading.op, if_pos hlen]
      rfl
  | _ => exact @maps_step r update fuel frame m.world answer captures _ hop (by simp) m halike

end Exec

/-- Plain code stores no operands. -/
theorem Fragment.stored_of_isPlain {f : Fragment} (h : f.isPlain) : f.stored = [] := by
  induction f with
  | ops => exact slots_of_isPlain h
  | append f g ih ih' =>
    simp only [isPlain, Bool.and_eq_true] at h
    rw [stored, ih h.1, ih' h.2, List.append_nil]
  | shortCircuit op f g ih ih' =>
    simp only [isPlain, Bool.and_eq_true] at h
    exact ih h.1
  | nullGuard => rfl
  | flagTest | flagAssign | observe | branch => cases h

/-- Part of the code of a binding. -/
structure Fragment.Within (f body : Fragment) : Prop where
  points : f.points ⊆ body.points
  slots : f.slots ⊆ body.slots
  branches : f.branches ⊆ body.branches

variable {r : Registry} {E : RuntimeError → Prop} {w₀ : World}

namespace Contracts

/-- Code that is run on stacks as `P` says comes to stacks as `Q` says, or fails as `E` says. -/
def Runs (Θ : Contracts r E w₀) (P : World → List Value → Prop) (b : Block)
    (Q : World → List Value → Prop) : Prop :=
  ∀ w₁, Block.Ensures (fun m ↦ Θ.Since w₁ m.world ∧ P m.world m.stack) b
    (fun m ↦ Θ.Since w₁ m.world ∧ Q m.world m.stack) (fun e m ↦ Θ.Since w₁ m.world ∧ E e)

/-- The binding that code is run for is there, and slots hold operands that are set aside. -/
structure Ready (Θ : Contracts r E w₀) (frame : Frame) (D : List Nat) (w : World) : Prop where
  found : ∀ i, frame.binding = some i → ∃ s, w.instance? i = some s
  filled : ∀ n ∈ D, ∃ i C s, frame.binding = some i ∧ Θ i = some C ∧ w.instance? i = some s ∧
    C.env.Filled r w s n

/-- The operands on a stack are of some types, and others are set aside. -/
structure Holds (Θ : Contracts r E w₀) (frame : Frame) (D : List Nat) (Γ : List Ty) (w : World)
    (σ : List Value) : Prop where
  ready : Θ.Ready frame D w
  typed : List.Forall₂ (r.HasTy w.classOf) Γ σ

/-- What typed code is run with: the binding that it uses the storage of, and the locals that code of
the scope reads. -/
structure Serves (Θ : Contracts r E w₀) (frame : Frame) (env : Env) : Prop where
  binding : env.stateful → ∃ i C, frame.binding = some i ∧ Θ i = some C ∧ C.env = env
  loads : ∀ f t, env.loads f t →
    frame.locals = w₀.frame ∧ ∃ types, types t ∧ f.Supplies r E w₀ types

variable {Θ : Contracts r E w₀} {w w' w₁ : World} {frame : Frame} {D D' : List Nat}
variable {Γ Δ : List Ty} {σ : List Value}

theorem stable_ready : Θ.Stable (Θ.Ready frame D) := by
  intro w w' hw h
  refine ⟨fun i hi ↦ ?_, fun n hn ↦ ?_⟩
  · obtain ⟨s, hs⟩ := h.found i hi
    obtain ⟨s', hs', -⟩ := hw.kept i s hs
    exact ⟨s', hs'⟩
  · obtain ⟨i, C, s, hi, hC, hs, hfilled⟩ := h.filled n hn
    obtain ⟨s', hs', hkept⟩ := hw.kept i s hs
    exact ⟨i, C, s', hi, hC, hs', hkept C hC n hfilled⟩

theorem Ready.mono (h : Θ.Ready frame D w) (hD : D' ⊆ D) : Θ.Ready frame D' w :=
  ⟨h.found, fun n hn ↦ h.filled n (hD hn)⟩

/-- What is set aside by a binding. -/
theorem Ready.filled_of (h : Θ.Ready frame D w) {i : InstanceId} {C : Contract r E w₀} {s : Instance}
    (hb : frame.binding = some i) (hC : Θ i = some C) (hs : w.instance? i = some s) {n : Nat}
    (hn : n ∈ D) : C.env.Filled r w s n := by
  obtain ⟨j, C', s', hj, hC', hs', hfilled⟩ := h.filled n hn
  obtain rfl : j = i := Option.some.inj (hj.symm.trans hb)
  obtain rfl : C' = C := Option.some.inj (hC'.symm.trans hC)
  obtain rfl : s' = s := Option.some.inj (hs'.symm.trans hs)
  exact hfilled

theorem Holds.mono (h : Θ.Holds frame D Γ w σ) (hD : D' ⊆ D) : Θ.Holds frame D' Γ w σ :=
  ⟨h.ready.mono hD, h.typed⟩

theorem Holds.grows (h : Θ.Holds frame D Γ w σ) (hw : Θ.Grows w w') : Θ.Holds frame D Γ w' σ :=
  ⟨stable_ready w w' hw h.ready, hw.forall₂ h.typed⟩

namespace Runs

variable {P P' Q Q' R : World → List Value → Prop} {F : World → Prop} {a b : Block}

theorem mono (h : Θ.Runs P b Q) (hP : ∀ w σ, Θ.Sound w → P' w σ → P w σ)
    (hQ : ∀ w σ, Θ.Sound w → Q w σ → Q' w σ) : Θ.Runs P' b Q' := fun w₁ ↦
  (h w₁).mono (fun _ hm ↦ ⟨hm.1, hP _ _ hm.1.sound hm.2⟩)
    (fun _ hm ↦ ⟨hm.1, hQ _ _ hm.1.sound hm.2⟩) fun _ _ ↦ id

theorem andThen (h : Θ.Runs P a Q) (h' : Θ.Runs Q b R) : Θ.Runs P (a.andThen b) R :=
  fun w₁ ↦ (h w₁).andThen (h' w₁)

theorem skip : Θ.Runs P .skip P := fun _ ↦ .skip

/-- A block that goes on as another one does. -/
theorem go (h : ∀ m, Θ.Sound m.world → P m.world m.stack → ∃ a m' P', b m = a m' ∧
    Θ.Sound m'.world ∧ Θ.Grows m.world m'.world ∧ P' m'.world m'.stack ∧ Θ.Runs P' a Q) :
    Θ.Runs P b Q := by
  intro w₁ m hm
  obtain ⟨a, m', P', heq, hsound, hgrows, hP', hruns⟩ := h m hm.1.sound hm.2
  rw [heq]
  exact hruns w₁ m' ⟨⟨hsound, hm.1.grows.trans hgrows⟩, hP'⟩

/-- A block that ends without a call. -/
theorem ok (h : ∀ m, Θ.Sound m.world → P m.world m.stack → ∃ m', b m = ⟨[], .ok (), m'⟩ ∧
    Θ.Sound m'.world ∧ Θ.Grows m.world m'.world ∧ Q m'.world m'.stack) : Θ.Runs P b Q :=
  .go fun m hw hm ↦
    have ⟨m', heq, hsound, hgrows, hQ⟩ := h m hw hm
    ⟨.skip, m', Q, heq, hsound, hgrows, hQ, .skip⟩

/-- What code comes to from every stack. -/
theorem of_stack (h : ∀ τ, Θ.Runs (fun w σ ↦ σ = τ ∧ P w σ) b Q) : Θ.Runs P b Q :=
  fun w₁ m hm ↦ h m.stack w₁ m ⟨hm.1, rfl, hm.2⟩

/-- A condition that no run breaks still holds after code is run. -/
theorem keeping (hF : Θ.Stable F) (h : Θ.Runs P b Q) :
    Θ.Runs (fun w σ ↦ P w σ ∧ F w) b fun w σ ↦ Q w σ ∧ F w := by
  intro w₁ m hm
  have hb := h m.world m ⟨hm.1.sound.since, hm.2.1⟩
  rcases hbm : (b m).result with (e | -) | u <;> rw [hbm] at hb
  · exact ⟨⟨hb.1.sound, hm.1.grows.trans hb.1.grows⟩, hb.2⟩
  · trivial
  · exact ⟨⟨hb.1.sound, hm.1.grows.trans hb.1.grows⟩, hb.2, hF _ _ hb.1.grows hm.2.2⟩

end Runs

theorem forall₂_append_left {α β : Type} {R : α → β → Prop} {as as' : List α} {bs : List β}
    (h : List.Forall₂ R (as ++ as') bs) :
    ∃ cs ds, bs = cs ++ ds ∧ List.Forall₂ R as cs ∧ List.Forall₂ R as' ds := by
  induction as generalizing bs with
  | nil => exact ⟨[], bs, rfl, .nil, h⟩
  | cons a as ih =>
    obtain ⟨b, rest, hb, hrest, rfl⟩ := List.forall₂_cons_left_iff.mp h
    obtain ⟨cs, ds, rfl, hcs, hds⟩ := ih hrest
    exact ⟨b :: cs, ds, rfl, .cons hb hcs, hds⟩

/-- What is read of a sound state is of its declared types. -/
theorem Sound.reads (hr : r.Conforms E w₀) (hw : Θ.Sound w) (locals : List Value) :
    (w.reading r (fun _ _ ↦ .error .exhausted) locals #[]).Conforms w.classOf
      fun stop ↦ ∀ e, stop = .error e → E e where
  benign e he := by
    rintro _ ⟨⟩
    exact hr.benign e he
  text v _ := ⟨_, rfl⟩
  observed o d c name p ho hc hp hobs := by
    obtain ⟨x, hx, ht⟩ := hw.later.declared.observed o d c name p ho hc hp hobs
    refine ⟨x, ?_, ht⟩
    simp only [World.reading, World.observable?_eq_some.mpr hx]
  plain o d c name p ho hc hp hobs := by
    obtain ⟨v, hv, ht⟩ := hw.later.declared.plain o d c name p ho hc hp hobs
    simp only [World.reading, World.get?, hv, Option.map_some]
    exact .ok ht
  enums d c name p hd hc hp := by
    have h : (r.model.property (.class d) name).isSome :=
      Registry.isSome_property hc (Option.isSome_of_eq_some hp)
    rw [hr.enums d name hd] at h
    cases h
  statics f hf := hw.later.declared.statics f hf
  answers d hd args _ := ⟨nofun, by rintro _ ⟨⟩ e ⟨⟩⟩

/-- An instruction that takes operands off and leaves a result or stops as it may. -/
theorem leads_of_yields {op : Op} {locals vs τ : List Value} {out : Ty} {x : Except Stop Value}
    (hcall : ∀ m n, op ≠ .invoke m n ∧ op ≠ .invokeStatic m n ∧ op ≠ .construct m n)
    (heq : (w.reading r (fun _ _ ↦ .error .exhausted) locals #[]).simple op (vs ++ τ) = (· :: τ) <$> x)
    (hx : Yields (r.HasTy w.classOf out) (fun stop ↦ ∀ e, stop = .error e → E e) x)
    (hτ : List.Forall₂ (r.HasTy w.classOf) Γ τ) :
    op.Leads r E locals (fun w' ↦ List.Forall₂ (r.HasTy w'.classOf) (out :: Γ)) w (vs ++ τ) := by
  have hresult : op.call? (vs ++ τ) = none ∧
      ((w.reading r (fun _ _ ↦ .error .exhausted) locals #[]).op op (vs ++ τ)).result = (· :: τ) <$> x := by
    rw [← heq]
    cases op with
    | invoke m n => exact absurd rfl (hcall m n).1
    | invokeStatic m n => exact absurd rfl (hcall m n).2.1
    | construct m n => exact absurd rfl (hcall m n).2.2
    | _ => exact ⟨rfl, rfl⟩
  unfold Op.Leads
  rw [hresult.1]
  dsimp only
  rw [hresult.2]
  rcases x with (e | -) | v
  · exact hx.2 _ rfl e rfl
  · trivial
  · exact .cons (hx.1 v rfl) hτ

/-- A plain instruction on operands of its types. -/
theorem Sound.leads (hr : r.Conforms E w₀) (hw : Θ.Sound w) {env : Env} {op : Op} {ins : List Ty}
    {out : Ty} (h : Op.Gives r env D op ins out) (hop : op.isPlain) (locals : List Value)
    (hσ : List.Forall₂ (r.HasTy w.classOf) (ins ++ Γ) σ) :
    op.Leads r E locals (fun w' ↦ List.Forall₂ (r.HasTy w'.classOf) (out :: Γ)) w σ := by
  obtain ⟨vs, τ, rfl, hvs, hτ⟩ := forall₂_append_left hσ
  have hreads := hw.reads hr locals
  cases h with
  | typed ht =>
    obtain ⟨x, hx, hyields⟩ := ht.sound hreads hvs
    refine leads_of_yields (fun m n ↦ ?_) (hx τ) hyields hτ
    cases ht with
    | parse p => cases p <;> simp [Coercion.parse]
    | _ => simp
  | @property c name p hp =>
    obtain ⟨v, rfl, hv⟩ := Op.Typed.forall₂_one hvs
    let rd := w.reading r (fun _ _ ↦ .error .exhausted) locals #[]
    have heq : rd.simple (.getProperty p.name) ([v] ++ τ) =
        (· :: τ) <$> (v.receiver p.name >>= fun o ↦ rd.property o p.name) := (map_bind ..).symm
    refine leads_of_yields (by simp) heq ?_ hτ
    rcases hv with rfl | ⟨o, d, rfl, ho, hsub⟩ | ⟨d, name', rfl, hd, hsub⟩
    · exact .error (hreads.benign _ rfl)
    · by_cases hobs : p.flags.observable
      · obtain ⟨x, hx, ht⟩ := hw.later.declared.observed o d c name p ho hsub hp hobs
        have hget : rd.property o p.name = .ok (w.cellValue x) := by
          simp only [rd, World.reading, World.get?, hx, Option.map_some]
        show Yields _ _ (rd.property o p.name)
        rw [hget]
        exact .ok ht
      · exact hreads.plain o d c name p ho hsub hp (by simpa using hobs)
    · exact .error (hreads.enums d c name p hd hsub hp)
  | capture | scratch => cases hop
  | @invoke m argc hd hs hargc =>
    obtain ⟨d, hd, rfl⟩ := hd
    obtain ⟨args, receivers, rfl, hargs, hreceivers⟩ := forall₂_append_left hvs
    obtain ⟨receiver, rfl, howner⟩ := Op.Typed.forall₂_one hreceivers
    have hlen : args.length = argc := by rw [hargc, ← hargs.length_eq, List.length_reverse]
    have hlt : ¬(args ++ [receiver] ++ τ).length < argc := by
      simp only [List.length_append]
      omega
    have hdrop : (args ++ [receiver] ++ τ).drop argc = receiver :: τ := by
      rw [List.append_assoc, List.drop_left' hlen, List.singleton_append]
    have htake : (args ++ [receiver] ++ τ).take argc = args := by
      rw [List.append_assoc, List.take_left' hlen]
    unfold Op.Leads
    by_cases hnull : receiver.isNull
    · simp only [Op.call?, if_neg hlt, hdrop, if_pos hnull, Reading.op]
      exact hr.benign _ rfl
    · simp only [Op.call?, if_neg hlt, hdrop, htake, if_neg hnull]
      refine ⟨d, hd, rfl, ?_, fun w' v hlater hv ↦ .cons hv (hlater.forall₂ hτ)⟩
      refine (if_neg (by simp [hs])).mpr ⟨receiver, args.reverse, rfl, ?_, howner, ?_⟩
      · rintro rfl
        exact hnull rfl
      · rwa [← List.forall₂_reverse_iff, List.reverse_reverse]
  | @invokeStatic m argc hd hs hargc | @construct m argc hd hs hargc =>
    obtain ⟨d, hd, rfl⟩ := hd
    have hlen : vs.length = argc := by rw [hargc, ← hvs.length_eq, List.length_reverse]
    have hlt : ¬(vs ++ τ).length < argc := by
      simp only [List.length_append]
      omega
    unfold Op.Leads
    simp only [Op.call?, if_neg hlt, List.drop_left' hlen, List.take_left' hlen]
    refine ⟨d, hd, rfl, (if_pos hs).mpr ?_, fun w' v hlater hv ↦ .cons hv (hlater.forall₂ hτ)⟩
    rwa [← List.forall₂_reverse_iff, List.reverse_reverse]

section

variable {update : Updater} {fuel : Nat} {P Q : World → List Value → Prop} {op : Op}
variable (hr : r.Conforms E w₀) (hu : Θ.Updates update)
include hr hu

/-- A plain instruction. -/
theorem runs_leads_op (hop : op.isPlain) :
    Θ.Runs (op.Leads r E frame.locals Q) (runOp r update fuel frame op) Q := by
  intro w₁ m hm
  obtain ⟨hsince, hleads⟩ := hm
  unfold Op.Leads at hleads
  cases hcall : op.call? m.stack with
  | some call =>
    obtain ⟨id, args, rest⟩ := call
    rw [hcall] at hleads
    obtain ⟨d, hd, rfl, htakes, hQ⟩ := hleads
    have hstable (v : Value) : Θ.Stable fun w ↦ r.HasTy w.classOf d.info.ret v :=
      stable_later fun _ _ hw ↦ hw.hasTy
    have hrun := Safely.holding rest (stable_later fun _ _ hw h ↦ h.later hw) hstable
      (safely_invokeMethod hu hr fuel hd args) m.world m.world ⟨hsince.sound.since, htakes⟩
    simp only [runOp, step_of_call hcall, Exec.call, bind_apply, lift]
    rcases hx : Run.holding rest (invokeMethod r update fuel d.info.id args) m.world with
      ⟨(e | -) | v, w'⟩ <;> rw [hx] at hrun
    · exact ⟨⟨hrun.1.sound, hsince.grows.trans hrun.1.grows⟩, hrun.2⟩
    · trivial
    · exact ⟨⟨hrun.1.sound, hsince.grows.trans hrun.1.grows⟩, hQ w' v hrun.1.grows.toLater hrun.2⟩
  | none =>
    rw [hcall] at hleads
    obtain ⟨τ, hstep⟩ := maps_op r update fuel frame (fun _ _ ↦ .error .exhausted) #[] hop hcall
    simp only [runOp, hstep]
    rcases hx : ((m.world.reading r (fun _ _ ↦ .error .exhausted) frame.locals #[]).op op
      m.stack).result with (e | -) | υ <;> rw [hx] at hleads
    · exact ⟨hsince, hleads⟩
    · trivial
    · exact ⟨hsince, hleads⟩

/-- Plain code. -/
theorem runs_leads (layout : Option FlagLayout) {f : Fragment} (hf : f.isPlain) :
    Θ.Runs (f.Leads r E frame.locals Q) (f.run r update fuel frame layout) Q := by
  induction f generalizing Q with
  | ops list =>
    simp only [Fragment.isPlain, List.all_eq_true] at hf
    show Θ.Runs (list.foldr (Op.Leads r E frame.locals) Q) (runOps r update fuel frame list) Q
    induction list with
    | nil => exact .skip
    | cons op list ih =>
      rw [List.forall_mem_cons] at hf
      exact (runs_leads_op hr hu hf.1).andThen (ih hf.2)
  | append f g ih ih' =>
    simp only [Fragment.isPlain, Bool.and_eq_true] at hf
    exact (ih hf.1).andThen (ih' hf.2)
  | nullGuard f g ih ih' =>
    simp only [Fragment.isPlain, Bool.and_eq_true] at hf
    refine .go fun m hw hm ↦ ?_
    rcases hs : m.stack with _ | ⟨v, τ⟩
    · simp only [Fragment.Leads, hs] at hm
    simp only [Fragment.Leads, hs] at hm
    rw [Fragment.run, Fragment.nullGuard_eq hs]
    split at hm
    · next hnull =>
      rw [if_pos hnull]
      exact ⟨_, _, _, rfl, hw, hw.grows, hm, ih' hf.2⟩
    · next hnull =>
      rw [if_neg hnull]
      exact ⟨_, _, _, rfl, hw, hw.grows, hm, ih hf.1⟩
  | shortCircuit op f g ih ih' =>
    simp only [Fragment.isPlain, Bool.and_eq_true] at hf
    refine (ih hf.1).andThen (.go fun m hw hm ↦ ?_)
    rcases hs : m.stack with _ | ⟨v, τ⟩
    · simp only [hs] at hm
    simp only [hs] at hm
    cases v with
    | bool b =>
      rw [Fragment.decide_eq hs]
      dsimp only at hm
      simp only [Value.toBool]
      split at hm
      · next hskip =>
        rw [if_pos hskip]
        exact ⟨_, _, _, rfl, hw, hw.grows, hm, .skip⟩
      · next hskip =>
        rw [if_neg hskip]
        exact ⟨_, _, _, rfl, hw, hw.grows, hm, ih' hf.2⟩
    | _ => exact hm.elim
  | flagTest | flagAssign | observe | branch => cases hf

end

section

variable {i : InstanceId} {s : Instance} {C : Contract r E w₀} {p : SavePoint} {c : CellId}

/-- Storage of a running binding changes. -/
theorem Sound.put (hw : Θ.Sound w) (hs : w.instance? i = some s) (hC : Θ i = some C) {s' : Instance}
    (hr : s'.result = s.result) (hfits : C.Fits w s → C.Fits w s')
    (hkept : ∀ n, C.env.Filled r w s n → C.env.Filled r w s' n) :
    Θ.Sound (w.put i s') ∧ Θ.Grows w (w.put i s') :=
  hw.change (.put hw.later.declared hs hr hC hfits hkept)

theorem Sound.setScratch (hw : Θ.Sound w) (hs : w.instance? i = some s) (hC : Θ i = some C) {n : Nat}
    {v : Value} (hv : C.env.Keeps r w s n v) :
    Θ.Sound (w.put i (s.setScratch n v)) ∧ Θ.Grows w (w.put i (s.setScratch n v)) :=
  hw.put hs hC rfl (fun h ↦ h.setScratch hv) fun _ hn ↦ hn.setScratch hv

/-- The listener of a point is put on a cell or taken off. -/
theorem Sound.listen (hw : Θ.Sound w) (hs : w.instance? i = some s) (hC : Θ i = some C)
    (f : Cell → Cell) (hf : ∀ cell, (f cell).value = cell.value ∧ (f cell).lockDepth = cell.lockDepth ∧
      ∀ l ∈ (f cell).listeners, l ∈ cell.listeners ∨ l = .binding i p.step)
    (hp : p ∈ C.body.points) {v : Value} (hv : C.env.Keeps r w s p.handle v) (delta : Int32) :
    let w' := (w.modifyCell c f).put i ((s.setScratch p.handle v).addCounters p.counters delta)
    Θ.Sound w' ∧ Θ.Grows w w' := by
  have hchange : Θ.Change w (w.modifyCell c f) := by
    refine .modifyCell hw.later.declared (fun cell ↦ (hf cell).1)
      (fun _ _ _ _ _ _ cell ↦ (hf cell).2.1) fun cell _ l hl ↦ ?_
    refine ((hf cell).2.2 l hl).imp id ?_
    rintro rfl
    exact ⟨C, hC, C.mem_steps.mpr (.inr (List.mem_map_of_mem hp))⟩
  obtain ⟨hsound, hgrows⟩ := hw.change hchange
  have hs' : (w.modifyCell c f).instance? i = some s := hs
  have hv' := hv.later hchange.toLater
  have hput (s' : Instance) (h : s' = { s.setScratch p.handle v with counters := s'.counters })
      (hsize : s'.counters.size = s.counters.size) :
      Θ.Sound ((w.modifyCell c f).put i s') ∧
        Θ.Grows (w.modifyCell c f) ((w.modifyCell c f).put i s') := by
    rw [h]
    exact hsound.put hs' hC rfl (fun h ↦ (h.setScratch hv').congr rfl rfl hsize rfl rfl rfl)
      fun n hn ↦ (hn.setScratch hv').congr rfl
  have hcounted := hput _ (Instance.addCounters_eq (s.setScratch p.handle v) p.counters delta)
    (Instance.size_addCounters ..)
  exact ⟨hcounted.1, hgrows.trans hcounted.2⟩

theorem Sound.attach (hw : Θ.Sound w) (hs : w.instance? i = some s) (hC : Θ i = some C)
    (hp : p ∈ C.body.points) (hv : C.env.Keeps r w s p.handle (.cell c)) :
    Θ.Sound (w.attach i s p c) ∧ Θ.Grows w (w.attach i s p c) :=
  hw.listen hs hC (·.addListener (.binding i p.step))
    (fun cell ↦ ⟨rfl, rfl, fun l hl ↦ by simpa [Cell.addListener] using hl⟩) hp hv 1

theorem Sound.detach (hw : Θ.Sound w) (hs : w.instance? i = some s) (hC : Θ i = some C)
    (hp : p ∈ C.body.points) : Θ.Sound (w.detach i s p c) ∧ Θ.Grows w (w.detach i s p c) := by
  obtain ⟨t, D, hslot⟩ := C.handle hp
  have hv : C.env.Keeps r w s p.handle .null := by
    rw [Env.Keeps, hslot]
    exact .inl rfl
  exact hw.listen hs hC (·.removeListener i p.step)
    (fun cell ↦ ⟨rfl, rfl, fun l hl ↦ .inl (List.mem_of_mem_eraseP hl)⟩) hp hv (-1)

variable {update : Updater} {fuel : Nat} {t : Ty}
variable (hb : frame.binding = some i) (hC : Θ i = some C)
include hb hC

/-- Storing an operand. -/
theorem runs_storeScratch {n : Nat} (hn : C.env.slots n = .operand t) (hlt : n < C.artifact.scratch) :
    Θ.Runs (Θ.Holds frame D (t :: Γ)) (runOp r update fuel frame (.storeScratch n))
      (Θ.Holds frame (D ++ [n]) Γ) := by
  refine .ok fun m hw hm ↦ ?_
  obtain ⟨s, hs⟩ := hm.ready.found i hb
  obtain ⟨v, τ, hv, hτ, hstack⟩ := List.forall₂_cons_left_iff.mp hm.typed
  have hkeeps : C.env.Keeps r m.world s n v := by
    rw [Env.Keeps, hn]
    exact hv
  have hsize : n < s.scratch.size := (hw.fits i s C hs hC).sizes.scratch.symm ▸ hlt
  obtain ⟨hsound, hgrows⟩ := hw.setScratch hs hC hkeeps
  have hready := stable_ready _ _ hgrows hm.ready
  refine ⟨_, does_storeScratch hb hs hstack hsize, hsound, hgrows, ⟨hready.found, fun k hk ↦ ?_⟩,
    hgrows.forall₂ hτ⟩
  obtain hk | hk := List.mem_append.mp hk
  · exact hready.filled k hk
  · obtain rfl := List.mem_singleton.mp hk
    exact ⟨i, C, _, hb, hC, World.instance?_put hs, t, v, hn,
      Array.getElem?_setIfInBounds_self_of_lt hsize, hgrows.hasTy hv⟩

/-- Moving the listener of a point. -/
theorem runs_attach (hp : p ∈ C.body.points) (hslot : C.env.slots p.handle = .handle t D) :
    Θ.Runs (fun w σ ↦ Θ.Ready frame D w ∧ ∃ c, σ = [.cell c] ∧ w.Shows r t c)
      (Fragment.attach r update fuel frame p) (Θ.Holds frame [] []) := by
  refine .ok fun m hw hm ↦ ?_
  obtain ⟨hready, c, hstack, hshows⟩ := hm
  obtain ⟨w, σ, pc, locks⟩ := m
  obtain rfl : σ = [.cell c] := hstack
  obtain ⟨s, hs⟩ := hready.found i hb
  have hfits := hw.fits i s C hs hC
  have hplaced := C.compiles.wellPlaced
  have hcount : ∀ n ∈ p.counters, n < s.counters.size := by
    rw [hfits.sizes.counters]
    exact hplaced.counter_lt p hp
  -- the operands beneath the point stay set aside when the listener is taken off another cell
  have hkeeps {w' : World} {s' : Instance} (hg : Θ.Grows w w') (hs' : w'.instance? i = some s') :
      C.env.Keeps r w' s' p.handle (.cell c) := by
    rw [Env.Keeps, hslot]
    refine .inr ⟨c, rfl, hshows.mono hg.toExtends, fun k hk ↦ ?_⟩
    exact (stable_ready _ _ hg hready).filled_of hb hC hs' hk
  have hnone {w' : World} (hg : Θ.Grows w w') : Θ.Holds frame [] [] w' [] :=
    ⟨(stable_ready _ _ hg hready).mono (List.nil_subset _), .nil⟩
  obtain hv | ⟨d, hv, -⟩ := hfits.handles p.handle t D hslot (hplaced.handle_lt p hp)
  · obtain ⟨hsound, hgrows⟩ := hw.attach hs hC hp (hkeeps hw.grows hs)
    exact ⟨_, Fragment.attach_fresh hb hs hv hcount, hsound, hgrows, hnone hgrows⟩
  by_cases hdc : d = c
  · subst hdc
    exact ⟨_, Fragment.attach_same hb hs hv, hw, hw.grows, hnone hw.grows⟩
  · obtain ⟨hsound, hgrows⟩ := hw.detach (c := d) hs hC hp
    have hs' : (w.detach i s p d).instance? i = some (s.detached p) := World.instance?_put hs
    obtain ⟨hsound', hgrows'⟩ := hsound.attach hs' hC hp (hkeeps hgrows hs')
    have hall := hgrows.trans hgrows'
    exact ⟨_, Fragment.attach_move hb hs hv hdc hcount, hsound', hall, hnone hall⟩

/-- Reading the cell that a point listens to. -/
theorem runs_reread (hr : r.Conforms E w₀) (hu : Θ.Updates update) (hp : p ∈ C.body.points)
    (hslot : C.env.slots p.handle = .handle t D) :
    Θ.Runs (Θ.Holds frame [] []) (Fragment.reread r update fuel frame p) (Θ.Holds frame D [t]) := by
  have hload : Θ.Runs (Θ.Holds frame [] []) (runOp r update fuel frame (.loadScratch p.handle))
      fun w σ ↦ σ = [.null] ∨ ∃ c, σ = [.cell c] ∧ w.Shows r t c ∧ Θ.Ready frame D w := by
    refine .ok fun m hw hm ↦ ?_
    obtain ⟨w, σ, pc, locks⟩ := m
    obtain ⟨hready, htyped⟩ := hm
    obtain rfl : σ = [] := List.forall₂_nil_left_iff.mp htyped
    obtain ⟨s, hs⟩ := hready.found i hb
    obtain hv | ⟨c, hv, hshows, hD⟩ := (hw.fits i s C hs hC).handles p.handle t D hslot
      (C.compiles.wellPlaced.handle_lt p hp)
    · exact ⟨_, does_loadScratch (m := ⟨w, _, _, _⟩) hb hs hv, hw, hw.grows, .inl rfl⟩
    · refine ⟨_, does_loadScratch (m := ⟨w, _, _, _⟩) hb hs hv, hw, hw.grows, .inr ⟨c, rfl, hshows, ?_⟩⟩
      exact ⟨hready.found, fun k hk ↦ ⟨i, C, s, hb, hC, hs, hD k hk⟩⟩
  have hread : Θ.Runs (Op.Leads r E frame.locals .observableValue (Θ.Holds frame D [t]))
      (runOp r update fuel frame .observableValue) (Θ.Holds frame D [t]) := runs_leads_op hr hu rfl
  refine hload.andThen (Runs.andThen (hread.mono (fun w σ hw h ↦ ?_) fun _ _ _ ↦ id) .skip)
  obtain rfl | ⟨c, rfl, hshows, hready⟩ := h
  · exact hr.benign _ rfl
  · exact ⟨hready, .cons (hshows.hasTy hw.later.declared) .nil⟩

/-- Taking the listener of a point off. -/
theorem runs_detach (hp : p ∈ C.body.points) :
    Θ.Runs (Θ.Holds frame D Γ) (Fragment.detach r update fuel frame p) (Θ.Holds frame D Γ) := by
  refine .ok fun m hw hm ↦ ?_
  obtain ⟨w, σ, pc, locks⟩ := m
  obtain ⟨s, hs⟩ := hm.ready.found i hb
  have hfits := hw.fits i s C hs hC
  have hplaced := C.compiles.wellPlaced
  have hcount : ∀ n ∈ p.counters, n < s.counters.size := by
    rw [hfits.sizes.counters]
    exact hplaced.counter_lt p hp
  obtain ⟨t, D', hslot⟩ := C.handle hp
  obtain hv | ⟨d, hv, -⟩ := hfits.handles p.handle t D' hslot (hplaced.handle_lt p hp)
  · exact ⟨_, Fragment.detach_null hb hs hv, hw, hw.grows, hm⟩
  · obtain ⟨hsound, hgrows⟩ := hw.detach (c := d) hs hC hp
    exact ⟨_, Fragment.detach_cell hb hs hv hcount, hsound, hgrows, hm.grows hgrows⟩

theorem runs_detachAll {ps : List SavePoint} (hps : ps ⊆ C.body.points) :
    Θ.Runs (Θ.Holds frame D Γ) (Fragment.detachAll r update fuel frame ps) (Θ.Holds frame D Γ) := by
  induction ps with
  | nil => exact .skip
  | cons p ps ih =>
    rw [List.cons_subset] at hps
    exact (runs_detach hb hC hps.1).andThen (ih hps.2)

/-- Setting the flag of a branch. -/
theorem runs_assignFlag {flag counter : Nat} {right : Fragment} {ps : List SavePoint}
    (hbranch : (flag, counter, right, ps) ∈ C.body.branches) (value : Bool) :
    Θ.Runs (Θ.Holds frame D Γ)
      (Fragment.assignFlag r update fuel frame (some C.layout) flag value) (Θ.Holds frame D Γ) := by
  refine Runs.andThen (Q := Θ.Holds frame D Γ) (.ok fun m hw hm ↦ ?_) .skip
  obtain ⟨s, hs⟩ := hm.ready.found i hb
  have hsize : s.flags.size = C.layout.storage := by
    rw [(hw.fits i s C hs hC).sizes.flags, C.compiles.flags]
  have hword := C.compiles.wordOf_lt hsize _ hbranch
  let s' : Instance := { s with flags := C.layout.assigned s.flags flag value }
  have hput : Θ.Sound (m.world.put i s') ∧ Θ.Grows m.world (m.world.put i s') := hw.put hs hC rfl
    (fun h ↦ h.congr rfl rfl rfl (FlagLayout.size_assigned ..) rfl rfl) fun _ hn ↦ hn.congr rfl
  exact ⟨_, does_assign value hb hs hword, hput.1, hput.2, hm.grows hput.2⟩

/-- Skipping a right operand. -/
theorem runs_skipBranch {flag counter : Nat} {right : Fragment} {ps : List SavePoint}
    (hbranch : (flag, counter, right, ps) ∈ C.body.branches) :
    Θ.Runs (Θ.Holds frame D Γ)
      (Fragment.skipBranch r update fuel frame (some C.layout) flag counter ps) (Θ.Holds frame D Γ) := by
  obtain ⟨hcounter, hps⟩ := C.branch hbranch
  refine (runs_assignFlag hb hC hbranch false).andThen (.go fun m hw hm ↦ ?_)
  obtain ⟨s, hs⟩ := hm.ready.found i hb
  have hlt : counter < s.counters.size := (hw.fits i s C hs hC).sizes.counters.symm ▸ hcounter
  have hload : runOps r update fuel frame [.counterLoad counter] m =
      ⟨[], .ok (), { m with stack := .int s.counters[counter] :: m.stack }⟩ :=
    runOps_cons (does_counterLoad hb hs (Array.getElem?_eq_getElem hlt)) []
  rw [andThen_ok hload, branchOn_jumpIfZero rfl]
  split
  · exact ⟨_, _, _, rfl, hw, hw.grows, hm, .skip⟩
  · exact ⟨_, _, _, rfl, hw, hw.grows, hm, runs_detachAll hb hC hps⟩

end

/-- Code is part of that of the binding that it is run for. -/
def Belongs (Θ : Contracts r E w₀) (frame : Frame) (layout : Option FlagLayout) (f : Fragment) : Prop :=
  ∀ i C, frame.binding = some i → Θ i = some C → layout = some C.layout ∧ f.Within C.body

theorem Belongs.mono {layout : Option FlagLayout} {f g : Fragment} (h : Θ.Belongs frame layout f)
    (hp : g.points ⊆ f.points) (hs : g.slots ⊆ f.slots) (hb : g.branches ⊆ f.branches) :
    Θ.Belongs frame layout g := by
  intro i C hi hC
  obtain ⟨hl, hf⟩ := h i C hi hC
  exact ⟨hl, List.Subset.trans hp hf.points, List.Subset.trans hs hf.slots,
    List.Subset.trans hb hf.branches⟩

namespace Belongs

variable {layout : Option FlagLayout} {f g h : Fragment}

/-- A piece of code has a first part. -/
theorem left (hf : Θ.Belongs frame layout h) (hp : h.points = f.points ++ g.points)
    (hs : h.slots = f.slots ++ g.slots) (hb : f.branches ⊆ h.branches) : Θ.Belongs frame layout f :=
  hf.mono (hp ▸ List.subset_append_left _ _) (hs ▸ List.subset_append_left _ _) hb

/-- A piece of code has a second part. -/
theorem right (hf : Θ.Belongs frame layout h) (hp : h.points = f.points ++ g.points)
    (hs : h.slots = f.slots ++ g.slots) (hb : g.branches ⊆ h.branches) : Θ.Belongs frame layout g :=
  hf.mono (hp ▸ List.subset_append_right _ _) (hs ▸ List.subset_append_right _ _) hb

end Belongs

section

variable {update : Updater} {fuel : Nat} {env : Env} {op : Op} {Q : World → List Value → Prop}

/-- An operand that decides or does not. -/
theorem runs_decide {a b : Block} (ha : Θ.Runs (Θ.Holds frame D (.boolean :: Γ)) a Q)
    (hb : Θ.Runs (Θ.Holds frame D Γ) b Q) (op : BinaryOp) :
    Θ.Runs (Θ.Holds frame D (.boolean :: Γ)) (Fragment.decide r update fuel frame op a b) Q := by
  refine .go fun m hw hm ↦ ?_
  obtain ⟨v, τ, hv, hτ, hstack⟩ := List.forall₂_cons_left_iff.mp hm.typed
  obtain ⟨x, rfl⟩ := Value.bool_of_prim? hv
  rw [Fragment.decide_eq hstack]
  simp only [Value.toBool]
  split
  · exact ⟨_, _, _, rfl, hw, hw.grows, ⟨hm.ready, .cons hv hτ⟩, ha⟩
  · exact ⟨_, _, _, rfl, hw, hw.grows, ⟨hm.ready, hτ⟩, hb⟩

/-- What is set aside besides does not matter. -/
theorem runs_fewer {P : World → List Value → Prop} {b : Block}
    (h : Θ.Runs P b (Θ.Holds frame (D ++ D') Γ)) : Θ.Runs P b (Θ.Holds frame D Γ) :=
  h.mono (fun _ _ _ ↦ id) fun _ _ _ h ↦ h.mono (List.subset_append_left _ _)

/-- The right operand of a branch that is entered or skipped. -/
theorem runs_right {i : InstanceId} {C : Contract r E w₀} (hb : frame.binding = some i)
    (hC : Θ i = some C) {flag counter : Nat} {right : Fragment} {ps : List SavePoint}
    (hbranch : (flag, counter, right, ps) ∈ C.body.branches) (op : BinaryOp)
    (h : Θ.Runs (Θ.Holds frame D []) (right.run r update fuel frame (some C.layout))
      (Θ.Holds frame (D ++ D') [.boolean])) :
    Θ.Runs (Θ.Holds frame D [.boolean])
      (Fragment.decide r update fuel frame op
        (Fragment.skipBranch r update fuel frame (some C.layout) flag counter ps)
        ((Fragment.assignFlag r update fuel frame (some C.layout) flag true).andThen
          (right.run r update fuel frame (some C.layout))))
      (Θ.Holds frame D [.boolean]) :=
  runs_decide (runs_skipBranch hb hC hbranch)
    ((runs_assignFlag hb hC hbranch true).andThen (runs_fewer h)) op

theorem storesOf_of_gives {ins : List Ty} {out : Ty} (h : Op.Gives r env D op ins out)
    (list : List Op) : Fragment.storesOf (op :: list) = Fragment.storesOf list := by
  cases h with
  | typed h =>
    cases h with
    | parse p => cases p <;> rfl
    | _ => rfl
  | _ => rfl

variable (hr : r.Conforms E w₀) (hu : Θ.Updates update)
include hr hu

/-- Finding the cell of an observable property. -/
theorem runs_getObservable {c : ClassId} {name : String} {p : PropertyInfo}
    (hp : r.model.property (.class c) name = some p) (hobs : p.flags.observable) :
    Θ.Runs (Θ.Holds frame D [.class c]) (runOps r update fuel frame [.getObservable p.name])
      fun w σ ↦ Θ.Ready frame D w ∧ ∃ x, σ = [.cell x] ∧ w.Shows r p.ty x := by
  have hplain : Θ.Runs
      (Op.Leads r E frame.locals (.getObservable p.name) fun w σ ↦
        ∃ x, σ = [.cell x] ∧ w.Shows r p.ty x)
      (runOp r update fuel frame (.getObservable p.name)) fun w σ ↦
        ∃ x, σ = [.cell x] ∧ w.Shows r p.ty x := runs_leads_op hr hu rfl
  refine Runs.andThen ((hplain.keeping (stable_ready (Θ := Θ))).mono (fun w σ hw hm ↦ ⟨?_, hm.ready⟩)
    fun _ _ _ h ↦ ⟨h.2, h.1⟩) .skip
  obtain ⟨v, rfl, hv⟩ := Op.Typed.forall₂_one hm.typed
  have hreads := hw.reads hr frame.locals
  rcases hv with rfl | ⟨o, d, rfl, ho, hsub⟩ | ⟨d, name', rfl, hd, hsub⟩
  · exact hr.benign _ rfl
  · obtain ⟨x, hx, ht⟩ := hw.later.declared.observed o d c name p ho hsub hp hobs
    have hcell : w.observable? o p.name = some x := World.observable?_eq_some.mpr hx
    have hget : ((w.reading r (fun _ _ ↦ .error .exhausted) frame.locals #[]).op
        (.getObservable p.name) [.object o]).result = .ok [.cell x] := by
      show Except.bind _ _ = _
      simp only [World.reading, hcell]
      rfl
    unfold Op.Leads
    dsimp only [Op.call?]
    rw [hget]
    exact ⟨x, rfl, o, d, c, name, p, ho, hsub, hp, hobs, hcell, rfl⟩
  · exact hreads.enums d c name p hd hsub hp _ rfl

variable (hserve : Θ.Serves frame env)
include hserve

/-- An instruction on operands of its types. -/
theorem runs_gives {ins : List Ty} {out : Ty} (h : Op.Gives r env D op ins out) :
    Θ.Runs (Θ.Holds frame D (ins ++ Γ)) (runOp r update fuel frame op) (Θ.Holds frame D (out :: Γ)) := by
  by_cases hop : op.isPlain
  · have hplain : Θ.Runs
        (op.Leads r E frame.locals fun w ↦ List.Forall₂ (r.HasTy w.classOf) (out :: Γ))
        (runOp r update fuel frame op) fun w ↦ List.Forall₂ (r.HasTy w.classOf) (out :: Γ) :=
      runs_leads_op hr hu hop
    exact (hplain.keeping (stable_ready (Θ := Θ))).mono
      (fun w σ hw hm ↦ ⟨hw.leads hr h hop frame.locals hm.typed, hm.ready⟩)
      fun _ _ _ h ↦ ⟨h.2, h.1⟩
  cases h with
  | capture hs hn =>
    obtain ⟨i, C, hb, hC, rfl⟩ := hserve.binding hs
    refine .ok fun m hw hm ↦ ?_
    obtain ⟨s, hs⟩ := hm.ready.found i hb
    obtain ⟨v, hv, ht⟩ := (hw.fits i s C hs hC).captured _ _ hn
    exact ⟨_, does_loadCapture hb hs hv, hw, hw.grows, hm.ready, .cons ht hm.typed⟩
  | @scratch n t hs hD hn =>
    obtain ⟨i, C, hb, hC, rfl⟩ := hserve.binding hs
    refine .ok fun m hw hm ↦ ?_
    obtain ⟨s, hs⟩ := hm.ready.found i hb
    obtain ⟨u, v, hu, hv, ht⟩ := hm.ready.filled_of hb hC hs hD
    obtain rfl := Keep.operand.inj (hu.symm.trans hn)
    exact ⟨_, does_loadScratch hb hs hv, hw, hw.grows, hm.ready, .cons ht hm.typed⟩
  | typed h =>
    cases h with
    | parse p => cases p <;> exact absurd rfl hop
    | _ => exact absurd rfl hop
  | _ => exact absurd rfl hop

/-- Code of the scope. -/
theorem runs_load {layout : Option FlagLayout} {f : Fragment} {t : Ty} (h : env.loads f t) :
    Θ.Runs (Θ.Holds frame D Γ) (f.run r update fuel frame layout) (Θ.Holds frame D (t :: Γ)) := by
  obtain ⟨hlocals, types, ht, hf⟩ := hserve.loads f t h
  refine .of_stack fun σ ↦ ?_
  have hstable : Θ.Stable fun w ↦ Θ.Ready frame D w ∧ List.Forall₂ (r.HasTy w.classOf) Γ σ :=
    fun w w' hw h ↦ ⟨stable_ready w w' hw h.1, hw.forall₂ h.2⟩
  let pushed (w : World) (τ : List Value) : Prop :=
    ∃ v, τ = v :: σ ∧ ∀ t, types t → r.HasTy w.classOf t v
  have hrun : Θ.Runs (f.Leads r E frame.locals pushed) (f.run r update fuel frame layout) pushed :=
    runs_leads hr hu layout hf.plain
  refine (hrun.keeping hstable).mono (fun w τ hw hm ↦ ?_) fun w τ _ hm ↦ ?_
  · obtain ⟨rfl, hm⟩ := hm
    have hleads := hf.leads w τ hw.later
    rw [hw.later.frame, ← hlocals] at hleads
    exact ⟨hleads, hm.ready, hm.typed⟩
  · obtain ⟨⟨v, rfl, hv⟩, hready, hσ⟩ := hm
    exact ⟨hready, .cons (hv t ht) hσ⟩

/-- Listening to a property. -/
theorem runs_observe {layout : Option FlagLayout} {c : ClassId} {name : String} {p : PropertyInfo}
    {point : SavePoint} (hs : env.stateful) (hp : r.model.property (.class c) name = some p)
    (hobs : p.flags.observable) (hslot : env.slots point.handle = .handle p.ty D)
    (hf : Θ.Belongs frame layout (.observe p.name point)) :
    Θ.Runs (Θ.Holds frame D [.class c])
      ((Fragment.observe p.name point).run r update fuel frame layout) (Θ.Holds frame D [p.ty]) := by
  obtain ⟨i, C, hb, hC, rfl⟩ := hserve.binding hs
  have hpoint : point ∈ C.body.points := (hf i C hb hC).2.points List.mem_cons_self
  exact (runs_getObservable hr hu hp hobs).andThen
    ((runs_attach hb hC hpoint hslot).andThen (runs_reread hb hC hr hu hpoint hslot))

/-- Typed code comes to stacks of its types. -/
theorem runs_typed {layout : Option FlagLayout} {f : Fragment} (h : Fragment.Typed r env D f Γ Δ)
    (hf : Θ.Belongs frame layout f) :
    Θ.Runs (Θ.Holds frame D Γ) (f.run r update fuel frame layout)
      (Θ.Holds frame (D ++ f.stored) Δ) := by
  induction h with
  | nil =>
    exact Runs.skip.mono (fun _ _ _ ↦ id) fun _ _ _ h ↦
      h.mono (by simp [Fragment.stored, Fragment.storesOf])
  | @op D op list ins Γ Δ out h _ ih =>
    have hstores := storesOf_of_gives h list
    refine (runs_gives hr hu hserve h).andThen ?_
    rw [Fragment.stored, hstores]
    exact ih (hf.mono (List.nil_subset _) (fun n hn ↦ by rwa [Fragment.slots, hstores]) (List.nil_subset _))
  | pop _ ih =>
    refine Runs.andThen (.ok fun m hw hm ↦ ?_)
      (ih (hf.mono (List.nil_subset _) (fun _ ↦ id) (List.nil_subset _)))
    obtain ⟨v, τ, hv, hτ, hstack⟩ := List.forall₂_cons_left_iff.mp hm.typed
    exact ⟨_, does_pop hstack, hw, hw.grows, hm.ready, hτ⟩
  | @store D n t Γ hs hn =>
    obtain ⟨i, C, hb, hC, rfl⟩ := hserve.binding hs
    obtain ⟨-, hwithin⟩ := hf i C hb hC
    have hlt := C.slot_lt (hwithin.slots List.mem_cons_self)
    exact (runs_storeScratch hb hC hn hlt).andThen .skip
  | @append D f g Γ Θ' Δ _ _ ih ih' =>
    rw [Fragment.stored, ← List.append_assoc]
    exact (ih (hf.left rfl rfl (List.subset_append_left ..))).andThen
      (ih' (hf.right rfl rfl (List.subset_append_right ..)))
  | nullGuard _ _ ih ih' =>
    have hconvert := ih (hf.left rfl rfl (List.subset_append_left ..))
    have hdefault := ih' (hf.right rfl rfl (List.subset_append_right ..))
    refine .go fun m hw hm ↦ ?_
    obtain ⟨v, τ, hv, hτ, hstack⟩ := List.forall₂_cons_left_iff.mp hm.typed
    rw [Fragment.run, Fragment.nullGuard_eq hstack]
    split
    · exact ⟨_, _, _, rfl, hw, hw.grows, ⟨hm.ready, hτ⟩, hdefault.mono (fun _ _ _ ↦ id)
        fun _ _ _ h ↦ h.mono (by simp [Fragment.stored])⟩
    · exact ⟨_, _, _, rfl, hw, hw.grows, ⟨hm.ready, .cons hv hτ⟩, hconvert.mono (fun _ _ _ ↦ id)
        fun _ _ _ h ↦ h.mono (by simp [Fragment.stored])⟩
  | @shortCircuit D op f g Γ Θ' _ _ ih ih' =>
    exact (ih (hf.left rfl rfl (List.subset_append_left ..))).andThen
      (runs_decide .skip (runs_fewer (ih' (hf.right rfl rfl (List.subset_append_right ..)))) op)
  | observe hs hp hobs hslot =>
    rw [Fragment.stored, List.append_nil]
    exact runs_observe hr hu hserve hs hp hobs hslot hf
  | @branch D op f g flag counter ps hs _ _ ih ih' =>
    obtain ⟨i, C, hb, hC, rfl⟩ := hserve.binding hs
    obtain ⟨rfl, hwithin⟩ := hf i C hb hC
    have hbranch : (flag, counter, g, ps) ∈ C.body.branches :=
      hwithin.branches (by simp [Fragment.branches])
    have hright := hf.right rfl rfl fun e he ↦ List.mem_append_right _ (List.mem_cons_of_mem _ he)
    exact (ih (hf.left rfl rfl (List.subset_append_left ..))).andThen
      (runs_right hb hC hbranch op (ih' hright))
  | load hplain hload =>
    rw [Fragment.stored_of_isPlain hplain, List.append_nil]
    exact runs_load hr hu hserve hload
  | assign ha _ ih =>
    refine (ih hf).mono (fun _ _ _ ↦ id) fun w σ _ hm ↦ ?_
    obtain ⟨v, τ, hv, hτ, rfl⟩ := List.forall₂_cons_left_iff.mp hm.typed
    exact ⟨hm.ready, .cons (hv.assign ha) hτ⟩

/-- Typed code that is resumed at a point comes to a stack of its types too. -/
theorem resumes_typed {layout : Option FlagLayout} {f : Fragment} (h : Fragment.Typed r env D f Γ Δ)
    (hf : Θ.Belongs frame layout f) {k : Nat} (hk : k ∈ f.steps) :
    Θ.Runs (Θ.Holds frame [] []) (f.resume r update fuel frame layout k)
      (Θ.Holds frame (D ++ f.stored) Δ) := by
  induction h with
  | nil | op | pop | store | nullGuard => cases hk
  | @append D f g Γ Θ' Δ _ hg ih ih' =>
    have hleft := hf.left rfl rfl (List.subset_append_left ..)
    have hright := hf.right rfl rfl (List.subset_append_right ..)
    rw [Fragment.stored, ← List.append_assoc, Fragment.resume]
    split
    · next hmem => exact (ih hleft hmem).andThen (runs_typed hr hu hserve hg hright)
    · next hmem =>
      rw [Fragment.steps_append, List.mem_append] at hk
      exact ih' hright (hk.resolve_left hmem)
  | @shortCircuit D op f g Γ Θ' _ hg ih ih' =>
    have hleft := hf.left rfl rfl (List.subset_append_left ..)
    have hright := hf.right rfl rfl (List.subset_append_right ..)
    rw [Fragment.resume]
    split
    · next hmem =>
      exact (ih hleft hmem).andThen
        (runs_decide .skip (runs_fewer (runs_typed hr hu hserve hg hright)) op)
    · next hmem =>
      rw [Fragment.steps_shortCircuit, List.mem_append] at hk
      exact runs_fewer (ih' hright (hk.resolve_left hmem))
  | @observe D c name p point hs hp hobs hslot =>
    obtain ⟨i, C, hb, hC, rfl⟩ := hserve.binding hs
    rw [Fragment.stored, List.append_nil]
    exact runs_reread hb hC hr hu ((hf i C hb hC).2.points List.mem_cons_self) hslot
  | @branch D op f g flag counter ps hs _ hg ih ih' =>
    obtain ⟨i, C, hb, hC, rfl⟩ := hserve.binding hs
    obtain ⟨rfl, hwithin⟩ := hf i C hb hC
    have hbranch : (flag, counter, g, ps) ∈ C.body.branches :=
      hwithin.branches (by simp [Fragment.branches])
    have hleft := hf.left rfl rfl (List.subset_append_left ..)
    have hright := hf.right rfl rfl fun e he ↦ List.mem_append_right _ (List.mem_cons_of_mem _ he)
    rw [Fragment.resume]
    split
    · next hmem =>
      exact (ih hleft hmem).andThen
        (runs_right hb hC hbranch op (runs_typed hr hu hserve hg hright))
    · next hmem =>
      rw [Fragment.steps_branch, List.mem_append] at hk
      exact runs_fewer (ih' hright (hk.resolve_left hmem))
  | @load D f t Γ hplain hload =>
    obtain ⟨p, hp, -⟩ := List.mem_map.mp hk
    have hslot := f.points_subset_slots (List.mem_map_of_mem hp)
    rw [Fragment.slots_of_isPlain hplain] at hslot
    cases hslot
  | assign ha _ ih =>
    refine (ih hf hk).mono (fun _ _ _ ↦ id) fun w σ _ hm ↦ ?_
    obtain ⟨v, τ, hv, hτ, rfl⟩ := List.forall₂_cons_left_iff.mp hm.typed
    exact ⟨hm.ready, .cons (hv.assign ha) hτ⟩

end

end Contracts

end LiveBinding
