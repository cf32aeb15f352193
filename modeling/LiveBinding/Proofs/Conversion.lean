import LiveBinding.Proofs.Typing

namespace LiveBinding

/-- A value of type `s` is turned into one of type `t`. -/
inductive Op.Chain (r : Registry) : List Op → Ty → Ty → Prop
  | nil {s t : Ty} : r.model.isAssignable s t → Chain r [] s t
  | op {op : Op} {ops : List Op} {s u t : Ty} : Op.Typed r op [s] u → Chain r ops u t →
    Chain r (op :: ops) s t
  | call {m : MethodInfo} {ops : List Op} {s t : Ty} : (∃ d ∈ r.methods, d.info = m) →
    m.flags.static → m.params = [s] → Chain r ops m.ret t →
    Chain r (.invokeStatic m.id 1 :: ops) s t

/-- A value of type `t` is pushed. -/
inductive Op.Source (r : Registry) : List Op → Ty → Prop
  | mk {op : Op} {ops : List Op} {u t : Ty} : Op.Typed r op [] u → Chain r ops u t →
    Source r (op :: ops) t

/-- A conversion between two types. -/
inductive Fragment.Coerces (r : Registry) : Fragment → Ty → Ty → Prop
  | ops {list : List Op} {s t : Ty} : Op.Chain r list s t → Coerces r (.ops list) s t
  | ofNull {list : List Op} {t : Ty} : Op.Source r list t → Coerces r (.ops (.pop :: list)) .null t
  | guarded {convert default : List Op} {s t : Ty} : Op.Chain r convert s t →
    Op.Source r default t → Coerces r (.nullGuard (.ops convert) (.ops default)) s t

namespace Registry

variable {r : Registry} {m : MethodInfo} {owner : Ty} {name : String} {arity : Nat}

theorem mem_addMethodsOf {static : Bool} {found : List MethodInfo}
    (h : m ∈ r.addMethodsOf name arity static found owner) :
    m ∈ found ∨ (∃ d ∈ r.methods, d.info = m) ∧ m.owner = owner ∧ m.name = name ∧
      m.arity = arity ∧ m.flags.static = static := by
  unfold addMethodsOf at h
  rw [← Array.foldl_toList] at h
  have hfold (ds : List MethodDef) (found' : List MethodInfo) (hds : ∀ d ∈ ds, d ∈ r.methods)
      (h : m ∈ ds.foldl (fun found def_ ↦
        let m := def_.info
        if m.owner == owner && m.name == name && m.arity == arity && m.flags.static == static &&
            !found.any (·.params == m.params) then
          found ++ [m]
        else found) found') :
      m ∈ found' ∨ (∃ d ∈ r.methods, d.info = m) ∧ m.owner = owner ∧ m.name = name ∧
        m.arity = arity ∧ m.flags.static = static := by
    induction ds generalizing found' with
    | nil => exact .inl h
    | cons d ds ih =>
      have hd := hds d List.mem_cons_self
      rcases ih _ (fun d hd ↦ hds d (List.mem_cons_of_mem _ hd)) h with h | h
      · dsimp only at h
        split at h
        · next hc =>
          rcases List.mem_append.mp h with h | h
          · exact .inl h
          · obtain rfl := List.mem_singleton.mp h
            simp only [Bool.and_eq_true, beq_iff_eq] at hc
            exact .inr ⟨⟨d, hd, rfl⟩, hc.1.1.1.1, hc.1.1.1.2, hc.1.1.2, hc.1.2⟩
        · exact .inl h
      · exact .inr h
  exact hfold _ found (fun d hd ↦ Array.mem_toList_iff.mp hd) h

theorem mem_findMethods {owners : List Ty} {static : Bool}
    (h : m ∈ r.findMethods owners name arity static) :
    (∃ d ∈ r.methods, d.info = m) ∧ m.owner ∈ owners ∧ m.name = name ∧ m.arity = arity ∧
      m.flags.static = static := by
  have hfold (owners : List Ty) (found : List MethodInfo)
      (h : m ∈ owners.foldl (r.addMethodsOf name arity static) found) :
      m ∈ found ∨ (∃ d ∈ r.methods, d.info = m) ∧ m.owner ∈ owners ∧ m.name = name ∧
        m.arity = arity ∧ m.flags.static = static := by
    induction owners generalizing found with
    | nil => exact .inl h
    | cons o owners ih =>
      rcases ih _ h with h | ⟨hd, ho, h⟩
      · rcases mem_addMethodsOf h with h | ⟨hd, ho, h⟩
        · exact .inl h
        · exact .inr ⟨hd, ho ▸ List.mem_cons_self, h⟩
      · exact .inr ⟨hd, List.mem_cons_of_mem _ ho, h⟩
  exact (hfold owners [] h).resolve_left List.not_mem_nil

theorem mem_methods (h : m ∈ r.model.methods owner name arity) :
    (∃ d ∈ r.methods, d.info = m) ∧ m.owner ∈ r.lineage owner ∧ m.arity = arity ∧
      m.flags.static = false := by
  obtain ⟨hd, ho, -, ha, hs⟩ := mem_findMethods h
  exact ⟨hd, ho, ha, hs⟩

theorem mem_staticMethods (h : m ∈ r.model.staticMethods owner name arity) :
    (∃ d ∈ r.methods, d.info = m) ∧ m.arity = arity ∧ m.flags.static = true := by
  obtain ⟨hd, -, -, ha, hs⟩ := mem_findMethods (List.mem_of_mem_filter h)
  exact ⟨hd, ha, hs⟩

theorem mem_constructors (h : m ∈ r.model.constructors owner arity) :
    (∃ d ∈ r.methods, d.info = m) ∧ m.arity = arity ∧ m.flags.static = true := by
  obtain ⟨hd, -, -, ha, hs⟩ := mem_findMethods h
  exact ⟨hd, ha, hs⟩

/-- A receiver is one of the owner of its methods. -/
theorem isAssignable_of_mem_lineage {s t : Ty} (h : t ∈ r.lineage s) : r.model.isAssignable s t := by
  cases s with
  | null | void | prim => cases h
  | object =>
    obtain rfl := List.mem_singleton.mp h
    exact TypeModel.isAssignable_refl _ _
  | str | boxed =>
    simp only [lineage, List.mem_cons, List.not_mem_nil, or_false] at h
    rcases h with rfl | rfl
    · exact TypeModel.isAssignable_refl _ _
    · rfl
  | «class» c =>
    simp only [lineage, List.mem_append, List.mem_cons, List.mem_map, List.not_mem_nil,
      or_false] at h
    rcases h with (rfl | ⟨d, hd, rfl⟩) | rfl
    · exact TypeModel.isAssignable_refl _ _
    · have hsub : r.model.isSubclass c d := by
        simp only [TypeModel.isSubclass, Bool.or_eq_true, List.contains_iff_mem]
        exact .inr hd
      simp only [TypeModel.isAssignable, hsub, Bool.or_true]
    · rfl

end Registry

namespace Coercion

open Op

variable {r : Registry} {s t : Ty} {p q : Prim} {ops : List Op}

theorem chain_cast (h : cast? p q = some ops) {rest : List Op} (hr : Chain r rest (.prim q) t) :
    Chain r (ops ++ rest) (.prim p) t := by
  unfold cast? at h
  split at h
  · next hpq =>
    cases h
    exact hpq ▸ hr
  · split at h
    · next hn =>
      cases h
      rw [Bool.and_eq_true] at hn
      exact .op (.convert hn.1 hn.2) hr
    · cases h

theorem chain_conversion (h : conversion? r.model s t = some ops) : Chain r ops s t := by
  have hrefl (t : Ty) : Chain r [] t t := .nil (TypeModel.isAssignable_refl _ t)
  unfold conversion? at h
  split at h
  · cases h
  · cases h
  · cases h
  · cases h
    exact .op (.toStr _) (hrefl _)
  · cases h
    exact .op (.parse _) (hrefl _)
  · cases h
    exact .op (.parse _) (.op (.box _) (hrefl _))
  · next c =>
    split at h
    · next he =>
      cases h
      exact .op (.enumValueOf he) (hrefl _)
    · obtain ⟨m, hm, rfl⟩ := Option.map_eq_some_iff.mp h
      have hp := List.find?_some hm
      simp only [Bool.and_eq_true, beq_iff_eq] at hp
      obtain ⟨hd, ha, hs⟩ := Registry.mem_staticMethods (List.mem_of_find?_eq_some hm)
      refine .call hd hs ?_ (.nil hp.2)
      obtain ⟨x, hx⟩ := List.length_eq_one_iff.mp ha
      rw [hx] at hp ⊢
      rw [Option.some.inj hp.1.2]
  · simpa using chain_cast h (hrefl _)
  · obtain ⟨ops', h', rfl⟩ := Option.map_eq_some_iff.mp h
    exact .op (.unbox _) (by simpa using chain_cast h' (hrefl _))
  · obtain ⟨ops', h', rfl⟩ := Option.map_eq_some_iff.mp h
    exact chain_cast h' (.op (.box _) (hrefl _))
  · obtain ⟨ops', h', rfl⟩ := Option.map_eq_some_iff.mp h
    exact .op (.unbox _) (chain_cast h' (.op (.box _) (hrefl _)))
  · split at h
    · next ha =>
      cases h
      exact .op (.box _) (.nil ha)
    · cases h
  · cases h

theorem source_default (h : defaultValue? t = some ops) : Source r ops t := by
  have hrefl (t : Ty) : Chain r [] t t := .nil (TypeModel.isAssignable_refl _ t)
  unfold defaultValue? at h
  split at h <;> cases h
  · exact .mk .pushNull (.nil rfl)
  · exact .mk .pushNull (.nil rfl)
  · exact .mk .pushNull (.nil rfl)
  · exact .mk .pushNull (.nil rfl)
  · exact .mk .pushNull (.nil rfl)
  · exact .mk (.pushBool _) (hrefl _)
  · exact .mk (.pushChar _) (hrefl _)
  · exact .mk (.pushInt _) (.op (.convert rfl rfl) (hrefl _))
  · exact .mk (.pushInt _) (.op (.convert rfl rfl) (hrefl _))
  · exact .mk (.pushInt _) (hrefl _)
  · exact .mk (.pushLong _) (hrefl _)
  · exact .mk (.pushFloat _) (hrefl _)
  · exact .mk (.pushDouble _) (hrefl _)

/-- What is found as the conversion between two types is one. -/
theorem coerces_of_coerce? {c : Fragment} (h : coerce? r.model s t = some c) : c.Coerces r s t := by
  unfold coerce? at h
  split at h
  · next ha =>
    cases h
    exact .ops (.nil ha)
  · split at h
    · next hs =>
      obtain ⟨ops, ho, rfl⟩ := Option.map_eq_some_iff.mp h
      exact hs ▸ .ofNull (source_default ho)
    · split at h
      · cases h
      · next convert hc =>
        split at h
        · obtain ⟨ops, ho, rfl⟩ := Option.map_eq_some_iff.mp h
          exact .guarded (chain_conversion hc) (source_default ho)
        · cases h
          exact .ops (chain_conversion hc)

end Coercion

namespace Reading

variable (rd : Reading)

/-- What some instructions leave on top of some operands, the top of which is in front. -/
def result (list : List Op) (vs : List Value) : Effect Value :=
  (fun c ↦ c.stack.headD .null) <$> rd.all list ⟨vs, fun _ ↦ .null⟩

/-- Instructions take their operands off the stack and leave a result of a type in their place, or
stop with an error that is allowed. -/
structure Leaves (list : List Op) (vs : List Value) (P : Value → Prop) (allowed : Stop → Prop) :
    Prop where
  all_eq : ∀ σ st, rd.all list ⟨vs ++ σ, st⟩ = (⟨· :: σ, st⟩) <$> rd.result list vs
  yields : Yields P allowed (rd.result list vs).result

variable {rd} {list : List Op} {vs : List Value} {P : Value → Prop} {allowed : Stop → Prop}

theorem Leaves.of_eq {x : Effect Value} (h : ∀ σ st, rd.all list ⟨vs ++ σ, st⟩ = (⟨· :: σ, st⟩) <$> x)
    (hx : Yields P allowed x.result) : rd.Leaves list vs P allowed := by
  have hresult : rd.result list vs = x := by
    have h := h [] fun _ ↦ .null
    rw [List.append_nil] at h
    rw [result, h, Functor.map_map]
    exact id_map x
  exact ⟨fun σ st ↦ hresult ▸ h σ st, hresult ▸ hx⟩

theorem all_append (list list' : List Op) (c : Config) :
    rd.all (list ++ list') c = rd.all list c >>= rd.all list' := by
  induction list generalizing c with
  | nil => rfl
  | cons op list ih =>
    simp only [List.cons_append, all, bind_assoc]
    exact bind_congr fun c' ↦ ih c'

/-- One more instruction that is run on the result. -/
theorem Leaves.append {list' : List Op} {Q : Value → Prop} (h : rd.Leaves list vs P allowed)
    (h' : ∀ v, P v → rd.Leaves list' [v] Q allowed) : rd.Leaves (list ++ list') vs Q allowed := by
  refine of_eq (x := rd.result list vs >>= fun v ↦ rd.result list' [v]) (fun σ st ↦ ?_) ?_
  · rw [all_append, h.all_eq, bind_map_left, map_bind]
    cases hr : (rd.result list vs).result with
    | error e => rw [Effect.bind_of_error _ hr, Effect.bind_of_error _ hr]
    | ok v =>
      rw [Effect.bind_of_ok _ hr, Effect.bind_of_ok _ hr]
      have hv := (h' v (h.yields.1 v hr)).all_eq σ st
      rw [List.singleton_append] at hv
      rw [hv]
  · cases hr : (rd.result list vs).result with
    | error e =>
      rw [Effect.bind_of_error _ hr]
      exact .error (h.yields.2 e hr)
    | ok v =>
      rw [Effect.bind_of_ok _ hr]
      exact (h' v (h.yields.1 v hr)).yields

variable {classes : ObjectId → Option ClassId}

theorem leaves_nil {v : Value} (h : P v) : rd.Leaves [] [v] P allowed :=
  .of_eq (x := pure v) (fun _ _ ↦ (map_pure _ _).symm) (.ok h)

end Reading

theorem Op.Typed.ordinary {r : Registry} {op : Op} {ins : List Ty} {out : Ty}
    (h : Op.Typed r op ins out) (rd : Reading) (c : Config) :
    rd.ordinary op c = (⟨·, c.store⟩) <$> Effect.of (rd.simple op c.stack) := by
  cases h with
  | parse p => cases p <;> rfl
  | _ => rfl

namespace Reading

variable {rd : Reading} {classes : ObjectId → Option ClassId} {allowed : Stop → Prop}
variable (hrd : rd.Conforms classes allowed)
include hrd

theorem leaves_typed {op : Op} {ins : List Ty} {out : Ty} {vs : List Value}
    (h : Op.Typed rd.registry op ins out)
    (hvs : List.Forall₂ (rd.registry.HasTy classes) ins vs) :
    rd.Leaves [op] vs (rd.registry.HasTy classes out) allowed := by
  obtain ⟨x, hx, hy⟩ := h.sound hrd hvs
  refine .of_eq (x := .of x) (fun σ st ↦ ?_) hy
  show rd.ordinary op ⟨vs ++ σ, st⟩ >>= pure = _
  rw [bind_pure, h.ordinary, hx]
  cases x <;> rfl

theorem yields_call {m : MethodInfo} {args : List Value} (hd : ∃ d ∈ rd.registry.methods, d.info = m)
    (ha : m.Takes (rd.registry.HasTy classes) args) :
    Yields (rd.registry.HasTy classes m.ret) allowed (rd.call m.id args).result := by
  obtain ⟨d, hd, rfl⟩ := hd
  exact hrd.answers d hd args ha

theorem leaves_invokeStatic {m : MethodInfo} {args : List Value}
    (hd : ∃ d ∈ rd.registry.methods, d.info = m) (hs : m.flags.static)
    (ha : List.Forall₂ (rd.registry.HasTy classes) m.params args) :
    rd.Leaves [.invokeStatic m.id args.length] args.reverse (rd.registry.HasTy classes m.ret)
      allowed := by
  refine .of_eq (x := rd.call m.id args) (fun σ st ↦ ?_)
    (yields_call hrd hd (by rwa [MethodInfo.Takes, if_pos hs]))
  show ((⟨·, st⟩ : List Value → Config) <$> rd.op (.invokeStatic m.id args.length)
    (args.reverse ++ σ)) >>= pure = _
  have hlen : args.length = args.reverse.length := args.length_reverse.symm
  simp only [bind_pure, op, List.length_append, List.length_reverse]
  rw [if_neg (by omega), hlen, List.take_left, List.drop_left, List.reverse_reverse,
    Functor.map_map]

theorem leaves_chain {list : List Op} {s t : Ty} (h : Op.Chain rd.registry list s t) {v : Value}
    (hv : rd.registry.HasTy classes s v) :
    rd.Leaves list [v] (rd.registry.HasTy classes t) allowed := by
  induction h generalizing v with
  | nil ha => exact leaves_nil (hv.assign ha)
  | op hop _ ih =>
    rw [← List.singleton_append]
    exact (leaves_typed hrd hop (.cons hv .nil)).append fun _ ↦ ih
  | @call m _ _ _ hd hs hp _ ih =>
    rw [← List.singleton_append]
    have hargs : List.Forall₂ (rd.registry.HasTy classes) m.params [v] := hp ▸ .cons hv .nil
    exact (leaves_invokeStatic hrd hd hs hargs).append fun _ ↦ ih

/-- An instruction that makes a value of its operands, and others that go on from it. -/
theorem leaves_typedChain {op : Op} {list : List Op} {ins : List Ty} {u t : Ty} {vs : List Value}
    (hop : Op.Typed rd.registry op ins u) (hc : Op.Chain rd.registry list u t)
    (hvs : List.Forall₂ (rd.registry.HasTy classes) ins vs) :
    rd.Leaves (op :: list) vs (rd.registry.HasTy classes t) allowed := by
  rw [← List.singleton_append]
  exact (leaves_typed hrd hop hvs).append fun _ ↦ leaves_chain hrd hc

theorem leaves_source {list : List Op} {t : Ty} (h : Op.Source rd.registry list t) :
    rd.Leaves list [] (rd.registry.HasTy classes t) allowed := by
  obtain ⟨hop, hc⟩ := h
  exact leaves_typedChain hrd hop hc .nil

end Reading

namespace Fragment

/-- What a conversion makes of a value. -/
def apply (rd : Reading) (c : Fragment) (v : Value) : Effect Value :=
  (fun d ↦ d.stack.headD .null) <$> c.den rd ⟨[v], fun _ ↦ .null⟩

variable {rd : Reading} {classes : ObjectId → Option ClassId} {allowed : Stop → Prop}
variable {c : Fragment} {s t : Ty} {v : Value}

/-- A conversion replaces the value on top by one of the other type, or fails. -/
theorem Coerces.sound (hrd : rd.Conforms classes allowed) (h : c.Coerces rd.registry s t)
    (hv : rd.registry.HasTy classes s v) :
    (∀ σ st, c.den rd ⟨v :: σ, st⟩ = (⟨· :: σ, st⟩) <$> c.apply rd v) ∧
      Yields (rd.registry.HasTy classes t) allowed (c.apply rd v).result := by
  have hof {x : Effect Value} (hx : ∀ σ st, c.den rd ⟨v :: σ, st⟩ = (⟨· :: σ, st⟩) <$> x)
      (hy : Yields (rd.registry.HasTy classes t) allowed x.result) :
      (∀ σ st, c.den rd ⟨v :: σ, st⟩ = (⟨· :: σ, st⟩) <$> c.apply rd v) ∧
        Yields (rd.registry.HasTy classes t) allowed (c.apply rd v).result := by
    have hresult : c.apply rd v = x := by
      rw [apply, hx [] _, Functor.map_map]
      exact id_map x
    exact ⟨hresult ▸ hx, hresult ▸ hy⟩
  cases h with
  | ops hc =>
    have hl := Reading.leaves_chain hrd hc hv
    exact hof hl.all_eq hl.yields
  | @ofNull list _ hs =>
    have hl := Reading.leaves_source hrd hs
    exact hof (fun σ st ↦ hl.all_eq σ st) hl.yields
  | @guarded convert default _ _ hc hs =>
    by_cases hnull : v.isNull
    · have hl := Reading.leaves_source hrd hs
      refine hof (fun σ st ↦ ?_) hl.yields
      simp only [den, hnull, if_true]
      exact hl.all_eq σ st
    · have hl := Reading.leaves_chain hrd hc hv
      refine hof (fun σ st ↦ ?_) hl.yields
      simp only [den, hnull]
      exact hl.all_eq σ st

end Fragment

end LiveBinding
