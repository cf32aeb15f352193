import LiveBinding.Proofs.Heap
import LiveBinding.Proofs.Locks
import LiveBinding.Proofs.TypedCode

namespace LiveBinding

/-- The call that an instruction makes on a stack, with its arguments, and what it leaves on the
stack. -/
def Op.call? : Op → List Value → Option (MethodId × List Value × List Value)
  | .invoke id argc, σ =>
    if σ.length < argc then none
    else
      match σ.drop argc with
      | [] => none
      | receiver :: rest =>
        if receiver.isNull then none else some (id, receiver :: (σ.take argc).reverse, rest)
  | .invokeStatic id argc, σ | .construct id argc, σ =>
    if σ.length < argc then none else some (id, (σ.take argc).reverse, σ.drop argc)
  | _, _ => none

section

variable (r : Registry) (E : RuntimeError → Prop) (locals : List Value)

/-- A plain instruction that is run on a stack comes to one as `Q` says, whatever the methods that it
calls do in between, or fails as `E` says. -/
def Op.Leads (op : Op) (Q : World → List Value → Prop) (w : World) (σ : List Value) : Prop :=
  match op.call? σ with
  | some (id, args, rest) => ∃ d ∈ r.methods, d.info.id = id ∧ d.info.Takes (r.HasTy w.classOf) args ∧
    ∀ w' v, w.Later r w' → r.HasTy w'.classOf d.info.ret v → Q w' (v :: rest)
  | none =>
    match ((w.reading r (fun _ _ ↦ .error .exhausted) locals #[]).op op σ).result with
    | .ok τ => Q w τ
    | .error (.error e) => E e
    | .error .exhausted => True

namespace Fragment

/-- Plain code that is run on a stack comes to one as `Q` says, or fails as `E` says. -/
def Leads : Fragment → (World → List Value → Prop) → World → List Value → Prop
  | ops list, Q => list.foldr (Op.Leads r E locals) Q
  | append f g, Q => f.Leads (g.Leads Q)
  | nullGuard f g, Q => fun w σ ↦
    match σ with
    | v :: τ => if v.isNull then g.Leads Q w τ else f.Leads Q w σ
    | [] => False
  | shortCircuit op f g, Q => f.Leads fun w σ ↦
    match σ with
    | .bool b :: τ => if op.skips b then Q w σ else g.Leads Q w τ
    | _ => False
  | _, _ => fun _ _ ↦ False

end Fragment

/-- The code of a name pushes a value of some types, and uses no storage of a binding. -/
structure Fragment.Supplies (w₀ : World) (load : Fragment) (types : Ty → Prop) : Prop where
  plain : load.isPlain
  leads : ∀ w σ, w₀.Later r w → load.Leads r E w.frame
    (fun w' τ ↦ ∃ v, τ = v :: σ ∧ ∀ t, types t → r.HasTy w'.classOf t v) w σ

/-- The methods of a host give values of their types on arguments of their types, or fail as `E`
says. Enum classes have no properties. -/
structure Registry.Conforms (w₀ : World) : Prop where
  benign : ∀ e : RuntimeError, e.isBenign → E e
  methods : ∀ d ∈ r.methods, ∃ m, r.method? d.info.id = .ok m ∧ ∀ w args, w₀.Later r w →
    d.info.Takes (r.HasTy w.classOf) args →
    (m.body args).Conforms r E (fun v w' ↦ r.HasTy w'.classOf d.info.ret v) w
  enums : ∀ c name, (r.model.enumConstants (.class c)).isSome →
    r.model.property (.class c) name = none

/-- The static field that is found for a constant of an enum is declared as one of the enum. -/
def Registry.DeclaresConstants : Prop :=
  ∀ c names name f, r.model.enumConstants (.class c) = some names → name ∈ names →
    r.model.staticField (.class c) name = some f → r.model.isAssignable f.ty (.class c)

end

/-- What is known of the code of a dynamic binding: what it was compiled from, the type of its value,
and what its slots are for. -/
structure Contract (r : Registry) (E : RuntimeError → Prop) (w₀ : World) where
  body : Fragment
  coercion : Fragment
  rendered : Resumable
  layout : FlagLayout
  artifact : Artifact
  ty : Ty
  env : Env
  compiles : Compiles body coercion rendered layout artifact
  typed : Fragment.Typed r env [] (body ++ coercion) [] [ty]
  stateful : env.stateful
  captures : ∀ n t, env.captures n t → n < rendered.storage.captured.length
  supplies : ∀ n (l : Loadable), rendered.storage.captured[n]? = some l →
    l.load.Supplies r E w₀ (env.captures n)
  unloaded : ∀ f t, ¬env.loads f t

namespace Contract

variable {r : Registry} {E : RuntimeError → Prop} {w₀ : World} (C : Contract r E w₀)
variable {p : SavePoint}

theorem handle (hp : p ∈ C.body.points) : ∃ t D, C.env.slots p.handle = .handle t D :=
  C.typed.handle p (List.mem_append_left _ hp)

theorem mem_steps {k : Nat} : k ∈ C.artifact.steps ↔ k = 0 ∨ k ∈ C.body.steps := by
  have hnext := C.compiles.renders.nextStep
  simp only [Resumable.start] at hnext
  rw [C.compiles.steps, C.compiles.steps_eq, Resumable.steps, List.mem_range, List.mem_range'_1]
  omega

theorem slot_lt {n : Nat} (hn : n ∈ C.body.slots) : n < C.artifact.scratch := by
  have hmem := C.compiles.renders.slots.subset hn
  have hnext := C.compiles.renders.nextSlot
  rw [List.mem_range'_1] at hmem
  rw [C.compiles.scratch]
  omega

/-- A branch has a counter and points of the binding. -/
theorem branch {flag counter : Nat} {right : Fragment} {ps : List SavePoint}
    (h : (flag, counter, right, ps) ∈ C.body.branches) :
    counter < C.artifact.counters ∧ ps ⊆ C.body.points := by
  have hcounter : counter ∈ C.body.counters := List.mem_map_of_mem h
  rw [C.compiles.counters_eq, List.mem_range] at hcounter
  have hnested : C.body.Nested [] := C.compiles.renders.nested
  obtain ⟨hperm, hsub⟩ := hnested.branch_points h
  exact ⟨hcounter, fun p hp ↦ hsub (hperm.subset hp)⟩

end Contract

/-- A slot holds an operand that is set aside. -/
def Env.Filled (env : Env) (r : Registry) (w : World) (s : Instance) (n : Nat) : Prop :=
  ∃ t v, env.slots n = .operand t ∧ s.scratch[n]? = some v ∧ r.HasTy w.classOf t v

namespace Env.Filled

variable {env : Env} {r : Registry} {w w' : World} {s s' : Instance} {n : Nat}

theorem later (h : env.Filled r w s n) (hw : w.Later r w') : env.Filled r w' s n := by
  obtain ⟨t, v, hn, hv, ht⟩ := h
  exact ⟨t, v, hn, hv, hw.hasTy ht⟩

theorem congr (h : env.Filled r w s n) (hs : s'.scratch[n]? = s.scratch[n]?) :
    env.Filled r w s' n := by
  obtain ⟨t, v, hn, hv, ht⟩ := h
  exact ⟨t, v, hn, hs.trans hv, ht⟩

end Env.Filled

variable {r : Registry} {E : RuntimeError → Prop} {w₀ : World}

/-- The storage of a binding is as its code needs it. A slot of a point holds a cell of the property
that the point listens to, and then the operands beneath are set aside, or nothing. -/
structure Contract.Fits (C : Contract r E w₀) (w : World) (s : Instance) : Prop where
  sizes : s.Fits C.artifact
  captured : ∀ n t, C.env.captures n t → ∃ v, s.captures[n]? = some v ∧ r.HasTy w.classOf t v
  queued : s.queued ⊆ C.artifact.steps
  handles : ∀ n t D, C.env.slots n = .handle t D → n < C.artifact.scratch →
    s.scratch[n]? = some .null ∨
      ∃ c, s.scratch[n]? = some (.cell c) ∧ w.Shows r t c ∧ ∀ m ∈ D, C.env.Filled r w s m

theorem Contract.Fits.later {C : Contract r E w₀} {w w' : World} {s : Instance} (h : C.Fits w s)
    (hw : w.Later r w') : C.Fits w' s where
  sizes := h.sizes
  captured n t ht := by
    obtain ⟨v, hv, ht⟩ := h.captured n t ht
    exact ⟨v, hv, hw.hasTy ht⟩
  queued := h.queued
  handles n t D hn hlt := by
    refine (h.handles n t D hn hlt).imp id ?_
    rintro ⟨c, hc, hshows, hD⟩
    exact ⟨c, hc, hshows.mono hw.toExtends, fun m hm ↦ (hD m hm).later hw⟩

section

variable {C : Contract r E w₀} {w : World} {s s' : Instance} {n : Nat} {t : Ty} {v : Value}

/-- Counters and flags may change. -/
theorem Contract.Fits.congr (h : C.Fits w s) (hcode : s'.artifact = s.artifact)
    (hscratch : s'.scratch = s.scratch) (hcounters : s'.counters.size = s.counters.size)
    (hflags : s'.flags.size = s.flags.size) (hcaptures : s'.captures = s.captures)
    (hqueued : s'.queued = s.queued) : C.Fits w s' where
  sizes := ⟨hcode.trans h.sizes.code, by rw [hscratch, h.sizes.scratch],
    hcounters.trans h.sizes.counters, hflags.trans h.sizes.flags⟩
  captured n t ht := by
    rw [hcaptures]
    exact h.captured n t ht
  queued := hqueued ▸ h.queued
  handles n t D hn hlt := by
    simp only [hscratch, Env.Filled]
    exact h.handles n t D hn hlt

/-- A slot may hold a value. -/
def Env.Keeps (env : Env) (r : Registry) (w : World) (s : Instance) (n : Nat) (v : Value) : Prop :=
  match env.slots n with
  | .operand t => r.HasTy w.classOf t v
  | .handle t D => v = .null ∨ ∃ c, v = .cell c ∧ w.Shows r t c ∧ ∀ m ∈ D, env.Filled r w s m

theorem Env.Keeps.later {env : Env} {w' : World} (h : env.Keeps r w s n v) (hw : w.Later r w') :
    env.Keeps r w' s n v := by
  unfold Keeps at h ⊢
  cases hn : env.slots n with
  | operand t =>
    rw [hn] at h
    exact hw.hasTy h
  | handle t D =>
    rw [hn] at h
    refine h.imp id ?_
    rintro ⟨c, hc, hshows, hD⟩
    exact ⟨c, hc, hshows.mono hw.toExtends, fun m hm ↦ (hD m hm).later hw⟩

/-- Slots that are filled stay so if one takes a value that it may hold. -/
theorem Env.Filled.setScratch {env : Env} {m : Nat} (h : env.Filled r w s m)
    (hv : env.Keeps r w s n v) : env.Filled r w (s.setScratch n v) m := by
  obtain ⟨t, x, hm, hx, ht⟩ := h
  by_cases hnm : n = m
  · subst hnm
    obtain ⟨hlt, -⟩ := Array.getElem?_eq_some_iff.mp hx
    rw [Keeps, hm] at hv
    exact ⟨t, v, hm, Array.getElem?_setIfInBounds_self_of_lt hlt, hv⟩
  · exact ⟨t, x, hm, (Array.getElem?_setIfInBounds_ne hnm).trans hx, ht⟩

theorem Contract.Fits.setScratch (h : C.Fits w s) (hv : C.env.Keeps r w s n v) :
    C.Fits w (s.setScratch n v) where
  sizes := ⟨h.sizes.code, Array.size_setIfInBounds.trans h.sizes.scratch, h.sizes.counters,
    h.sizes.flags⟩
  captured := h.captured
  queued := h.queued
  handles m t D hm hlt := by
    by_cases hnm : n = m
    · subst hnm
      have hx : (s.setScratch n v).scratch[n]? = some v :=
        Array.getElem?_setIfInBounds_self_of_lt (h.sizes.scratch.symm ▸ hlt)
      have hkeeps := hv
      rw [Env.Keeps, hm] at hkeeps
      obtain rfl | ⟨c, rfl, hc, hD⟩ := hkeeps
      · exact .inl hx
      · exact .inr ⟨c, hx, hc, fun k hk ↦ (hD k hk).setScratch hv⟩
    · have hx : (s.setScratch n v).scratch[m]? = s.scratch[m]? := Array.getElem?_setIfInBounds_ne hnm
      rw [hx]
      refine (h.handles m t D hm hlt).imp id ?_
      rintro ⟨c, hc, hshows, hD⟩
      exact ⟨c, hc, hshows, fun k hk ↦ (hD k hk).setScratch hv⟩

end

namespace World

variable {w : World} {i j : InstanceId} {s s' t : Instance}

theorem instance?_of_put (h : (w.put i s').instance? j = some t) :
    j = i ∧ t = s' ∨ w.instance? j = some t := by
  rw [put, instance?_modifyInstance] at h
  split at h
  · next hij =>
    obtain ⟨_, -, rfl⟩ := Option.map_eq_some_iff.mp h
    exact .inl ⟨hij.symm, rfl⟩
  · exact .inr h

theorem valueOf_put (hs : w.instance? i = some s) (hr : s'.result = s.result) (j : InstanceId) :
    (w.put i s').valueOf j = w.valueOf j := by
  have hresult : (w.put i s').resultCell? j = w.resultCell? j := by
    rw [resultCell?, resultCell?, put, instance?_modifyInstance]
    split
    · next hij =>
      rw [← hij, hs]
      exact congrArg some hr
    · rfl
  rw [valueOf, hresult]
  rfl

end World

/-- The contracts of the bindings of a host. Those that have none yet are being made. -/
abbrev Contracts (r : Registry) (E : RuntimeError → Prop) (w₀ : World) :=
  InstanceId → Option (Contract r E w₀)

namespace Contracts

variable (Θ : Contracts r E w₀)

/-- The value that a binding has published is of its type. -/
def Published (w : World) (i : InstanceId) : Prop :=
  ∀ C, Θ i = some C → r.HasTy w.classOf C.ty (w.valueOf i)

/-- A later world in which values of bindings that were of their types still are. -/
structure Onward (w w' : World) : Prop extends w.Later r w' where
  published : ∀ i, Θ.Published w i → Θ.Published w' i

/-- A listener can be told of whatever its cell comes to hold. -/
def Heard (w : World) (c : CellId) : Listener → Prop
  | .binding i k => ∃ C, Θ i = some C ∧ k ∈ C.artifact.steps
  | .callback action => ∀ w', Θ.Onward w w' →
    (action (w'.cellValue c)).Conforms r E (fun _ _ ↦ True) w'

/-- The state of a host in which nothing goes wrong. The result of a binding that is being made is
not locked. -/
structure Sound (w : World) : Prop where
  later : w₀.Later r w
  own : w.OwnResults
  apart : ∀ o p c i, w.observable? o p = some c → w.resultCell? i ≠ some c
  fits : ∀ i s C, w.instance? i = some s → Θ i = some C → C.Fits w s
  fresh : ∀ i s, w.instance? i = some s → Θ i = none → s.alive →
    (w.cell? s.result).map Cell.lockDepth = some 0
  heard : ∀ c cell, w.cell? c = some cell → ∀ l ∈ cell.listeners, Θ.Heard w c l

/-- What a run does to a sound state: slots that are filled stay so, and bindings that are being made
are left alone. -/
structure Grows (w w' : World) : Prop extends Θ.Onward w w' where
  kept : ∀ i s, w.instance? i = some s → ∃ s', w'.instance? i = some s' ∧
    ∀ C, Θ i = some C → ∀ n, C.env.Filled r w s n → C.env.Filled r w' s' n
  frozen : ∀ i, Θ i = none → w'.instance? i = w.instance? i

variable {Θ} {w w' w'' : World} {i : InstanceId} {c : CellId}

theorem Onward.refl (h : w.Declared r) : Θ.Onward w w := ⟨.refl h, fun _ ↦ id⟩

theorem Onward.trans (h : Θ.Onward w w') (h' : Θ.Onward w' w'') : Θ.Onward w w'' :=
  ⟨h.toLater.trans h'.toLater, fun i hi ↦ h'.published i (h.published i hi)⟩

theorem Grows.refl (h : w.Declared r) : Θ.Grows w w :=
  ⟨.refl h, fun _ s hs ↦ ⟨s, hs, fun _ _ _ ↦ id⟩, fun _ _ ↦ rfl⟩

theorem Grows.trans (h : Θ.Grows w w') (h' : Θ.Grows w' w'') : Θ.Grows w w'' where
  toOnward := h.toOnward.trans h'.toOnward
  kept i s hs := by
    obtain ⟨s', hs', hkept⟩ := h.kept i s hs
    obtain ⟨s'', hs'', hkept'⟩ := h'.kept i s' hs'
    exact ⟨s'', hs'', fun C hC n hn ↦ hkept' C hC n (hkept C hC n hn)⟩
  frozen i hi := (h'.frozen i hi).trans (h.frozen i hi)

theorem Heard.onward (hw : Θ.Onward w w') {l : Listener} (h : Θ.Heard w c l) : Θ.Heard w' c l := by
  cases l with
  | binding i k => exact h
  | callback action => exact fun u hu ↦ h u (hw.trans hu)

theorem Sound.grows (h : Θ.Sound w) : Θ.Grows w w := .refl h.later.declared

/-- One step that the state of a host may take. -/
structure Change (Θ : Contracts r E w₀) (w w' : World) : Prop extends Θ.Onward w w' where
  cells : w.cells.size ≤ w'.cells.size
  slots : ∀ o p c, w'.observable? o p = some c → w.observable? o p = some c ∨ w.cells.size ≤ c.index
  storage : ∀ i s', w'.instance? i = some s' → ∃ s, w.instance? i = some s ∧ s'.result = s.result ∧
    (Θ i = none → s' = s) ∧ ∀ C, Θ i = some C → C.Fits w s →
      C.Fits w' s' ∧ ∀ n, C.env.Filled r w s n → C.env.Filled r w' s' n
  locks : ∀ i s, w.instance? i = some s → Θ i = none → s.alive →
    (w'.cell? s.result).map Cell.lockDepth = (w.cell? s.result).map Cell.lockDepth
  heard : ∀ c cell', w'.cell? c = some cell' → ∀ l ∈ cell'.listeners,
    (∃ cell, w.cell? c = some cell ∧ l ∈ cell.listeners) ∨ Θ.Heard w' c l

theorem exists_instance? (h : w.Extends w') {s : Instance} (hs : w.instance? i = some s) :
    ∃ s', w'.instance? i = some s' := by
  have hr : w.resultCell? i = some s.result := by rw [World.resultCell?, hs]; rfl
  obtain ⟨s', hs', -⟩ := Option.map_eq_some_iff.mp (h.result i _ hr)
  exact ⟨s', hs'⟩

theorem Change.frozen (h : Θ.Change w w') (hi : Θ i = none) : w'.instance? i = w.instance? i := by
  cases hs : w.instance? i with
  | some s =>
    obtain ⟨s', hs'⟩ := exists_instance? h.toExtends hs
    obtain ⟨t, ht, -, heq, -⟩ := h.storage i s' hs'
    rw [hs', heq hi, ← ht, hs]
  | none =>
    cases hs' : w'.instance? i with
    | none => rfl
    | some s' =>
      obtain ⟨t, ht, -⟩ := h.storage i s' hs'
      rw [hs] at ht
      cases ht

theorem Sound.change (hw : Θ.Sound w) (h : Θ.Change w w') : Θ.Sound w' ∧ Θ.Grows w w' := by
  refine ⟨⟨hw.later.trans h.toLater, ⟨fun j t ht ↦ ?_, fun i j s t hs ht he ↦ ?_⟩,
    fun o p c i hc hi ↦ ?_, fun i s C hs hC ↦ ?_, fun i s hs hi halive ↦ ?_, fun c cell hc l hl ↦ ?_⟩,
    h.toOnward, fun i s hs ↦ ?_, fun i hi ↦ h.frozen hi⟩
  · obtain ⟨s, hs, hr, -⟩ := h.storage j t ht
    exact hr ▸ Nat.lt_of_lt_of_le (hw.own.exist j s hs) h.cells
  · obtain ⟨s', hs', hrs, -⟩ := h.storage i s hs
    obtain ⟨t', ht', hrt, -⟩ := h.storage j t ht
    exact hw.own.apart i j s' t' hs' ht' (by rw [← hrs, ← hrt, he])
  · obtain ⟨s', hs', rfl⟩ := Option.map_eq_some_iff.mp hi
    obtain ⟨s, hs, hr, -⟩ := h.storage i s' hs'
    have hres : w.resultCell? i = some s'.result := by rw [World.resultCell?, hs, hr]; rfl
    obtain hold | hnew := h.slots o p _ hc
    · exact hw.apart o p _ i hold hres
    · exact absurd (hw.own.exist i s hs) (by rw [← hr]; omega)
  · obtain ⟨s', hs', -, -, hfits⟩ := h.storage i s hs
    exact (hfits C hC (hw.fits i s' C hs' hC)).1
  · rw [h.frozen hi] at hs
    rw [h.locks i s hs hi halive]
    exact hw.fresh i s hs hi halive
  · obtain ⟨cell', hc', hl'⟩ | hnew := h.heard c cell hc l hl
    · exact (hw.heard c cell' hc' l hl').onward h.toOnward
    · exact hnew
  · obtain ⟨s', hs'⟩ := exists_instance? h.toExtends hs
    obtain ⟨t, ht, -, -, hfits⟩ := h.storage i s' hs'
    obtain rfl : t = s := Option.some.inj (ht.symm.trans hs)
    exact ⟨s', hs', fun C hC n hn ↦ (hfits C hC (hw.fits i t C hs hC)).2 n hn⟩

namespace Change

/-- A change that no binding takes part in. -/
theorem ofInstances (hi : w'.instances = w.instances) (hw : w.Later r w')
    (cells : w.cells.size ≤ w'.cells.size)
    (slots : ∀ o p c, w'.observable? o p = some c → w.observable? o p = some c ∨ w.cells.size ≤ c.index)
    (values : ∀ i C, Θ i = some C → r.HasTy w'.classOf C.ty (w.valueOf i) →
      r.HasTy w'.classOf C.ty (w'.valueOf i))
    (locks : ∀ i s, w.instance? i = some s → Θ i = none → s.alive →
      (w'.cell? s.result).map Cell.lockDepth = (w.cell? s.result).map Cell.lockDepth)
    (heard : ∀ c cell', w'.cell? c = some cell' → ∀ l ∈ cell'.listeners,
      (∃ cell, w.cell? c = some cell ∧ l ∈ cell.listeners) ∨ Θ.Heard w' c l) : Θ.Change w w' where
  toLater := hw
  published i h C hC := values i C hC (hw.hasTy (h C hC))
  cells := cells
  slots := slots
  storage i s hs := by
    rw [World.instance?, hi] at hs
    exact ⟨s, hs, rfl, fun _ ↦ rfl, fun C _ h ↦ ⟨h.later hw, fun _ hn ↦ hn.later hw⟩⟩
  locks := locks
  heard := heard

theorem ofCells (hi : w'.instances = w.instances) (hc : w'.cells = w.cells) (hw : w.Later r w')
    (slots : ∀ o p c, w'.observable? o p = some c → w.observable? o p = some c) : Θ.Change w w' := by
  have hcell (c : CellId) : w'.cell? c = w.cell? c := by rw [World.cell?, hc]; rfl
  have hvalue (i : InstanceId) : w'.valueOf i = w.valueOf i := by
    have hcells : w'.cellValue = w.cellValue := by
      funext c
      rw [World.cellValue, hcell]
      rfl
    rw [World.valueOf, hcells, World.resultCell?, World.instance?, hi]
    rfl
  refine ofInstances hi hw (Nat.le_of_eq (by rw [hc])) (fun o p c h ↦ .inl (slots o p c h))
    (fun i C _ h ↦ (hvalue i).symm ▸ h) (fun _ s _ _ _ ↦ by rw [hcell]) fun c cell h l hl ↦ ?_
  exact .inl ⟨cell, (hcell c).symm.trans h, hl⟩

/-- Neither objects nor cells nor bindings change. -/
theorem ofEq (h : w.Declared r) (ho : w'.objects = w.objects) (hc : w'.cells = w.cells)
    (hi : w'.instances = w.instances) (hf : w'.frame = w.frame)
    (hn : ∀ name o, w'.find? name = some o → w.find? name = some o) : Θ.Change w w' := by
  have hdeclared : w'.Declared r := h.ofEq ho (Nat.le_of_eq (by rw [hc])) fun c _ ↦ by
    simp only [World.cellValue, World.cell?, hc]
  refine ofCells hi hc ⟨.ofEq ho (fun i ↦ ?_) hf hn, hdeclared⟩ fun o p c hobs ↦ ?_
  · simp only [World.resultCell?, World.instance?, hi]
  · simpa only [World.observable?, World.slot?, World.object?, ho] using hobs

/-- A cell changes otherwise than in its value. -/
theorem modifyCell (h : w.Declared r) {f : Cell → Cell} (hf : ∀ cell, (f cell).value = cell.value)
    (hlock : ∀ i s, w.instance? i = some s → Θ i = none → s.alive → s.result = c →
      ∀ cell, (f cell).lockDepth = cell.lockDepth)
    (hheard : ∀ cell, w.cell? c = some cell → ∀ l ∈ (f cell).listeners,
      l ∈ cell.listeners ∨ Θ.Heard w c l) : Θ.Change w (w.modifyCell c f) := by
  have hvalue (d : CellId) : (w.modifyCell c f).cellValue d = w.cellValue d := by
    simp only [World.cellValue, World.cell?_modifyCell]
    split
    · cases w.cell? d with
      | none => rfl
      | some cell => exact hf cell
    · rfl
  have hsize : (w.modifyCell c f).cells.size = w.cells.size := Array.size_modify
  have hvalues (i : InstanceId) : (w.modifyCell c f).valueOf i = w.valueOf i :=
    congrArg (Option.getD · Value.null) (congrArg (Option.map · (w.resultCell? i)) (funext hvalue))
  have hw : w.Later r (w.modifyCell c f) :=
    ⟨.modifyCell w c f, h.ofEq rfl hsize.ge fun d _ ↦ hvalue d⟩
  have hon : Θ.Onward w (w.modifyCell c f) :=
    ⟨hw, fun i hi C hC ↦ (hvalues i).symm ▸ hw.hasTy (hi C hC)⟩
  refine ofInstances rfl hw hsize.ge (fun _ _ _ ↦ .inl) (fun i C _ ht ↦ (hvalues i).symm ▸ ht)
    (fun i s hs hi halive ↦ ?_) fun d cell hd l hl ↦ ?_
  · rw [World.cell?_modifyCell]
    split
    · next hcd =>
      rw [Option.map_map]
      exact congrArg (Option.map · _) (funext (hlock i s hs hi halive hcd.symm))
    · rfl
  · rw [World.cell?_modifyCell] at hd
    split at hd
    · next hcd =>
      subst hcd
      obtain ⟨cell, hcell, rfl⟩ := Option.map_eq_some_iff.mp hd
      exact (hheard cell hcell l hl).imp (fun h ↦ ⟨cell, hcell, h⟩) (Heard.onward hon)
    · exact .inl ⟨cell, hd, hl⟩

/-- A value is stored that its cell takes. -/
theorem store {v : Value} (h : (w.modifyCell c ({ · with value := v })).Declared r)
    (hv : ∀ i C, Θ i = some C → w.resultCell? i = some c → r.HasTy w.classOf C.ty v) :
    Θ.Change w (w.modifyCell c ({ · with value := v })) := by
  have hw : w.Later r (w.modifyCell c ({ · with value := v })) := ⟨.modifyCell w c _, h⟩
  refine ofInstances rfl hw Array.size_modify.ge (fun _ _ _ ↦ .inl) (fun i C hC ht ↦ ?_)
    (fun i s _ _ _ ↦ ?_) fun d cell hd l hl ↦ ?_
  · show r.HasTy _ C.ty (((w.resultCell? i).map _).getD _)
    cases hr : w.resultCell? i with
    | none =>
      rw [World.valueOf, hr] at ht
      exact ht
    | some d =>
      rw [World.valueOf, hr] at ht
      show r.HasTy _ C.ty ((w.modifyCell c _).cellValue d)
      cases hc : w.cell? c with
      | none =>
        have hsame : (w.modifyCell c ({ · with value := v })).cellValue d = w.cellValue d := by
          simp only [World.cellValue, World.cell?_modifyCell]
          split
          · next hcd => rw [← hcd, hc]; rfl
          · rfl
        rwa [hsame]
      | some cell =>
        rw [World.cellValue_store hc]
        split
        · next hcd => exact hw.hasTy (hv i C hC (hcd ▸ hr))
        · exact ht
  · rw [World.cell?_modifyCell]
    split
    · rw [Option.map_map]
      rfl
    · rfl
  · rw [World.cell?_modifyCell] at hd
    split at hd
    · obtain ⟨cell, hcell, rfl⟩ := Option.map_eq_some_iff.mp hd
      exact .inl ⟨cell, hcell, hl⟩
    · exact .inl ⟨cell, hd, hl⟩

theorem setPlain {o : ObjectId} {p : String} {v : Value} (ho : w.observable? o p = none)
    (h : (w.setPlain o p v).Declared r) : Θ.Change w (w.setPlain o p v) := by
  refine ofCells rfl rfl ⟨.setPlain ho v, h⟩ fun o' p' c hc ↦ ?_
  rw [World.observable?_eq_some, World.slot?_setPlain] at hc
  rw [World.observable?_eq_some]
  split at hc
  · obtain ⟨_, -, hplain⟩ := Option.map_eq_some_iff.mp hc
    cases hplain
  · exact hc

/-- The cells of an object that is made are new, and nobody listens to them. -/
theorem addSlots_cells {n : Nat} (slots : List (String × Value × Bool)) (o : HostObject) (w : World)
    (ho : ∀ p c, o.slot? p = some (.observable c) → n ≤ c.index) (hn : n ≤ w.cells.size) :
    (∀ p c, (w.addSlots o slots).1.slot? p = some (.observable c) → n ≤ c.index) ∧
      w.cells.size ≤ (w.addSlots o slots).2.cells.size ∧
      ∀ c cell, (w.addSlots o slots).2.cell? c = some cell →
        w.cell? c = some cell ∨ cell.listeners = [] := by
  induction slots generalizing o w with
  | nil => exact ⟨ho, Nat.le_refl _, fun _ _ ↦ .inl⟩
  | cons e slots ih =>
    obtain ⟨property, v, _ | _⟩ := e
    · refine ih (o.setSlot property (.plain v)) w (fun p c hc ↦ ?_) hn
      rw [HostObject.slot?_setSlot] at hc
      split at hc
      · cases hc
      · exact ho p c hc
    · have hsize : (w.newCell v).2.cells.size = w.cells.size + 1 := Array.size_push ..
      obtain ⟨hslots, hle, hcells⟩ := ih (o.setSlot property (.observable (w.newCell v).1))
        (w.newCell v).2 (fun p c hc ↦ by
          rw [HostObject.slot?_setSlot] at hc
          split at hc
          · cases hc
            exact hn
          · exact ho p c hc) (by omega)
      refine ⟨hslots, Nat.le_trans (by omega) hle, fun c cell hc ↦ ?_⟩
      obtain hc | hnone := hcells c cell hc
      · rw [World.cell?, World.newCell, Array.getElem?_push] at hc
        split at hc
        · cases hc
          exact .inr rfl
        · exact .inl hc
      · exact .inr hnone

/-- Host code makes an object. -/
theorem newObject {cls : ClassId} {n : String} {slots : List (String × Value × Bool)}
    (hown : w.OwnResults) (h : (w.newObject cls ("#" ++ n) slots).2.Declared r) :
    Θ.Change w (w.newObject cls ("#" ++ n) slots).2 := by
  obtain ⟨hslots, hsize, hcells⟩ := addSlots_cells (n := w.cells.size) slots
    { cls, label := "#" ++ n } w (by simp [HostObject.slot?]) (Nat.le_refl _)
  obtain ⟨hobjects, hinstances, -⟩ := w.objects_addSlots { cls, label := "#" ++ n } slots
  obtain ⟨-, hkeeps⟩ := w.addSlots_keeps { cls, label := "#" ++ n } slots
  have hold (i : InstanceId) (s : Instance) (hs : w.instance? i = some s) :
      (w.newObject cls ("#" ++ n) slots).2.cell? s.result = w.cell? s.result := by
    obtain ⟨cell, hcell⟩ : ∃ cell, w.cell? s.result = some cell :=
      ⟨_, Array.getElem?_eq_getElem (hown.exist i s hs)⟩
    rw [hcell]
    exact hkeeps s.result cell hcell
  have hinst (i : InstanceId) : (w.newObject cls ("#" ++ n) slots).2.instance? i = w.instance? i :=
    congrArg (·[i.index]?) hinstances
  refine ofInstances hinstances ⟨.newObject w cls n slots, h⟩ hsize (fun o p c hc ↦ ?_)
    (fun i C _ ht ↦ ?_) (fun i s hs _ _ ↦ by rw [hold i s hs]) fun c cell hc l hl ↦ ?_
  · rw [World.observable?_eq_some] at hc
    simp only [World.newObject, World.nameObject, World.slot?, World.object?,
      Array.getElem?_push] at hc
    split at hc
    · exact .inr (hslots p c hc)
    · rw [hobjects] at hc
      exact .inl (World.observable?_eq_some.mpr hc)
  · rw [World.valueOf, World.resultCell?, hinst]
    rw [World.valueOf, World.resultCell?] at ht
    cases hs : w.instance? i with
    | none => rwa [hs] at ht
    | some s =>
      rw [hs] at ht
      show r.HasTy _ C.ty (World.cellValue _ s.result)
      rw [World.cellValue, hold i s hs]
      exact ht
  · obtain hc | hnone := hcells c cell hc
    · exact .inl ⟨cell, hc, hl⟩
    · rw [hnone] at hl
      cases hl

/-- The storage of a binding changes. -/
theorem put (hw : w.Declared r) {s s' : Instance} (hs : w.instance? i = some s)
    (hr : s'.result = s.result) {C : Contract r E w₀} (hC : Θ i = some C)
    (hfits : C.Fits w s → C.Fits w s')
    (hkept : ∀ n, C.env.Filled r w s n → C.env.Filled r w s' n) : Θ.Change w (w.put i s') := by
  have hone (t : Instance) (ht : w.instance? i = some t) : t = s := Option.some.inj (ht.symm.trans hs)
  have hlater : w.Later r (w.put i s') :=
    ⟨.modifyInstance w i fun t ht ↦ hone t ht ▸ hr, hw.ofEq rfl (Nat.le_refl _) fun _ _ ↦ rfl⟩
  refine ⟨⟨hlater, fun j hj D hD ↦ (World.valueOf_put hs hr j).symm ▸ hlater.hasTy (hj D hD)⟩,
    Nat.le_refl _, fun _ _ _ ↦ .inl, fun j t ht ↦ ?_, fun _ _ _ _ _ ↦ rfl,
    fun c cell hc l hl ↦ .inl ⟨cell, hc, hl⟩⟩
  obtain ⟨rfl, rfl⟩ | ht := World.instance?_of_put ht
  · refine ⟨s, hs, hr, fun hnone ↦ ?_, fun D hD hfit ↦ ?_⟩
    · rw [hC] at hnone
      cases hnone
    · obtain rfl : D = C := Option.some.inj (hD.symm.trans hC)
      exact ⟨(hfits hfit).later hlater, fun n hn ↦ (hkept n hn).later hlater⟩
  · exact ⟨t, ht, rfl, fun _ ↦ rfl, fun D _ hfit ↦ ⟨hfit.later hlater, fun n hn ↦ hn.later hlater⟩⟩

end Change

end Contracts

end LiveBinding
