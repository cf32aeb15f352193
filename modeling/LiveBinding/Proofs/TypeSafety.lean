import LiveBinding.Proofs.CompiledSafety

namespace LiveBinding

/-- A host with the bindings that it has made, the latest first, those that are dropped included. -/
structure LiveHost where
  world : World
  bound : List (InstanceId × DynamicBinding) := []

namespace LiveHost

/-- What a run in the world of the host comes to. -/
def after (s : LiveHost) (x : Run Value) : Except Stop Value × LiveHost :=
  let (result, world) := x s.world
  (result, { s with world })

/-- The host has a cell in its hands: one of a property, or one that a binding publishes to. -/
def Refers (s : LiveHost) (c : CellId) : Prop :=
  (∃ o p, s.world.observable? o p = some c) ∨ ∃ e ∈ s.bound, s.world.resultCell? e.1 = some c

end LiveHost

/-- The values that bindings have published are of the types of the bindings. -/
def World.Typed (w : World) (r : Registry) (bound : List (InstanceId × DynamicBinding)) : Prop :=
  ∀ e ∈ bound, r.HasTy w.classOf e.2.ty (w.valueOf e.1)

/-- What a host does with its bindings and its heap. A property is bound to a cell by setting it and
listening to the cell. -/
inductive Request where
  /-- Makes a binding that the host keeps by a name. -/
  | create (name : String) (b : DynamicBinding)
  | evaluate (b : StaticBinding) (routine : Routine)
  | update (i : InstanceId) (b : DynamicBinding) (step : Nat)
  | perform (action : Action Unit)
  | set (o : ObjectId) (property : String) (v : Value)
  | setCell (c : CellId) (v : Value)
  | lock (c : CellId)
  | unlock (c : CellId)
  | listen (c : CellId) (action : Value → Action Unit)
  | drop (name : String)
  | forget (name : String)

namespace Request

/-- The type of the value that comes back: the value of a binding, or null. -/
def ty : Request → Ty
  | create _ b | update _ b _ => b.ty
  | evaluate b _ => b.ty
  | _ => .null

def answer (r : Registry) (fuel : Nat) (s : LiveHost) : Request → Except Stop Value × LiveHost
  | create name b =>
    match createNamed r fuel name b.artifact s.world with
    | (.ok i, world) => (.ok (world.valueOf i), { world, bound := (i, b) :: s.bound })
    | (.error e, world) => (.error e, { s with world })
  | evaluate _ routine => s.after (LiveBinding.evaluate r fuel routine)
  | update i _ step => s.after do
    updateInstance r fuel i step
    Run.view (·.valueOf i)
  | perform action => s.after do
    action.perform r (updateInstance r fuel) fuel
    return .null
  | set o property v => s.after do
    setProperty r fuel o property v
    return .null
  | setCell c v => s.after do
    LiveBinding.setCell r fuel c v
    return .null
  | lock c => s.after do
    lockCell c
    return .null
  | unlock c => s.after do
    releaseCell r fuel c
    return .null
  | listen c action => s.after do
    Run.change (·.modifyCell c (·.addListener (.callback action)))
    return .null
  | drop name => s.after do
    Run.change (·.dropNamed name)
    return .null
  | forget name => s.after do
    Run.change (·.forget name)
    return .null

theorem bound_create {r : Registry} {fuel : Nat} {s : LiveHost} {name : String} {b : DynamicBinding}
    {i : InstanceId} (h : (createNamed r fuel name b.artifact s.world).1 = .ok i) :
    ((create name b).answer r fuel s).2.bound = (i, b) :: s.bound := by
  rw [answer]
  rcases hx : createNamed r fuel name b.artifact s.world with ⟨e | j, w⟩ <;> rw [hx] at h
  · cases h
  · obtain rfl := Except.ok.inj h
    rfl

theorem bound_set (r : Registry) (fuel : Nat) (s : LiveHost) (o : ObjectId) (property : String)
    (v : Value) : ((set o property v).answer r fuel s).2.bound = s.bound := rfl

end Request

section

variable (r : Registry) (E : RuntimeError → Prop) (w₀ : World)

/-- A binding is what compiling an expression gives for the classes of a host, in a scope whose names
load values of their types. -/
def CompiledBinding.Suits (b : CompiledBinding) : Prop :=
  ∃ (cx : CompileContext) (source : String) (scope : Scope) (target : Option BindingTarget),
    cx.model = r.model ∧ scope.Suits r E w₀ ∧ cx.compileBinding source scope target = .ok b

/-- What a host may do: it runs compiled bindings at their steps, stores values where they are of the
right types, and lets code of its own listen that can take what it is told. -/
def Request.Allowed (s : LiveHost) : Request → Prop
  | create _ b => (CompiledBinding.dynamic b).Suits r E w₀
  | evaluate b routine => (CompiledBinding.static b).Suits r E w₀ ∧ b.routine = .ok routine
  | update i b step => (i, b) ∈ s.bound ∧ step ∈ b.artifact.steps
  | perform action => action.Conforms r E (fun _ _ ↦ True) s.world
  | set o property v => (s.world.stored o property v).Declared r
  | setCell c v => s.Refers c ∧ (s.world.modifyCell c ({ · with value := v })).Declared r ∧
    ∀ e ∈ s.bound, s.world.resultCell? e.1 = some c → r.HasTy s.world.classOf e.2.ty v
  | lock c | unlock c => s.Refers c
  | listen c action => ∀ w, s.world.Later r w → w.Typed r s.bound →
    (action (w.cellValue c)).Conforms r E (fun _ _ ↦ True) w
  | drop _ | forget _ => True

/-- The host does something it may do, which may fail. -/
inductive LiveHost.Step : LiveHost → LiveHost → Prop
  | answer (s : LiveHost) (q : Request) (fuel : Nat) :
    q.Allowed r E w₀ s → (q.answer r fuel s).1 ≠ .error .exhausted → Step s (q.answer r fuel s).2

end

variable {r : Registry} {E : RuntimeError → Prop} {w₀ : World}

namespace Contracts

variable {Θ Θ' : Contracts r E w₀} {s : LiveHost} {w : World}

/-- The state of a host is sound, and the bindings that it has made have contracts, and have published
values of their types. -/
structure Covers (Θ : Contracts r E w₀) (s : LiveHost) : Prop extends Θ.Hosts s.world where
  bound : ∀ e ∈ s.bound, ∃ C, Θ e.1 = some C ∧ C.artifact = e.2.artifact ∧ C.ty = e.2.ty ∧
    Θ.Published s.world e.1

namespace Covers

theorem typed (h : Θ.Covers s) : s.world.Typed r s.bound := by
  intro e he
  obtain ⟨C, hC, -, hty, hpublished⟩ := h.bound e he
  exact hty ▸ hpublished C hC

theorem onward (h : Θ.Covers s) (hsound : Θ.Sound w) (hw : Θ.Onward s.world w) :
    Θ.Covers { s with world := w } where
  toSound := hsound
  found i C hC := (h.found i C hC).onward hw
  bound e he := by
    obtain ⟨C, hC, hcode, hty, hpublished⟩ := h.bound e he
    exact ⟨C, hC, hcode, hty, hw.published e.1 hpublished⟩

/-- More bindings have contracts. -/
theorem within (h : Θ.Covers s) (hΘ : Θ.Within Θ') (hhosts : Θ'.Hosts w) (hw : Θ.Onward s.world w) :
    Θ'.Covers { s with world := w } where
  toHosts := hhosts
  bound e he := by
    obtain ⟨C, hC, hcode, hty, hpublished⟩ := h.bound e he
    refine ⟨C, hΘ e.1 C hC, hcode, hty, fun D hD ↦ ?_⟩
    obtain rfl : C = D := Option.some.inj ((hΘ e.1 C hC).symm.trans hD)
    exact hw.published e.1 hpublished C hC

theorem free (h : Θ.Covers s) {c : CellId} (hc : s.Refers c) : Θ.Free c s.world := by
  intro i t ht hi halive heq
  have hresult : s.world.resultCell? i = some c := by
    rw [World.resultCell?, ht]
    exact congrArg some heq
  obtain ⟨o, p, hobs⟩ | ⟨e, he, hcell⟩ := hc
  · exact h.apart o p c i hobs hresult
  · obtain ⟨C, hC, -⟩ := h.bound e he
    obtain ⟨u, hu, rfl⟩ := Option.map_eq_some_iff.mp hcell
    exact h.toSound.free hu hC i t ht hi halive heq

/-- A cell that the host has in its hands takes a value that is right for the binding that publishes
to the cell, if there is one. -/
theorem stores (h : Θ.Covers s) {c : CellId} (hc : s.Refers c) {v : Value}
    (hdeclared : (s.world.modifyCell c ({ · with value := v })).Declared r)
    (hv : ∀ e ∈ s.bound, s.world.resultCell? e.1 = some c → r.HasTy s.world.classOf e.2.ty v) :
    Θ.Stores c v s.world := by
  refine ⟨hdeclared, fun i C hC hi ↦ ?_⟩
  obtain ⟨o, p, hobs⟩ | ⟨e, he, hcell⟩ := hc
  · exact absurd hi (h.apart o p c i hobs)
  · obtain ⟨D, hD, -, hty, -⟩ := h.bound e he
    have hty' := hv e he hcell
    obtain ⟨t, ht, rfl⟩ := Option.map_eq_some_iff.mp hi
    obtain ⟨u, hu, heq⟩ := Option.map_eq_some_iff.mp hcell
    obtain rfl := h.own.apart e.1 i u t hu ht heq
    obtain rfl : D = C := Option.some.inj (hD.symm.trans hC)
    rwa [hty]

end Covers

/-- An answer is a value of the type that was asked for, or an error as `E` says. The host stays as it
should be. -/
def Answers (r : Registry) (E : RuntimeError → Prop) (w₀ : World) (t : Ty) :
    Except Stop Value × LiveHost → Prop
  | (.ok v, s) => r.HasTy s.world.classOf t v ∧ ∃ Θ : Contracts r E w₀, Θ.Covers s
  | (.error (.error e), s) => E e ∧ ∃ Θ : Contracts r E w₀, Θ.Covers s
  | (.error .exhausted, _) => True

theorem Covers.after (h : Θ.Covers s) {P : World → Prop} {x : Run Value} {t : Ty}
    (hx : Θ.Safely P x fun v w ↦ r.HasTy w.classOf t v) (hP : P s.world) :
    Answers r E w₀ t (s.after x) := by
  have hend := hx s.world s.world ⟨h.toSound.since, hP⟩
  unfold LiveHost.after
  rcases hxs : x s.world with ⟨(e | -) | v, w⟩ <;> rw [hxs] at hend
  · exact ⟨hend.2, Θ, h.onward hend.1.sound hend.1.grows.toOnward⟩
  · trivial
  · exact ⟨hend.2, Θ, h.onward hend.1.sound hend.1.grows.toOnward⟩

/-- Doing something without a result. -/
theorem Covers.afterUnit (h : Θ.Covers s) {P : World → Prop} {x : Run Unit} {Q : Unit → World → Prop}
    (hx : Θ.Safely P x Q) (hP : P s.world) :
    Answers r E w₀ .null (s.after do let _ ← x; return .null) :=
  h.after (hx.bind fun _ ↦ .pure fun _ _ _ ↦ rfl) hP

theorem Covers.create (hr : r.Conforms E w₀) (h : Θ.Covers s) (name : String) {b : DynamicBinding}
    (hb : (CompiledBinding.dynamic b).Suits r E w₀) (fuel : Nat) :
    Answers r E w₀ b.ty ((Request.create name b).answer r fuel s) := by
  obtain ⟨cx, source, scope, target, hm, hscope, hcompile⟩ := hb
  obtain ⟨C, hcode, hty⟩ := CompileContext.exists_contract hm hscope hcompile
  have hmade := h.toHosts.create hr C fuel
  rw [hcode] at hmade
  have hrun : createNamed r fuel name b.artifact s.world =
      match createInstance r fuel b.artifact s.world with
      | (.ok i, w) => (.ok i, w.keep name i)
      | (.error e, w) => (.error e, w) := by
    rw [createNamed, Run.bind_apply]
    rcases createInstance r fuel b.artifact s.world with ⟨e | i, w⟩ <;> rfl
  simp only [Request.answer, hrun]
  rcases hx : createInstance r fuel b.artifact s.world with ⟨(e | -) | i, w⟩ <;> rw [hx] at hmade
  · obtain ⟨he, Θ', hhosts, hwithin, honward⟩ := hmade
    exact ⟨he, Θ', h.within hwithin hhosts honward⟩
  · trivial
  · obtain ⟨Θ', hhosts, hwithin, honward, hi, hpublished⟩ := hmade
    obtain ⟨hkept, hon⟩ := hhosts.toSound.keep name i
    have hcovers := (h.within hwithin hhosts honward).onward hkept hon
    have hvalue := hon.published i hpublished
    refine ⟨hty ▸ hvalue C hi, Θ', hcovers.toHosts, fun e he ↦ ?_⟩
    obtain rfl | he := List.mem_cons.mp he
    · exact ⟨C, hi, hcode, hty, hvalue⟩
    · exact hcovers.bound e he

/-- Whatever the host may do, it gets an answer that is right. -/
theorem Covers.answer (hr : r.Conforms E w₀) (hconstants : r.DeclaresConstants) (h : Θ.Covers s)
    {q : Request} (hq : q.Allowed r E w₀ s) (fuel : Nat) : Answers r E w₀ q.ty (q.answer r fuel s) := by
  have hu := updates_updateInstance (Θ := Θ) hr fuel
  have hhost := hostSafe hu fuel
  cases q with
  | create name b => exact h.create hr name hq fuel
  | evaluate b routine =>
    obtain ⟨⟨cx, source, scope, target, hm, hscope, hcompile⟩, hroutine⟩ := hq
    exact h.after (safely_evaluate hr hconstants hm hscope hcompile hroutine fuel) trivial
  | update i b step =>
    obtain ⟨he, hstep⟩ := hq
    obtain ⟨C, hC, hcode, hty, hpublished⟩ := h.bound (i, b) he
    have hkept := (hu i step C hC (hcode ▸ hstep)).frame (F := fun w ↦ Θ.Published w i)
      fun _ _ hw ↦ hw.published i
    have hvalue : Θ.Safely (fun w ↦ True ∧ Θ.Published w i) (Run.view (·.valueOf i))
        fun v w ↦ r.HasTy w.classOf b.ty v := .view _ fun w _ hw ↦ hty ▸ hw.2 C hC
    exact h.after (hkept.bind fun _ ↦ hvalue) ⟨trivial, hpublished⟩
  | perform action => exact h.afterUnit (hhost.perform action _ fun _ _ _ _ ↦ id) hq
  | set o property v => exact h.afterUnit (hhost.writeProperty o property v) hq
  | setCell c v =>
    obtain ⟨hc, hdeclared, hv⟩ := hq
    exact h.afterUnit (hhost.writeCell c v) (h.stores hc hdeclared hv)
  | lock c =>
    have hlock : Θ.Safely (Θ.Free c) (lockCell c) fun _ _ ↦ True := .change fun w hw hfree ↦
      ⟨.modifyCell hw.later.declared (fun _ ↦ rfl) (fun i s hs hi halive heq ↦
        absurd heq (hfree i s hs hi halive)) fun _ _ _ ↦ .inl, trivial⟩
    exact h.afterUnit hlock (h.free hq)
  | unlock c => exact h.afterUnit (x := releaseCell r fuel c) (safely_unlockCell hu fuel c) (h.free hq)
  | listen c action =>
    have hheard : Θ.Heard s.world c (.callback action) := fun w hw ↦ hq w hw.toLater fun e he ↦ by
      obtain ⟨C, hC, -, hty, hpublished⟩ := h.bound e he
      exact hty ▸ hw.published e.1 hpublished C hC
    have hlisten : Θ.Safely (fun w ↦ Θ.Heard w c (.callback action))
        (Run.change (·.modifyCell c (·.addListener (.callback action)))) fun _ _ ↦ True :=
      .change fun w hw hheard ↦ ⟨.modifyCell hw.later.declared (fun _ ↦ rfl) (fun _ _ _ _ _ _ _ ↦ rfl)
        fun cell _ l hl ↦ (List.mem_append.mp hl).imp id fun hl ↦ by
          obtain rfl := List.mem_singleton.mp hl
          exact hheard, trivial⟩
    exact h.afterUnit hlisten hheard
  | drop name =>
    obtain ⟨hsound, hon⟩ := h.toSound.dropNamed name
    exact ⟨rfl, Θ, h.onward hsound hon⟩
  | forget name =>
    have hforget : Θ.Change s.world (s.world.forget name) :=
      .ofEq h.later.declared rfl rfl rfl rfl fun label o hlabel ↦ by
        by_cases heq : label = name
        · rw [heq, World.find?_forget] at hlabel
          cases hlabel
        · exact (World.lookup_forget s.world heq).symm.trans hlabel
    obtain ⟨hsound, hgrows⟩ := h.toSound.change hforget
    exact ⟨rfl, Θ, h.onward hsound hgrows.toOnward⟩

/-- A host that has not made any binding. -/
theorem covers_start (hw : w₀.Declared r) (hi : w₀.instances = #[])
    (hl : ∀ c cell, w₀.cell? c = some cell → cell.listeners = []) :
    Covers (fun _ ↦ none : Contracts r E w₀) { world := w₀ } := by
  have hnone (i : InstanceId) : w₀.instance? i = none := by
    rw [World.instance?, hi]
    rfl
  have hno {i : InstanceId} {s : Instance} (hs : w₀.instance? i = some s) : False := by
    rw [hnone] at hs
    cases hs
  refine ⟨⟨⟨.refl hw, ⟨fun _ _ hs ↦ (hno hs).elim, fun _ _ _ _ hs ↦ (hno hs).elim⟩,
    fun _ _ _ i _ hr ↦ ?_, fun _ _ _ hs ↦ (hno hs).elim, fun _ _ hs ↦ (hno hs).elim,
    fun c cell hc l hmem ↦ ?_⟩, fun _ _ h ↦ by cases h⟩, fun _ he ↦ absurd he List.not_mem_nil⟩
  · rw [World.resultCell?, hnone] at hr
    cases hr
  · rw [hl c cell hc] at hmem
    cases hmem

end Contracts

/-- The hosts that a host comes to from when it has made no bindings yet. -/
def LiveHost.Reached (r : Registry) (E : RuntimeError → Prop) (w₀ : World) (s : LiveHost) : Prop :=
  Relation.ReflTransGen (LiveHost.Step r E w₀) { world := w₀ } s

theorem LiveHost.Reached.answer {s : LiveHost} (hs : s.Reached r E w₀) {q : Request} {fuel : Nat}
    (hq : q.Allowed r E w₀ s) (hne : (q.answer r fuel s).1 ≠ .error .exhausted) :
    (q.answer r fuel s).2.Reached r E w₀ := hs.tail (.answer s q fuel hq hne)

/-- A heap that is as it is declared, without bindings and listeners. -/
structure World.Starts (r : Registry) (w : World) : Prop extends w.Declared r where
  unbound : w.instances = #[]
  unheard : ∀ c cell, w.cell? c = some cell → cell.listeners = []

/-- Whether a host can start from a world can be computed. -/
theorem World.starts_of_isDeclared {w : World} (h : w.isDeclared r) (hi : w.instances = #[])
    (hl : w.cells.all (·.listeners.isEmpty)) : w.Starts r := by
  refine ⟨declared_of_isDeclared h, hi, fun c cell hc ↦ List.isEmpty_iff.mp ?_⟩
  exact Array.all_eq_true_iff_forall_mem.mp hl cell (Array.mem_of_getElem? hc)

theorem LiveHost.Reached.exists_covers (hr : r.Conforms E w₀) (hconstants : r.DeclaresConstants)
    (hw : w₀.Starts r) {s : LiveHost} (hs : s.Reached r E w₀) : ∃ Θ : Contracts r E w₀, Θ.Covers s := by
  induction hs with
  | refl => exact ⟨_, Contracts.covers_start hw.toDeclared hw.unbound hw.unheard⟩
  | tail _ hstep ih =>
    obtain ⟨Θ, hΘ⟩ := ih
    cases hstep with
    | answer q fuel hq hne =>
      have hanswer := hΘ.answer hr hconstants hq fuel
      rcases hx : q.answer r fuel _ with ⟨(e | -) | v, s'⟩ <;> rw [hx] at hanswer hne
      · exact hanswer.2
      · exact absurd rfl hne
      · exact hanswer.2

/-- Compiled code does not go wrong. In every host that is reached, whatever has failed before, the
values that bindings have published are of their types. Whatever the host may do next, it gets a value
of the right type, or an error that a program can run into, or one that code of the host itself fails
with. -/
theorem LiveHost.Reached.never_goes_wrong {H : RuntimeError → Prop}
    (hr : r.Conforms (fun e ↦ e.isBenign ∨ H e) w₀) (hconstants : r.DeclaresConstants)
    (hw : w₀.Starts r) {s : LiveHost} (hs : s.Reached r (fun e ↦ e.isBenign ∨ H e) w₀) :
    s.world.Typed r s.bound ∧ ∀ q : Request, q.Allowed r (fun e ↦ e.isBenign ∨ H e) w₀ s → ∀ fuel,
      match q.answer r fuel s with
      | (.ok v, s') => r.HasTy s'.world.classOf q.ty v
      | (.error (.error e), _) => e.isBenign ∨ H e
      | (.error .exhausted, _) => True := by
  obtain ⟨Θ, hΘ⟩ := hs.exists_covers hr hconstants hw
  refine ⟨hΘ.typed, fun q hq fuel ↦ ?_⟩
  have hanswer := hΘ.answer hr hconstants hq fuel
  rcases hx : q.answer r fuel s with ⟨(e | -) | v, s'⟩ <;> rw [hx] at hanswer
  · exact hanswer.1
  · trivial
  · exact hanswer.1

namespace Sample

/-- The dynamic binding that an expression compiles to. -/
def dynamicOf (cx : CompileContext) (source : String) (scope : Scope) : DynamicBinding :=
  match cx.compileBinding source scope none with
  | .ok (.dynamic b) => b
  | _ => ⟨.void, ⟨0, 0, .word 0, 0, default, default, []⟩⟩

def isDynamic : Except CompileError CompiledBinding → Bool
  | .ok (.dynamic _) => true
  | _ => false

theorem dynamicOf_eq {cx : CompileContext} {source : String} {scope : Scope}
    (h : isDynamic (cx.compileBinding source scope none)) :
    cx.compileBinding source scope none = .ok (.dynamic (dynamicOf cx source scope)) := by
  rw [dynamicOf]
  rcases hx : cx.compileBinding source scope none with e | (b | b | ty) <;> rw [hx] at h <;>
    first | rfl | cases h

/-- The host code of a class whose one method gives back its argument. -/
theorem conforms_picking (w₀ : World) (E : RuntimeError → Prop) (hE : ∀ e, e.isBenign → E e) :
    picking.Conforms E w₀ := by
  refine ⟨hE, fun d hd ↦ ?_, fun c name hc ↦ ?_⟩
  · obtain rfl := List.mem_singleton.mp (Array.mem_toList_iff.mpr hd)
    refine ⟨_, rfl, fun w args hw ht w' hw' ↦ ?_⟩
    obtain ⟨v, _, hv, hrest, rfl⟩ := List.forall₂_cons_left_iff.mp ht
    obtain rfl := List.forall₂_nil_left_iff.mp hrest
    exact hw'.hasTy hv
  · obtain ⟨_ | c⟩ := c <;> cases hc

@[irreducible]
def division : DynamicBinding := dynamicOf pickingContext "$\x7b10 / x.p\x7d" scope

@[irreducible]
def divisionMade : LiveHost :=
  ((Request.create "s" division).answer picking 50 { world := box 1 }).2

/-- The division cannot be computed. -/
@[irreducible]
def divisionFailed : LiveHost := ((Request.set ⟨0⟩ "p" (.int 0)).answer picking 50 divisionMade).2

@[irreducible]
def divisionChanged : LiveHost := ((Request.set ⟨0⟩ "p" (.int 5)).answer picking 50 divisionFailed).2

theorem suits_division (E : RuntimeError → Prop) :
    (CompiledBinding.dynamic division).Suits picking E (box 1) := by
  refine ⟨pickingContext, _, scope, none, rfl, Scope.suits_of_locals fun name l hname ↦ ?_,
    by unfold division; exact dynamicOf_eq (by decide +kernel)⟩
  have honly {name : String} {l : Loadable} (h : scope.lookup? name = some (.bound l)) :
      l = .local ⟨0⟩ "x" (.class ⟨0⟩) 0 := by
    simp only [Scope.lookup?, scope, Scope.bind, Scope.empty, List.lookup_cons] at h
    split at h
    · exact ScopeEntry.bound.inj (Option.some.inj h).symm
    · cases h
  obtain rfl := honly hname
  refine ⟨0, .object ⟨0⟩, rfl, rfl, fun name' l' hname' _ ↦ ?_⟩
  obtain rfl := honly hname'
  exact .inr (.inl ⟨⟨0⟩, ⟨0⟩, rfl, rfl, by decide⟩)

end Sample

open Sample in
/-- A property is set so that a division cannot be computed, and then to something else. After that the
binding is updated from its point on. -/
theorem never_goes_wrong_division :
    let answer := (Request.update ⟨0⟩ division 1).answer picking 50 divisionChanged
    ((Request.set ⟨0⟩ "p" (.int 0)).answer picking 50 divisionMade).1 = .error (.error .arithmeticFault) ∧
      divisionChanged.world.Typed picking divisionChanged.bound ∧ answer.1 = .ok (.int 2) ∧
        picking.HasTy answer.2.world.classOf division.ty (.int 2) := by
  intro answer
  let E : RuntimeError → Prop := fun e ↦ e.isBenign ∨ False
  have hr : picking.Conforms E (box 1) := conforms_picking _ _ fun e ↦ .inl
  have hconstants : picking.DeclaresConstants := fun c _ _ _ hc ↦ by
    obtain ⟨_ | c⟩ := c <;> cases hc
  obtain ⟨hcreate, hcreated, hzero, hfailed, hfive, hchanged, hstep, hvalue⟩ :
      ((Request.create "s" division).answer picking 50 { world := box 1 }).1 = .ok (.int 10) ∧
      (createNamed picking 50 "s" division.artifact (box 1)).1 = .ok ⟨0⟩ ∧
      (divisionMade.world.stored ⟨0⟩ "p" (.int 0)).isDeclared picking ∧
      ((Request.set ⟨0⟩ "p" (.int 0)).answer picking 50 divisionMade).1 =
        .error (.error .arithmeticFault) ∧
      (divisionFailed.world.stored ⟨0⟩ "p" (.int 5)).isDeclared picking ∧
      ((Request.set ⟨0⟩ "p" (.int 5)).answer picking 50 divisionFailed).1 = .ok .null ∧
      1 ∈ division.artifact.steps ∧
      ((Request.update ⟨0⟩ division 1).answer picking 50 divisionChanged).1 = .ok (.int 2) := by
    decide +kernel
  have hmade : divisionMade.Reached picking E (box 1) := by
    unfold divisionMade
    refine LiveHost.Reached.answer .refl (suits_division E) ?_
    rw [hcreate]
    exact nofun
  have hset (n : Int32) {t : LiveHost} (ht : (t.world.stored ⟨0⟩ "p" (.int n)).isDeclared picking) :
      (Request.set ⟨0⟩ "p" (.int n)).Allowed picking E (box 1) t := World.declared_of_isDeclared ht
  have hreached : divisionFailed.Reached picking E (box 1) := by
    unfold divisionFailed
    refine hmade.answer (hset 0 hzero) ?_
    rw [hfailed]
    exact nofun
  have hreached : divisionChanged.Reached picking E (box 1) := by
    unfold divisionChanged
    refine hreached.answer (hset 5 hfive) ?_
    rw [hchanged]
    exact nofun
  have hstarts : (box 1).Starts picking :=
    World.starts_of_isDeclared (by decide +kernel) rfl (by decide +kernel)
  obtain ⟨htyped, hnext⟩ := hreached.never_goes_wrong hr hconstants hstarts
  have hbound : (⟨0⟩, division) ∈ divisionChanged.bound := by
    rw [divisionChanged, Request.bound_set, divisionFailed, Request.bound_set, divisionMade,
      Request.bound_create (s := { world := box 1 }) hcreated]
    exact List.mem_cons_self
  have hanswer := hnext (.update ⟨0⟩ division 1) ⟨hbound, hstep⟩ 50
  refine ⟨hfailed, htyped, hvalue, ?_⟩
  rw [Prod.fst_eq_iff.mp hvalue] at hanswer
  exact hanswer

namespace Sample

/-- Two names with one id that stand for values of different types. -/
def shared : Scope :=
  ((Scope.empty.bind (.local ⟨0⟩ "x" (.prim .int) 0)).bind (.local ⟨0⟩ "y" .str 1)).bind
    (.local ⟨1⟩ "o" (.class ⟨0⟩) 2)

def sharing : World := { box 1 with frame := [.int 5, .str "hello", .object ⟨0⟩] }

theorem supplies_shared (E : RuntimeError → Prop) (name : String) (l : Loadable)
    (h : shared.lookup? name = some (.bound l)) : l.load.Supplies picking E sharing (· = l.ty) := by
  simp only [Scope.lookup?, shared, Scope.bind, Scope.empty, List.lookup_cons] at h
  split at h
  · cases h
    refine Fragment.supplies_loadLocal rfl fun t ht ↦ ht ▸ ?_
    exact .inr (.inl ⟨⟨0⟩, ⟨0⟩, rfl, rfl, by decide⟩)
  split at h
  · cases h
    exact Fragment.supplies_loadLocal rfl fun t ht ↦ ht ▸ .inr ⟨"hello", rfl⟩
  split at h
  · cases h
    exact Fragment.supplies_loadLocal rfl fun t ht ↦ ht ▸ rfl
  · cases h

/-- There is a static field by the name of a constant before the enum is defined. -/
def shadowed : Registry :=
  ((({} : Registry).addStaticField (.class ⟨0⟩) "RED" (.prim .int) (.int 5)).defineEnum "Color" ["RED"]).2

theorem conforms_shadowed (w₀ : World) (E : RuntimeError → Prop) (hE : ∀ e, e.isBenign → E e) :
    shadowed.Conforms E w₀ := by
  refine ⟨hE, fun d hd ↦ absurd hd (Array.not_mem_empty d), fun c name hc ↦ ?_⟩
  obtain ⟨_ | c⟩ := c
  · rfl
  · cases hc

def shadowedContext : CompileContext := { model := shadowed.model }

/-- The binding that the name of the constant compiles to. -/
def red : StaticBinding :=
  match shadowedContext.compileBinding "RED" .empty (some { property := "tint", ty := .class ⟨0⟩ }) with
  | .ok (.static b) => b
  | _ => ⟨.void, .empty⟩

def redRoutine : Routine :=
  match red.routine with
  | .ok R => R
  | .error _ => default

def isStatic : Except CompileError CompiledBinding → Bool
  | .ok (.static _) => true
  | _ => false

theorem red_eq : shadowedContext.compileBinding "RED" .empty
    (some { property := "tint", ty := .class ⟨0⟩ }) = .ok (.static red) := by
  have h : isStatic (shadowedContext.compileBinding "RED" .empty
      (some { property := "tint", ty := .class ⟨0⟩ })) := by decide +kernel
  rw [red]
  rcases hx : shadowedContext.compileBinding "RED" .empty
    (some { property := "tint", ty := .class ⟨0⟩ }) with e | (b | b | ty) <;> rw [hx] at h <;>
    first | rfl | cases h

theorem redRoutine_eq : red.routine = .ok redRoutine := by
  obtain ⟨R, hR⟩ := exists_of_isOk (show red.routine.isOk by decide +kernel)
  rw [redRoutine, hR]

theorem conforms_registry (w₀ : World) (E : RuntimeError → Prop) (hE : ∀ e, e.isBenign → E e) :
    registry.Conforms E w₀ := by
  refine ⟨hE, fun d hd ↦ absurd hd (Array.not_mem_empty d), fun c name hc ↦ ?_⟩
  obtain ⟨_ | c⟩ := c <;> cases hc

/-- Loading the name takes the lock and leaves a value of its type. -/
theorem run_locking {update : Updater} {fuel : Nat} {frame : Frame} {m : Machine} {i : InstanceId}
    {s : Instance} (hb : frame.binding = some i) (hs : m.world.instance? i = some s) :
    locking.load.run registry update fuel frame none m = ⟨[], .ok (), { m with
      stack := .bool true :: m.stack
      locks := m.locks + 1
      world := m.world.modifyCell s.result Cell.lock }⟩ := by
  show Exec.runOps registry update fuel frame [.lockAcquire, .pushBool true] m = _
  rw [Exec.runOps_cons (Exec.does_lockAcquire hb hs)]
  rfl

end Sample

open Sample in
/-- Code goes wrong if two names have one id and stand for values of different types, if another static
field comes before a constant of an enum, or if loading a name takes the lock of the result. -/
theorem goes_wrong :
    (let b := dynamicOf pickingContext "$\x7bx + o.p + y[0]\x7d" shared
    picking.Conforms (fun e ↦ e.isBenign) sharing ∧ sharing.Starts picking ∧
      (∀ name l, shared.lookup? name = some (.bound l) →
        l.load.Supplies picking (fun e ↦ e.isBenign) sharing (· = l.ty)) ∧
      pickingContext.compileBinding "$\x7bx + o.p + y[0]\x7d" shared none = .ok (.dynamic b) ∧
      (createInstance picking 50 b.artifact sharing).1 =
        .error (.error (.typeMismatch "String" "int"))) ∧
    (shadowed.Conforms (fun e ↦ e.isBenign) {} ∧ World.Starts shadowed {} ∧
      shadowedContext.compileBinding "RED" .empty (some { property := "tint", ty := .class ⟨0⟩ }) =
        .ok (.static red) ∧ red.ty = .class ⟨0⟩ ∧ red.routine = .ok redRoutine ∧
      (evaluate shadowed 50 redRoutine {}).1 = .ok (.int 5) ∧
      ¬shadowed.HasTy (World.classOf {}) (.class ⟨0⟩) (.int 5)) ∧
    (let b := dynamicOf context "$\x7by && x.p\x7d" (scope.bind locking)
    let made := createInstance registry 50 b.artifact (world true true)
    registry.Conforms (fun e ↦ e.isBenign) (world true true) ∧ (world true true).Starts registry ∧
      (∀ update fuel frame m i s, frame.binding = some i → m.world.instance? i = some s → ∃ w,
        locking.load.run registry update fuel frame none m =
          ⟨[], .ok (), { m with stack := .bool true :: m.stack, locks := m.locks + 1, world := w }⟩) ∧
      context.compileBinding "$\x7by && x.p\x7d" (scope.bind locking) none = .ok (.dynamic b) ∧
      b.ty = .boolean ∧ made.1 = .ok ⟨0⟩ ∧ made.2.valueOf ⟨0⟩ = .null) := by
  refine ⟨⟨conforms_picking _ _ fun _ ↦ id, ?_, supplies_shared _, dynamicOf_eq ?_, ?_⟩,
    ⟨conforms_shadowed _ _ fun _ ↦ id, ?_, red_eq, ?_, redRoutine_eq, ?_, ?_⟩,
    conforms_registry _ _ fun _ ↦ id, ?_, fun update fuel frame m i s hb hs ↦ ⟨_, run_locking hb hs⟩,
    dynamicOf_eq ?_, ?_, ?_, ?_⟩
  case refine_1 | refine_4 | refine_8 =>
    exact World.starts_of_isDeclared (by decide +kernel) rfl (by decide +kernel)
  case refine_7 =>
    rintro (h | ⟨_, _, h, -⟩ | ⟨_, _, h, -⟩) <;> cases h
  all_goals decide +kernel

end LiveBinding
