import LiveBinding.Proofs.CreationSafety
import LiveBinding.Proofs.Steady

namespace LiveBinding

open Exec Fragment

variable {r : Registry} {E : RuntimeError → Prop} {w₀ : World}

/-- The names of a scope load values of their types. What names with one id load is of the type of each
of them. -/
def Scope.Suits (scope : Scope) (r : Registry) (E : RuntimeError → Prop) (w₀ : World) : Prop :=
  ∀ name l, scope.lookup? name = some (.bound l) → l.load.Supplies r E w₀ fun t ↦
    ∃ name' l', scope.lookup? name' = some (.bound l') ∧ l'.id = l.id ∧ l'.ty = t

/-- The code of a name that stands for a local of the host frame. -/
theorem Fragment.supplies_loadLocal {n : Nat} {v : Value} (hv : w₀.frame[n]? = some v)
    {types : Ty → Prop} (ht : ∀ t, types t → r.HasTy w₀.classOf t v) :
    (Fragment.op (.loadLocal n)).Supplies r E w₀ types := by
  refine ⟨rfl, fun w σ hw ↦ ?_⟩
  have hread : ((w.reading r (fun _ _ ↦ .error .exhausted) w.frame #[]).op (.loadLocal n) σ).result =
      .ok (v :: σ) := by
    show (· :: σ) <$> Stop.fault "local slot out of range" w.frame[n]? = Except.ok (v :: σ)
    rw [hw.frame, hv]
    rfl
  simp only [Fragment.op, Leads, List.foldr_cons, List.foldr_nil, Op.Leads, Op.call?, hread]
  exact ⟨v, rfl, fun t h ↦ hw.hasTy (ht t h)⟩

/-- Names that stand for locals suit if the local of a name is of the types of all names with its id. -/
theorem Scope.suits_of_locals {scope : Scope}
    (h : ∀ name l, scope.lookup? name = some (.bound l) → ∃ n v, l.load = .op (.loadLocal n) ∧
      w₀.frame[n]? = some v ∧ ∀ name' l', scope.lookup? name' = some (.bound l') → l'.id = l.id →
        r.HasTy w₀.classOf l'.ty v) : scope.Suits r E w₀ := by
  intro name l hname
  obtain ⟨n, v, hload, hv, hty⟩ := h name l hname
  rw [hload]
  refine Fragment.supplies_loadLocal hv fun t ht ↦ ?_
  obtain ⟨name', l', hname', hid, rfl⟩ := ht
  exact hty name' l' hname' hid

namespace CompileContext

variable {cx : CompileContext} {source : String} {scope : Scope} {target : Option BindingTarget}
variable (hm : cx.model = r.model)
include hm

/-- A dynamic binding has a contract. -/
theorem exists_contract (hscope : scope.Suits r E w₀) {b : DynamicBinding}
    (h : cx.compileBinding source scope target = .ok (.dynamic b)) :
    ∃ C : Contract r E w₀, C.artifact = b.artifact ∧ C.ty = b.ty := by
  obtain ⟨parsed, tree, htree, he, -, hb⟩ := compileBinding_dynamic h
  obtain ⟨hroot, hvalue⟩ := Tree.build_resolved htree
  obtain ⟨coercion, htarget, hty, hcompiles⟩ :=
    compileArtifact_eq hb (Node.Resolved.isPlain tree.root hroot)
  let captured := (tree.root.render .resumable .start).2.storage.captured
  let env : Env :=
    { stateful := True
      captures n t := ∃ l, captured[n]? = some l ∧
        ∃ name' l', scope.lookup? name' = some (.bound l') ∧ l'.id = l.id ∧ l'.ty = t
      slots _ := .operand .null
      loads _ _ := False }
  have hcovers (slots : Nat → Keep) : Strategy.Covers scope captured { env with slots } := by
    refine ⟨trivial, fun name l slot hname hslot ↦ ?_⟩
    obtain ⟨hlt, hid, -⟩ := List.findIdx?_eq_some_iff_getElem.mp hslot
    exact ⟨_, List.getElem?_eq_getElem hlt, name, l, hname, (beq_iff_eq.mp hid).symm, rfl⟩
  obtain ⟨slots, hbody⟩ := hroot.exists_slots hm hvalue he hcovers
  have htyped := Fragment.Typed.append hbody (htarget.coerces hm).typed
  rw [← hty] at htyped
  have hinscope := Node.Resolved.inScope tree.root hroot .start nofun
  refine ⟨⟨_, coercion, _, _, b.artifact, b.ty, { env with slots }, hcompiles, htyped, trivial,
    fun n t ht ↦ ?_, fun n l hl ↦ ?_, fun _ _ ↦ id⟩, rfl, rfl⟩
  · obtain ⟨l, hl, -⟩ := ht
    exact (List.getElem?_eq_some_iff.mp hl).1
  · obtain ⟨name, hname⟩ := hinscope l (List.mem_of_getElem? hl)
    have hsame : env.captures n = fun t ↦
        ∃ name' l', scope.lookup? name' = some (.bound l') ∧ l'.id = l.id ∧ l'.ty = t := by
      funext t
      refine propext ⟨fun h ↦ ?_, fun h ↦ ⟨l, hl, h⟩⟩
      obtain ⟨k, hk, h⟩ := h
      obtain rfl : k = l := Option.some.inj (hk.symm.trans hl)
      exact h
    show l.load.Supplies r E w₀ (env.captures n)
    rw [hsame]
    exact hscope name l hname

omit hm in
theorem typed_renderStatic (hm : cx.model = r.model) {parsed : ParsedExpr} {tree : Tree}
    (hconstants : ∀ t u, Coercion.TypeOfText r t u → r.model.isAssignable u t)
    (htree : cx.buildTree scope parsed = .ok tree) (he : tree.root.info.evaluable) {env : Env}
    (henv : Strategy.Loads scope env)
    (hplain : ∀ name l, scope.lookup? name = some (.bound l) → l.load.isPlain) {target : Option Ty}
    {b : StaticBinding} (h : cx.renderStatic tree target = .ok b) :
    Fragment.Typed r env [] b.code [] [b.ty] := by
  obtain ⟨hroot, hvalue⟩ := Tree.build_resolved htree
  have hbody : Fragment.Typed r env [] tree.root.renderDirect [] [tree.ty] :=
    hroot.typed_direct hm hvalue he henv hplain
  have hcoerced {ty : Ty} (h : (Coercion.require cx.model tree.ty ty).map
      (fun c ↦ StaticBinding.mk ty (tree.root.renderDirect ++ c)) = .ok b) :
      Fragment.Typed r env [] b.code [] [b.ty] := by
    obtain ⟨c, hc, rfl⟩ := map_eq_ok h
    exact .append hbody (Coercion.coerces_of_coerce? (hm ▸ require_eq hc)).typed
  unfold renderStatic at h
  split at h
  · cases h
    exact hbody
  · split at h
    · split at h
      · exact hcoerced h
      · obtain ⟨c, hc, rfl⟩ := map_eq_ok h
        obtain ⟨list, u, rfl, hs, hu⟩ := Coercion.source_ofText (hm ▸ requireText_eq hc)
        exact .assign (hconstants _ u hu) (typed_of_source hs)
    · exact hcoerced h

/-- The code of a static binding has its type. -/
theorem typed_static (hconstants : ∀ t u, Coercion.TypeOfText r t u → r.model.isAssignable u t)
    {env : Env} (henv : Strategy.Loads scope env)
    (hplain : ∀ name l, scope.lookup? name = some (.bound l) → l.load.isPlain) {b : StaticBinding}
    (h : cx.compileBinding source scope target = .ok (.static b)) :
    b.code.isStraight ∧ Fragment.Typed r env [] b.code [] [b.ty] := by
  obtain ⟨list, u, hcode, hs, hu⟩ | ⟨parsed, tree, htree, he, -, hb⟩ := compileBinding_static hm h
  · have hlist : (Fragment.ops list).isPlain := hs.isPlain
    rw [hcode]
    exact ⟨(Layout.plain .start hlist).straight, .assign (hconstants _ u hu) (typed_of_source hs)⟩
  · refine ⟨composable_renderStatic composable_isStraight (Tree.build_resolved htree).1
      (fun name l hname ↦ (Layout.plain .start (hplain name l hname)).straight) hb, ?_⟩
    exact typed_renderStatic hm hconstants htree he henv hplain hb

end CompileContext

namespace Contracts

variable {Θ : Contracts r E w₀}

/-- Evaluating a static binding does no harm and comes to a value of its type. -/
theorem safely_evaluate (hr : r.Conforms E w₀) (hconstants : r.DeclaresConstants)
    {cx : CompileContext} (hm : cx.model = r.model) {source : String} {scope : Scope}
    {target : Option BindingTarget} (hscope : scope.Suits r E w₀)
    {b : StaticBinding} (h : cx.compileBinding source scope target = .ok (.static b)) {R : Routine}
    (hR : b.routine = .ok R) (fuel : Nat) :
    Θ.Safely (fun _ ↦ True) (evaluate r fuel R) fun v w ↦ r.HasTy w.classOf b.ty v := by
  let env : Env :=
    { stateful := False
      captures _ _ := False
      slots _ := .operand .null
      loads f t := ∃ name l, scope.lookup? name = some (.bound l) ∧ l.load = f ∧ l.ty = t }
  have htext (t u : Ty) (hu : Coercion.TypeOfText r t u) : r.model.isAssignable u t := by
    obtain hu | ⟨c, names, name, f, rfl, hnames, hname, hf, rfl⟩ := hu
    · exact hu
    · exact hconstants c names name f hnames hname hf
  have henv : Strategy.Loads scope env := fun name l hname ↦ ⟨name, l, hname, rfl, rfl⟩
  obtain ⟨hstraight, htyped⟩ :=
    CompileContext.typed_static hm htext henv (fun name l hname ↦ (hscope name l hname).plain) h
  let frame : Frame := { locals := w₀.frame }
  have hserve : Θ.Serves frame env := by
    refine ⟨False.elim, fun f t ht ↦ ⟨rfl, ?_⟩⟩
    obtain ⟨name, l, hname, rfl, rfl⟩ := ht
    exact ⟨_, ⟨name, l, hname, rfl, rfl⟩, hscope name l hname⟩
  have hbelongs : Θ.Belongs frame none b.code := fun i _ hi ↦ by cases hi
  have hu := updates_updateInstance (Θ := Θ) hr fuel
  have hcode : Θ.Runs (Θ.Holds frame [] [])
      (b.code.run r (updateInstance r fuel) fuel frame none)
      (Θ.Holds frame ([] ++ b.code.stored) [b.ty]) :=
    runs_typed hr hu hserve htyped hbelongs
  have hrun : Θ.Safely (fun _ ↦ True) (runRoutine r (updateInstance r fuel) fuel frame R)
      fun v w ↦ ∃ x, v = some x ∧ r.HasTy w.classOf b.ty x := by
    intro w₁
    have hexecute := ensures_answer (P := fun w ↦ Θ.Since w₁ w ∧ True)
      (Q := fun v _ w ↦ Θ.Since w₁ w ∧ ∃ x, v = some x ∧ r.HasTy w.classOf b.ty x)
      (E := fun e _ w ↦ Θ.Since w₁ w ∧ E e) (fun w _ ↦ ⟨_, _,
        @finishes_fragment r (updateInstance r fuel) fuel frame _ _ _ (CompileContext.assemble_eq hR)
          hstraight w, (hcode w₁).mono (fun m hm ↦ ?_) (fun m hm ↦ ⟨hm.1, ?_⟩) fun _ _ ↦ id⟩) fuel
    · exact ensures_routine hu nofun hexecute
    · refine ⟨hm.1.1, ⟨nofun, nofun⟩, ?_⟩
      rw [hm.2]
      exact .nil
    · obtain ⟨v, τ, hv, -, hstack⟩ := List.forall₂_cons_left_iff.mp hm.2.typed
      exact ⟨v, by rw [hstack]; rfl, hv⟩
  intro w₁ w hw
  have hend := hrun w₁ w hw
  simp only [evaluate, Run.bind_apply, Run.view_apply, hw.1.sound.later.frame]
  rcases hx : runRoutine r (updateInstance r fuel) fuel frame R w with ⟨(e | -) | v, w'⟩ <;>
    rw [hx] at hend
  · exact hend
  · trivial
  · obtain ⟨hsince, x, rfl, hty⟩ := hend
    exact ⟨hsince, hty⟩

end Contracts

end LiveBinding
