import LiveBinding.Host.Binding
import LiveBinding.Host.Script
import LiveBinding.Proofs.Creation
import LiveBinding.Proofs.Direct

namespace LiveBinding

open Exec Fragment

theorem Op.Typed.isPlain {r : Registry} {op : Op} {ins : List Ty} {out : Ty} (h : Op.Typed r op ins out) :
    op.isPlain := by
  cases h <;> first | rfl | exact Coercion.isPlain_parse _

theorem Op.Chain.isPlain {r : Registry} {list : List Op} {s t : Ty} (h : Op.Chain r list s t) :
    list.all Op.isPlain := by
  induction h with
  | nil => rfl
  | op h _ ih => rw [List.all_cons, h.isPlain, ih]; rfl
  | call _ _ _ _ ih => rw [List.all_cons, ih]; rfl

theorem Op.Source.isPlain {r : Registry} {list : List Op} {t : Ty} (h : Op.Source r list t) :
    list.all Op.isPlain := by
  obtain ⟨hop, hc⟩ := h
  rw [List.all_cons, hop.isPlain, hc.isPlain]
  rfl

theorem Fragment.Coerces.isPlain {r : Registry} {c : Fragment} {s t : Ty} (h : c.Coerces r s t) :
    c.isPlain := by
  cases h with
  | ops h => exact h.isPlain
  | ofNull h => exact h.isPlain
  | guarded h h' =>
    show (List.all _ _ && List.all _ _) = true
    rw [h.isPlain, h'.isPlain]
    rfl

namespace World

variable {r : Registry} {answer : MethodId → List Value → Except RuntimeError Value} {w w' : World}

/-- What the cells of properties hold is all that matters of the cells. -/
theorem Conforms.of_eq (hw : w.Conforms r answer) (hobjects : w'.objects = w.objects)
    (hvalue : ∀ o p x, w.observable? o p = some x → w'.cellValue x = w.cellValue x)
    (he : w'.SlotsExist) : w'.Conforms r answer := by
  have hslot (o : ObjectId) (p : String) : w'.slot? o p = w.slot? o p := by
    simp only [World.slot?, World.object?, hobjects]
  have hclass : w'.classOf = w.classOf := by
    funext o
    simp only [World.classOf, World.object?, hobjects]
  refine ⟨he, fun o d c name p hd hc hp hobs ↦ ?_, fun o d c name p hd hc hp hobs ↦ ?_,
    hclass ▸ hw.statics, hclass ▸ hw.answers⟩
  · rw [hclass] at hd ⊢
    obtain ⟨x, hx, ht⟩ := hw.observed o d c name p hd hc hp hobs
    refine ⟨x, (hslot o p.name).trans hx, ?_⟩
    rwa [hvalue o p.name x (World.observable?_eq_some.mpr hx)]
  · rw [hclass] at hd ⊢
    exact fun slot hs ↦ hw.plain o d c name p hd hc hp hobs slot ((hslot o p.name).symm.trans hs)

theorem SameHeap.classOf (h : w.SameHeap w') : w'.classOf = w.classOf := by
  funext o
  simp only [World.classOf, World.object?, h.objects]

theorem SameHeap.conforms (h : w.SameHeap w') (hw : w.Conforms r answer) (he : w'.SlotsExist) :
    w'.Conforms r answer := hw.of_eq h.objects (fun _ _ x _ ↦ h.cellValue x) he

/-- A host that conforms, and values for the names of a scope. Names of the same id have the same value. -/
structure Suits (r : Registry) (answer : MethodId → List Value → Except RuntimeError Value)
    (scope : Scope) (env : Loadable → Value) (w : World) : Prop where
  conforms : w.Conforms r answer
  functional : r.Functional w.objects answer
  typed : Node.TypedScope r w.classOf scope env
  shared : ∀ name name' l l', scope.lookup? name = some (.bound l) →
    scope.lookup? name' = some (.bound l') → l.id = l'.id → env l = env l'

/-- A host that conforms, in which the names of a scope have values. Names of the same id have the
same value. -/
structure Serves (r : Registry) (answer : MethodId → List Value → Except RuntimeError Value)
    (scope : Scope) (env : Loadable → Value) (w : World) : Prop where
  conforms : w.Conforms r answer
  functional : r.Functional w.objects answer
  typed : Node.TypedScope r w.classOf scope env
  loads : ∀ name l, scope.lookup? name = some (.bound l) → l.Loads r w.frame w.SameHeap (env l)
  shared : ∀ name name' l l', scope.lookup? name = some (.bound l) →
    scope.lookup? name' = some (.bound l') → l.id = l'.id → env l = env l'

end World

/-- The value that the first update of a binding leaves is the value of the binding. -/
theorem Running.valueOf_putCell {w : World} {artifact : Artifact} {vs : List Value}
    {points : List SavePoint} {handled : Prop} {m : Machine} {v : Value} {st : Store}
    (h : Running artifact points ⟨w.instances.size⟩
      (Compiles.locked (w.capturing artifact vs) (w.filled artifact vs)).world (w.filled artifact vs)
      handled m ⟨[v], st⟩) :
    (m.world.putCell ⟨w.cells.size⟩ (.quiet v)).valueOf ⟨w.instances.size⟩ = v := by
  obtain ⟨s, on, ht, hh⟩ := h.kept
  have hfound : (m.world.putCell ⟨w.cells.size⟩ (.quiet v)).instance? ⟨w.instances.size⟩ = some s :=
    ht.found
  have hresult : s.result = ⟨w.cells.size⟩ := hh.result
  have hcell : m.world.cell? ⟨w.cells.size⟩ = some (Cell.quiet .null).lock :=
    h.result.trans ((World.cell?_modifyCell ..).trans (by
      rw [if_pos rfl, World.cell?_result]
      rfl))
  simp only [World.valueOf, World.resultCell?, hfound, Option.map_some, hresult, World.cellValue,
    World.cell?_putCell hcell, Option.getD_some]

/-- What a node means in a host, with its value converted. -/
def Node.meaning (r : Registry) (answer : MethodId → List Value → Except RuntimeError Value)
    (env : Loadable → Value) (w : World) (n : Node) (c : Fragment) : Effect Value :=
  n.eval (w.reading r (asked answer) w.frame #[]) env >>=
    c.apply (w.reading r (asked answer) w.frame #[])

theorem World.Serves.suits {r : Registry}
    {answer : MethodId → List Value → Except RuntimeError Value} {scope : Scope}
    {env : Loadable → Value} {w : World} (h : w.Serves r answer scope env) :
    w.Suits r answer scope env := ⟨h.conforms, h.functional, h.typed, h.shared⟩

namespace World.Suits

variable {r : Registry} {answer : MethodId → List Value → Except RuntimeError Value}
variable {cx : BuildContext} {env : Loadable → Value} {w : World} {n : Node} {c : Fragment} {ty : Ty}

/-- The captures of a binding hold the values of the names it reads. -/
theorem captures (h : w.Suits r answer cx.scope env) (captured : List Loadable)
    (hin : ∀ l ∈ captured, ∃ name, cx.scope.lookup? name = some (.bound l)) (rd : Reading)
    (hrd : rd.captures = (captured.map env).toArray) : cx.scope.Captures captured rd env := by
  intro name l slot hname hslot
  obtain ⟨hlt, hid, -⟩ := List.findIdx?_eq_some_iff_getElem.mp hslot
  obtain ⟨name', hname'⟩ := hin _ (List.getElem_mem hlt)
  simp only [hrd, List.getElem?_toArray, List.getElem?_map, List.getElem?_eq_getElem hlt,
    Option.map_some]
  exact congrArg some (h.shared name' name _ l hname' hname (by simpa using hid))

section

variable (h : w.Suits r answer cx.scope env) (hm : cx.model = r.model) (hn : IsOperand cx n)
variable (hc : c.Coerces r n.ty ty)
include h hm hn hc

theorem yields : Yields (r.HasTy w.classOf ty) (· ≠ .exhausted)
    (n.meaning r answer env w c).result := by
  have hrd := h.conforms.reading w.frame #[]
  refine (Node.yields_eval hrd hm h.typed n hn.1 hn.2 (.inr fun _ ↦ nofun)).bindEffect fun v hv ↦ ?_
  exact (hc.sound hrd hv).2

/-- The code that reads everything every time comes to the value. -/
theorem turns_direct {k : Prop}
    (hloads : cx.scope.Loads k (w.reading r (asked answer) w.frame #[]) env) :
    (n.renderDirect ++ c).Turns k (w.reading r (asked answer) w.frame #[]) [] (fun v ↦ [v])
      (n.meaning r answer env w c) := by
  have hrd := h.conforms.reading w.frame #[]
  refine Node.turns_convert hrd hm h.typed hn.1 hn.2 (.inr fun _ ↦ nofun) hc ?_
  exact Node.turns_node hrd hm h.typed (Strategy.faithful_direct rfl hloads (h.conforms.through _ _))
    n hn.1 (.inr fun _ ↦ nofun) () trivial [] nofun

/-- Evaluating a node once gives its value. -/
theorem evaluate_eq {k : Prop}
    (hloads : cx.scope.Loads k (w.reading r (asked answer) w.frame #[]) env)
    (hplain : ∀ name l, cx.scope.lookup? name = some (.bound l) → l.load.isPlain) {R : Routine}
    (hR : Assembler.Assembles (((n.renderDirect ++ c).emit none .empty).emit .return) R) :
    ∃ N, ∀ fuel, N ≤ fuel ∨ (evaluate r fuel R w).1 ≠ .error .exhausted →
      (evaluate r fuel R w).1 = (n.meaning r answer env w c).result ∧
      (k → evaluationCalls r fuel R w = (n.meaning r answer env w c).calls) := by
  have hplain : (n.renderDirect ++ c).isPlain :=
    isPlain_append (Node.direct_composable composable_isPlain hplain n hn.1) hc.isPlain
  have hrel := h.turns_direct hm hn hc hloads fun _ ↦ .null
  obtain ⟨N, hN⟩ := h.functional.exists_enough ((n.renderDirect ++ c).den
    (w.reading r (asked answer) w.frame #[]) ⟨[], fun _ ↦ .null⟩).calls
  have hne := (h.yields hm hn hc).2
  refine ⟨max R.size N, fun fuel hfuel ↦ ?_⟩
  obtain ⟨hcalls', hend⟩ := evaluate_follows h.functional hR hplain _ rfl
    (fun he ↦ hne _ (hrel.of_left_error he) rfl)
    (fun d hd ↦ by
      obtain ⟨v, -, hstack⟩ := hrel.of_left_ok hd
      rw [hstack]
      nofun)
    (hfuel.imp (fun hle ↦ ⟨by omega, fun call hcall ↦ hN _ fuel (by omega) call hcall⟩) id)
  refine ⟨?_, fun hk ↦ hcalls'.trans (hrel.1 hk)⟩
  obtain ⟨v, σ, st, hok, hval⟩ | ⟨x, hx, hval⟩ := hend
  · obtain ⟨v', hv', hstack⟩ := hrel.of_left_ok hok
    cases hstack
    rw [hval, hv']
  · rw [hval, hrel.of_left_error hx]

/-- So does the code that keeps the parts of the value, in every reading of the host. -/
theorem turns_reading {k : Prop} {rd : Reading} (hrd : rd.Conforms w.classOf (· ≠ .exhausted))
    (hagrees : (w.reading r (asked answer) w.frame #[]).Agrees rd w.classOf)
    (hcap : rd.captures = ((n.render .resumable .start).2.storage.captured.map env).toArray) :
    ((n.render .resumable .start).1 ++ c).Turns k rd [] (fun v ↦ [v]) (n.meaning r answer env w c) := by
  have hrd₀ := h.conforms.reading w.frame #[]
  have hregistry : rd.registry = r := hagrees.registry
  have hm' : cx.model = rd.registry.model := hregistry ▸ hm
  have htyped : Node.TypedScope rd.registry w.classOf cx.scope env := hregistry ▸ h.typed
  have hin : Node.InScope cx (n.render .resumable .start).2 :=
    Node.Resolved.inScope n hn.1 .start fun l hl ↦ absurd hl List.not_mem_nil
  have hst : Strategy.resumable.Faithful k rd w.classOf cx.scope env Renders
      (Strategy.Keeping (n.render .resumable .start).2.storage.captured) :=
    Strategy.faithful_resumable (h.captures _ hin _ hcap)
  have hturns := Node.turns_convert hrd hm' htyped hn.1 hn.2 (.inr fun _ ↦ nofun) (hregistry ▸ hc)
    (Node.turns_node hrd hm' htyped hst n hn.1 (.inr fun _ ↦ nofun) .start (List.prefix_refl _) []
      fun _ _ ↦ rfl)
  have heq := Node.eval_eq hrd₀ hagrees hm h.typed n hn.1 (.inr fun _ ↦ nofun)
  rwa [Node.bind_apply_eq hrd₀ hagrees hc
    (Node.yields_eval hrd₀ hm h.typed n hn.1 hn.2 (.inr fun _ ↦ nofun)) heq] at hturns

theorem turns_resumable {k : Prop} {w' : World} (hw : w.SameHeap w') (hslots : w'.SlotsExist) :
    ((n.render .resumable .start).1 ++ c).Turns k (w'.reading r (asked answer) []
      ((n.render .resumable .start).2.storage.captured.map env).toArray) [] (fun v ↦ [v])
      (n.meaning r answer env w c) := by
  refine h.turns_reading hm hn hc ?_ (hw.agrees r (asked answer) w.frame [] #[] _ w.classOf) rfl
  have hrd := (hw.conforms h.conforms hslots).reading []
    ((n.render .resumable .start).2.storage.captured.map env).toArray
  rwa [hw.classOf] at hrd

/-- Once the names are captured, the first update of a binding for a node gives its value. What the
host has recorded until then does not matter. -/
theorem update_eq {layout : FlagLayout} {artifact : Artifact}
    (hcompiles : Compiles (n.render .resumable .start).1 c (n.render .resumable .start).2 layout artifact)
    (hfresh : ∀ k c, w.listening ⟨w.instances.size⟩ k c = 0) {handled : Prop}
    (hfew : handled → (n.render .resumable .start).1.points.length < 2 ^ 32) :
    let vs := (n.render .resumable .start).2.storage.captured.map env
    let i : InstanceId := ⟨w.instances.size⟩
    let ready (events : Array Event) : World := ({ w with events }).capturing artifact vs
    ∃ N, ∀ fuel events, N ≤ fuel ∨ (updateInstance r fuel i 0 (ready events)).1 ≠ .error .exhausted →
      let start := Compiles.locked (ready events) (w.filled artifact vs)
      updateCalls r fuel i 0 (ready events) = (n.meaning r answer env w c).calls ∧
      ((∃ v st m, (n.meaning r answer env w c).result = .ok v ∧
        (((n.render .resumable .start).1 ++ c).den
          (start.world.reading r (asked answer) [] vs.toArray)
          ⟨[], (w.filled artifact vs).store artifact⟩).result = .ok ⟨[v], st⟩ ∧
        Running artifact (n.render .resumable .start).1.points i start.world
          (w.filled artifact vs) handled m ⟨[v], st⟩ ∧
        updateInstance r fuel i 0 (ready events) =
          (.ok (), m.world.putCell ⟨w.cells.size⟩ (.quiet v))) ∨
      ∃ x, (n.meaning r answer env w c).result = .error (.error x) ∧
        (updateInstance r fuel i 0 (ready events)).1 = .error (.error x)) := by
  intro vs i ready
  obtain ⟨N, hN⟩ := h.functional.exists_enough (n.meaning r answer env w c).calls
  have hne := (h.yields hm hn hc).2
  refine ⟨artifact.update.size + 4 + N, fun fuel events hfuel ↦ ?_⟩
  intro start
  obtain _ | fuel := fuel
  · obtain hle | hne := hfuel
    · omega
    · exact absurd rfl hne
  have hcaptured : ({ w with events } : World).SameHeap (ready events) := World.sameHeap_capturing
  have hheap : w.SameHeap (ready events) := ⟨hcaptured.objects, hcaptured.cellValue⟩
  have hsame : w.SameHeap start.world := hheap.lock _
  have hready : Ready artifact (n.render .resumable .start).1.points start.world
      (w.filled artifact vs) handled := hcompiles.ready (w := { w with events }) h.conforms.exist hfew
  have hrel := h.turns_resumable hm hn hc (k := True) hsame hready.exist
    ((w.filled artifact vs).store artifact)
  have ht : Tracks artifact (n.render .resumable .start).1.points i
      (ready events) (w.filled artifact vs) fun _ ↦ none :=
    (Tracks.start (w := { w with events }) hcompiles.wellPlaced hfresh).capturing vs
  have hrunning : Running artifact (n.render .resumable .start).1.points i start.world
      (w.filled artifact vs) handled start _ := ht.running nofun
  have hanswers : Answers r (updateInstance r fuel) fuel start.world.objects (asked answer) _ :=
    h.functional.answers (updateInstance r fuel) fuel
  let frame : Frame := { binding := some i }
  have hbody : ((n.render .resumable .start).1.run r (updateInstance r fuel) fuel frame
      (some artifact.flags) start).Follows _ _ _ _ _ :=
    hrunning.follows_run hready rfl hanswers (hcompiles.placed (n.ordered hn.1 .start))
  have hcoerced {m : Machine} {d : Config} (hd : Running artifact (n.render .resumable .start).1.points
      i start.world (w.filled artifact vs) handled m d) :
      (c.run r (updateInstance r fuel) fuel frame (some artifact.flags) m).Follows _ _ _ _
        (c.den (start.world.reading r (asked answer) frame.locals vs.toArray) d) :=
    follows_plain Running.relates hanswers (some artifact.flags) hcompiles.plain hd
  have hf := hbody.andThen fun m d hd ↦ hcoerced hd
  rw [hcompiles.flags] at hf
  obtain ⟨k, hk, hfin⟩ := @Compiles.finishes_start r (updateInstance r fuel) fuel frame _ _ _ _ _ _
    hcompiles rfl rfl _ _ ht.found
  have hcell : (ready events).cell? (w.filled artifact vs).result = some (.quiet .null) :=
    World.cell?_result (w := { w with events })
  obtain ⟨hhistory, hend⟩ := Compiles.update_follows ht.found rfl hcell rfl hfin rfl hf
    (fun he ↦ hne _ (hrel.of_left_error he) rfl)
    (fun d hd ↦ by
      obtain ⟨v, -, hstack⟩ := hrel.of_left_ok hd
      rw [hstack]
      nofun)
    (hfuel.imp (fun hle ↦ ⟨by omega, by omega, fun call hcall ↦
      hN _ fuel (by omega) call (hrel.1 trivial ▸ hcall)⟩) id)
  have hcalls : updateCalls r (fuel + 1) i 0 (ready events) = history r (updateInstance r fuel) fuel
      { binding := some i } (w.filled artifact vs).artifact.update fuel { world := ready events } := by
    simp only [updateCalls, ht.found]
  refine ⟨hcalls.trans (hhistory.trans (hrel.1 trivial)), hend.imp ?_ ?_⟩
  · rintro ⟨v, σ, st, m, hok, hrun, hupdate⟩
    obtain ⟨v', hv', hstack⟩ := hrel.of_left_ok hok
    cases hstack
    rw [Value.null_replaced] at hupdate
    exact ⟨v, st, m, hv', hok, hrun, hupdate⟩
  · rintro ⟨x, hx, hupdate⟩
    exact ⟨x, hrel.of_left_error hx, hupdate⟩

end

end World.Suits

namespace World.Serves

variable {r : Registry} {answer : MethodId → List Value → Except RuntimeError Value}
variable {cx : BuildContext} {env : Loadable → Value} {w : World} {n : Node} {c : Fragment} {ty : Ty}

/-- The names of the scope are loaded without calls. -/
theorem loads_direct {k : Prop} (h : w.Serves r answer cx.scope env) :
    cx.scope.Loads k (w.reading r (asked answer) w.frame #[]) env := fun name l hname σ ↦
  (h.loads name l hname).turns h.functional (.refl w) #[] σ

section

variable (h : w.Serves r answer cx.scope env) (hm : cx.model = r.model) (hn : IsOperand cx n)
variable (hc : c.Coerces r n.ty ty)
include h hm hn hc

/-- Evaluating a node once gives its value. -/
theorem evaluate_eq {R : Routine}
    (hR : Assembler.Assembles (((n.renderDirect ++ c).emit none .empty).emit .return) R) :
    ∃ N, ∀ fuel, N ≤ fuel ∨ (evaluate r fuel R w).1 ≠ .error .exhausted →
      (evaluate r fuel R w).1 = (n.meaning r answer env w c).result ∧
      evaluationCalls r fuel R w = (n.meaning r answer env w c).calls := by
  obtain ⟨N, hN⟩ := h.suits.evaluate_eq hm hn hc h.loads_direct
    (fun name l hname ↦ (h.loads name l hname).isPlain) hR
  exact ⟨N, fun fuel hfuel ↦ (hN fuel hfuel).imp id (· trivial)⟩

/-- Making a binding for a node gives its value. -/
theorem create_eq {layout : FlagLayout} {artifact : Artifact}
    (hcompiles : Compiles (n.render .resumable .start).1 c (n.render .resumable .start).2 layout artifact)
    (hfresh : ∀ k c, w.listening ⟨w.instances.size⟩ k c = 0) {handled : Prop}
    (hfew : handled → (n.render .resumable .start).1.points.length < 2 ^ 32) :
    let vs := (n.render .resumable .start).2.storage.captured.map env
    let start := Compiles.locked (w.capturing artifact vs) (w.filled artifact vs)
    ∃ N, ∀ fuel, N ≤ fuel ∨ (createInstance r fuel artifact w).1 ≠ .error .exhausted →
      creationCalls r fuel artifact w = (n.meaning r answer env w c).calls ∧
      ((∃ v st m, (n.meaning r answer env w c).result = .ok v ∧
        (((n.render .resumable .start).1 ++ c).den
          (start.world.reading r (asked answer) [] vs.toArray)
          ⟨[], (w.filled artifact vs).store artifact⟩).result = .ok ⟨[v], st⟩ ∧
        Running artifact (n.render .resumable .start).1.points ⟨w.instances.size⟩ start.world
          (w.filled artifact vs) handled m ⟨[v], st⟩ ∧
        createInstance r fuel artifact w =
          (.ok ⟨w.instances.size⟩, m.world.putCell ⟨w.cells.size⟩ (.quiet v))) ∨
      ∃ x, (n.meaning r answer env w c).result = .error (.error x) ∧
        (createInstance r fuel artifact w).1 = .error (.error x)) := by
  intro vs start
  have hin : Node.InScope cx (n.render .resumable .start).2 :=
    Node.Resolved.inScope n hn.1 .start fun l hl ↦ absurd hl List.not_mem_nil
  have hload : List.Forall₂ (Loadable.Loads r w.frame w.SameHeap)
      (n.render .resumable .start).2.storage.captured vs := by
    rw [List.forall₂_map_right_iff, List.forall₂_same]
    intro l hl
    obtain ⟨name, hname⟩ := hin l hl
    exact h.loads name l hname
  obtain ⟨N, hN⟩ := @Suits.update_eq _ _ _ _ _ _ _ _ h.suits hm hn hc _ _ hcompiles hfresh handled hfew
  refine ⟨max artifact.init.size N, fun fuel hfuel ↦ ?_⟩
  obtain ⟨hcalls, hinit⟩ := hcompiles.runInit_eq hfresh hload (hfuel.imp (fun h ↦ by omega) id)
  obtain ⟨hupdate, hend⟩ := hN fuel w.events (hfuel.imp (fun h ↦ by omega) fun hne he ↦
    hne (createInstance_error (hinit ▸ he)))
  refine ⟨hcalls.trans hupdate, hend.imp ?_ ?_⟩
  · rintro ⟨v, st, m, hv, hden, hrun, hok⟩
    refine ⟨v, st, m, hv, hden, hrun, ?_⟩
    have hok : updateInstance r fuel ⟨w.instances.size⟩ 0 (w.capturing artifact vs) = _ := hok
    rw [createInstance_eq, hinit, hok]
  · rintro ⟨x, hx, herror⟩
    have herror : (updateInstance r fuel ⟨w.instances.size⟩ 0 (w.capturing artifact vs)).1 = _ := herror
    exact ⟨x, hx, createInstance_error (hinit ▸ herror)⟩

theorem instantiate_eq {layout : FlagLayout} {artifact : Artifact}
    (hcompiles : Compiles (n.render .resumable .start).1 c (n.render .resumable .start).2 layout artifact)
    (hfresh : ∀ k c, w.listening ⟨w.instances.size⟩ k c = 0) :
    ∃ N, ∀ fuel, N ≤ fuel ∨ (instantiate r fuel artifact w).1 ≠ .error .exhausted →
      (instantiate r fuel artifact w).1 = (n.meaning r answer env w c).result ∧
      creationCalls r fuel artifact w = (n.meaning r answer env w c).calls := by
  obtain ⟨N, hN⟩ := @create_eq _ _ _ _ _ _ _ _ h hm hn hc _ _ hcompiles hfresh False nofun
  refine ⟨N, fun fuel hfuel ↦ ?_⟩
  obtain ⟨hcalls, hend⟩ := hN fuel (hfuel.imp id fun hne he ↦ hne (Run.bind_error he _))
  refine ⟨?_, hcalls⟩
  obtain ⟨v, st, m, hv, -, hrun, hcreate⟩ | ⟨x, hx, hcreate⟩ := hend
  · have hvalue := hrun.valueOf_putCell
    rw [instantiate, Run.bind_apply, hcreate, hv]
    exact congrArg Except.ok hvalue
  · rw [hx]
    exact Run.bind_error hcreate _

end

end World.Serves

theorem CompileContext.Targets.coerces {cx : CompileContext} {r : Registry} (hm : cx.model = r.model)
    {tree : Tree} {target : Option Ty} {c : Fragment} (h : Targets cx tree target c) :
    c.Coerces r tree.root.ty (target.getD tree.ty) := by
  cases target with
  | none =>
    obtain rfl : c = .empty := h
    exact .ops (.nil (TypeModel.isAssignable_refl ..))
  | some ty => exact Coercion.coerces_of_coerce? (hm ▸ h)

/-- What a static binding is put together from. Text can be converted as it is rendered. -/
theorem CompileContext.routine_eq_of_textless {cx : CompileContext} {tree : Tree} {target : Option Ty}
    {s : StaticBinding} {R : Routine} (h : cx.renderStatic tree target = .ok s)
    (hlit : ∀ text, tree.root.literal? ≠ some (.string text)) (hR : s.routine = .ok R) :
    s.ty = target.getD tree.ty ∧ ∃ c, Targets cx tree target c ∧
      Assembler.Assembles (((tree.root.renderDirect ++ c).emit none .empty).emit .return) R := by
  unfold renderStatic at h
  cases target with
  | none =>
    cases h
    exact ⟨rfl, .empty, rfl, assemble_eq hR⟩
  | some ty =>
    dsimp only at h
    split at h
    · next text ht => exact absurd ht (hlit text)
    · obtain ⟨c, hc, rfl⟩ := map_eq_ok h
      exact ⟨rfl, c, require_eq hc, assemble_eq hR⟩

theorem CompileContext.routine_eq {cx : CompileContext} {tree : Tree} {target : Option Ty}
    {s : StaticBinding} {R : Routine} (h : cx.renderStatic tree target = .ok s)
    (hlit : tree.root.literal? = none) (hR : s.routine = .ok R) :
    s.ty = target.getD tree.ty ∧ ∃ c, Targets cx tree target c ∧
      Assembler.Assembles (((tree.root.renderDirect ++ c).emit none .empty).emit .return) R :=
  routine_eq_of_textless h (by simp [hlit]) hR

/-- The conversion depends on the types only. -/
theorem CompileContext.Targets.unique_of_ty {cx cx' : CompileContext} {tree tree' : Tree}
    {target : Option Ty} {c c' : Fragment} (hmodel : cx.model = cx'.model) (hty : tree.ty = tree'.ty)
    (h : Targets cx tree target c) (h' : Targets cx' tree' target c') : c = c' := by
  cases target with
  | none => exact Eq.trans h (Eq.symm h')
  | some ty =>
    have h : Coercion.coerce? cx.model tree.ty ty = some c := h
    rw [hmodel, hty] at h
    exact Option.some.inj (h.symm.trans h')

theorem CompileContext.Targets.unique {cx : CompileContext} {tree : Tree} {target : Option Ty}
    {c c' : Fragment} (h : Targets cx tree target c) (h' : Targets cx tree target c') : c = c' :=
  unique_of_ty rfl rfl h h'

/-- A tree that reads an observable property is no literal. -/
theorem Node.Resolved.literal?_eq_none {cx : BuildContext} {n : Node} (h : n.Resolved cx)
    (hm : n.monitoring ≠ 0) : n.literal? = none := by
  cases n with
  | literal info value => exact absurd (congrArg Facts.monitoring h) hm
  | _ => rfl

/-- Making a binding comes to what evaluating its expression directly comes to, by the same calls. -/
theorem instantiate_eq_evaluate {cx : CompileContext} {scope : Scope} {parsed : ParsedExpr}
    {tree : Tree} {target : Option BindingTarget} {b : DynamicBinding} {s : StaticBinding} {R : Routine}
    (htree : cx.buildTree scope parsed = .ok tree) (hdynamic : ¬tree.isStatic)
    (hcompile : cx.compileArtifact tree target = .ok b)
    (hrender : cx.renderStatic tree (target.map BindingTarget.ty) = .ok s) (hR : s.routine = .ok R)
    {r : Registry} (hmodel : cx.model = r.model)
    {answer : MethodId → List Value → Except RuntimeError Value} {env : Loadable → Value} {w : World}
    (hw : w.Serves r answer scope env) (hfresh : ∀ k c, w.listening ⟨w.instances.size⟩ k c = 0) :
    ∃ N, ∀ fuel ≥ N, (evaluate r fuel R w).1 ≠ .error .exhausted ∧
      (instantiate r fuel b.artifact w).1 = (evaluate r fuel R w).1 ∧
      creationCalls r fuel b.artifact w = evaluationCalls r fuel R w := by
  have hn := Tree.build_resolved htree
  obtain ⟨c, hc, -, hcompiles⟩ := CompileContext.compileArtifact_eq hcompile
    (Node.Resolved.isPlain tree.root hn.1)
  have hlit : tree.root.literal? = none :=
    Node.Resolved.literal?_eq_none hn.1 (by simpa [Tree.isStatic] using hdynamic)
  obtain ⟨-, c', hc', hassembles⟩ := CompileContext.routine_eq hrender hlit hR
  obtain rfl := hc.unique hc'
  have hcoerces := hc.coerces hmodel
  obtain ⟨N, hN⟩ := hw.instantiate_eq hmodel hn hcoerces hcompiles hfresh
  obtain ⟨M, hM⟩ := hw.evaluate_eq hmodel hn hcoerces hassembles
  refine ⟨max N M, fun fuel hfuel ↦ ?_⟩
  obtain ⟨hinst, hcalls⟩ := hN fuel (.inl (by omega))
  obtain ⟨heval, hcalls'⟩ := hM fuel (.inl (by omega))
  refine ⟨?_, hinst.trans heval.symm, hcalls.trans hcalls'.symm⟩
  rw [heval]
  exact fun he ↦ (hw.suits.yields hmodel hn hcoerces).2 _ he rfl

namespace Sample

/-- A class with an observable property and a method that gives back its argument. -/
def picking : Registry where
  classes := #[{ name := "Box", superclass := none, properties := [
    ⟨.class ⟨0⟩, "p", .prim .int, observable⟩] }]
  names := [("Box", .class ⟨0⟩)]
  methods := #[⟨⟨⟨0⟩, .class ⟨0⟩, "pick", [.class ⟨0⟩], .class ⟨0⟩, { accessible := true, static := true }⟩,
    Script.method "pick" (.arg 0), []⟩]

def box (n : Int32) : World where
  objects := #[{ cls := ⟨0⟩, label := "x", slots := [("p", .observable ⟨0⟩)] }]
  cells := #[{ value := .int n }]
  frame := [.object ⟨0⟩]

theorem functional_picking (objects : Array HostObject) :
    picking.Functional objects picking.answer := by
  refine Registry.functional (fun d hd args ↦ ?_) objects
  obtain rfl := List.mem_singleton.mp (Array.mem_toList_iff.mpr hd)
  show (Action.ofExcept (Script.argument args 0)).answer?.isSome
  cases Script.argument args 0 <;> rfl

theorem eq_of_isSubclass {r : Registry} {a c : ClassId} (ha : r.superclass? a = none)
    (h : r.model.isSubclass a c) : c = a := by
  obtain ⟨n, hn⟩ := Registry.isSubclass_iff.mp h
  cases n with
  | zero => exact (Option.some.inj hn).symm
  | succ n =>
    have hnone (n : Nat) : (·.bind r.superclass?)^[n] none = none := by
      induction n with
      | zero => rfl
      | succ n ih => rw [Function.iterate_succ_apply]; exact ih
    rw [Registry.climb, Function.iterate_succ_apply, Option.bind_some, ha, hnone] at hn
    cases hn

/-- A class that has a single property and no superclass. -/
theorem property_eq {r : Registry} {c : ClassId} {p q : PropertyInfo} {name : String}
    (hc : r.lineage (.class c) = [.class c, .object])
    (hq : r.propertyOf? name (.class c) = [q].find? (·.name == name))
    (h : r.model.property (.class c) name = some p) : p = q := by
  simp only [Registry.model, hc, List.findSome?_cons, List.findSome?_nil] at h
  split at h
  · next hp =>
    cases h
    exact List.mem_singleton.mp (List.mem_of_find?_eq_some (hq.symm.trans hp))
  · cases h

theorem classOf_eq {n : Int32} {o : ObjectId} {d : ClassId} (h : (box n).classOf o = some d) :
    o = ⟨0⟩ ∧ d = ⟨0⟩ := by
  obtain ⟨_ | o⟩ := o
  · exact ⟨rfl, (Option.some.inj h).symm⟩
  · cases h

theorem answers_picking (classOf : ObjectId → Option ClassId) : ∀ d ∈ picking.methods, ∀ args,
    d.info.Takes (picking.HasTy classOf) args → ∀ v, picking.answer d.info.id args = .ok v →
      picking.HasTy classOf d.info.ret v := by
  intro d hd args ha v hv
  obtain rfl := List.mem_singleton.mp (Array.mem_toList_iff.mpr hd)
  have ha : List.Forall₂ (picking.HasTy classOf) [.class ⟨0⟩] args := ha
  obtain ⟨u, rest, hu, hnil, rfl⟩ := List.forall₂_cons_left_iff.mp ha
  cases hnil
  cases hv
  exact hu

theorem conforms_box (n : Int32) : (box n).Conforms picking picking.answer where
  exist o property c h := by
    rw [World.observable?_eq_some] at h
    obtain ⟨_ | o⟩ := o
    · have hslot : List.lookup property [("p", Slot.observable ⟨0⟩)] = some (.observable c) := h
      simp only [List.lookup_cons] at hslot
      split at hslot
      · cases hslot
        exact Nat.one_pos
      · cases hslot
    · simp [box, World.slot?, World.object?] at h
  observed o d c name p hd hc hp _ := by
    obtain ⟨rfl, rfl⟩ := classOf_eq hd
    obtain rfl := eq_of_isSubclass rfl hc
    obtain rfl := property_eq (by decide) rfl hp
    exact ⟨⟨0⟩, rfl, rfl⟩
  plain o d c name p hd hc hp hobs := by
    obtain ⟨rfl, rfl⟩ := classOf_eq hd
    obtain rfl := eq_of_isSubclass rfl hc
    obtain rfl := property_eq (by decide) rfl hp
    cases hobs
  statics f hf := by simp [picking] at hf
  answers := answers_picking _

def pickingContext : CompileContext := { model := picking.model }

/-- A call and two reads of a property. -/
def pickedSum : ParsedExpr where
  source := "Box.pick(x).p + x.p"
  root := .binary ⟨0, 19⟩ .add
    (.field ⟨0, 13⟩ (.call ⟨0, 11⟩ (.ident ⟨0, 3⟩ "Box") "pick" [.ident ⟨9, 10⟩ "x"]) "p")
    (.field ⟨16, 19⟩ (.ident ⟨16, 17⟩ "x") "p")
  base := 0

theorem lookup_scope {name : String} {l l' : Loadable}
    (h : (Scope.empty.bind l').lookup? name = some (.bound l)) : l = l' := by
  simp only [Scope.lookup?, Scope.bind, Scope.empty, List.lookup_cons] at h
  split at h
  · cases h
    rfl
  · cases h

/-- The name in scope stands for the box in the host frame. -/
theorem serves_scope {w : World} (h : w.Conforms picking picking.answer)
    (hframe : w.frame = [.object ⟨0⟩]) (hclass : w.classOf ⟨0⟩ = some ⟨0⟩) :
    w.Serves picking picking.answer scope fun _ ↦ .object ⟨0⟩ where
  conforms := h
  functional := functional_picking _
  typed name l hl := by
    obtain rfl := lookup_scope hl
    exact .inr (.inl ⟨⟨0⟩, ⟨0⟩, rfl, hclass, by decide⟩)
  loads name l hl := by
    obtain rfl := lookup_scope hl
    rw [hframe]
    exact ⟨rfl, fun _ _ _ _ _ _ ↦ rfl⟩
  shared _ _ _ _ _ _ _ := rfl

/-- It stands for that whatever cells hold. -/
theorem gives_scope {w : World} (hframe : w.frame = [.object ⟨0⟩]) {name : String} {l : Loadable}
    (hl : scope.lookup? name = some (.bound l)) :
    l.Gives picking picking.answer w.frame (·.objects = w.objects) (.object ⟨0⟩) := by
  obtain rfl := lookup_scope hl
  refine Loadable.Loads.gives ?_ fun _ _ ↦ functional_picking _
  rw [hframe]
  exact ⟨rfl, fun _ _ _ _ _ _ ↦ rfl⟩

theorem serves_box (n : Int32) : (box n).Serves picking picking.answer scope fun _ ↦ .object ⟨0⟩ :=
  serves_scope (conforms_box n) rfl rfl

theorem listening_box (n : Int32) (i : InstanceId) (k : Nat) (c : CellId) :
    (box n).listening i k c = 0 := by
  obtain ⟨_ | c⟩ := c
  · rfl
  · simp [box, World.listening, World.cell?]

/-- The name in scope is loaded by a call. -/
def calling : Loadable where
  id := ⟨0⟩
  name := "x"
  ty := .class ⟨0⟩
  load := .ops [.loadLocal 0, .invokeStatic ⟨0⟩ 1]

def doubled : ParsedExpr where
  source := "x.p + x.p"
  root := .binary ⟨0, 9⟩ .add (.field ⟨0, 3⟩ (.ident ⟨0, 1⟩ "x") "p")
    (.field ⟨6, 9⟩ (.ident ⟨6, 7⟩ "x") "p")
  base := 0

/-- A property is observable in one class and not in another one. -/
def mixed : Registry where
  classes := #[
    { name := "A", superclass := none, properties := [⟨.class ⟨0⟩, "p", .prim .int, observable⟩] },
    { name := "B", superclass := none, properties := [⟨.class ⟨1⟩, "p", .prim .int, { accessible := true }⟩] }]
  names := [("A", .class ⟨0⟩), ("B", .class ⟨1⟩)]

def mixedContext : CompileContext := { model := mixed.model }

/-- The host frame holds an object of the second class. -/
def plainBox : World where
  objects := #[{ cls := ⟨1⟩, label := "b", slots := [("p", .plain (.int 1))] }]
  frame := [.object ⟨0⟩]

theorem conforms_plainBox : plainBox.Conforms mixed mixed.answer := by
  have hclass {o : ObjectId} {d : ClassId} (h : plainBox.classOf o = some d) : o = ⟨0⟩ ∧ d = ⟨1⟩ := by
    obtain ⟨_ | o⟩ := o
    · exact ⟨rfl, (Option.some.inj h).symm⟩
    · cases h
  refine ⟨fun o property c h ↦ ?_, fun o d c name p hd hc hp hobs ↦ ?_,
    fun o d c name p hd hc hp _ ↦ ?_, fun f hf ↦ ?_, fun d hd ↦ ?_⟩
  · rw [World.observable?_eq_some] at h
    obtain ⟨_ | o⟩ := o
    · have hslot : List.lookup property [("p", Slot.plain (.int 1))] = some (.observable c) := h
      simp only [List.lookup_cons] at hslot
      split at hslot <;> cases hslot
    · simp [plainBox, World.slot?, World.object?] at h
  · obtain ⟨rfl, rfl⟩ := hclass hd
    obtain rfl := eq_of_isSubclass rfl hc
    obtain rfl := property_eq (by decide) rfl hp
    cases hobs
  · obtain ⟨rfl, rfl⟩ := hclass hd
    obtain rfl := eq_of_isSubclass rfl hc
    obtain rfl := property_eq (by decide) rfl hp
    rintro _ ⟨⟩
    exact ⟨.int 1, rfl, rfl⟩
  · simp [mixed] at hf
  · simp [mixed] at hd

end Sample

open Sample in
theorem instantiate_eq_evaluate_picked :
    let tree := treeOf pickingContext scope pickedSum
    ∃ N, ∀ fuel ≥ N, (evaluate picking fuel (routineOf tree) (box 1)).1 ≠ .error .exhausted ∧
      (instantiate picking fuel (bindingOf pickingContext tree).artifact (box 1)).1 =
        (evaluate picking fuel (routineOf tree) (box 1)).1 ∧
      creationCalls picking fuel (bindingOf pickingContext tree).artifact (box 1) =
        evaluationCalls picking fuel (routineOf tree) (box 1) :=
  instantiate_eq_evaluate (treeOf_eq (by decide +kernel)) (by decide +kernel)
    (bindingOf_eq (by decide +kernel)) rfl (routineOf_eq (by decide +kernel)) rfl (serves_box 1)
    (listening_box 1 _)

open Sample in
/-- A name that is loaded by a call is loaded once by a binding that captures it, and each time it is
read by code that reads everything. An object that is not of the declared class can keep a property
elsewhere than the class declares it. -/
theorem instantiate_ne_evaluate_calling :
    (let tree := treeOf pickingContext (Scope.empty.bind calling) doubled
    pickingContext.buildTree (Scope.empty.bind calling) doubled = .ok tree ∧
      tree.root.info.evaluable ∧ ¬tree.isStatic ∧
      pickingContext.compileArtifact tree none = .ok (bindingOf pickingContext tree) ∧
      (StaticBinding.mk tree.ty tree.root.renderDirect).routine = .ok (routineOf tree) ∧
      (box 1).Conforms picking picking.answer ∧
      picking.Functional (box 1).objects picking.answer ∧
      (∀ update fuel binding stack, ∃ events, (calling.load.run picking update (fuel + 2)
        { locals := (box 1).frame, binding } none { world := box 1, stack }) =
          ⟨[⟨⟨0⟩, [.object ⟨0⟩], .ok (.object ⟨0⟩)⟩], .ok (),
            { world := { box 1 with events }, stack := .object ⟨0⟩ :: stack }⟩) ∧
      (instantiate picking 60 (bindingOf pickingContext tree).artifact (box 1)).1 = .ok (.int 2) ∧
      (evaluate picking 60 (routineOf tree) (box 1)).1 = .ok (.int 2) ∧
      (creationCalls picking 60 (bindingOf pickingContext tree).artifact (box 1)).length = 1 ∧
      (evaluationCalls picking 60 (routineOf tree) (box 1)).length = 2) ∧
    (let tree := treeOf mixedContext scope ⟨"x.p", .field ⟨0, 3⟩ (.ident ⟨0, 1⟩ "x") "p", 0⟩
    mixedContext.buildTree scope ⟨"x.p", .field ⟨0, 3⟩ (.ident ⟨0, 1⟩ "x") "p", 0⟩ = .ok tree ∧
      tree.root.info.evaluable ∧ ¬tree.isStatic ∧
      mixedContext.compileArtifact tree none = .ok (bindingOf mixedContext tree) ∧
      (StaticBinding.mk tree.ty tree.root.renderDirect).routine = .ok (routineOf tree) ∧
      plainBox.Conforms mixed mixed.answer ∧ mixed.Functional plainBox.objects mixed.answer ∧
      (instantiate mixed 60 (bindingOf mixedContext tree).artifact plainBox).1 =
        .error (.error (.noSuchMember "p")) ∧
      (evaluate mixed 60 (routineOf tree) plainBox).1 = .ok (.int 1)) := by
  refine ⟨⟨treeOf_eq (by decide +kernel), by decide +kernel, by decide +kernel,
    bindingOf_eq (by decide +kernel), routineOf_eq (by decide +kernel), conforms_box 1,
    functional_picking _, fun _ _ _ _ ↦ ⟨_, rfl⟩, by decide +kernel, by decide +kernel,
    by decide +kernel, by decide +kernel⟩, ⟨treeOf_eq (by decide +kernel), by decide +kernel,
    by decide +kernel, bindingOf_eq (by decide +kernel), routineOf_eq (by decide +kernel),
    conforms_plainBox, ?_, by decide +kernel, by decide +kernel⟩⟩
  exact Registry.functional (fun d hd ↦ absurd hd (by simp [mixed])) _

end LiveBinding
