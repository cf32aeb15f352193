import LiveBinding.Proofs.Tame

namespace LiveBinding

open Exec Fragment

theorem Reading.guarded_answer (rd : Reading) (m : MethodId) {args : List Value}
    (h : ∀ v ∈ args, v.isCell = false) : rd.guarded.answer m args = rd.answer m args :=
  if_neg (by simpa using h)

theorem Reading.guarded_text (rd : Reading) {v : Value} (h : v.isCell = false) :
    rd.guarded.text v = rd.text v := if_neg (by simp [h])

namespace World

variable {r : Registry} {answer : MethodId → List Value → Except RuntimeError Value} {w w' : World}

theorem Conforms.guarded_plain (h : w.Conforms r answer) (locals : List Value) (captures : Array Value)
    {o : ObjectId} {d c : ClassId} {name : String} {p : PropertyInfo} (hd : w.classOf o = some d)
    (hc : r.model.isSubclass d c) (hp : r.model.property (.class c) name = some p)
    (hobs : p.flags.observable = false) :
    (w.reading r (asked answer) locals captures).guarded.property o p.name =
      (w.reading r (asked answer) locals captures).property o p.name := by
  have hcell : ((w.reading r (asked answer) locals captures).cell o p.name).isOk = false := by
    simp only [World.reading, h.observable?_plain hd hc hp hobs]
    rfl
  exact if_neg (by simp [hcell])

/-- Of a host that conforms the guarded reading reads all that is declared. -/
theorem Conforms.guarded_reading (h : w.Conforms r answer) (locals : List Value)
    (captures : Array Value) :
    (w.reading r (asked answer) locals captures).guarded.Conforms w.classOf (· ≠ .exhausted) := by
  have hrd := h.reading locals captures
  refine ⟨hrd.benign, fun v hv ↦ ?_, hrd.observed, fun o d c name p hd hc hp hobs ↦ ?_, hrd.enums,
    hrd.statics, fun d hd args ha ↦ ?_⟩
  · exact (Reading.guarded_text _ hv).symm ▸ hrd.text v hv
  · rw [h.guarded_plain locals captures hd hc hp hobs]
    exact hrd.plain o d c name p hd hc hp hobs
  · rw [Reading.guarded_answer _ _ ha.isCell]
    exact hrd.answers d hd args ha

/-- So it agrees with the plain one on all that is declared. -/
theorem Conforms.agrees_guarded (h : w.Conforms r answer) (locals locals' : List Value)
    (captures captures' : Array Value) :
    (w.reading r (asked answer) locals captures).Agrees
      (w.reading r (asked answer) locals' captures').guarded w.classOf where
  registry := rfl
  text _ hv := Reading.guarded_text _ hv
  cell := rfl
  value := rfl
  plain o d c name p hd hc hp hobs := by
    exact h.guarded_plain locals captures hd hc hp hobs
  answer m _ hargs := Reading.guarded_answer _ m hargs

/-- The worlds that a world comes to if its objects stay as they are and conform. -/
def Around (r : Registry) (answer : MethodId → List Value → Except RuntimeError Value)
    (w w' : World) : Prop :=
  w'.Conforms r answer ∧ w'.objects = w.objects ∧ w'.names = w.names

theorem around_modifyCell (c : CellId) (f : Cell → Cell) :
    (w.modifyCell c f).Around r answer = w.Around r answer := rfl

/-- What lives in a host does not get into the way of a new binding: no cell of a property is locked,
other bindings publish to cells of their own and listen for themselves, and the listeners of the host
write only observable properties, with values that these take. -/
structure Orderly (r : Registry) (answer : MethodId → List Value → Except RuntimeError Value)
    (w : World) : Prop where
  unlocked : ∀ o p c cell, w.observable? o p = some c → w.cell? c = some cell → cell.lockDepth = 0
  published : ∀ j s, w.instance? j = some s →
    s.result.index < w.cells.size ∧ ∀ o p, w.observable? o p ≠ some s.result
  known : ∀ c cell j k, w.cell? c = some cell → .binding j k ∈ cell.listeners → j.index < w.instances.size
  harmless : ∀ c cell action, w.cell? c = some cell → .callback action ∈ cell.listeners →
    ∀ w', w.Around r answer w' → (action (w'.cellValue c)).Tame r (w.Around r answer) fun _ ↦ True

/-- A host in which a binding can be made that is told of every change: the names of a scope are loaded,
and what lives there does not get into the way. -/
structure Admits (r : Registry) (answer : MethodId → List Value → Except RuntimeError Value)
    (scope : Scope) (env : Loadable → Value) (w : World) : Prop extends w.Suits r answer scope env,
    w.Orderly r answer where
  gives : ∀ name l, scope.lookup? name = some (.bound l) → l.Gives r answer w.frame w.SameHeap (env l)

/-- A host in which a binding can be kept up to date: what the names of a scope stand for does not
depend on what cells hold, and what lives there does not get into the way. -/
structure Offers (r : Registry) (answer : MethodId → List Value → Except RuntimeError Value)
    (scope : Scope) (env : Loadable → Value) (w : World) : Prop extends w.Suits r answer scope env,
    w.Orderly r answer where
  steady : ∀ name l, scope.lookup? name = some (.bound l) →
    l.Gives r answer w.frame (·.objects = w.objects) (env l)

/-- Whether that holds of a host without listeners of its own can be computed. -/
def isOrderly (w : World) : Bool :=
  w.cells.all (fun cell ↦ cell.lockDepth == 0 && cell.listeners.all fun l ↦ match l with
    | .binding j _ => decide (j.index < w.instances.size)
    | .callback _ => false) &&
  w.instances.all fun s ↦ decide (s.result.index < w.cells.size) &&
    w.objects.all fun o ↦ o.slots.all fun e ↦ match e.2 with
      | .observable c => c != s.result
      | .plain _ => true

theorem orderly_of_isOrderly (h : w.isOrderly) : w.Orderly r answer := by
  simp only [isOrderly, Bool.and_eq_true, Array.all_eq_true_iff_forall_mem, List.all_eq_true,
    beq_iff_eq, decide_eq_true_eq] at h
  obtain ⟨hcells, hinstances⟩ := h
  have hmem {c : CellId} {cell : Cell} (hc : w.cell? c = some cell) : cell ∈ w.cells :=
    Array.mem_of_getElem? hc
  refine ⟨fun o p c cell _ hc ↦ (hcells cell (hmem hc)).1, fun j s hs ↦ ?_, fun c cell j k hc hl ↦ ?_,
    fun c cell action hc hl ↦ ?_⟩
  · obtain ⟨hlt, hslots⟩ := hinstances s (Array.mem_of_getElem? hs)
    refine ⟨hlt, fun o p hp ↦ ?_⟩
    obtain ⟨object, ho, hslot⟩ := Option.bind_eq_some_iff.mp (observable?_eq_some.mp hp)
    obtain ⟨before, after, hsplit, -⟩ := List.lookup_eq_some_iff.mp hslot
    have hne := hslots object (Array.mem_of_getElem? ho) (p, .observable s.result) (by simp [hsplit])
    simp at hne
  · simpa using (hcells cell (hmem hc)).2 _ hl
  · simpa using (hcells cell (hmem hc)).2 _ hl

/-- A listener may be added that writes only what it may. -/
theorem Orderly.addListener (h : w.Orderly r answer) {c : CellId} {action : Value → Action Unit}
    (ha : ∀ w', w.Around r answer w' → (action (w'.cellValue c)).Tame r (w.Around r answer) fun _ ↦ True) :
    (w.modifyCell c (·.addListener (.callback action))).Orderly r answer := by
  have hold {d : CellId} {cell : Cell}
      (hd : (w.modifyCell c (·.addListener (.callback action))).cell? d = some cell) :
      ∃ cell₀, w.cell? d = some cell₀ ∧ cell.lockDepth = cell₀.lockDepth ∧
        ∀ l ∈ cell.listeners, l ∈ cell₀.listeners ∨ c = d ∧ l = .callback action := by
    rw [cell?_modifyCell] at hd
    split at hd
    · next hcd =>
      obtain ⟨cell₀, hd₀, rfl⟩ := Option.map_eq_some_iff.mp hd
      exact ⟨cell₀, hd₀, rfl, fun l hl ↦
        (List.mem_append.mp hl).imp_right fun h ↦ ⟨hcd, List.mem_singleton.mp h⟩⟩
    · exact ⟨cell, hd, rfl, fun _ ↦ .inl⟩
  refine ⟨fun o p d cell hp hd ↦ ?_, fun j s hs ↦ ?_, fun d cell j k hd hl ↦ ?_, fun d cell a hd hl ↦ ?_⟩
  · obtain ⟨cell₀, hd₀, hdepth, -⟩ := hold hd
    exact hdepth.trans (h.unlocked o p d cell₀ hp hd₀)
  · obtain ⟨hlt, hslot⟩ := h.published j s hs
    exact ⟨by simpa [modifyCell] using hlt, hslot⟩
  · obtain ⟨cell₀, hd₀, -, hlisteners⟩ := hold hd
    exact h.known d cell₀ j k hd₀ ((hlisteners _ hl).resolve_right (by simp))
  · obtain ⟨cell₀, hd₀, -, hlisteners⟩ := hold hd
    obtain hl | ⟨rfl, hl⟩ := hlisteners _ hl
    · exact h.harmless d cell₀ a hd₀ hl
    · cases hl
      exact ha

/-- Nobody listens for a binding that is not there yet. -/
theorem Orderly.listening (h : w.Orderly r answer) (k : Nat) (c : CellId) :
    w.listening ⟨w.instances.size⟩ k c = 0 := by
  rw [World.listening]
  cases hc : w.cell? c with
  | none => rfl
  | some cell =>
    rw [Option.map_some, Option.getD_some, List.countP_eq_zero]
    intro l hl hown
    rw [Listener.eq_binding_of_isBinding hown] at hl
    exact Nat.lt_irrefl _ (h.known c cell _ k hc hl)

variable {scope : Scope} {env : Loadable → Value}

namespace Admits

variable (h : w.Admits r answer scope env)
include h

/-- The names of the scope stand for the same as long as the objects stay. -/
theorem suits_of_objects (hw : w'.Conforms r answer) (ho : w'.objects = w.objects) :
    w'.Suits r answer scope env where
  conforms := hw
  functional := ho ▸ h.functional
  typed := by
    have hclass : w'.classOf = w.classOf := by
      funext o
      simp only [World.classOf, World.object?, ho]
    exact hclass ▸ h.typed
  shared := h.shared

end Admits

namespace Offers

variable (h : w.Offers r answer scope env)
include h

theorem admits : w.Admits r answer scope env where
  toSuits := h.toSuits
  toOrderly := h.toOrderly
  gives name l hl := ⟨(h.steady name l hl).plain, fun _ hw ↦ (h.steady name l hl).turns _ hw.objects⟩

/-- A listener may be added that writes only what it may. -/
theorem addListener {c : CellId} {action : Value → Action Unit}
    (ha : ∀ w', w.Around r answer w' → (action (w'.cellValue c)).Tame r (w.Around r answer) fun _ ↦ True) :
    (w.modifyCell c (·.addListener (.callback action))).Offers r answer scope env where
  conforms := by
    refine h.conforms.of_eq rfl (fun _ _ x _ ↦ ?_) fun o p d hd ↦ ?_
    · exact congrFun (cellValue_modifyCell (·.addListener (.callback action)) (fun _ ↦ rfl) w c) x
    · simpa [modifyCell] using h.conforms.exist o p d hd
  functional := h.functional
  typed := h.typed
  shared := h.shared
  toOrderly := h.toOrderly.addListener ha
  steady := h.steady

theorem loads_of_objects (ho : w'.objects = w.objects) (hf : w'.frame = w.frame) :
    scope.Loads False (w'.reading r (asked answer) w'.frame #[]) env := fun name l hl σ ↦
  hf ▸ (h.steady name l hl).turns w' ho σ

end Offers

end World

/-- The binding that is made for a node in a host whose methods may be other ones. -/
def Node.deploy (n : Node) {c : Fragment} {layout : FlagLayout} {artifact : Artifact}
    (compiles : Compiles (n.render .resumable .start).1 c (n.render .resumable .start).2 layout artifact)
    (ordered : Ordered .start (n.render .resumable .start).1 (n.render .resumable .start).2)
    (few : (n.render .resumable .start).1.points.length < 2 ^ 31) (registry : Registry)
    (methods : Array MethodDef) (model : Registry.model { registry with methods } = registry.model)
    (answer : MethodId → List Value → Except RuntimeError Value) (env : Loadable → Value) (w : World) :
    Deployment where
  registry; methods; answer
  objects := w.objects
  frame := w.frame
  names := w.names
  body := (n.render .resumable .start).1
  coercion := c
  rendered := (n.render .resumable .start).2
  layout; artifact
  captures := ((n.render .resumable .start).2.storage.captured.map env).toArray
  id := ⟨w.instances.size⟩
  result := ⟨w.cells.size⟩
  compiles; ordered; few; model

section

variable {cx : BuildContext} {env : Loadable → Value} {r : Registry} {w w' : World} {n : Node}
variable {answer : MethodId → List Value → Except RuntimeError Value} {c : Fragment} {ty : Ty}
variable (hw : w.Admits r answer cx.scope env) (hm : cx.model = r.model) (hn : IsOperand cx n)
variable (hc : c.Coerces r n.ty ty) {layout : FlagLayout} {artifact : Artifact}
variable (compiles : Compiles (n.render .resumable .start).1 c (n.render .resumable .start).2 layout
  artifact) (ordered : Ordered .start (n.render .resumable .start).1 (n.render .resumable .start).2)
variable (few : (n.render .resumable .start).1.points.length < 2 ^ 31) {methods : Array MethodDef}
variable (model : Registry.model { r with methods } = r.model) {D : Deployment}
variable (hD : D = n.deploy compiles ordered few r methods model answer env w)

include hw hm hn hc hD

/-- What the code of a binding means in a host that has conformed all along. -/
theorem Node.deploy_turns (hw' : w'.Conforms r answer) (ho : w'.objects = w.objects) :
    D.code.Turns True (D.reading w') [] (fun v ↦ [v]) (n.meaning r answer env w' c) := by
  subst hD
  exact (hw.suits_of_objects hw' ho).turns_reading hm hn hc (hw'.guarded_reading ..) (hw'.agrees_guarded ..) rfl

theorem Node.deploy_determined : D.Determined := by
  intro w' hw' ho st
  -- what the host frame holds does not matter to the code of a binding
  let w₁ : World := { w' with frame := w.frame }
  have ho' : w'.objects = w.objects := by rw [hD] at ho; exact ho
  have hw₁ : w₁.Conforms r answer := by
    rw [hD] at hw'
    exact World.Conforms.of_eq hw' rfl (fun _ _ _ _ ↦ rfl) hw'.exist
  have hturns := Node.deploy_turns hw hm hn hc compiles ordered few model hD hw₁ ho' st
  have hreading : D.reading w₁ = D.reading w' := D.reading_eq rfl rfl
  have hyields := (hw.suits_of_objects hw₁ ho').yields hm hn hc
  rw [hreading] at hturns
  refine ⟨fun he ↦ hyields.2 _ (hturns.of_left_error he) rfl, fun c hc ↦ ?_⟩
  obtain ⟨v, -, hstack⟩ := hturns.of_left_ok hc
  exact ⟨v, hstack⟩

omit hm hn hc in
/-- What lives in the host surrounds the new binding. -/
theorem Node.deploy_hosts (events : Array Event) : D.Hosts (({ w with events }).capturing
    artifact ((n.render .resumable .start).2.storage.captured.map env)) := by
  have hconforms := hw.conforms
  have hcell {c : CellId} {cell : Cell} (h : (({ w with events }).capturing artifact
      ((n.render .resumable .start).2.storage.captured.map env)).cell? c = some cell) :=
    @World.cell?_addInstance { w with events } artifact _ _ h
  subst hD
  refine ⟨rfl, rfl, rfl, ?_, fun o p d h ↦ ?_, fun o p d cell h hd ↦ ?_, fun j t ht hj ↦ ?_,
    fun d cell action hd ha ↦ ?_⟩
  · refine World.sameHeap_capturing.conforms (w := { w with events })
      (hconforms.of_eq rfl (fun _ _ _ _ ↦ rfl) hconforms.exist) fun o p d h ↦ ?_
    refine Nat.lt_of_lt_of_le (hconforms.exist o p d h) ?_
    show w.cells.size ≤ (w.cells.push _).size
    simp
  · rintro rfl
    exact Nat.lt_irrefl _ (hconforms.exist o p _ h)
  · obtain ⟨rfl, rfl⟩ | hd := hcell hd
    · rfl
    · exact hw.unlocked o p d cell h hd
  · have ht : ((({ w with events } : World).addInstance artifact).put ⟨w.instances.size⟩ _).instance? j =
        some t := ht
    rw [World.instance?_put_of_ne (show j ≠ ⟨w.instances.size⟩ from hj)] at ht
    obtain ⟨rfl, -⟩ | ht := World.instance?_addInstance ht
    · exact absurd rfl hj
    obtain ⟨hlt, hslot⟩ := hw.published j t ht
    refine ⟨fun heq ↦ ?_, hslot⟩
    rw [heq] at hlt
    exact Nat.lt_irrefl _ hlt
  · obtain ⟨rfl, rfl⟩ | hd := hcell hd
    · cases ha
    · exact fun w' hw' ↦ Deployment.tame_host _ (hw.harmless d cell action hd ha w' hw')

omit hm hn hc in
/-- Once the names are captured, everything is left to the first update. -/
theorem Node.deploy_pending (events : Array Event) : D.Pending True [0] (({ w with events }).capturing
    artifact ((n.render .resumable .start).2.storage.captured.map env)) := by
  have hfresh : ∀ k c, ({ w with events } : World).listening ⟨w.instances.size⟩ k c = 0 := hw.listening
  have ht := (Tracks.start compiles.wellPlaced hfresh).capturing
    ((n.render .resumable .start).2.storage.captured.map env)
  have hhosts := Node.deploy_hosts hw compiles ordered few model hD events
  subst hD
  exact ⟨_, fun _ ↦ none, .null, [], { hhosts with
    tracks := ht, listens := nofun, captures := rfl, result := rfl, alive := rfl, requests := nofun },
    fun _ ↦ rfl, World.cell?_result, .inl List.mem_cons_self⟩

/-- Making the binding settles it, if the names are captured at first. -/
theorem Node.deploy_created (hcalm : D.Calm) {fuel : Nat} {events : Array Event}
    (hinit : runInit D.host fuel ⟨w.instances.size⟩ artifact (w.addInstance artifact) =
      updateInstance D.host fuel ⟨w.instances.size⟩ 0 (({ w with events }).capturing artifact
        ((n.render .resumable .start).2.storage.captured.map env))) {i : InstanceId}
    (hrun : createInstance D.host fuel artifact w = (.ok i, w')) : i = D.id ∧ D.Pending True [] w' := by
  have hd := Node.deploy_determined hw hm hn hc compiles ordered few model hD
  have hpending := Node.deploy_pending hw compiles ordered few model hD events
  have hstart := Deployment.Evaluates.start hcalm.peaceful hd (hcalm.evaluates hd) fuel _ hpending
  have hid : D.id = ⟨w.instances.size⟩ := by rw [hD]; rfl
  rw [hid] at hstart ⊢
  rw [createInstance_eq, hinit] at hrun
  rcases hx : updateInstance D.host fuel ⟨w.instances.size⟩ 0 _ with ⟨x | x, w₁⟩ <;> rw [hx] at hrun hstart
  · cases hrun
  · cases hrun
    exact ⟨rfl, hstart⟩

/-- A settled binding holds the value of its expression, and no request waits. -/
theorem Node.deploy_value (h : D.Pending True [] w') :
    (∃ s, w'.instance? D.id = some s ∧ s.queued = []) ∧
      ∃ v, (w'.valueOf D.id).same v ∧ (n.meaning r answer env w' c).result = .ok v := by
  have hd := Node.deploy_determined hw hm hn hc compiles ordered few model hD
  obtain ⟨s, on, v, ls, u, hs, hq, hcell, hu, hden⟩ := h.settled hd
  refine ⟨⟨s, hs.tracks.found, hq⟩, u, ?_, ?_⟩
  · have hvalue : w'.valueOf D.id = v := by
      simp only [World.valueOf, World.resultCell?, hs.tracks.found, Option.map_some, hs.result,
        Option.getD_some, World.cellValue, hcell]
    rwa [hvalue]
  · have hturns := Node.deploy_turns hw hm hn hc compiles ordered few model hD
      (by rw [hD] at hs; exact hs.conforms) (by rw [hD] at hs; exact hs.objects) (D.store s)
    obtain ⟨u', hu', hstack⟩ := hturns.of_left_ok hden
    cases hstack
    exact hu'

end

/-- Some observable properties are set to values that they take, one after the other, and every time
that ends well. -/
inductive World.Sets (r : Registry) (w : World) : World → Prop
  | none : Sets r w w
  | set {w' w'' : World} {fuel : Nat} {o : ObjectId} {property : String} {c : CellId} {v : Value} :
    Sets r w w' → w'.observable? o property = some c → w'.Accepts r c v →
    setProperty r fuel o property v w' = (.ok (), w'') → Sets r w w''

/-- Methods that write nothing are calm. -/
theorem Registry.Functional.calm {D : Deployment} {r : Registry} {objects : Array HostObject}
    {answer : MethodId → List Value → Except RuntimeError Value} (h : r.Functional objects answer)
    (hregistry : D.registry = r) (hmethods : D.methods = r.methods) (hanswer : D.answer = answer)
    (hobjects : D.objects = objects) : D.Calm := by
  subst hregistry hanswer hobjects
  refine D.calm_of_functional ?_
  rwa [Deployment.host, hmethods]

theorem Deployment.sets {D : Deployment} {w w' : World} (hcalm : D.Calm) (hd : D.Determined)
    (h : D.Pending True [] w) (hs : w.Sets D.host w') : D.Pending True [] w' := by
  induction hs with
  | none => exact h
  | @set w₁ w₂ fuel o property c v _ hslot hv hrun ih =>
    have hset := Evaluates.set hcalm.peaceful hd (hcalm.evaluates hd) fuel o property v w₁
      ⟨ih, c, hslot, hv.of_model D.model.symm⟩
    rwa [hrun] at hset

section

variable {cx : CompileContext} {scope : Scope} {parsed : ParsedExpr} {tree : Tree}
variable {target : Option BindingTarget} {b : DynamicBinding} {t : StaticBinding} {R : Routine}
variable {r : Registry} {env : Loadable → Value} {w w' w'' : World} {fuel : Nat} {i : InstanceId}
variable (htree : cx.buildTree scope parsed = .ok tree) (hdynamic : ¬tree.isStatic)
variable (hcompile : cx.compileArtifact tree target = .ok b) (hfew : tree.root.monitoring < 2 ^ 31)
variable (hrender : cx.renderStatic tree (target.map BindingTarget.ty) = .ok t) (hR : t.routine = .ok R)
variable (hmodel : cx.model = r.model)
variable {answer : MethodId → List Value → Except RuntimeError Value}

include htree

include hdynamic hrender hR in
/-- What evaluates the expression of a dynamic binding every time converts the value as the binding does. -/
theorem CompileContext.Targets.assembles {c : Fragment}
    (hc : Targets cx tree (target.map BindingTarget.ty) c) :
    Assembler.Assembles (((tree.root.renderDirect ++ c).emit none .empty).emit .return) R := by
  have hlit : tree.root.literal? = none := Node.Resolved.literal?_eq_none (Tree.build_resolved htree).1
    (by simpa [Tree.isStatic] using hdynamic)
  obtain ⟨-, c', hc', hassembles⟩ := CompileContext.routine_eq hrender hlit hR
  obtain rfl := hc.unique hc'
  exact hassembles

include hcompile hfew hmodel

/-- Making a binding deploys the root of its tree, and it is settled after some properties were set, if
methods are calm. -/
theorem pending_after_sets (hw : w.Admits r answer scope env) {methods : Array MethodDef}
    (hmethods : Registry.model { r with methods } = r.model)
    (hcalm : ∀ D : Deployment, D.registry = r → D.methods = methods → D.answer = answer →
      D.objects = w.objects → D.names = w.names → D.Calm)
    (hcalls : methods = r.methods ∨
      ∀ name l, scope.lookup? name = some (.bound l) → l.load.isSilent)
    (hcreate : createInstance { r with methods } fuel b.artifact w = (.ok i, w'))
    (hsets : w'.Sets { r with methods } w'') :
    ∃ c ty layout, CompileContext.Targets cx tree (target.map BindingTarget.ty) c ∧
      c.Coerces r tree.root.ty ty ∧
      ∃ (compiles : Compiles (tree.root.render .resumable .start).1 c
            (tree.root.render .resumable .start).2 layout b.artifact)
          (ordered : Ordered .start (tree.root.render .resumable .start).1
            (tree.root.render .resumable .start).2)
          (few : (tree.root.render .resumable .start).1.points.length < 2 ^ 31) (D : Deployment),
        D = tree.root.deploy compiles ordered few r methods hmethods answer env w ∧ i = D.id ∧
          D.Pending True [] w'' := by
  have hn := Tree.build_resolved htree
  obtain ⟨c, hc, -, hcompiles⟩ := CompileContext.compileArtifact_eq hcompile
    (Node.Resolved.isPlain tree.root hn.1)
  have hcoerces := hc.coerces hmodel
  have hlength := Node.length_points tree.root hn.1 .start
  have hordered := tree.root.ordered hn.1 .start
  obtain ⟨D, hD⟩ : ∃ D, D = tree.root.deploy hcompiles hordered (hlength ▸ hfew) r methods hmethods answer
    env w := ⟨_, rfl⟩
  have hd := Node.deploy_determined hw hmodel hn hcoerces hcompiles hordered _ hmethods hD
  have hcalm : D.Calm := by
    subst hD
    exact hcalm _ rfl rfl rfl rfl rfl
  have hhost : D.host = { r with methods } := by rw [hD]; rfl
  have hin : Node.InScope ⟨cx.model, scope, parsed, cx.fold⟩ (tree.root.render .resumable .start).2 :=
    Node.Resolved.inScope tree.root hn.1 .start fun l hl ↦ absurd hl List.not_mem_nil
  obtain ⟨events, hinit⟩ := hcompiles.runInit_gives (W := w.SameHeap) hw.listening hw.functional
    World.sameHeap_addInstance
    (by
      rw [List.forall₂_map_right_iff, List.forall₂_same]
      intro l hl
      obtain ⟨name, hname⟩ := hin l hl
      exact hw.gives name l hname)
    (hcalls.imp id fun hsilent l hl ↦ (hin l hl).elim fun name hname ↦ hsilent name l hname)
    (.inr (by rw [hcreate]; simp))
  obtain ⟨rfl, hpending⟩ := Node.deploy_created hw hmodel hn hcoerces hcompiles hordered _ hmethods hD hcalm
    (hhost ▸ hinit) (hhost ▸ hcreate)
  exact ⟨c, _, _, hc, hcoerces, hcompiles, hordered, _, D, hD, rfl,
    Deployment.sets hcalm hd hpending (hhost ▸ hsets)⟩

include hdynamic hrender hR

/-- After some properties were set a binding holds what evaluating its expression gives, and no request
waits, if methods are calm. -/
theorem settled_after_sets (hw : w.Offers r answer scope env) {methods : Array MethodDef}
    (hmethods : Registry.model { r with methods } = r.model)
    (hcalm : ∀ D : Deployment, D.registry = r → D.methods = methods → D.answer = answer →
      D.objects = w.objects → D.names = w.names → D.Calm)
    (hcalls : methods = r.methods ∨
      ∀ name l, scope.lookup? name = some (.bound l) → l.load.isSilent)
    (hcreate : createInstance { r with methods } fuel b.artifact w = (.ok i, w'))
    (hsets : w'.Sets { r with methods } w'') :
    (∃ s, w''.instance? i = some s ∧ s.queued = []) ∧
      ∃ v, (w''.valueOf i).same v ∧ ∃ N, ∀ fuel ≥ N, (evaluate r fuel R w'').1 = .ok v := by
  have hn := Tree.build_resolved htree
  obtain ⟨c, ty, layout, htargets, hcoerces, hcompiles, hordered, few, D, hD, rfl, hpending⟩ :=
    pending_after_sets htree hcompile hfew hmodel hw.admits hmethods hcalm hcalls hcreate hsets
  have hassembles := htargets.assembles htree hdynamic hrender hR
  obtain ⟨hqueue, v, hsame, hv⟩ := Node.deploy_value hw.admits hmodel hn hcoerces hcompiles hordered few hmethods
    hD hpending
  obtain ⟨s, on, u, ls, hs, -⟩ := hpending
  have hconforms := hs.conforms
  have hobjects := hs.objects
  have hframe := hs.frame
  rw [hD] at hconforms hobjects hframe
  obtain ⟨N, hN⟩ := (hw.admits.suits_of_objects hconforms hobjects).evaluate_eq hmodel hn hcoerces
    (hw.loads_of_objects hobjects hframe) (fun name l hl ↦ (hw.steady name l hl).plain) hassembles
  exact ⟨hqueue, v, hsame, N, fun fuel hfuel ↦ ((hN fuel (.inl hfuel)).1).trans hv⟩

end

namespace Sample

/-- A listener that does not let the number in a box get below zero. -/
def flooring (o : ObjectId) : Value → Action Unit
  | .int n => if n < 0 then .set o "p" (.int 0) (.done ()) else .done ()
  | _ => .done ()

/-- It writes what the number in the box can be. -/
theorem offers_flooring {r : Registry} {answer : MethodId → List Value → Except RuntimeError Value}
    {scope : Scope} {env : Loadable → Value} {w : World} (h : w.Offers r answer scope env) {o : ObjectId}
    {c : CellId} (hc : w.observable? o "p" = some c) (hzero : w.takes r c (.int 0)) :
    (w.modifyCell c (·.addListener (.callback (flooring o)))).Offers r answer scope env := by
  refine h.addListener fun w' _ ↦ ?_
  generalize w'.cellValue c = v
  unfold flooring
  split
  · split
    · refine ⟨?_, trivial⟩
      rintro w ⟨-, hobjects, -⟩
      exact ⟨c, (World.observable?_of_objects hobjects o "p").trans hc,
        (World.accepts_of_takes hzero).of_objects hobjects⟩
    · trivial
  · trivial

theorem compiled_pickedSum : Compiled pickingContext scope pickedSum := compiled_of (by decide +kernel)

/-- The code of a binding of the sum. -/
def pickedArtifact : Artifact := (bindingOf pickingContext (treeOf pickingContext scope pickedSum)).artifact

/-- A box whose number is summed up by a binding already. -/
def summed : World := (createInstance picking 60 pickedArtifact (box 1)).2

/-- Besides that a listener writes the number. -/
def tenanted : World := summed.modifyCell ⟨0⟩ (·.addListener (.callback (flooring ⟨0⟩)))

/-- Another binding of the sum. -/
def renewed : World := (createInstance picking 60 pickedArtifact tenanted).2

/-- After that the number in the box was set, and set again by the listener. -/
def changed : World := (setProperty picking 60 ⟨0⟩ "p" (.int (-5)) renewed).2

theorem summed_eq : summed.isOrderly ∧ summed.isDeclared picking ∧ summed.frame = [.object ⟨0⟩] ∧
    summed.classOf ⟨0⟩ = some ⟨0⟩ ∧ summed.observable? ⟨0⟩ "p" = some ⟨0⟩ ∧
    summed.takes picking ⟨0⟩ (.int 0) := by decide +kernel

theorem offers_summed : summed.Offers picking picking.answer scope fun _ ↦ .object ⟨0⟩ := by
  obtain ⟨horderly, hdeclared, hframe, hclass, -, -⟩ := summed_eq
  have hconforms := (World.declared_of_isDeclared hdeclared).conforms (answers_picking _)
  exact {
    toSuits := (serves_scope hconforms hframe hclass).suits
    toOrderly := World.orderly_of_isOrderly horderly
    steady := fun _ _ ↦ gives_scope hframe }

theorem offers_tenanted : tenanted.Offers picking picking.answer scope fun _ ↦ .object ⟨0⟩ := by
  obtain ⟨-, -, -, -, hslot, hzero⟩ := summed_eq
  exact offers_flooring offers_summed hslot hzero

theorem runs_changed : (createInstance picking 60 pickedArtifact tenanted).1 = .ok ⟨1⟩ ∧
    renewed.observable? ⟨0⟩ "p" = some ⟨0⟩ ∧ renewed.takes picking ⟨0⟩ (.int (-5)) ∧
    (setProperty picking 60 ⟨0⟩ "p" (.int (-5)) renewed).1 = .ok () ∧ changed.valueOf ⟨1⟩ = .int 0 ∧
    (changed.cell? ⟨0⟩).map (·.subscriptions ⟨1⟩) = some 2 := by decide +kernel

theorem renewed_eq : createInstance picking 60 pickedArtifact tenanted = (.ok ⟨1⟩, renewed) := by
  rw [renewed]
  exact Prod.fst_eq_iff.mp runs_changed.1

theorem sets_changed : renewed.Sets picking changed := by
  obtain ⟨-, hslot, htakes, hset, -⟩ := runs_changed
  rw [changed]
  exact .set .none hslot (World.accepts_of_takes htakes) (Prod.fst_eq_iff.mp hset)

end Sample

namespace Sample

/-- Objects that refer to each other. -/
def linked : Registry where
  classes := #[⟨"Box", none, [⟨.class ⟨0⟩, "p", .prim .int, observable⟩,
    ⟨.class ⟨0⟩, "next", .class ⟨0⟩, observable⟩, ⟨.class ⟨0⟩, "q", .prim .int, { accessible := true }⟩,
    ⟨.class ⟨0⟩, "peer", .class ⟨0⟩, { accessible := true }⟩], none⟩]
  names := [("Box", .class ⟨0⟩)]

/-- Two boxes, and one in the host frame that refers to the first of them. -/
def chain : World where
  objects := #[
    ⟨⟨0⟩, "a", [("p", .observable ⟨0⟩), ("next", .observable ⟨1⟩), ("q", .plain (.int 0)),
      ("peer", .plain .null)]⟩,
    ⟨⟨0⟩, "b", [("p", .observable ⟨2⟩), ("next", .observable ⟨3⟩), ("q", .plain (.int 0)),
      ("peer", .plain .null)]⟩,
    ⟨⟨0⟩, "x", [("p", .observable ⟨4⟩), ("next", .observable ⟨5⟩), ("q", .plain (.int 0)),
      ("peer", .plain (.object ⟨0⟩))]⟩]
  cells := #[{ value := .int 1 }, { value := .null }, { value := .int 2 }, { value := .null },
    { value := .int 0 }, { value := .object ⟨0⟩ }]
  names := [("x", ⟨2⟩)]
  frame := [.object ⟨2⟩]

/-- The number of the first box is copied to a plain property of the third one. -/
def copying : Listener := .callback fun v ↦ .set ⟨2⟩ "q" v (.done ())

def linkedContext : CompileContext := { model := linked.model }

/-- A name that stands for what a property of the object in the host frame refers to. -/
def following : Loadable where
  id := ⟨0⟩
  name := "x"
  ty := .class ⟨0⟩
  load := .ops [.loadLocal 0, .getProperty "next"]

theorem run_following {w : World} (h : w.objects = chain.objects) (update : Updater) (fuel : Nat)
    (binding : Option InstanceId) (stack : List Value) :
    following.load.run linked update fuel { locals := chain.frame, binding } none { world := w, stack } =
      ⟨[], .ok (), { world := w, stack := w.cellValue ⟨5⟩ :: stack }⟩ := by
  have hget : w.get? ⟨2⟩ "next" = some (w.cellValue ⟨5⟩) := by
    simp only [World.get?, World.slot?, World.object?, h]
    rfl
  show runOps linked update fuel _ [.loadLocal 0, .getProperty "next"] _ = _
  simp only [runOps, Block.andThen, Block.skip, runOp, step, callsOf, popReceiver, bind_apply, pop_apply,
    get_apply, push, modify_apply, pure_apply, require, chain, List.getElem?_cons_zero, hget, List.append_nil]

/-- `x.p` -/
def readP : ParsedExpr := ⟨"x.p", .field ⟨0, 3⟩ (.ident ⟨0, 1⟩ "x") "p", 0⟩

/-- `x.q + x.next.p` -/
def readQP : ParsedExpr :=
  ⟨"x.q + x.next.p", .binary ⟨0, 14⟩ .add (.field ⟨0, 3⟩ (.ident ⟨0, 1⟩ "x") "q")
    (.field ⟨6, 14⟩ (.field ⟨6, 12⟩ (.ident ⟨6, 7⟩ "x") "next") "p"), 0⟩

/-- `x.p + y.p` -/
def readPP : ParsedExpr :=
  ⟨"x.p + y.p", .binary ⟨0, 9⟩ .add (.field ⟨0, 3⟩ (.ident ⟨0, 1⟩ "x") "p")
    (.field ⟨6, 9⟩ (.ident ⟨6, 7⟩ "y") "p"), 0⟩

/-- A binding is made in a world and a property is set. After that the binding does not hold what its
expression evaluates to. -/
structure Strays (cx : CompileContext) (h r : Registry) (scope : Scope) (parsed : ParsedExpr) (w : World)
    (o : ObjectId) (property : String) (v held fresh : Value) : Prop extends Compiled cx scope parsed where
  declared : w.isDeclared r
  runs : let made := createInstance h 60 (bindingOf cx (treeOf cx scope parsed)).artifact w
    let changed := setProperty h 60 o property v made.2
    made.1 = .ok ⟨w.instances.size⟩ ∧ (made.2.observable? o property).isSome ∧ changed.1 = .ok () ∧
      changed.2.valueOf ⟨w.instances.size⟩ = held ∧
      (evaluate r 60 (routineOf (treeOf cx scope parsed)) changed.2).1 = .ok fresh
  differs : ¬held.same fresh

end Sample

end LiveBinding
