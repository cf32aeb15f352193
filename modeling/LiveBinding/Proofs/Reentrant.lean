import LiveBinding.Proofs.Incremental

namespace LiveBinding

open Exec Fragment

namespace Registry

variable (r : Registry) (answer : MethodId → List Value → Except RuntimeError Value)

/-- The methods of a host answer what they should and do nothing else. -/
def answering : Registry :=
  { r with methods := r.methods.mapIdx fun i d ↦
      { d with body := fun args ↦ .ofExcept (answer ⟨i⟩ args) } }

variable {r} in
theorem model_methods {methods : Array MethodDef}
    (h : methods.map MethodDef.info = r.methods.map MethodDef.info) :
    Registry.model { r with methods } = r.model := by
  have hancestors : Registry.ancestors { r with methods } = r.ancestors := by
    have hwithin (n : Nat) (c : ClassId) :
        Registry.ancestorsWithin { r with methods } n c = r.ancestorsWithin n c := by
      induction n generalizing c with
      | zero => rfl
      | succ n ih =>
        simp only [ancestorsWithin, ih]
        rfl
    exact funext fun c ↦ hwithin _ c
  have hlineage : Registry.lineage { r with methods } = r.lineage := by
    funext t
    cases t <;> simp only [lineage, hancestors]
  have hfind : Registry.findMethods { r with methods } = r.findMethods := by
    funext owners name arity static
    unfold findMethods
    congr 1
    funext found owner
    have hfold (ms : Array MethodDef) (g : List MethodInfo → MethodInfo → List MethodInfo) :
        ms.foldl (fun found d ↦ g found d.info) found = (ms.map MethodDef.info).foldl g found := by
      rw [Array.foldl_map]
    unfold addMethodsOf
    dsimp only
    exact (hfold methods fun found m ↦ if m.owner == owner && m.name == name && m.arity == arity &&
      m.flags.static == static && !found.any (·.params == m.params) then found ++ [m] else found).trans
      (h ▸ (hfold r.methods _).symm)
  unfold model
  rw [hfind, hlineage, hancestors]
  rfl

theorem model_answering : (r.answering answer).model = r.model :=
  model_methods (Array.ext (by simp) fun i hi hi' ↦ by simp)

theorem functional_answering (objects : Array HostObject) :
    (r.answering answer).Functional objects (r.answering answer).answer := by
  refine functional (fun d hd args ↦ ?_) objects
  obtain ⟨i, hi, rfl⟩ := Array.mem_mapIdx.mp hd
  show (Action.ofExcept (answer _ args)).answer?.isSome
  cases answer _ args <;> rfl

theorem answer_answering {id : MethodId} {d : MethodDef} (h : r.method? id = .ok d) (args : List Value) :
    (r.answering answer).answer id args = answer id args := by
  have hget : r.methods[id.index]? = some d := by
    unfold method? at h
    split at h
    · next hget => exact hget.trans (congrArg some (Except.ok.inj h))
    · cases h
  have hmethod : (r.answering answer).method? id =
      .ok { d with body := fun args ↦ .ofExcept (answer id args) } := by
    simp only [method?, answering, Array.getElem?_mapIdx, hget, Option.map_some]
  rw [Registry.answer, hmethod]
  show (Action.ofExcept (answer id args)).answer?.getD _ = _
  cases answer id args <;> rfl

end Registry

namespace Sample

/-- Boxes with a method that gives back a number, and counts the number in a named box on if it is less
than `max`. -/
def counting (r : Registry) (object : String) (max : Int) : Registry :=
  { r with methods := #[⟨⟨⟨0⟩, .class ⟨0⟩, "bump", [.prim .int], .prim .int,
      { accessible := true, static := true }⟩, Script.method "bump" (.upto object "p" max), []⟩] }

/-- What the method gives back. -/
def counted (_ : MethodId) (args : List Value) : Except RuntimeError Value := Script.argument args 0

def countingContext (r : Registry) : CompileContext := { model := (counting r "x" 3).model }

/-- The boxes of `chain`, two of which have names. -/
def named : World := { chain with names := [("a", ⟨0⟩), ("x", ⟨2⟩)] }

/-- `Box.bump(x.p)` -/
def bumpP : ParsedExpr :=
  ⟨"Box.bump(x.p)", .call ⟨0, 13⟩ (.ident ⟨0, 3⟩ "Box") "bump" [.field ⟨9, 12⟩ (.ident ⟨9, 10⟩ "x") "p"], 0⟩

section

variable {object : String} {max : Int} {w : World}

theorem conforms_counting (h : w.isDeclared linked) :
    w.Conforms ((counting linked object max).answering counted)
      ((counting linked object max).answering counted).answer := by
  have hdeclared : w.Declared ((counting linked object max).answering counted) :=
    World.declared_of_isDeclared (show w.isDeclared linked from h)
  refine hdeclared.conforms fun d hd args ha v hv ↦ ?_
  obtain ⟨i, hi, rfl⟩ := Array.mem_mapIdx.mp hd
  obtain rfl : i = 0 := Nat.lt_one_iff.mp hi
  obtain ⟨u, rest, hu, hnil, rfl⟩ := List.forall₂_cons_left_iff.mp ha
  cases hnil
  cases hv
  exact hu

theorem offers_counting (hdeclared : w.isDeclared linked) (horderly : w.isOrderly)
    (hclass : w.classOf ⟨2⟩ = some ⟨0⟩) (hframe : w.frame = [.object ⟨2⟩]) :
    w.Offers ((counting linked object max).answering counted)
      ((counting linked object max).answering counted).answer scope fun _ ↦ .object ⟨2⟩ := by
  refine {
    conforms := conforms_counting hdeclared
    functional := Registry.functional_answering _ _ _
    typed := fun name l hl ↦ ?_
    shared := fun _ _ _ _ _ _ _ ↦ rfl
    toOrderly := World.orderly_of_isOrderly horderly
    steady := fun name l hl ↦ ?_ }
  · obtain rfl := lookup_scope hl
    exact .inr (.inl ⟨⟨2⟩, ⟨0⟩, rfl, hclass, Registry.isSubclass_refl _⟩)
  · obtain rfl := lookup_scope hl
    refine Loadable.Loads.gives ?_ fun _ _ ↦ Registry.functional_answering _ _ _
    rw [hframe]
    exact ⟨rfl, fun _ _ _ _ _ _ ↦ rfl⟩

/-- All that the method does is to write an observable property that takes the number. -/
theorem tame_counting {answer : MethodId → List Value → Except RuntimeError Value} {id : MethodId}
    {d : MethodDef} {c : CellId} (h : (counting linked object max).method? id = .ok d)
    (hfind : w.find? object = some ⟨2⟩) (hslot : w.observable? ⟨2⟩ "p" = some c)
    (hzero : w.takes linked c (.int 0)) (args : List Value) :
    (d.body args).Tame (counting linked object max) (w.Around ((counting linked object max).answering answer)
      ((counting linked object max).answering answer).answer)
      fun x ↦ args.any Value.isCell = false → counted id args = x := by
  obtain ⟨_ | n⟩ := id
  · cases h
    show Action.Tame _ _ _ ((Script.upto object "p" max).action args)
    cases args with
    | nil => exact fun _ ↦ rfl
    | cons v rest =>
      cases v with
      | int n =>
        simp only [Script.action, Script.argument, Script.andThen, List.getElem?_cons_zero]
        split
        · rintro w₁ ⟨-, -, hnames⟩
          have hfound : w₁.find? object = some ⟨2⟩ := by
            rw [← hfind]
            simp only [World.find?, hnames]
          rw [hfound]
          refine ⟨?_, fun _ ↦ rfl⟩
          rintro w₂ ⟨-, hobjects, -⟩
          have haccepts : w.Accepts (counting linked object max) c (.int 0) := World.accepts_of_takes hzero
          exact ⟨c, (World.observable?_of_objects hobjects ⟨2⟩ "p").trans hslot,
            haccepts.int.of_objects hobjects⟩
        · exact fun _ ↦ rfl
      | _ => exact fun _ ↦ rfl
  · cases h

end

theorem compiled_bumpP : Compiled (countingContext linked) scope bumpP := compiled_of (by decide +kernel)

/-- The code of a binding of the call. -/
def bumpArtifact : Artifact :=
  (bindingOf (countingContext linked) (treeOf (countingContext linked) scope bumpP)).artifact

/-- A binding of the call has counted the number up already. -/
def bumped : World := (createInstance (counting linked "x" 3) 60 bumpArtifact named).2

/-- Besides that a listener writes the number. -/
def floored : World := bumped.modifyCell ⟨4⟩ (·.addListener (.callback (flooring ⟨2⟩)))

/-- Another binding of the call. -/
def recounted : World := (createInstance (counting linked "x" 3) 60 bumpArtifact floored).2

/-- After that the number was set back. -/
def reset : World := (setProperty (counting linked "x" 3) 60 ⟨2⟩ "p" (.int (-1)) recounted).2

theorem runs_reset : (createInstance (counting linked "x" 3) 60 bumpArtifact floored).1 = .ok ⟨1⟩ ∧
    recounted.observable? ⟨2⟩ "p" = some ⟨4⟩ ∧ recounted.takes linked ⟨4⟩ (.int (-1)) ∧
    (setProperty (counting linked "x" 3) 60 ⟨2⟩ "p" (.int (-1)) recounted).1 = .ok () ∧
    reset.valueOf ⟨1⟩ = .int 3 := by decide +kernel

theorem recounted_eq :
    createInstance (counting linked "x" 3) 60 bumpArtifact floored = (.ok ⟨1⟩, recounted) := by
  rw [recounted]
  exact Prod.fst_eq_iff.mp runs_reset.1

theorem sets_reset : recounted.Sets (counting linked "x" 3) reset := by
  obtain ⟨-, hslot, htakes, hset, -⟩ := runs_reset
  rw [reset]
  exact .set .none hslot (World.accepts_of_takes htakes) (Prod.fst_eq_iff.mp hset)

theorem bumped_eq : bumped.isOrderly ∧ bumped.isDeclared linked ∧ bumped.frame = [.object ⟨2⟩] ∧
    bumped.classOf ⟨2⟩ = some ⟨0⟩ ∧ bumped.observable? ⟨2⟩ "p" = some ⟨4⟩ ∧
    bumped.takes linked ⟨4⟩ (.int 0) ∧ bumped.find? "x" = some ⟨2⟩ := by decide +kernel

end Sample

namespace Sample

/-- A name that stands for how much a number changes when it is given to a method. -/
def asking : Loadable where
  id := ⟨1⟩
  name := "y"
  ty := .prim .int
  load := .ops [.loadLocal 0, .getProperty "p", .invokeStatic ⟨0⟩ 1, .loadLocal 0, .getProperty "p",
    .arith .sub .int]

/-- `y + Box.bump(x.p)` -/
def addBumpP : ParsedExpr :=
  ⟨"y + Box.bump(x.p)", .binary ⟨0, 17⟩ .add (.ident ⟨0, 1⟩ "y")
    (.call ⟨4, 17⟩ (.ident ⟨4, 7⟩ "Box") "bump" [.field ⟨13, 16⟩ (.ident ⟨13, 14⟩ "x") "p"]), 0⟩

/-- `x.p + Box.bump(x.next.p)` -/
def bumpNextP : ParsedExpr :=
  ⟨"x.p + Box.bump(x.next.p)", .binary ⟨0, 24⟩ .add (.field ⟨0, 3⟩ (.ident ⟨0, 1⟩ "x") "p")
    (.call ⟨6, 24⟩ (.ident ⟨6, 9⟩ "Box") "bump"
      [.field ⟨15, 23⟩ (.field ⟨15, 21⟩ (.ident ⟨15, 16⟩ "x") "next") "p"]), 0⟩

/-- `x.q + Box.bump(x.next.p)` -/
def bumpNextQ : ParsedExpr :=
  ⟨"x.q + Box.bump(x.next.p)", .binary ⟨0, 24⟩ .add (.field ⟨0, 3⟩ (.ident ⟨0, 1⟩ "x") "q")
    (.call ⟨6, 24⟩ (.ident ⟨6, 9⟩ "Box") "bump"
      [.field ⟨15, 23⟩ (.field ⟨15, 21⟩ (.ident ⟨15, 16⟩ "x") "next") "p"]), 0⟩

/-- `x.p + A.bump(y.p)` -/
def bumpPP : ParsedExpr :=
  ⟨"x.p + A.bump(y.p)", .binary ⟨0, 17⟩ .add (.field ⟨0, 3⟩ (.ident ⟨0, 1⟩ "x") "p")
    (.call ⟨6, 17⟩ (.ident ⟨6, 7⟩ "A") "bump" [.field ⟨13, 16⟩ (.ident ⟨13, 14⟩ "y") "p"]), 0⟩

/-- The requests that wait after the first run of a new binding. -/
def waiting (h : Registry) (artifact : Artifact) (w : World) : List Nat :=
  let i : InstanceId := ⟨w.instances.size⟩
  let captured := runRoutine h (updateInstance h 60) 60 { locals := w.frame, binding := some i }
    artifact.init (w.addInstance artifact)
  let first := runRoutine h (updateInstance h 60) 60 { binding := some i, step := 0 } artifact.update
    captured.2
  ((first.2.instance? i).map Instance.queued).getD []

/-- A binding strays in a host that counts on, and a request is queued when it is made. -/
structure StraysCounting (base : Registry) (object : String) (scope : Scope) (parsed : ParsedExpr) (w : World)
    (o : ObjectId) (property : String) (v held fresh : Value) : Prop extends
    Strays (countingContext base) (counting base object 3) ((counting base object 3).answering counted)
      scope parsed w o property v held fresh where
  queued : waiting (counting base object 3) (bindingOf (countingContext base)
    (treeOf (countingContext base) scope parsed)).artifact w ≠ []

end Sample

end LiveBinding
