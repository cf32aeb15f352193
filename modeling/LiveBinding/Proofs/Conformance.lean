import LiveBinding.Proofs.Agreement
import LiveBinding.Proofs.Running

namespace LiveBinding

namespace World

def classOf (w : World) (o : ObjectId) : Option ClassId := (w.object? o).map HostObject.cls

/-- The heap is as it is declared, and what methods answer is too: a property of a class is kept in a
cell by the objects if and only if it is observable, and holds a value of its type. A property that is
not observable may be missing. -/
structure Conforms (r : Registry) (answer : MethodId → List Value → Except RuntimeError Value)
    (w : World) : Prop where
  exist : w.SlotsExist
  observed : ∀ o d c name p, w.classOf o = some d → r.model.isSubclass d c →
    r.model.property (.class c) name = some p → p.flags.observable →
    ∃ x, w.slot? o p.name = some (.observable x) ∧ r.HasTy w.classOf p.ty (w.cellValue x)
  plain : ∀ o d c name p, w.classOf o = some d → r.model.isSubclass d c →
    r.model.property (.class c) name = some p → p.flags.observable = false →
    ∀ slot, w.slot? o p.name = some slot → ∃ v, slot = .plain v ∧ r.HasTy w.classOf p.ty v
  statics : ∀ f ∈ r.fields, ∃ v, r.staticValue f.info.id = .ok v ∧ r.HasTy w.classOf f.info.ty v
  answers : ∀ d ∈ r.methods, ∀ args, d.info.Takes (r.HasTy w.classOf) args →
    ∀ v, answer d.info.id args = .ok v → r.HasTy w.classOf d.info.ret v

end World

/-- Methods write nothing but records, and are functions of their arguments, as long as these are no
cells. -/
structure Registry.Functional (r : Registry) (objects : Array HostObject)
    (answer : MethodId → List Value → Except RuntimeError Value) : Prop where
  writes : ∀ update fuel m args (w : World), w.objects = objects →
    ∃ events, (invokeMethod r update fuel m args w).2 = { w with events }
  fixed : ∀ update fuel m args (w : World), w.objects = objects → (∀ v ∈ args, v.isCell = false) →
    (invokeMethod r update fuel m args w).1 ≠ .error .exhausted →
    (invokeMethod r update fuel m args w).1 = Stop.raise (answer m args)
  ends : ∀ m args, ∃ n, ∀ update fuel (w : World), n ≤ fuel → w.objects = objects →
    (invokeMethod r update fuel m args w).1 ≠ .error .exhausted

/-- What is known of the answer of a method. Of one that is given a cell nothing is. -/
def asked (answer : MethodId → List Value → Except RuntimeError Value) (m : MethodId)
    (args : List Value) : Except Stop Value :=
  if args.any Value.isCell then .error .exhausted else Stop.raise (answer m args)

theorem asked_of_typed {answer : MethodId → List Value → Except RuntimeError Value} {m : MethodId}
    {args : List Value} (h : ∀ v ∈ args, v.isCell = false) :
    asked answer m args = Stop.raise (answer m args) :=
  if_neg (by simpa using h)

theorem Stop.raise_ne_exhausted {α : Type} (x : Except RuntimeError α) :
    Stop.raise x ≠ .error .exhausted := by
  cases x <;> simp [Stop.raise, Except.mapError]

theorem MethodInfo.Takes.isCell {r : Registry} {classes : ObjectId → Option ClassId} {m : MethodInfo}
    {args : List Value} (h : m.Takes (r.HasTy classes) args) : ∀ v ∈ args, v.isCell = false := by
  unfold Takes at h
  split at h
  · exact Registry.HasTy.isCell_of_forall₂ h
  · obtain ⟨receiver, rest, rfl, -, hr, hrest⟩ := h
    exact List.forall_mem_cons.mpr ⟨hr.isCell, Registry.HasTy.isCell_of_forall₂ hrest⟩

namespace Registry.Functional

variable {r : Registry} {objects : Array HostObject}
variable {answer : MethodId → List Value → Except RuntimeError Value}

/-- A call has enough steps to come to an end. -/
def Enough (r : Registry) (update : Updater) (fuel : Nat) (objects : Array HostObject) (m : MethodId)
    (args : List Value) : Prop :=
  ∀ w : World, w.objects = objects → (invokeMethod r update fuel m args w).1 ≠ .error .exhausted

theorem answers (h : r.Functional objects answer) (update : Updater) (fuel : Nat) :
    Answers r update fuel objects (asked answer) (Enough r update fuel objects) := by
  intro m args w hw
  obtain ⟨events, hevents⟩ := h.writes update fuel m args w hw
  refine ⟨(invokeMethod r update fuel m args w).1, events, Prod.ext rfl hevents, fun hne ↦ ?_⟩
  have hcells : ∀ v ∈ args, v.isCell = false := by
    by_contra hc
    refine hne (if_pos ?_)
    simpa using hc
  by_cases he : (invokeMethod r update fuel m args w).1 = .error .exhausted
  · exact .inr ⟨he, fun henough ↦ henough w hw he⟩
  · left
    rw [asked_of_typed hcells]
    exact h.fixed update fuel m args w hw hcells he

/-- Finitely many calls have enough steps from some number on. -/
theorem exists_enough (h : r.Functional objects answer) (calls : List Call) :
    ∃ n, ∀ update fuel, n ≤ fuel → ∀ call ∈ calls,
      Enough r update fuel objects call.method call.args := by
  induction calls with
  | nil => exact ⟨0, fun _ _ _ _ h ↦ nomatch h⟩
  | cons call calls ih =>
    obtain ⟨n, hn⟩ := ih
    obtain ⟨k, hk⟩ := h.ends call.method call.args
    refine ⟨max n k, fun update fuel hle ↦ List.forall_mem_cons.mpr ⟨fun w hw ↦ ?_, ?_⟩⟩
    · exact hk update fuel w (by omega) hw
    · exact hn update fuel (by omega)

end Registry.Functional

/-- What host code that touches nothing comes to. -/
def Action.answer? {α : Type} : Action α → Option (Except RuntimeError α)
  | .done a => some (.ok a)
  | .fail e => some (.error e)
  | .logCall _ _ next => next.answer?
  | _ => none

/-- Host code that touches nothing comes to its answer once it has enough steps. -/
theorem Action.perform_of_answer? {α : Type} {r : Registry} {x : Except RuntimeError α} {a : Action α}
    (h : a.answer? = some x) :
    (∃ n, ∀ update fuel w, n ≤ fuel → (a.perform r update fuel w).1 ≠ .error .exhausted) ∧
    ∀ update fuel w, (∃ events, (a.perform r update fuel w).2 = { w with events }) ∧
      ((a.perform r update fuel w).1 ≠ .error .exhausted →
        (a.perform r update fuel w).1 = Stop.raise x) := by
  induction a with
  | done a =>
    cases h
    refine ⟨⟨1, fun update fuel w hn ↦ ?_⟩, fun update fuel w ↦ ?_⟩
    · obtain _ | fuel := fuel
      · omega
      · exact fun h ↦ nomatch h
    · obtain _ | fuel := fuel
      · exact ⟨⟨w.events, rfl⟩, fun hne ↦ absurd rfl hne⟩
      · exact ⟨⟨w.events, rfl⟩, fun _ ↦ rfl⟩
  | fail e =>
    cases h
    refine ⟨⟨1, fun update fuel w hn ↦ ?_⟩, fun update fuel w ↦ ?_⟩
    · obtain _ | fuel := fuel
      · omega
      · exact fun h ↦ nomatch h
    · obtain _ | fuel := fuel
      · exact ⟨⟨w.events, rfl⟩, fun hne ↦ absurd rfl hne⟩
      · exact ⟨⟨w.events, rfl⟩, fun _ ↦ rfl⟩
  | logCall name args next ih =>
    obtain ⟨⟨n, hn⟩, ih⟩ := ih h
    refine ⟨⟨n + 1, fun update fuel w hle ↦ ?_⟩, fun update fuel w ↦ ?_⟩
    · obtain _ | fuel := fuel
      · omega
      · exact hn update fuel _ (by omega)
    · obtain _ | fuel := fuel
      · exact ⟨⟨w.events, rfl⟩, fun hne ↦ absurd rfl hne⟩
      · obtain ⟨⟨events, he⟩, hx⟩ := ih update fuel (w.logEvent (.call name (args.map w.display)))
        exact ⟨⟨events, he⟩, hx⟩
  | _ => cases h

namespace Registry

/-- What the methods of a registry answer if they touch nothing. -/
def answer (r : Registry) (m : MethodId) (args : List Value) : Except RuntimeError Value :=
  match r.method? m with
  | .ok d => (d.body args).answer?.getD (.error .underflow)
  | .error e => .error e

theorem functional {r : Registry} (h : ∀ d ∈ r.methods, ∀ args, (d.body args).answer?.isSome)
    (objects : Array HostObject) : r.Functional objects r.answer := by
  have hcall (m : MethodId) (args : List Value) :
      (∃ n, ∀ update fuel (w : World), n ≤ fuel →
        (invokeMethod r update fuel m args w).1 ≠ .error .exhausted) ∧
      ∀ update fuel (w : World), (∃ events, (invokeMethod r update fuel m args w).2 = { w with events }) ∧
        ((invokeMethod r update fuel m args w).1 ≠ .error .exhausted →
          (invokeMethod r update fuel m args w).1 = Stop.raise (r.answer m args)) := by
    unfold invokeMethod answer
    cases hm : r.method? m with
    | error e =>
      exact ⟨⟨0, fun _ _ _ _ h ↦ nomatch h⟩, fun _ _ w ↦ ⟨⟨w.events, rfl⟩, fun _ ↦ rfl⟩⟩
    | ok d =>
      have hd : d ∈ r.methods := by
        unfold method? at hm
        split at hm
        · next hget =>
          cases hm
          exact Array.mem_of_getElem? hget
        · cases hm
      obtain ⟨x, hx⟩ := Option.isSome_iff_exists.mp (h d hd args)
      obtain ⟨⟨n, hn⟩, hrun⟩ := Action.perform_of_answer? (r := r) hx
      dsimp only
      rw [hx]
      refine ⟨⟨n, fun update fuel w hle ↦ hn update fuel _ hle⟩, fun update fuel w ↦ ?_⟩
      obtain ⟨⟨events, he⟩, hx⟩ := hrun update fuel { w with held := args ++ w.held }
      refine ⟨⟨events, ?_⟩, hx⟩
      show { (Action.perform r update fuel (d.body args) _).2 with held := w.held } = _
      rw [he]
  exact ⟨fun update fuel m args w _ ↦ ((hcall m args).2 update fuel w).1,
    fun update fuel m args w _ _ ↦ ((hcall m args).2 update fuel w).2,
    fun m args ↦ (hcall m args).1.imp fun n hn update fuel w hle _ ↦ hn update fuel w hle⟩

end Registry

namespace World

variable {w w' : World}

/-- Only the text of a cell depends on what cells hold. -/
theorem text_of_objects (h : w'.objects = w.objects) (r : Registry) {v : Value}
    (hv : v.isCell = false) : w'.text r v = w.text r v := by
  unfold World.text
  cases v with
  | cell => cases hv
  | object => simp only [World.textWithin, World.object?, h]
  | _ => rfl

/-- Worlds that have the same objects and cells of the same values. -/
structure SameHeap (w w' : World) : Prop where
  objects : w'.objects = w.objects
  cellValue : ∀ c, w'.cellValue c = w.cellValue c

namespace SameHeap

theorem refl (w : World) : w.SameHeap w := ⟨rfl, fun _ ↦ rfl⟩

theorem get? (h : w.SameHeap w') (o : ObjectId) (p : String) : w'.get? o p = w.get? o p := by
  simp only [World.get?, World.slot?, World.object?, h.objects, funext h.cellValue]

theorem observable? (h : w.SameHeap w') (o : ObjectId) (p : String) :
    w'.observable? o p = w.observable? o p := by
  simp only [World.observable?, World.slot?, World.object?, h.objects]

theorem text (h : w.SameHeap w') (r : Registry) {v : Value} (hv : v.isCell = false) :
    w'.text r v = w.text r v := text_of_objects h.objects r hv

end SameHeap

/-- Worlds with the same heap read alike. -/
theorem SameHeap.agrees (h : w.SameHeap w') (r : Registry)
    (answer : MethodId → List Value → Except Stop Value) (locals locals' : List Value)
    (captures captures' : Array Value) (classes : ObjectId → Option ClassId) :
    (w.reading r answer locals captures).Agrees (w'.reading r answer locals' captures') classes where
  registry := rfl
  text v hv := by simp only [reading, h.text r hv]
  cell := by
    funext o p
    simp only [reading, h.observable?]
  value := funext h.cellValue
  plain o d c name p _ _ _ _ := by simp only [reading, h.get?]
  answer _ _ _ := rfl

variable {r : Registry} {answer : MethodId → List Value → Except RuntimeError Value}

/-- A host that conforms is read as it is declared. -/
theorem Conforms.reading (h : w.Conforms r answer) (locals : List Value) (captures : Array Value) :
    (w.reading r (asked answer) locals captures).Conforms w.classOf (· ≠ .exhausted) where
  benign _ _ := nofun
  text v _ := ⟨_, rfl⟩
  observed o d c name p hd hc hp hobs := by
    obtain ⟨x, hx, ht⟩ := h.observed o d c name p hd hc hp hobs
    refine ⟨x, ?_, ht⟩
    simp only [World.reading, World.observable?, hx]
  plain o d c name p hd hc hp hobs := by
    simp only [World.reading, World.get?]
    cases hslot : w.slot? o p.name with
    | none => exact .error (by simp)
    | some slot =>
      obtain ⟨v, rfl, ht⟩ := h.plain o d c name p hd hc hp hobs slot hslot
      exact .ok ht
  enums _ _ _ _ _ _ _ := nofun
  statics := h.statics
  answers d hd args ha := by
    have heq : (w.reading r (asked answer) locals captures).answer d.info.id args =
        Stop.raise (answer d.info.id args) := asked_of_typed ha.isCell
    rw [heq]
    refine ⟨fun v hv ↦ ?_, fun e he h ↦ Stop.raise_ne_exhausted _ (h ▸ he)⟩
    cases hx : answer d.info.id args with
    | error e => rw [hx] at hv; cases hv
    | ok u =>
      rw [hx] at hv
      cases hv
      exact h.answers d hd args ha v hx

/-- A property that is declared plain is in no cell. -/
theorem Conforms.observable?_plain (h : w.Conforms r answer) {o : ObjectId} {d c : ClassId}
    {name : String} {p : PropertyInfo} (hd : w.classOf o = some d) (hc : r.model.isSubclass d c)
    (hp : r.model.property (.class c) name = some p) (hobs : p.flags.observable = false) :
    w.observable? o p.name = none := by
  unfold World.observable?
  cases hslot : w.slot? o p.name with
  | none => rfl
  | some slot =>
    obtain ⟨v, rfl, -⟩ := h.plain o d c name p hd hc hp hobs slot hslot
    rfl

theorem Conforms.through (h : w.Conforms r answer) (locals : List Value) (captures : Array Value) :
    (w.reading r (asked answer) locals captures).Through w.classOf := by
  intro o d c name p hd hc hp hobs
  obtain ⟨x, hx, -⟩ := h.observed o d c name p hd hc hp hobs
  simp only [World.reading, World.get?, World.observable?, hx, Option.map_some]
  rfl

end World

/-- Whether a value is of a type can be computed. -/
def Registry.hasTy? (r : Registry) (classes : ObjectId → Option ClassId) : Ty → Value → Bool
  | .void, v | .object, v => !v.isCell
  | .null, v => v.isNull
  | .prim p, v => v.prim? == some p
  | .boxed p, v => v.isNull || v.prim? == some p
  | .str, .null | .str, .str _ => true
  | .str, _ => false
  | .class _, .null => true
  | .class c, .object o => (classes o).any (r.model.isSubclass · c)
  | .class c, .enum d _ => (r.model.enumConstants (.class d)).isSome && r.model.isSubclass d c
  | .class _, _ => false

theorem Registry.hasTy_of_hasTy? {r : Registry} {classes : ObjectId → Option ClassId} {t : Ty}
    {v : Value} (h : r.hasTy? classes t v) : r.HasTy classes t v := by
  have hnull (v : Value) (h : v.isNull) : v = .null := by cases v <;> first | rfl | cases h
  cases t with
  | void | object => simpa [hasTy?, HasTy] using h
  | null => exact hnull v h
  | prim p => simpa [hasTy?, HasTy] using h
  | boxed p =>
    rw [hasTy?, Bool.or_eq_true, beq_iff_eq] at h
    exact h.imp (hnull v) id
  | str =>
    cases v with
    | null => exact .inl rfl
    | str s => exact .inr ⟨s, rfl⟩
    | _ => cases h
  | «class» c =>
    cases v with
    | null => exact .inl rfl
    | object o =>
      rw [hasTy?] at h
      cases hd : classes o with
      | none => rw [hd] at h; cases h
      | some d =>
        rw [hd] at h
        exact .inr (.inl ⟨o, d, rfl, hd, h⟩)
    | enum d name =>
      rw [hasTy?, Bool.and_eq_true] at h
      exact .inr (.inr ⟨d, name, rfl, h.1, h.2⟩)
    | _ => cases h

/-- A property is declared by its name in some class. -/
theorem Registry.property_declared {r : Registry} {t : Ty} {name : String} {p : PropertyInfo}
    (h : r.model.property t name = some p) :
    p.name = name ∧ p ∈ r.classes.toList.flatMap ClassDef.properties := by
  obtain ⟨t', -, ht⟩ := List.exists_of_findSome?_eq_some h
  cases t' with
  | «class» c =>
    obtain ⟨d, hd, hp⟩ := Option.bind_eq_some_iff.mp ht
    have hname := List.find?_some hp
    exact ⟨by simpa using hname, List.mem_flatMap.mpr ⟨d, Array.mem_toList_iff.mpr
      (Array.mem_of_getElem? hd), List.mem_of_find?_eq_some hp⟩⟩
  | _ => cases ht

namespace World

/-- The heap is as it is declared and nothing is missing: every property of a class is kept by its
objects, in a cell if and only if it is observable, and holds a value of its type, as static fields
do. -/
structure Declared (r : Registry) (w : World) : Prop where
  exist : w.SlotsExist
  observed : ∀ o d c name p, w.classOf o = some d → r.model.isSubclass d c →
    r.model.property (.class c) name = some p → p.flags.observable →
    ∃ x, w.slot? o p.name = some (.observable x) ∧ r.HasTy w.classOf p.ty (w.cellValue x)
  plain : ∀ o d c name p, w.classOf o = some d → r.model.isSubclass d c →
    r.model.property (.class c) name = some p → p.flags.observable = false →
    ∃ v, w.slot? o p.name = some (.plain v) ∧ r.HasTy w.classOf p.ty v
  statics : ∀ f ∈ r.fields, ∃ v, r.staticValue f.info.id = .ok v ∧ r.HasTy w.classOf f.info.ty v

variable (r : Registry) (w : World)

/-- An object has a property and keeps it as it is declared. -/
def keeps (o : ObjectId) (p : PropertyInfo) : Bool :=
  match w.slot? o p.name with
  | some (.observable x) => p.flags.observable && r.hasTy? w.classOf p.ty (w.cellValue x)
  | some (.plain v) => !p.flags.observable && r.hasTy? w.classOf p.ty v
  | none => false

/-- Whether the heap is as it is declared, and nothing is missing, can be computed. -/
def isDeclared : Bool :=
  w.objects.all (fun o ↦ o.slots.all fun
    | (_, .plain _) => true
    | (_, .observable c) => c.index < w.cells.size) &&
  (List.range w.objects.size).all (fun o ↦ (w.classOf ⟨o⟩).all fun d ↦
    (d :: r.ancestors d).all fun c ↦ (r.classes.toList.flatMap ClassDef.properties).all fun p ↦
      r.model.property (.class c) p.name != some p || w.keeps r ⟨o⟩ p) &&
  r.fields.all fun f ↦ match r.staticValue f.info.id with
    | .ok v => r.hasTy? w.classOf f.info.ty v
    | .error _ => false

variable {r w}

theorem declared_of_isDeclared (h : w.isDeclared r) : w.Declared r := by
  simp only [isDeclared, Bool.and_eq_true] at h
  obtain ⟨⟨hslots, hobjects⟩, hfields⟩ := h
  have hkeeps {o d c name p} (ho : w.classOf o = some d) (hc : r.model.isSubclass d c)
      (hp : r.model.property (.class c) name = some p) : w.keeps r o p := by
    obtain ⟨hname, hmem⟩ := Registry.property_declared hp
    have hlt : o.index < w.objects.size := by
      by_contra hle
      simp [classOf, object?, Nat.not_lt.mp hle] at ho
    have h := List.all_eq_true.mp hobjects o.index (List.mem_range.mpr hlt)
    rw [ho, Option.all_some] at h
    have hc : c ∈ d :: r.ancestors d := by
      rw [TypeModel.isSubclass, Bool.or_eq_true, beq_iff_eq, List.contains_iff_mem] at hc
      exact hc.elim (· ▸ List.mem_cons_self) (List.mem_cons_of_mem d)
    have hp' := List.all_eq_true.mp (List.all_eq_true.mp h c hc) p hmem
    simpa [hname, hp] using hp'
  refine ⟨fun o property c h ↦ ?_, fun o d c name p hd hc hp hobs ↦ ?_,
    fun o d c name p hd hc hp hobs ↦ ?_, fun f hf ↦ ?_⟩
  · rw [observable?_eq_some, slot?] at h
    obtain ⟨obj, hobj, hs⟩ := Option.bind_eq_some_iff.mp h
    have hmem := Array.all_eq_true_iff_forall_mem.mp hslots obj (Array.mem_of_getElem? hobj)
    have hslot : (property, Slot.observable c) ∈ obj.slots := by
      obtain ⟨l₁, l₂, heq, -⟩ := List.lookup_eq_some_iff.mp hs
      rw [heq]
      simp
    simpa using List.all_eq_true.mp hmem _ hslot
  · have hk := hkeeps hd hc hp
    unfold keeps at hk
    split at hk
    · next x hx =>
      rw [Bool.and_eq_true] at hk
      exact ⟨x, hx, Registry.hasTy_of_hasTy? hk.2⟩
    · simp [hobs] at hk
    · cases hk
  · have hk := hkeeps hd hc hp
    unfold keeps at hk
    split at hk
    · simp [hobs] at hk
    · next v hv =>
      rw [Bool.and_eq_true] at hk
      exact ⟨v, hv, Registry.hasTy_of_hasTy? hk.2⟩
    · cases hk
  · have hf := Array.all_eq_true_iff_forall_mem.mp hfields f hf
    split at hf
    · next v hv => exact ⟨v, hv, Registry.hasTy_of_hasTy? hf⟩
    · cases hf

theorem Declared.conforms (h : w.Declared r)
    {answer : MethodId → List Value → Except RuntimeError Value}
    (ha : ∀ d ∈ r.methods, ∀ args, d.info.Takes (r.HasTy w.classOf) args →
      ∀ v, answer d.info.id args = .ok v → r.HasTy w.classOf d.info.ret v) : w.Conforms r answer where
  exist := h.exist
  observed := h.observed
  plain o d c name p hd hc hp hobs slot hslot := by
    obtain ⟨v, hv, ht⟩ := h.plain o d c name p hd hc hp hobs
    exact ⟨v, Option.some.inj (hslot.symm.trans hv), ht⟩
  statics := h.statics
  answers := ha

end World

end LiveBinding
