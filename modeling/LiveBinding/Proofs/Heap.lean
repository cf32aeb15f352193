import LiveBinding.Proofs.Settling

namespace LiveBinding

theorem Registry.HasTy.mono {r : Registry} {classes classes' : ObjectId → Option ClassId} {t : Ty}
    {v : Value} (hc : ∀ o d, classes o = some d → classes' o = some d) (h : r.HasTy classes t v) :
    r.HasTy classes' t v := by
  cases t with
  | «class» c =>
    rcases h with rfl | ⟨o, d, rfl, hd, hsub⟩ | he
    · exact .inl rfl
    · exact .inr (.inl ⟨o, d, rfl, hc o d hd, hsub⟩)
    · exact .inr (.inr he)
  | _ => exact h

namespace World

/-- What is there stays: objects with their classes and the cells of their properties, and bindings
with theirs. A name that the host chose itself keeps its object or is given up. -/
structure Extends (w w' : World) : Prop where
  classOf : ∀ o d, w.classOf o = some d → w'.classOf o = some d
  observable : ∀ o p c, w.observable? o p = some c → w'.observable? o p = some c
  result : ∀ i c, w.resultCell? i = some c → w'.resultCell? i = some c
  frame : w'.frame = w.frame
  names : ∀ name o, name.toList.head? ≠ some '#' → w'.find? name = some o → w.find? name = some o

namespace Extends

variable {w w' w'' : World}

theorem refl (w : World) : w.Extends w :=
  ⟨fun _ _ ↦ id, fun _ _ _ ↦ id, fun _ _ ↦ id, rfl, fun _ _ _ ↦ id⟩

theorem trans (h : w.Extends w') (h' : w'.Extends w'') : w.Extends w'' where
  classOf o d ho := h'.classOf o d (h.classOf o d ho)
  observable o p c hc := h'.observable o p c (h.observable o p c hc)
  result i c hc := h'.result i c (h.result i c hc)
  frame := h'.frame.trans h.frame
  names name o hn ho := h.names name o hn (h'.names name o hn ho)

/-- Objects, bindings and the frame stay as they are. -/
theorem ofEq (ho : w'.objects = w.objects) (hi : ∀ i, w'.resultCell? i = w.resultCell? i)
    (hf : w'.frame = w.frame)
    (hn : ∀ name o, w'.find? name = some o → w.find? name = some o) : w.Extends w' where
  classOf o d h := by simpa only [World.classOf, World.object?, ho] using h
  observable o p c h := by
    simpa only [World.observable?, World.slot?, World.object?, ho] using h
  result i c h := (hi i).trans h
  frame := hf
  names name o _ := hn name o

theorem modifyCell (w : World) (c : CellId) (f : Cell → Cell) : w.Extends (w.modifyCell c f) :=
  .ofEq rfl (fun _ ↦ rfl) rfl fun _ _ ↦ id

theorem modifyInstance (w : World) (i : InstanceId) {f : Instance → Instance}
    (hf : ∀ s, w.instance? i = some s → (f s).result = s.result) :
    w.Extends (w.modifyInstance i f) := by
  refine .ofEq rfl (fun j ↦ ?_) rfl fun _ _ ↦ id
  simp only [World.resultCell?, World.instance?_modifyInstance]
  split
  · next hij =>
    subst hij
    cases hs : w.instance? i with
    | none => rfl
    | some s => exact congrArg some (hf s hs)
  · rfl

theorem setPlain {w : World} {o : ObjectId} {p : String} (h : w.observable? o p = none) (v : Value) :
    w.Extends (w.setPlain o p v) where
  classOf o' d ho := by
    obtain ⟨obj, hobj, rfl⟩ := Option.map_eq_some_iff.mp ho
    have hmod : (w.setPlain o p v).object? o' =
        if o.index = o'.index then (w.object? o').map (·.setSlot p (.plain v)) else w.object? o' := by
      simp only [World.object?, World.setPlain, Array.getElem?_modify]
    rw [World.classOf, hmod]
    split
    · rw [hobj]
      simp only [Option.map_some, HostObject.setSlot]
      split <;> rfl
    · rw [hobj]
      rfl
  observable o' p' c hc := by
    rw [observable?_eq_some] at hc ⊢
    rw [slot?_setPlain]
    split
    · next heq =>
      obtain ⟨rfl, rfl⟩ := heq
      rw [← observable?_eq_some, h] at hc
      cases hc
    · exact hc
  result _ _ h := h
  frame := rfl
  names _ _ _ h := h

end Extends

theorem objects_addSlots (w : World) (o : HostObject) (slots : List (String × Value × Bool)) :
    (w.addSlots o slots).2.objects = w.objects ∧ (w.addSlots o slots).2.instances = w.instances ∧
      (w.addSlots o slots).2.names = w.names ∧ (w.addSlots o slots).2.frame = w.frame := by
  induction slots generalizing w o with
  | nil => exact ⟨rfl, rfl, rfl, rfl⟩
  | cons e slots ih =>
    obtain ⟨property, v, _ | _⟩ := e
    · exact ih w _
    · exact ih (w.newCell v).2 _

theorem lookup_forget (w : World) {name label : String} (h : name ≠ label) :
    (w.forget label).find? name = w.find? name := by
  show (w.names.filter (·.1 != label)).lookup name = w.names.lookup name
  induction w.names with
  | nil => rfl
  | cons e names ih =>
    obtain ⟨key, o⟩ := e
    by_cases hkey : key = label
    · subst hkey
      rw [List.filter_cons_of_neg (by simp), ih, List.lookup_cons, beq_false_of_ne h]
    · rw [List.filter_cons_of_pos (by simpa using hkey), List.lookup_cons, List.lookup_cons, ih]

/-- A name that the host gives up is not found. -/
theorem find?_forget (w : World) (name : String) : (w.forget name).find? name = none := by
  rw [find?, forget, List.lookup_eq_none_iff]
  intro e he
  simpa [bne_comm] using (List.mem_filter.mp he).2

/-- The name of an object that host code makes is not one that the host chose. -/
theorem Extends.newObject (w : World) (cls : ClassId) (n : String)
    (slots : List (String × Value × Bool)) : w.Extends (w.newObject cls ("#" ++ n) slots).2 := by
  obtain ⟨hobjects, hinstances, hnames, hframe⟩ := w.objects_addSlots { cls, label := "#" ++ n } slots
  have hobject (o : ObjectId) (obj : HostObject) (h : w.object? o = some obj) :
      (w.newObject cls ("#" ++ n) slots).2.object? o = some obj := by
    obtain ⟨hlt, -⟩ := Array.getElem?_eq_some_iff.mp h
    show ((w.addSlots _ slots).2.objects.push _)[o.index]? = _
    rw [hobjects, Array.getElem?_push_lt hlt]
    exact (Array.getElem?_eq_getElem hlt).symm.trans h
  constructor
  · intro o d h
    obtain ⟨obj, hobj, rfl⟩ := Option.map_eq_some_iff.mp h
    exact Option.map_eq_some_iff.mpr ⟨obj, hobject o obj hobj, rfl⟩
  · intro o p c h
    rw [observable?_eq_some] at h ⊢
    obtain ⟨obj, hobj, hs⟩ := Option.bind_eq_some_iff.mp h
    exact Option.bind_eq_some_iff.mpr ⟨obj, hobject o obj hobj, hs⟩
  · intro i c h
    have heq : (w.newObject cls ("#" ++ n) slots).2.resultCell? i = w.resultCell? i :=
      congrArg (fun instances ↦ (instances[i.index]?).map Instance.result) hinstances
    exact heq.trans h
  · exact hframe
  · intro name o hn h
    have hne : name ≠ "#" ++ n := by
      rintro rfl
      exact hn (by simp)
    have hfind : (w.newObject cls ("#" ++ n) slots).2.find? name = w.find? name := by
      show List.lookup name (("#" ++ n, _) :: (w.addSlots _ slots).2.names.filter _) = _
      rw [List.lookup_cons, beq_false_of_ne hne, hnames]
      exact lookup_forget w hne
    exact hfind ▸ h

theorem Declared.ofEq {r : Registry} {w w' : World} (h : w.Declared r) (ho : w'.objects = w.objects)
    (hs : w.cells.size ≤ w'.cells.size)
    (hv : ∀ c, c.index < w.cells.size → w'.cellValue c = w.cellValue c) :
    w'.Declared r := by
  have hclass : w'.classOf = w.classOf := by
    funext o
    simp only [World.classOf, World.object?, ho]
  have hslot (o : ObjectId) (p : String) : w'.slot? o p = w.slot? o p := by
    simp only [World.slot?, World.object?, ho]
  have hobs (o : ObjectId) (p : String) : w'.observable? o p = w.observable? o p := by
    simp only [World.observable?, hslot]
  constructor
  · intro o p c hc
    exact Nat.lt_of_lt_of_le (h.exist o p c ((hobs o p).symm.trans hc)) hs
  · intro o d c name p hd hc hp hflag
    obtain ⟨x, hx, ht⟩ := h.observed o d c name p (hclass ▸ hd) hc hp hflag
    refine ⟨x, (hslot o p.name).trans hx, ?_⟩
    rwa [hclass, hv x (h.exist o p.name x (observable?_eq_some.mpr hx))]
  · intro o d c name p hd hc hp hflag
    obtain ⟨v, hv, ht⟩ := h.plain o d c name p (hclass ▸ hd) hc hp hflag
    exact ⟨v, (hslot o p.name).trans hv, hclass ▸ ht⟩
  · exact fun f hf ↦ hclass ▸ h.statics f hf

theorem Declared.store {r : Registry} {w : World} (h : w.Declared r) {c : CellId} {cell : Cell}
    (hc : w.cell? c = some cell) {v : Value} (hv : w.Accepts r c v) :
    (w.modifyCell c ({ · with value := v })).Declared r where
  exist o p d hd := by simpa [modifyCell] using h.exist o p d hd
  observed o d k name p ho hk hp hobs := by
    obtain ⟨x, hx, ht⟩ := h.observed o d k name p ho hk hp hobs
    refine ⟨x, hx, ?_⟩
    rw [cellValue_store hc]
    split
    · next hcx => exact hv o d k name p ho hk hp hobs (hcx ▸ observable?_eq_some.mpr hx)
    · exact ht
  plain := h.plain
  statics := h.statics

/-- A world that goes on from another one and is as it is declared. -/
structure Later (r : Registry) (w w' : World) : Prop extends w.Extends w' where
  declared : w'.Declared r

namespace Later

variable {r : Registry} {w w' w'' : World}

theorem refl (h : w.Declared r) : w.Later r w := ⟨.refl w, h⟩

theorem trans (h : w.Later r w') (h' : w'.Later r w'') : w.Later r w'' :=
  ⟨h.toExtends.trans h'.toExtends, h'.declared⟩

theorem hasTy (h : w.Later r w') {t : Ty} {v : Value} (hv : r.HasTy w.classOf t v) :
    r.HasTy w'.classOf t v := hv.mono h.classOf

theorem forall₂ (h : w.Later r w') {ts : List Ty} {vs : List Value}
    (hvs : List.Forall₂ (r.HasTy w.classOf) ts vs) : List.Forall₂ (r.HasTy w'.classOf) ts vs :=
  hvs.imp fun _ _ ↦ h.hasTy

end Later

/-- The world right after a property is written, before anybody is told. -/
def stored (w : World) (o : ObjectId) (property : String) (v : Value) : World :=
  match w.slot? o property with
  | some (.observable c) => w.modifyCell c ({ · with value := v })
  | _ => w.setPlain o property v

/-- A cell keeps an observable property of a type. -/
def Shows (r : Registry) (w : World) (t : Ty) (c : CellId) : Prop :=
  ∃ o d k name p, w.classOf o = some d ∧ r.model.isSubclass d k ∧
    r.model.property (.class k) name = some p ∧ p.flags.observable ∧
    w.observable? o p.name = some c ∧ p.ty = t

theorem Shows.mono {r : Registry} {w w' : World} {t : Ty} {c : CellId} (h : w.Extends w')
    (hc : w.Shows r t c) : w'.Shows r t c := by
  obtain ⟨o, d, k, name, p, ho, hk, hp, hobs, hc, ht⟩ := hc
  exact ⟨o, d, k, name, p, h.classOf o d ho, hk, hp, hobs, h.observable o p.name c hc, ht⟩

theorem Shows.hasTy {r : Registry} {w : World} {t : Ty} {c : CellId} (hc : w.Shows r t c)
    (h : w.Declared r) : r.HasTy w.classOf t (w.cellValue c) := by
  obtain ⟨o, d, k, name, p, ho, hk, hp, hobs, hc, rfl⟩ := hc
  obtain ⟨x, hx, ht⟩ := h.observed o d k name p ho hk hp hobs
  rw [observable?_eq_some, hx] at hc
  cases hc
  exact ht

end World

/-- Host code that is started in a world, and goes on in whatever worlds come later, leaves the heap
as it is declared, fails as `E` says and comes to a result as `Q` says. -/
def Action.Conforms {α : Type} (r : Registry) (E : RuntimeError → Prop) (Q : α → World → Prop) :
    Action α → World → Prop
  | .done a, w => Q a w
  | .fail e, _ => E e
  | .get o property next, w => ∀ w', w.Later r w' → (next (w'.get? o property)).Conforms r E Q w'
  | .set o property v next, w => ∀ w', w.Later r w' →
    (w'.stored o property v).Declared r ∧ next.Conforms r E Q w'
  | .text v next, w => ∀ w', w.Later r w' → (next (w'.text r v)).Conforms r E Q w'
  | .find name next, w => ∀ w', w.Later r w' → (next (w'.find? name)).Conforms r E Q w'
  | .make cls slots next, w => ∀ w' o w'', w.Later r w' → makeObject cls slots w' = (.ok o, w'') →
    w''.Declared r ∧ (next o).Conforms r E Q w''
  | .ifLive o live dead, w => ∀ w', w.Later r w' →
    if w'.isLive r o then live.Conforms r E Q w' else dead.Conforms r E Q w'
  | .logCall _ _ next, w | .logWatch _ _ next, w => ∀ w', w.Later r w' → next.Conforms r E Q w'

/-- What host code may do it may do later too. -/
theorem Action.Conforms.later {α : Type} {r : Registry} {E : RuntimeError → Prop}
    {Q : α → World → Prop} (hQ : ∀ a w w', w.Later r w' → Q a w → Q a w') {action : Action α}
    {w w' : World} (h : action.Conforms r E Q w) (hw : w.Later r w') : action.Conforms r E Q w' := by
  cases action with
  | done a => exact hQ a w w' hw h
  | fail e => exact h
  | make => exact fun u o u' hu hmake ↦ h u o u' (hw.trans hu) hmake
  | _ => exact fun u hu ↦ h u (hw.trans hu)

end LiveBinding
