import LiveBinding.Proofs.Change
import LiveBinding.Proofs.FirstValue

/-!
A binding among others. `Deployment` is a compiled binding with the part of a host that does not change
around it, and `Deployment.Sound` says what holds between any two steps of the host: the books of the
binding are right, and its neighbours, which are other bindings and listeners of the host, can be told of
a change without harm. What the neighbours do is a change of the world `Beside` the binding, which leaves
all that sound.
-/

namespace LiveBinding

open Exec Fragment

namespace Listener

/-- The step for which a listener calls a binding. -/
def stepOf? (i : InstanceId) : Listener → Option Nat
  | binding j k => if j = i then some k else none
  | callback _ => none

/-- The steps for which some listeners call a binding, in order. -/
def stepsOf (i : InstanceId) (ls : List Listener) : List Nat := ls.filterMap (stepOf? i)

variable {i j : InstanceId} {k : Nat} {ls : List Listener}

theorem mem_stepsOf : k ∈ stepsOf i ls ↔ binding i k ∈ ls := by
  rw [stepsOf, List.mem_filterMap]
  constructor
  · rintro ⟨l, hl, hk⟩
    cases l with
    | callback => cases hk
    | binding j n =>
      simp only [stepOf?] at hk
      split at hk
      · next hji =>
        cases hk
        exact hji ▸ hl
      · cases hk
  · exact fun h ↦ ⟨_, h, if_pos rfl⟩

theorem count_stepsOf (i : InstanceId) (k : Nat) (ls : List Listener) :
    (stepsOf i ls).count k = ls.countP (·.isBinding i k) := by
  rw [stepsOf, List.count, List.countP_filterMap]
  refine List.countP_congr fun l _ ↦ ?_
  cases l with
  | callback => simp [stepOf?, isBinding]
  | binding j n =>
    rw [isBinding_binding]
    by_cases hji : j = i <;> simp [stepOf?, hji]

theorem length_stepsOf (i : InstanceId) (ls : List Listener) :
    (stepsOf i ls).length = ls.countP (·.belongsTo i) := by
  rw [stepsOf, List.length_filterMap_eq_countP]
  refine List.countP_congr fun l _ ↦ ?_
  cases l with
  | callback => simp [stepOf?, belongsTo]
  | binding j n => by_cases hji : j = i <;> simp [stepOf?, belongsTo, hji]

/-- Listeners of another binding come and go. -/
theorem stepsOf_concat (hj : j ≠ i) (k : Nat) (ls : List Listener) :
    stepsOf i (ls ++ [binding j k]) = stepsOf i ls := by
  simp [stepsOf, stepOf?, hj]

theorem stepsOf_eraseP (hj : j ≠ i) (k : Nat) (ls : List Listener) :
    stepsOf i (ls.eraseP (·.isBinding j k)) = stepsOf i ls := by
  induction ls with
  | nil => rfl
  | cons l ls ih =>
    by_cases hl : l.isBinding j k
    · rw [List.eraseP_cons_of_pos hl, eq_binding_of_isBinding hl]
      simp [stepsOf, stepOf?, hj]
    · rw [stepsOf, stepsOf] at ih
      rw [List.eraseP_cons_of_neg hl, stepsOf, stepsOf, List.filterMap_cons, List.filterMap_cons, ih]

end Listener

namespace World

variable {w w' : World}

theorem observable?_of_objects (h : w'.objects = w.objects) (o : ObjectId) (p : String) :
    w'.observable? o p = w.observable? o p := by
  simp only [observable?, slot?, object?, h]

/-- Of worlds with the same objects only what their cells hold is read differently. -/
theorem guarded_reading_eq (h : w'.objects = w.objects) (r : Registry)
    (answer : MethodId → List Value → Except Stop Value) (locals : List Value)
    (captures : Array Value) :
    (w'.reading r answer locals captures).guarded =
      withValues (w.reading r answer locals captures).guarded w'.cellValue := by
  have hcell := observable?_of_objects h
  have htext : (fun v : Value ↦ if v.isCell then .error .exhausted else .ok (w'.text r v)) =
      (fun v : Value ↦ if v.isCell then .error .exhausted else (.ok (w.text r v) : Except Stop String)) := by
    funext v
    split
    · rfl
    · next hv => rw [text_of_objects h r (by simpa using hv)]
  have hproperty (o : ObjectId) (p : String) (hnone : w.observable? o p = none) :
      w'.get? o p = w.get? o p := by
    have hslot : w'.slot? o p = w.slot? o p := by simp only [slot?, object?, h]
    simp only [get?, hslot]
    simp only [observable?] at hnone
    cases hs : w.slot? o p with
    | none => rfl
    | some slot =>
      cases slot with
      | plain v => rfl
      | observable c => simp [hs] at hnone
  simp only [Reading.guarded, reading, withValues, hcell, htext]
  congr 1
  funext o p
  by_cases hnone : w.observable? o p = none
  · simp [hnone, hproperty o p hnone, Except.isOk, Except.toBool]
  · obtain ⟨c, hc⟩ := Option.ne_none_iff_exists'.mp hnone
    simp [hc, Except.isOk, Except.toBool]

/-- A cell takes a value: it is of the type of every declared property that the cell keeps. -/
def Accepts (r : Registry) (w : World) (c : CellId) (v : Value) : Prop :=
  ∀ o d k name p, w.classOf o = some d → r.model.isSubclass d k →
    r.model.property (.class k) name = some p → p.flags.observable →
    w.observable? o p.name = some c → r.HasTy w.classOf p.ty v

theorem Accepts.of_model {r r' : Registry} (hm : r'.model = r.model) {c : CellId} {v : Value}
    (h : w.Accepts r c v) : w.Accepts r' c v := by
  intro o d k name p ho hk hp hobs hc
  rw [hm] at hk hp
  have ht := h o d k name p ho hk hp hobs hc
  cases hty : p.ty <;> rw [hty] at ht <;> simpa only [Registry.HasTy, hm] using ht

/-- What a cell takes is known from the objects. -/
theorem Accepts.of_objects {r : Registry} {c : CellId} {v : Value} (h : w.Accepts r c v)
    (ho : w'.objects = w.objects) : w'.Accepts r c v := by
  have hclass : w'.classOf = w.classOf := by
    funext o
    simp only [classOf, object?, ho]
  intro o d k name p hd hk hp hobs hc
  rw [observable?_of_objects ho] at hc
  rw [hclass] at hd ⊢
  exact h o d k name p hd hk hp hobs hc

/-- Cells that take a number take any other one. -/
theorem Accepts.int {r : Registry} {c : CellId} {a b : Int32} (h : w.Accepts r c (.int a)) :
    w.Accepts r c (.int b) := by
  intro o d k name p hd hk hp hobs hc
  have ht := h o d k name p hd hk hp hobs hc
  cases hty : p.ty <;> simp_all [Registry.HasTy, Value.isCell, Value.prim?]

/-- Whether a cell takes a value can be computed. -/
def takes (r : Registry) (w : World) (c : CellId) (v : Value) : Bool :=
  (List.range w.objects.size).all fun o ↦ (r.classes.toList.flatMap ClassDef.properties).all fun p ↦
    w.observable? ⟨o⟩ p.name != some c || r.hasTy? w.classOf p.ty v

theorem accepts_of_takes {r : Registry} {c : CellId} {v : Value} (h : w.takes r c v) :
    w.Accepts r c v := by
  intro o d k name p ho hk hp hobs hc
  obtain ⟨-, hmem⟩ := Registry.property_declared hp
  have hlt : o.index < w.objects.size := by
    by_contra hle
    simp [classOf, object?, Nat.not_lt.mp hle] at ho
  have h := List.all_eq_true.mp (List.all_eq_true.mp h o.index (List.mem_range.mpr hlt)) p hmem
  exact Registry.hasTy_of_hasTy? (by simpa [hc] using h)

theorem cellValue_store {c : CellId} {cell : Cell} (hc : w.cell? c = some cell) (v : Value)
    (d : CellId) :
    (w.modifyCell c ({ · with value := v })).cellValue d = if c = d then v else w.cellValue d := by
  simp only [cellValue, cell?_modifyCell]
  split
  · next h => simp [← h, hc]
  · rfl

/-- The heap stays as it is declared when a value is stored that its cell takes. -/
theorem Conforms.store {r : Registry} {answer : MethodId → List Value → Except RuntimeError Value}
    (h : w.Conforms r answer) {c : CellId} {cell : Cell} (hc : w.cell? c = some cell) {v : Value}
    (hv : w.Accepts r c v) : (w.modifyCell c ({ · with value := v })).Conforms r answer where
  exist o p d hd := by simpa [modifyCell] using h.exist o p d hd
  observed o d k name p ho hk hp hobs := by
    obtain ⟨x, hx, ht⟩ := h.observed o d k name p ho hk hp hobs
    refine ⟨x, hx, ?_⟩
    rw [cellValue_store hc]
    split
    · next hcx =>
      exact hv o d k name p ho hk hp hobs (hcx ▸ observable?_eq_some.mpr hx)
    · exact ht
  plain := h.plain
  statics := h.statics
  answers := h.answers

end World

theorem Tracks.of_eq {artifact : Artifact} {points : List SavePoint} {i : InstanceId} {w w' : World}
    {s : Instance} {on : Nat → Option CellId} (h : Tracks artifact points i w s on)
    (hs : w'.instance? i = w.instance? i) (hq : Quiet i w w') : Tracks artifact points i w' s on where
  found := hs.trans h.found
  fits := h.fits
  exist k c hc := Nat.lt_of_lt_of_le (h.exist k c hc) hq.cells
  listening k c := (hq.listening k c).trans (h.listening k c)
  handles := h.handles
  counts := h.counts


/-- Host code that writes observable properties only, with values that these take, and that comes to
an outcome of some kind whatever it reads in worlds of some kind. -/
def Action.Tame {α : Type} (r : Registry) (W : World → Prop) (Q : Except RuntimeError α → Prop) :
    Action α → Prop
  | done a => Q (.ok a)
  | fail e => Q (.error e)
  | get o property next => ∀ w, W w → Tame r W Q (next (w.get? o property))
  | set o property v next =>
    (∀ w, W w → ∃ c, w.observable? o property = some c ∧ w.Accepts r c v) ∧ Tame r W Q next
  | text v next => ∀ w, W w → Tame r W Q (next (w.text r v))
  | find name next => ∀ w, W w → Tame r W Q (next (w.find? name))
  | make .. => False
  | ifLive _ live dead => Tame r W Q live ∧ Tame r W Q dead
  | logCall _ _ next => Tame r W Q next
  | logWatch _ _ next => Tame r W Q next

/-- A binding in a host: its code, where it keeps its storage and its value, and what does not change
around it. The methods of the host may be other ones than those that its code is read with. -/
structure Deployment where
  registry : Registry
  methods : Array MethodDef
  /-- What the methods of the host answer. -/
  answer : MethodId → List Value → Except RuntimeError Value
  objects : Array HostObject
  frame : List Value
  names : List (String × ObjectId)
  body : Fragment
  coercion : Fragment
  rendered : Resumable
  layout : FlagLayout
  artifact : Artifact
  captures : Array Value
  id : InstanceId
  result : CellId
  compiles : Compiles body coercion rendered layout artifact
  ordered : Ordered .start body rendered
  few : body.points.length < 2 ^ 31
  model : Registry.model { registry with methods } = registry.model

namespace Deployment

variable (D : Deployment)

/-- The classes and methods of the host. -/
def host : Registry := { D.registry with methods := D.methods }

/-- What the binding evaluates: its expression and the conversion of its value. -/
def code : Fragment := .append D.body D.coercion

/-- What the binding reads in a world. -/
def reading (w : World) : Reading :=
  (w.reading D.registry (asked D.answer) [] D.captures).guarded

/-- What the storage of the binding stands for. -/
def store (s : Instance) : Store := s.store D.artifact

theorem points_code : D.code.points = D.body.points := by
  simp [code, points, (touched_of_isPlain D.compiles.plain).2]

theorem steps_code : D.code.steps = D.body.steps := by
  simp [steps, points_code]

theorem sequential_code : D.code.Sequential :=
  ⟨D.ordered.sequential, sequential_of_isPlain D.compiles.plain, fun _ _ hw ↦ by
    have hnone := writes_subset_touched _ hw
    rw [(touched_of_isPlain D.compiles.plain).1] at hnone
    cases hnone⟩

theorem sorted_code : D.code.steps.Pairwise (· < ·) := by
  rw [steps_code, D.compiles.steps_eq]
  exact List.pairwise_lt_range'

theorem within_code {l : Loc} (h : l ∈ D.code.touched) : l.Within D.artifact := by
  rcases List.mem_append.mp h with h | h
  · exact D.compiles.within (D.ordered.between l h)
  · rw [show D.coercion.locs _ = [] from (touched_of_isPlain D.compiles.plain).1] at h
    cases h

theorem strict_reading (w : World) : (D.reading w).strict := rfl

theorem reading_of_objects {w w' : World} (h : w'.objects = w.objects) :
    D.reading w' = withValues (D.reading w) w'.cellValue := World.guarded_reading_eq h ..

theorem reading_eq {w w' : World} (ho : w'.objects = w.objects) (hv : w'.cellValue = w.cellValue) :
    D.reading w' = D.reading w := by
  rw [D.reading_of_objects ho, hv]
  rfl

/-- The worlds that code of the host can run in. -/
def Around (w : World) : Prop :=
  w.Conforms D.registry D.answer ∧ w.objects = D.objects ∧ w.names = D.names

/-- Host code may be judged with other methods: it does not call any. -/
theorem tame_host {α : Type} {W : World → Prop} {Q : Except RuntimeError α → Prop} {action : Action α}
    (h : action.Tame D.registry W Q) : action.Tame D.host W Q := by
  induction action with
  | done | fail => exact h
  | get o property next ih | find name next ih => exact fun w hw ↦ ih _ (h w hw)
  | set o property v next ih =>
    refine ⟨fun w hw ↦ ?_, ih h.2⟩
    obtain ⟨c, hc, hv⟩ := h.1 w hw
    exact ⟨c, hc, hv.of_model D.model⟩
  | text v next ih =>
    intro w hw
    have htext : w.text D.host v = w.text D.registry v := World.text_methods ..
    rw [htext]
    exact ih _ (h w hw)
  | make => exact h
  | ifLive o live dead ih ih' => exact ⟨ih h.1, ih' h.2⟩
  | logCall method args next ih | logWatch tag v next ih => exact ih h

/-- A callback can be told of whatever its cell comes to hold: all that it writes are observable
properties, with values that these take. -/
def Hears (c : CellId) (action : Value → Action Unit) : Prop :=
  ∀ w, D.Around w → (action (w.cellValue c)).Tame D.host D.Around fun _ ↦ True

/-- What surrounds the binding: cells of properties are not locked, every other binding publishes to a
cell of its own, and the callbacks can be told of changes. -/
structure Hosts (w : World) : Prop where
  objects : w.objects = D.objects
  frame : w.frame = D.frame
  names : w.names = D.names
  conforms : w.Conforms D.registry D.answer
  apart : ∀ o p d, w.observable? o p = some d → d ≠ D.result
  unlocked : ∀ o p d cell, w.observable? o p = some d → w.cell? d = some cell → cell.lockDepth = 0
  others : ∀ j t, w.instance? j = some t → j ≠ D.id →
    t.result ≠ D.result ∧ ∀ o p, w.observable? o p ≠ some t.result
  heard : ∀ c cell action, w.cell? c = some cell → .callback action ∈ cell.listeners → D.Hears c action

/-- The storage and the listeners of the binding are as they should be, and so is what surrounds it. -/
structure Sound (w : World) (s : Instance) (on : Nat → Option CellId) : Prop extends Hosts D w where
  tracks : Tracks D.artifact D.body.points D.id w s on
  listens : ∀ k c, on k = some c → k ∈ D.body.steps ∧ ∃ o p, w.observable? o p = some c
  captures : s.captures = D.captures
  result : s.result = D.result
  alive : s.alive
  requests : ∀ k ∈ s.queued, k ∈ D.body.steps

/-- Some listeners of a cell can be called one after the other: steps of the binding, other bindings, and
callbacks. -/
structure Knows (c : CellId) (ls : List Listener) : Prop where
  own : ∀ k ∈ Listener.stepsOf D.id ls, k ∈ D.body.steps
  callbacks : ∀ action, .callback action ∈ ls → D.Hears c action

/-- Another binding publishes to the cell. -/
def Foreign (w : World) (c : CellId) : Prop :=
  ∃ j t, w.instance? j = some t ∧ j ≠ D.id ∧ t.result = c

/-- Other bindings come and go among the listeners of a cell. A cell that another one publishes to may
change altogether. -/
structure CellBeside (foreign : Prop) (cell cell' : Cell) : Prop where
  steps : Listener.stepsOf D.id cell'.listeners = Listener.stepsOf D.id cell.listeners
  callbacks : ∀ action, .callback action ∈ cell'.listeners → .callback action ∈ cell.listeners
  kept : ¬foreign → cell' = { cell with listeners := cell'.listeners }

/-- What happens beside the binding, while other ones run: they keep their storage, publish, and listen
to other cells. -/
structure Beside (w w' : World) : Prop where
  objects : w'.objects = w.objects
  frame : w'.frame = w.frame
  names : w'.names = w.names
  size : w'.cells.size = w.cells.size
  found : w'.instance? D.id = w.instance? D.id
  others : ∀ j t', w'.instance? j = some t' → j ≠ D.id →
    ∃ t, w.instance? j = some t ∧ t'.result = t.result
  cells : ∀ c cell', w'.cell? c = some cell' →
    ∃ cell, w.cell? c = some cell ∧ D.CellBeside (D.Foreign w c) cell cell'

variable {D} {w w' : World} {s : Instance} {on : Nat → Option CellId}

namespace Hosts

variable (h : D.Hosts w)
include h

theorem around : D.Around w := ⟨h.conforms, h.objects, h.names⟩

theorem not_foreign_of_slot {o : ObjectId} {p : String} {c : CellId} (hc : w.observable? o p = some c) :
    ¬D.Foreign w c := by
  rintro ⟨j, t, ht, hj, rfl⟩
  exact (h.others j t ht hj).2 o p hc

theorem not_foreign_result : ¬D.Foreign w D.result := by
  rintro ⟨j, t, ht, hj, heq⟩
  exact (h.others j t ht hj).1 heq

/-- What surrounds the binding stays right if no lock is taken and no callback is added. -/
theorem later (ho : w'.objects = w.objects) (hf : w'.frame = w.frame) (hn : w'.names = w.names)
    (hc : w'.Conforms D.registry D.answer)
    (hothers : ∀ j t', w'.instance? j = some t' → j ≠ D.id →
      ∃ t, w.instance? j = some t ∧ t'.result = t.result)
    (hcells : ∀ d cell', w'.cell? d = some cell' → ∃ cell, w.cell? d = some cell ∧
      (∀ action, .callback action ∈ cell'.listeners → .callback action ∈ cell.listeners) ∧
      ∀ o p, w.observable? o p = some d → cell'.lockDepth = cell.lockDepth) : D.Hosts w' := by
  have hslot (o : ObjectId) (p : String) : w'.observable? o p = w.observable? o p :=
    World.observable?_of_objects ho o p
  refine ⟨ho.trans h.objects, hf.trans h.frame, hn.trans h.names, hc,
    fun o p d hd ↦ h.apart o p d (hslot o p ▸ hd), fun o p d cell' hd hcell' ↦ ?_,
    fun j t' ht' hj ↦ ?_, fun c cell' action hcell' haction ↦ ?_⟩
  · rw [hslot] at hd
    obtain ⟨cell, hcell, -, hdepth⟩ := hcells d cell' hcell'
    exact (hdepth o p hd).trans (h.unlocked o p d cell hd hcell)
  · obtain ⟨t, ht, heq⟩ := hothers j t' ht' hj
    obtain ⟨hne, hapart⟩ := h.others j t ht hj
    rw [heq]
    exact ⟨hne, fun o p hp ↦ hapart o p (hslot o p ▸ hp)⟩
  · obtain ⟨cell, hcell, hold, -⟩ := hcells c cell' hcell'
    exact h.heard c cell action hcell (hold action haction)

end Hosts

namespace Sound

variable (h : D.Sound w s on)
include h

theorem away (k : Nat) : on k ≠ some D.result := by
  intro hk
  obtain ⟨-, o, p, hp⟩ := h.listens k D.result hk
  exact h.apart o p D.result hp rfl

theorem mem_stepsOf {c : CellId} {cell : Cell} (hc : w.cell? c = some cell) {k : Nat} :
    k ∈ Listener.stepsOf D.id cell.listeners ↔ on k = some c := by
  have hone := h.tracks.listening k c
  rw [World.listening, hc, Option.map_some, Option.getD_some, ← Listener.count_stepsOf] at hone
  rw [← List.count_pos_iff, hone]
  split
  · next hk => simp [hk]
  · next hk => simp [hk]

/-- The listeners of every cell can be called. -/
theorem knows {c : CellId} {cell : Cell} (hc : w.cell? c = some cell) : D.Knows c cell.listeners where
  own k hk := (h.listens k c ((h.mem_stepsOf hc).mp hk)).1
  callbacks action := h.heard c cell action hc

/-- The binding does not listen to itself, nor to another one. -/
theorem stepsOf_eq_nil {c : CellId} {cell : Cell} (hc : w.cell? c = some cell)
    (hslot : ∀ o p, w.observable? o p ≠ some c) : Listener.stepsOf D.id cell.listeners = [] := by
  rw [List.eq_nil_iff_forall_not_mem]
  intro k hk
  obtain ⟨-, o, p, hp⟩ := h.listens k c ((h.mem_stepsOf hc).mp hk)
  exact hslot o p hp

theorem store_point {p : SavePoint} (hp : p ∈ D.body.points) :
    D.store s p.loc = .ofCell? (on p.step) := by
  show s.scratch.getD p.handle .null = _
  rw [Array.getD_eq_getD_getElem?, h.tracks.handles p hp]
  rfl

theorem on_of_store {p : SavePoint} (hp : p ∈ D.body.points) {d : CellId}
    (hd : D.store s p.loc = .cell d) : on p.step = some d := by
  rw [h.store_point hp] at hd
  cases ho : on p.step with
  | none => rw [ho] at hd; cases hd
  | some c =>
    rw [ho] at hd
    cases hd
    rfl

/-- Cells may take other values as long as the points that listen to them are noted. -/
theorem current_of_values (ho : w'.objects = w.objects) {E E' : List Nat} {τ : List Value}
    (hE : E ⊆ E') (htold : ∀ k d, on k = some d → w'.cellValue d ≠ w.cellValue d → k ∈ E')
    (hcur : D.code.Current (D.reading w) E [] (D.store s) τ) :
    D.code.Current (D.reading w') E' [] (D.store s) τ := by
  rw [D.reading_of_objects ho]
  refine hcur.change (D.strict_reading w) D.sequential_code D.sorted_code hE ?_
  rintro p hp ⟨d, hd, hne⟩
  exact htold p.step d (h.on_of_store (D.points_code ▸ hp) hd) hne

end Sound

namespace Beside

/-- Only what the host keeps besides objects, cells and bindings changes. -/
theorem ofEq (ho : w'.objects = w.objects) (hf : w'.frame = w.frame) (hn : w'.names = w.names)
    (hc : w'.cells = w.cells) (hi : w'.instances = w.instances) : D.Beside w w' where
  objects := ho
  frame := hf
  names := hn
  size := by rw [hc]
  found := by simp only [World.instance?, hi]
  others j t ht _ := ⟨t, by simpa only [World.instance?, hi] using ht, rfl⟩
  cells c cell hcell := ⟨cell, by simpa only [World.cell?, hc] using hcell, rfl, fun _ ha ↦ ha, fun _ ↦ rfl⟩

theorem modifyCell (c : CellId) {f : Cell → Cell}
    (hf : ∀ cell, w.cell? c = some cell → D.CellBeside (D.Foreign w c) cell (f cell)) :
    D.Beside w (w.modifyCell c f) where
  objects := rfl
  frame := rfl
  names := rfl
  size := by simp [World.modifyCell]
  found := rfl
  others j t ht _ := ⟨t, ht, rfl⟩
  cells d cell' hd := by
    rw [World.cell?_modifyCell] at hd
    split at hd
    · next hcd =>
      subst hcd
      obtain ⟨cell, hcell, rfl⟩ := Option.map_eq_some_iff.mp hd
      exact ⟨cell, hcell, hf cell hcell⟩
    · exact ⟨cell', hd, rfl, fun _ ha ↦ ha, fun _ ↦ rfl⟩

/-- A cell that another binding publishes to changes. -/
theorem modifyForeign {c : CellId} (hc : D.Foreign w c) {f : Cell → Cell}
    (hf : ∀ cell, (f cell).listeners = cell.listeners) : D.Beside w (w.modifyCell c f) :=
  .modifyCell c fun cell _ ↦ ⟨by rw [hf], fun _ ha ↦ by rwa [hf] at ha, fun hnot ↦ absurd hc hnot⟩

/-- Another binding listens to a cell, or does not listen to it any more. -/
theorem listeners {j : InstanceId} (hj : j ≠ D.id) (k : Nat) (c : CellId) (w : World) :
    D.Beside w (w.modifyCell c (·.addListener (.binding j k))) ∧
      D.Beside w (w.modifyCell c (·.removeListener j k)) := by
  refine ⟨.modifyCell c fun cell _ ↦ ⟨Listener.stepsOf_concat hj k _, fun action ha ↦ ?_, fun _ ↦ rfl⟩,
    .modifyCell c fun cell _ ↦ ⟨Listener.stepsOf_eraseP hj k _, fun action ha ↦ ?_, fun _ ↦ rfl⟩⟩
  · exact (List.mem_append.mp ha).resolve_right (by simp)
  · exact List.mem_of_mem_eraseP ha

/-- The storage of another binding changes. -/
theorem modifyInstance {j : InstanceId} (hj : j ≠ D.id) {f : Instance → Instance}
    (hf : ∀ t, w.instance? j = some t → (f t).result = t.result) :
    D.Beside w (w.modifyInstance j f) where
  objects := rfl
  frame := rfl
  names := rfl
  size := rfl
  found := by rw [World.instance?_modifyInstance, if_neg hj]
  others i t' ht' _ := by
    rw [World.instance?_modifyInstance] at ht'
    split at ht'
    · next hji =>
      subst hji
      obtain ⟨t, ht, rfl⟩ := Option.map_eq_some_iff.mp ht'
      exact ⟨t, ht, hf t ht⟩
    · exact ⟨t', ht', rfl⟩
  cells c cell hc := ⟨cell, hc, rfl, fun _ ha ↦ ha, fun _ ↦ rfl⟩

theorem observable? (h : D.Beside w w') (o : ObjectId) (p : String) :
    w'.observable? o p = w.observable? o p := World.observable?_of_objects h.objects o p

/-- Cells that no other binding publishes to keep what they hold. -/
theorem cell?_of_not_foreign (h : D.Beside w w') {c : CellId} (hc : ¬D.Foreign w c) {cell : Cell}
    (hcell : w.cell? c = some cell) : ∃ ls, w'.cell? c = some { cell with listeners := ls } := by
  have hlt : c.index < w'.cells.size := by
    rw [h.size]
    exact (Array.getElem?_eq_some_iff.mp hcell).1
  obtain ⟨cell', hcell'⟩ : ∃ cell', w'.cell? c = some cell' := ⟨_, Array.getElem?_eq_getElem hlt⟩
  obtain ⟨cell₀, hcell₀, hbeside⟩ := h.cells c cell' hcell'
  obtain rfl : cell₀ = cell := Option.some.inj (hcell₀.symm.trans hcell)
  refine ⟨cell'.listeners, ?_⟩
  rw [← hbeside.kept hc]
  exact hcell'

theorem cellValue_of_not_foreign (h : D.Beside w w') {c : CellId} (hc : ¬D.Foreign w c) :
    w'.cellValue c = w.cellValue c := by
  cases hcell : w.cell? c with
  | none =>
    have hnone : w'.cell? c = none := by
      simp only [World.cell?, Array.getElem?_eq_none_iff] at hcell ⊢
      rw [h.size]
      exact hcell
    simp only [World.cellValue, hcell, hnone]
  | some cell =>
    obtain ⟨ls, hls⟩ := h.cell?_of_not_foreign hc hcell
    simp only [World.cellValue, hcell, hls, Option.map_some]

theorem listening (h : D.Beside w w') (k : Nat) (c : CellId) :
    w'.listening D.id k c = w.listening D.id k c := by
  simp only [World.listening]
  cases hcell' : w'.cell? c with
  | none =>
    have hnone : w.cell? c = none := by
      simp only [World.cell?, Array.getElem?_eq_none_iff] at hcell' ⊢
      rw [← h.size]
      exact hcell'
    simp [hnone]
  | some cell' =>
    obtain ⟨cell, hcell, hbeside⟩ := h.cells c cell' hcell'
    simp only [hcell, Option.map_some, Option.getD_some, ← Listener.count_stepsOf, hbeside.steps]

theorem quiet (h : D.Beside w w') : Quiet D.id w w' where
  cells := h.size.ge
  slots hs o p c hc := by
    rw [h.size]
    exact hs o p c (h.observable? o p ▸ hc)
  listening := h.listening
  storage s hs := ⟨s, h.found.trans hs, rfl, rfl, rfl, rfl⟩

theorem hosts (h : D.Beside w w') (hw : D.Hosts w) : D.Hosts w' := by
  refine hw.later h.objects h.frame h.names ?_ h.others fun d cell' hcell' ↦ ?_
  · exact hw.conforms.of_eq h.objects
      (fun o p c hc ↦ h.cellValue_of_not_foreign (hw.not_foreign_of_slot hc)) (h.quiet.slots hw.conforms.exist)
  · obtain ⟨cell, hcell, hbeside⟩ := h.cells d cell' hcell'
    refine ⟨cell, hcell, hbeside.callbacks, fun o p hd ↦ ?_⟩
    rw [hbeside.kept (hw.not_foreign_of_slot hd)]

/-- Nothing that happens beside the binding matters to it. -/
theorem sound (h : D.Beside w w') (hs : D.Sound w s on) : D.Sound w' s on where
  toHosts := h.hosts hs.toHosts
  tracks := hs.tracks.of_eq h.found h.quiet
  listens k c hk := by
    obtain ⟨hmem, o, p, hp⟩ := hs.listens k c hk
    exact ⟨hmem, o, p, (h.observable? o p).trans hp⟩
  captures := hs.captures
  result := hs.result
  alive := hs.alive
  requests := hs.requests

/-- What the binding listens to keeps its value. -/
theorem cellValue_on (h : D.Beside w w') (hs : D.Sound w s on) {k : Nat} {d : CellId}
    (hk : on k = some d) : w'.cellValue d = w.cellValue d := by
  obtain ⟨-, o, p, hp⟩ := hs.listens k d hk
  exact h.cellValue_of_not_foreign (hs.not_foreign_of_slot hp)

theorem current (h : D.Beside w w') (hs : D.Sound w s on) {E : List Nat} {τ : List Value}
    (hcur : D.code.Current (D.reading w) E [] (D.store s) τ) :
    D.code.Current (D.reading w') E [] (D.store s) τ :=
  hs.current_of_values h.objects (List.Subset.refl E)
    (fun _ _ hk hne ↦ absurd (h.cellValue_on hs hk) hne) hcur

end Beside

namespace Sound

variable (h : D.Sound w s on)
include h

/-- The cell that the binding publishes to is its own. -/
theorem putResult {cell cell' : Cell} (hc : w.cell? D.result = some cell)
    (hl : cell'.listeners = cell.listeners) : D.Sound (w.putCell D.result cell') s on where
  toHosts := by
    refine h.toHosts.later rfl rfl rfl ?_ (fun j t ht _ ↦ ⟨t, ht, rfl⟩) fun d x hd ↦ ?_
    · refine h.conforms.of_eq rfl (fun o p x hx ↦ ?_) fun o p d hd ↦ ?_
      · simp only [World.cellValue, World.putCell, World.cell?_modifyCell,
          if_neg (h.apart o p x hx).symm]
      · simpa [World.putCell, World.modifyCell] using h.conforms.exist o p d hd
    · rw [World.putCell, World.cell?_modifyCell] at hd
      split at hd
      · next hdr =>
        subst hdr
        rw [hc] at hd
        obtain rfl := Option.some.inj hd
        exact ⟨cell, hc, fun _ ha ↦ by rwa [hl] at ha, fun o p hp ↦ absurd rfl (h.apart o p _ hp)⟩
      · exact ⟨x, hd, fun _ ha ↦ ha, fun _ _ _ ↦ rfl⟩
  tracks := by
    refine h.tracks.of_eq rfl ⟨by simp [World.putCell, World.modifyCell], fun hs o p d hd ↦ ?_,
      fun k d ↦ ?_, fun t ht ↦ ⟨t, ht, rfl, rfl, rfl, rfl⟩⟩
    · simpa [World.putCell, World.modifyCell] using hs o p d hd
    · simp only [World.listening, World.putCell, World.cell?_modifyCell]
      split
      · next hd => rw [← hd, hc]; simp [hl]
      · rfl
  listens := h.listens
  captures := h.captures
  result := h.result
  alive := h.alive
  requests := h.requests

/-- Publishing a value changes nothing for the binding. -/
theorem current_putResult {cell : Cell} {E : List Nat} {τ : List Value}
    (hcur : D.code.Current (D.reading w) E [] (D.store s) τ) :
    D.code.Current (D.reading (w.putCell D.result cell)) E [] (D.store s) τ := by
  have ho : (w.putCell D.result cell).objects = w.objects := rfl
  refine h.current_of_values ho (List.Subset.refl E) ?_ hcur
  intro k d hk hne
  have hdr : D.result ≠ d := fun heq ↦ h.away k (heq ▸ hk)
  exact absurd (by simp only [World.cellValue, World.putCell, World.cell?_modifyCell, if_neg hdr]) hne

/-- Other requests may wait. -/
theorem requeue {ks : List Nat} (hks : ∀ k ∈ ks, k ∈ D.body.steps) :
    D.Sound (w.put D.id { s with queued := ks }) { s with queued := ks } on where
  toHosts := by
    refine h.toHosts.later rfl rfl rfl ?_ (fun j t ht hj ↦ ⟨t, ?_, rfl⟩)
      fun d cell hd ↦ ⟨cell, hd, fun _ ha ↦ ha, fun _ _ _ ↦ rfl⟩
    · exact h.conforms.of_eq rfl (fun _ _ _ _ ↦ rfl) h.conforms.exist
    · rwa [World.instance?_put_of_ne hj] at ht
  tracks := ⟨World.instance?_put h.tracks.found, ⟨h.tracks.fits.code, h.tracks.fits.scratch,
    h.tracks.fits.counters, h.tracks.fits.flags⟩, h.tracks.exist, h.tracks.listening, h.tracks.handles,
    h.tracks.counts⟩
  listens := h.listens
  captures := h.captures
  result := h.result
  alive := h.alive
  requests := hks

/-- Storing a value in a cell of the heap. -/
theorem store {c : CellId} {cell : Cell} (hc : w.cell? c = some cell) {v : Value}
    (hv : w.Accepts D.registry c v) : D.Sound (w.modifyCell c ({ · with value := v })) s on where
  toHosts := by
    refine h.toHosts.later rfl rfl rfl (h.conforms.store hc hv) (fun j t ht _ ↦ ⟨t, ht, rfl⟩)
      fun d cell' hd ↦ ?_
    rw [World.cell?_modifyCell] at hd
    split at hd
    · obtain ⟨cell₀, hd₀, rfl⟩ := Option.map_eq_some_iff.mp hd
      exact ⟨cell₀, hd₀, fun _ ha ↦ ha, fun _ _ _ ↦ rfl⟩
    · exact ⟨cell', hd, fun _ ha ↦ ha, fun _ _ _ ↦ rfl⟩
  tracks := h.tracks.of_eq rfl (.modifyCell c w fun _ _ ↦ rfl)
  listens := h.listens
  captures := h.captures
  result := h.result
  alive := h.alive
  requests := h.requests

end Sound

end Deployment

end LiveBinding
