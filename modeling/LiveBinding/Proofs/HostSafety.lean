import LiveBinding.Proofs.Contracts

namespace LiveBinding

namespace Value

theorem eq_or_prim?_of_same {v v' : Value} (h : v.same v') :
    v = v' ∨ ∃ p, v.prim? = some p ∧ v'.prim? = some p := by
  by_cases heq : v = v'
  · exact .inl heq
  right
  cases v with
  | float x =>
    cases v' with
    | float y => exact ⟨.float, rfl, rfl⟩
    | _ => cases h
  | double x =>
    cases v' with
    | double y => exact ⟨.double, rfl, rfl⟩
    | _ => cases h
  | _ => exact absurd (beq_iff_eq.mp h) heq

end Value

/-- Values that are the same are of the same types. -/
theorem Registry.HasTy.of_same {r : Registry} {classes : ObjectId → Option ClassId} {t : Ty}
    {v v' : Value} (h : v.same v') (ht : r.HasTy classes t v') : r.HasTy classes t v := by
  obtain rfl | ⟨p, hv, hv'⟩ := Value.eq_or_prim?_of_same h
  · exact ht
  have hne : v' ≠ .null := by
    rintro rfl
    cases hv'
  cases t with
  | void | object => exact Value.isCell_of_prim? hv
  | null => exact absurd ht hne
  | prim q => exact hv.trans (hv'.symm.trans ht)
  | boxed q => exact .inr (hv.trans (hv'.symm.trans (Or.resolve_left ht hne)))
  | str =>
    obtain ⟨s, rfl⟩ := Or.resolve_left ht hne
    cases hv'
  | «class» c =>
    obtain ⟨o, d, rfl, -⟩ | ⟨d, name, rfl, -⟩ := Or.resolve_left ht hne <;> cases hv'

theorem World.stored_of_plain {w : World} {o : ObjectId} {p : String} {v : Value}
    (h : ∀ c, w.slot? o p ≠ some (.observable c)) : w.stored o p v = w.setPlain o p v := by
  unfold stored
  split
  · next c hc => exact absurd hc (h c)
  · rfl

variable {r : Registry} {E : RuntimeError → Prop} {w₀ : World}

namespace Contracts

/-- A sound state that a run has come to. -/
structure Since (Θ : Contracts r E w₀) (w₁ w : World) : Prop where
  sound : Θ.Sound w
  grows : Θ.Grows w₁ w

/-- Runs from sound states that are as `P` says lead to sound states, and what they come to is as `Q`
says, or they fail as `E` says. -/
def Safely (Θ : Contracts r E w₀) {α : Type} (P : World → Prop) (x : Run α)
    (Q : α → World → Prop) : Prop :=
  ∀ w₁, Ensures (fun w ↦ Θ.Since w₁ w ∧ P w) x (fun a w ↦ Θ.Since w₁ w ∧ Q a w)
    (fun e w ↦ Θ.Since w₁ w ∧ E e)

/-- A condition that no run breaks. -/
def Stable (Θ : Contracts r E w₀) (P : World → Prop) : Prop := ∀ w w', Θ.Grows w w' → P w → P w'

variable {Θ : Contracts r E w₀} {w w' w₁ : World} {c : CellId}

theorem Sound.since (h : Θ.Sound w) : Θ.Since w w := ⟨h, h.grows⟩

theorem Since.change (h : Θ.Since w₁ w) (hc : Θ.Change w w') : Θ.Since w₁ w' :=
  have hw := h.sound.change hc
  ⟨hw.1, h.grows.trans hw.2⟩

theorem Sound.log (h : Θ.Sound w) (e : Event) : Θ.Change w (w.logEvent e) :=
  .ofEq h.later.declared rfl rfl rfl rfl fun _ _ ↦ id

theorem Since.declared (h : Θ.Since w₁ w) : w.Declared r := h.sound.later.declared

/-- What running code holds may change. -/
theorem Since.held (h : Θ.Since w₁ w) (held : List Value) :
    Θ.Since w₁ { w with held } ∧ Θ.Grows w { w with held } := by
  have hchange : Θ.Change w { w with held } := .ofEq h.declared rfl rfl rfl rfl fun _ _ ↦ id
  exact ⟨h.change hchange, (h.sound.change hchange).2⟩

theorem Since.made (h : Θ.Since w₁ w) (made : Nat) : Θ.Since w₁ { w with made } :=
  h.change (.ofEq h.declared rfl rfl rfl rfl fun _ _ ↦ id)

namespace Safely

section

variable {α β : Type} {P P' F : World → Prop} {Q Q' : α → World → Prop} {R : β → World → Prop}
variable {x : Run α}

theorem mono (h : Θ.Safely P x Q) (hP : ∀ w, Θ.Sound w → P' w → P w)
    (hQ : ∀ a w, Θ.Sound w → Q a w → Q' a w) : Θ.Safely P' x Q' := fun w₁ ↦
  (h w₁).mono (fun w hw ↦ ⟨hw.1, hP w hw.1.sound hw.2⟩) (fun a w hw ↦ ⟨hw.1, hQ a w hw.1.sound hw.2⟩)
    fun _ _ ↦ id

theorem bind {k : α → Run β} (hx : Θ.Safely P x Q) (hk : ∀ a, Θ.Safely (Q a) (k a) R) :
    Θ.Safely P (x >>= k) R := fun w₁ ↦ (hx w₁).bind fun a ↦ hk a w₁

theorem pure {a : α} (h : ∀ w, Θ.Sound w → P w → Q a w) : Θ.Safely P (Pure.pure a) Q :=
  fun _ _ hw ↦ ⟨hw.1, h _ hw.1.sound hw.2⟩

theorem fail {e : RuntimeError} (he : ∀ w, P w → E e) : Θ.Safely P (Run.fail (α := α) e) Q :=
  fun _ w hw ↦ ⟨hw.1, he w hw.2⟩

theorem exhausted : Θ.Safely P (Run.exhausted (α := α)) Q := fun _ ↦ Ensures.exhausted

theorem view (f : World → α) (h : ∀ w, Θ.Sound w → P w → Q (f w) w) : Θ.Safely P (Run.view f) Q :=
  fun _ w hw ↦ ⟨hw.1, h w hw.1.sound hw.2⟩

theorem change {f : World → World} {Q : Unit → World → Prop}
    (h : ∀ w, Θ.Sound w → P w → Θ.Change w (f w) ∧ Q () (f w)) : Θ.Safely P (Run.change f) Q :=
  fun _ w hw ↦
    have hchange := h w hw.1.sound hw.2
    ⟨hw.1.change hchange.1, hchange.2⟩

/-- A condition that no run breaks still holds after one. -/
theorem frame (hF : Θ.Stable F) (h : Θ.Safely P x Q) :
    Θ.Safely (fun w ↦ P w ∧ F w) x fun a w ↦ Q a w ∧ F w := by
  intro w₁ w hw
  have hx := h w w ⟨hw.1.sound.since, hw.2.1⟩
  rcases hxs : x w with ⟨(e | -) | a, t⟩ <;> rw [hxs] at hx
  · exact ⟨⟨hx.1.sound, hw.1.grows.trans hx.1.grows⟩, hx.2⟩
  · trivial
  · exact ⟨⟨hx.1.sound, hw.1.grows.trans hx.1.grows⟩, hx.2, hF w t hx.1.grows hw.2.2⟩

theorem holding (values : List Value) (hP : Θ.Stable P) (hQ : ∀ a, Θ.Stable (Q a))
    (h : Θ.Safely P x Q) : Θ.Safely P (Run.holding values x) Q := fun w₁ ↦
  Run.ensures_holding values (h w₁)
    (fun _ held hw ↦ ⟨(hw.1.held held).1, hP _ _ (hw.1.held held).2 hw.2⟩)
    (fun a _ held hw ↦ ⟨(hw.1.held held).1, hQ a _ _ (hw.1.held held).2 hw.2⟩)
    fun _ _ held hw ↦ ⟨(hw.1.held held).1, hw.2⟩

theorem ignoreError {P : World → Prop} {x : Run Unit} (hP : Θ.Stable P)
    (h : Θ.Safely P x fun _ _ ↦ True) : Θ.Safely P (Run.ignoreError x) fun _ ↦ P := by
  intro w₁
  refine Run.ensures_ignoreError fun w hw ↦ ?_
  have hx := h w w ⟨hw.1.sound.since, hw.2⟩
  rcases hxs : x w with ⟨(e | -) | a, t⟩ <;> rw [hxs] at hx
  · exact ⟨⟨hx.1.sound, hw.1.grows.trans hx.1.grows⟩, hP w t hx.1.grows hw.2⟩
  · trivial
  · exact ⟨⟨hx.1.sound, hw.1.grows.trans hx.1.grows⟩, hP w t hx.1.grows hw.2⟩

end

end Safely

theorem stable_const {p : Prop} : Θ.Stable fun _ ↦ p := fun _ _ _ ↦ id

theorem stable_later {Q : World → Prop} (hQ : ∀ u v, World.Later r u v → Q u → Q v) : Θ.Stable Q :=
  fun _ _ hw ↦ hQ _ _ hw.toLater

theorem stable_heard {ls : List Listener} : Θ.Stable fun w ↦ ∀ l ∈ ls, Θ.Heard w c l :=
  fun _ _ hw h l hl ↦ (h l hl).onward hw.toOnward

/-- A cell takes a value: it is of the types that are asked for of what the cell holds. -/
structure Stores (Θ : Contracts r E w₀) (c : CellId) (v : Value) (w : World) : Prop where
  declared : (w.modifyCell c ({ · with value := v })).Declared r
  result : ∀ i C, Θ i = some C → w.resultCell? i = some c → r.HasTy w.classOf C.ty v

/-- No binding that is being made publishes to a cell. -/
def Free (Θ : Contracts r E w₀) (c : CellId) (w : World) : Prop :=
  ∀ i s, w.instance? i = some s → Θ i = none → s.alive → s.result ≠ c

theorem stable_free : Θ.Stable (Θ.Free c) := fun _ _ hw h i s hs hi halive ↦
  h i s (hw.frozen i hi ▸ hs) hi halive

/-- The result of a binding is its own. -/
theorem Sound.free (h : Θ.Sound w) {i : InstanceId} {s : Instance} (hs : w.instance? i = some s)
    {C : Contract r E w₀} (hC : Θ i = some C) : Θ.Free s.result w := by
  intro j t ht hj _ heq
  obtain rfl := h.own.apart j i t s ht hs heq
  rw [hC] at hj
  cases hj

/-- The updates that may be asked for do no harm. -/
def Updates (Θ : Contracts r E w₀) (update : Updater) : Prop :=
  ∀ i k C, Θ i = some C → k ∈ C.artifact.steps →
    Θ.Safely (fun _ ↦ True) (update i k) fun _ _ ↦ True

/-- Host code that conforms does no harm. -/
structure HostSafe (Θ : Contracts r E w₀) (update : Updater) (fuel : Nat) : Prop where
  perform : ∀ {α : Type} (action : Action α) (Q : α → World → Prop),
    (∀ a w w', w.Later r w' → Q a w → Q a w') →
    Θ.Safely (action.Conforms r E Q) (action.perform r update fuel) Q
  notifyAll : ∀ c listeners, Θ.Safely (fun w ↦ ∀ l ∈ listeners, Θ.Heard w c l)
    (notifyAll r update fuel c listeners) fun _ _ ↦ True
  notify : ∀ c, Θ.Safely (fun _ ↦ True) (notify r update fuel c) fun _ _ ↦ True
  writeCell : ∀ c v, Θ.Safely (Θ.Stores c v) (writeCell r update fuel c v) fun _ _ ↦ True
  writeProperty : ∀ o property v, Θ.Safely (fun w ↦ (w.stored o property v).Declared r)
    (writeProperty r update fuel o property v) fun _ _ ↦ True

section

variable {update : Updater} {fuel : Nat} {P : World → Prop}

/-- Writing a cell comes to a condition that the stored value comes to, and a value that is the same. -/
theorem safely_writeCell (hn : ∀ c, Θ.Safely (fun _ ↦ True) (notify r update fuel c) fun _ _ ↦ True)
    (hP : Θ.Stable P) (c : CellId) (v : Value) :
    Θ.Safely (fun w ↦ Θ.Stores c v w ∧ ((w.cellValue c).same v → P w) ∧
        P (w.modifyCell c ({ · with value := v })))
      (LiveBinding.writeCell r update (fuel + 1) c v) fun _ ↦ P := by
  have hview := Safely.view (Θ := Θ) (Q := fun old w ↦ Θ.Stores c v w ∧ (old.same v → P w) ∧
    P (w.modifyCell c ({ · with value := v }))) (·.cellValue c) fun w _ hw ↦ hw
  refine hview.bind fun old ↦ ?_
  split
  · next hsame => exact .pure fun w _ hw ↦ hw.2.1 hsame
  · refine Safely.bind (Q := fun _ w ↦ True ∧ P w)
      (.change fun w _ hw ↦ ⟨.store hw.1.declared hw.1.result, trivial, hw.2.2⟩) fun _ ↦ ?_
    exact ((hn c).frame hP).mono (fun _ _ ↦ id) fun _ _ _ hw ↦ hw.2

theorem hostSafe (hu : Θ.Updates update) (fuel : Nat) : Θ.HostSafe update fuel := by
  induction fuel with
  | zero =>
    refine ⟨fun action Q _ ↦ ?_, fun c listeners ↦ ?_, fun c ↦ ?_, fun c v ↦ ?_, fun o p v ↦ ?_⟩
    · rw [Action.perform]; exact .exhausted
    · cases listeners with
      | nil => exact .pure fun _ _ _ ↦ trivial
      | cons => exact .exhausted
    · exact .exhausted
    · exact .exhausted
    · exact .exhausted
  | succ fuel ih =>
    refine ⟨fun action Q hQ ↦ ?_, fun c listeners ↦ ?_, fun c ↦ ?_, fun c v ↦ ?_, fun o p v ↦ ?_⟩
    · have hstable (a : Action _) : Θ.Stable (a.Conforms r E Q) :=
        stable_later fun w w' hw h ↦ h.later hQ hw
      cases action with
      | done a => exact .pure fun _ _ hw ↦ hw
      | fail e => exact .fail fun _ hw ↦ hw
      | get o property next =>
        refine (Safely.view (Q := fun v ↦ (next v).Conforms r E Q) _ fun w hw h ↦ ?_).bind
          fun v ↦ ih.perform _ Q hQ
        exact h w (.refl hw.later.declared)
      | text v next =>
        refine (Safely.view (Q := fun s ↦ (next s).Conforms r E Q) _ fun w hw h ↦ ?_).bind
          fun v ↦ ih.perform _ Q hQ
        exact h w (.refl hw.later.declared)
      | find name next =>
        refine (Safely.view (Q := fun o ↦ (next o).Conforms r E Q) _ fun w hw h ↦ ?_).bind
          fun v ↦ ih.perform _ Q hQ
        exact h w (.refl hw.later.declared)
      | set o property v next =>
        refine Safely.bind (Q := fun _ ↦ next.Conforms r E Q) ?_ fun _ ↦ ih.perform next Q hQ
        refine ((ih.writeProperty o property v).frame (hstable next)).mono (fun w hw h ↦ ?_)
          fun _ _ _ h ↦ h.2
        exact h w (.refl hw.later.declared)
      | make cls slots next =>
        refine Safely.bind (Q := fun o ↦ (next o).Conforms r E Q) (fun w₁ w hw ↦ ?_) fun o ↦
          ih.perform _ Q hQ
        obtain ⟨hdeclared, hnext⟩ := hw.2 w _ _ (.refl hw.1.declared) rfl
        have hmade := hw.1.made (w.made + 1)
        exact ⟨hmade.change (.newObject hmade.sound.own hdeclared), hnext⟩
      | ifLive o live dead =>
        refine (Safely.view (Q := fun isLive w ↦ if isLive then live.Conforms r E Q w
          else dead.Conforms r E Q w) _ fun w hw h ↦ ?_).bind fun isLive ↦ ?_
        · exact h w (.refl hw.later.declared)
        · split
          · exact .holding _ (hstable live) (fun a ↦ stable_later (hQ a)) (ih.perform live Q hQ)
          · exact ih.perform dead Q hQ
      | logCall method args next | logWatch tag v next =>
        refine Safely.bind (Q := fun _ ↦ next.Conforms r E Q) (.change fun w hw h ↦ ?_) fun _ ↦
          ih.perform next Q hQ
        exact ⟨hw.log _, h _ (hw.log _).toLater⟩
    · cases listeners with
      | nil => exact .pure fun _ _ _ ↦ trivial
      | cons listener rest =>
        have hthen {x : Run Unit} (hx : Θ.Safely (fun w ↦ Θ.Heard w c listener) x fun _ _ ↦ True) :
            Θ.Safely (fun w ↦ ∀ l ∈ listener :: rest, Θ.Heard w c l)
              (x >>= fun _ ↦ LiveBinding.notifyAll r update fuel c rest) fun _ _ ↦ True :=
          ((hx.frame stable_heard).mono (fun _ _ h ↦ List.forall_mem_cons.mp h)
            fun _ _ _ h ↦ h.2).bind fun _ ↦ ih.notifyAll c rest
        cases listener with
        | binding i k =>
          refine (Safely.view (Q := fun _ w ↦ ∀ l ∈ .binding i k :: rest, Θ.Heard w c l) _
            fun _ _ ↦ id).bind fun alive ↦ ?_
          split
          · exact hthen fun w₁ w hw ↦ by
              obtain ⟨C, hC, hk⟩ := hw.2
              exact hu i k C hC hk w₁ w ⟨hw.1, trivial⟩
          · exact (ih.notifyAll c rest).mono (fun _ _ h ↦ (List.forall_mem_cons.mp h).2) fun _ _ _ ↦ id
        | callback action =>
          have hstable (v : Value) : Θ.Stable ((action v).Conforms r E fun _ _ ↦ True) :=
            stable_later fun w w' hw h ↦ h.later (fun _ _ _ _ ↦ id) hw
          refine (Safely.view (Q := fun v w ↦ (action v).Conforms r E (fun _ _ ↦ True) w ∧
            ∀ l ∈ rest, Θ.Heard w c l) _ fun w hw h ↦ ?_).bind fun v ↦ ?_
          · obtain ⟨hl, hrest⟩ := List.forall_mem_cons.mp h
            exact ⟨hl w (.refl hw.later.declared), hrest⟩
          · have hperform := Safely.holding [v] (hstable v) (fun _ ↦ stable_const)
              (ih.perform (action v) (fun _ _ ↦ True) fun _ _ _ _ ↦ id)
            exact ((hperform.frame stable_heard).mono (fun _ _ ↦ id) fun _ _ _ h ↦ h.2).bind
              fun _ ↦ ih.notifyAll c rest
    · refine (Safely.view (Q := fun found w ↦ ∀ cell, found = some cell →
        ∀ l ∈ cell.listeners, Θ.Heard w c l) _ fun w hw _ cell hc ↦ hw.heard c cell hc).bind fun found ↦ ?_
      cases found with
      | none => exact .pure fun _ _ _ ↦ trivial
      | some cell =>
        dsimp only
        split
        · refine .change fun w hw _ ↦ ⟨.modifyCell hw.later.declared (fun _ ↦ rfl)
            (fun _ _ _ _ _ _ _ ↦ rfl) fun _ _ _ hl ↦ .inl hl, trivial⟩
        · exact (ih.notifyAll c _).mono (fun _ _ h ↦ h cell rfl) fun _ _ _ ↦ id
    · exact (safely_writeCell ih.notify stable_const c v).mono
        (fun _ _ h ↦ ⟨h, fun _ ↦ trivial, trivial⟩) fun _ _ _ ↦ id
    · refine (Safely.view (Q := fun slot w ↦ w.slot? o p = slot ∧ (w.stored o p v).Declared r) _
        fun _ _ h ↦ ⟨rfl, h⟩).bind fun slot ↦ ?_
      have hplain (hslot : ∀ c, slot ≠ some (.observable c)) :
          Θ.Safely (fun w ↦ w.slot? o p = slot ∧ (w.stored o p v).Declared r)
            (Run.change (·.setPlain o p v)) fun _ _ ↦ True := by
        refine .change fun w hw h ↦ ?_
        obtain ⟨rfl, hdeclared⟩ := h
        rw [World.stored_of_plain hslot] at hdeclared
        refine ⟨.setPlain (Option.eq_none_iff_forall_ne_some.mpr fun c hc ↦ ?_) hdeclared, trivial⟩
        exact hslot c (World.observable?_eq_some.mp hc)
      rcases slot with _ | (v' | c)
      · exact hplain fun c hc ↦ by cases hc
      · exact hplain fun c hc ↦ by cases hc
      · refine (ih.writeCell c v).mono (fun w hw h ↦ ⟨?_, fun i C _ hi ↦ ?_⟩) fun _ _ _ ↦ id
        · rw [World.stored, h.1] at h
          exact h.2
        · exact absurd hi (hw.apart o p c i (World.observable?_eq_some.mpr h.1))

variable (hu : Θ.Updates update)
include hu

/-- Publishing a value of the type of a binding. -/
theorem safely_publish (fuel : Nat) {i : InstanceId} {v : Value} {C : Contract r E w₀}
    (hC : Θ i = some C) :
    Θ.Safely (fun w ↦ w.resultCell? i = some c ∧ r.HasTy w.classOf C.ty v)
      (LiveBinding.writeCell r update fuel c v) fun _ w ↦ Θ.Published w i := by
  cases fuel with
  | zero => exact .exhausted
  | succ fuel =>
    have hstable : Θ.Stable fun w ↦ Θ.Published w i := fun _ _ hw ↦ hw.published i
    refine (safely_writeCell (hostSafe hu fuel).notify hstable c v).mono (fun w hw h ↦ ?_)
      fun _ _ _ ↦ id
    obtain ⟨hc, hv⟩ := h
    have hvalue (u : World) (hu : u.resultCell? i = some c) : u.valueOf i = u.cellValue c := by
      rw [World.valueOf, hu]
      rfl
    obtain ⟨s, hs, rfl⟩ := Option.map_eq_some_iff.mp hc
    obtain ⟨cell, hcell⟩ : ∃ cell, w.cell? s.result = some cell :=
      ⟨_, Array.getElem?_eq_getElem (hw.own.exist i s hs)⟩
    have hdeclared := hw.later.declared.store hcell (v := v) fun o _ _ _ p _ _ _ _ hobs ↦
      absurd hc (hw.apart o p.name _ i hobs)
    refine ⟨⟨hdeclared, fun j D hD hj ↦ ?_⟩, fun hsame D hD ↦ ?_, fun D hD ↦ ?_⟩
    · obtain ⟨t, ht, heq⟩ := Option.map_eq_some_iff.mp hj
      obtain rfl := hw.own.apart j i t s ht hs heq
      obtain rfl : D = C := Option.some.inj (hD.symm.trans hC)
      exact hv
    · obtain rfl : D = C := Option.some.inj (hD.symm.trans hC)
      rw [hvalue w hc]
      exact hv.of_same hsame
    · obtain rfl : D = C := Option.some.inj (hD.symm.trans hC)
      have hstored := hvalue (w.modifyCell s.result ({ · with value := v })) hc
      rw [World.cellValue_store hcell, if_pos rfl] at hstored
      rw [hstored]
      exact hv

/-- Giving back a lock of a cell. -/
theorem safely_unlockCell (fuel : Nat) (c : CellId) :
    Θ.Safely (Θ.Free c) (LiveBinding.unlockCell r update fuel c) fun _ _ ↦ True := by
  refine (Safely.view (Q := fun found w ↦ Θ.Free c w) _ fun _ _ ↦ id).bind fun found ↦ ?_
  have hmodify {f : Cell → Cell} (hv : ∀ cell, (f cell).value = cell.value)
      (hl : ∀ cell, (f cell).listeners = cell.listeners) :
      Θ.Safely (Θ.Free c) (Run.change (·.modifyCell c f)) fun _ _ ↦ True :=
    .change fun w hw h ↦ ⟨.modifyCell hw.later.declared hv
      (fun i s hs hi halive heq ↦ absurd heq (h i s hs hi halive)) fun cell _ l hmem ↦
        .inl (hl cell ▸ hmem), trivial⟩
  cases found with
  | none => exact .pure fun _ _ _ ↦ trivial
  | some cell =>
    dsimp only
    split
    · refine Safely.bind (hmodify ?_ ?_) fun _ ↦ (hostSafe hu fuel).notify c <;> exact fun _ ↦ rfl
    · refine hmodify ?_ ?_ <;> exact fun _ ↦ rfl

theorem safely_releaseLocks (fuel : Nat) (c : CellId) (n : Nat) :
    Θ.Safely (Θ.Free c) (releaseLocks r update fuel c n) fun _ _ ↦ True := by
  induction n with
  | zero => exact .pure fun _ _ _ ↦ trivial
  | succ n ih => exact (Safely.ignoreError stable_free (safely_unlockCell hu fuel c)).bind fun _ ↦ ih

/-- A routine that ends early gives back its locks. -/
theorem safely_releaseHeld (fuel : Nat) {frame : Frame} {locks : LockDepth}
    (h : ∀ i, frame.binding = some i → (∃ C, Θ i = some C) ∨ locks = 0) :
    Θ.Safely (fun _ ↦ True) (releaseHeld r update fuel frame locks) fun _ _ ↦ True := by
  unfold releaseHeld
  cases hb : frame.binding with
  | none => exact .pure fun _ _ _ ↦ trivial
  | some i =>
    refine (Safely.view (Q := fun found w ↦ w.instance? i = found) _ fun _ _ _ ↦ rfl).bind fun found ↦ ?_
    cases found with
    | none => exact .pure fun _ _ _ ↦ trivial
    | some s =>
      obtain ⟨C, hC⟩ | rfl := h i hb
      · exact (safely_releaseLocks hu fuel s.result locks.toNat).mono (fun w hw hs ↦ hw.free hs hC)
          fun _ _ _ ↦ id
      · exact .pure fun _ _ _ ↦ trivial

/-- Calling a method. -/
theorem safely_invokeMethod (hr : r.Conforms E w₀) (fuel : Nat) {d : MethodDef} (hd : d ∈ r.methods)
    (args : List Value) :
    Θ.Safely (fun w ↦ d.info.Takes (r.HasTy w.classOf) args)
      (invokeMethod r update fuel d.info.id args) fun v w ↦ r.HasTy w.classOf d.info.ret v := by
  obtain ⟨m, hm, hbody⟩ := hr.methods d hd
  have hlater (v : Value) (u u' : World) (hu : u.Later r u') :
      r.HasTy u.classOf d.info.ret v → r.HasTy u'.classOf d.info.ret v := hu.hasTy
  have hcall := Safely.holding args (Θ := Θ) (stable_later fun u u' hu h ↦ h.later hlater hu)
    (fun v ↦ stable_later (hlater v)) ((hostSafe hu fuel).perform (m.body args) _ hlater)
  rw [invokeMethod, hm]
  exact hcall.mono (fun w hw ↦ hbody w args hw.later) fun _ _ _ ↦ id

end

end Contracts

end LiveBinding
