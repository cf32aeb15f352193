import LiveBinding.Proofs.Structured

namespace LiveBinding

/-- From a state in `P`, a computation that is not cut short ends with a result and a state in `Q`,
or fails with an error and a state in `E`. -/
def Ensures {σ α : Type} (P : σ → Prop) (x : ExceptT Stop (StateM σ) α) (Q : α → σ → Prop)
    (E : RuntimeError → σ → Prop) : Prop := ∀ s, P s →
  match x s with
  | (.ok a, t) => Q a t
  | (.error (.error e), t) => E e t
  | (.error .exhausted, _) => True

/-- A condition holds again after a computation, also after one that fails. -/
abbrev Keeps {σ α : Type} (I : σ → Prop) (x : ExceptT Stop (StateM σ) α) : Prop :=
  Ensures I x (fun _ ↦ I) (fun _ ↦ I)

namespace Ensures

section

variable {σ α β : Type} {P P' : σ → Prop} {Q Q' : α → σ → Prop} {R : β → σ → Prop}
variable {E E' : RuntimeError → σ → Prop} {x : ExceptT Stop (StateM σ) α}

theorem mono (h : Ensures P x Q E) (hP : ∀ s, P' s → P s) (hQ : ∀ a s, Q a s → Q' a s)
    (hE : ∀ e s, E e s → E' e s) : Ensures P' x Q' E' := by
  intro s hs
  have hx := h s (hP s hs)
  rcases hxs : x s with ⟨(e | -) | a, t⟩ <;> rw [hxs] at hx
  · exact hE e t hx
  · trivial
  · exact hQ a t hx

theorem pre (h : Ensures P x Q E) (hP : ∀ s, P' s → P s) : Ensures P' x Q E :=
  h.mono hP (fun _ _ ↦ id) (fun _ _ ↦ id)

theorem post (h : Ensures P x Q E) (hQ : ∀ a s, Q a s → Q' a s) : Ensures P x Q' E :=
  h.mono (fun _ ↦ id) hQ (fun _ _ ↦ id)

theorem anyError (h : Ensures P x Q E) : Ensures P x Q fun _ _ ↦ True :=
  h.mono (fun _ ↦ id) (fun _ _ ↦ id) fun _ _ _ ↦ trivial

theorem and (h : Ensures P x Q E) (h' : Ensures P x Q' E') :
    Ensures P x (fun a s ↦ Q a s ∧ Q' a s) (fun e s ↦ E e s ∧ E' e s) := by
  intro s hs
  have hx := h s hs
  have hx' := h' s hs
  rcases hxs : x s with ⟨(e | -) | a, t⟩ <;> rw [hxs] at hx hx'
  · exact ⟨hx, hx'⟩
  · trivial
  · exact ⟨hx, hx'⟩

theorem const {p : Prop} : Keeps (fun _ ↦ p) x := by
  intro s hp
  rcases x s with ⟨(e | -) | a, t⟩
  · exact hp
  · trivial
  · exact hp

theorem pure {a : α} (h : ∀ s, P s → Q a s) : Ensures P (Pure.pure a) Q E := h

theorem throw {e : RuntimeError} (h : ∀ s, P s → E e s) :
    Ensures P (MonadExcept.throw (Stop.error e)) Q E := h

theorem exhausted : Ensures P (MonadExcept.throw Stop.exhausted) Q E := fun _ _ ↦ trivial

theorem bind {k : α → ExceptT Stop (StateM σ) β} (hx : Ensures P x Q E)
    (hk : ∀ a, Ensures (Q a) (k a) R E) : Ensures P (x >>= k) R E := by
  intro s hs
  have hx := hx s hs
  rw [Stop.bind_apply]
  rcases hxs : x s with ⟨(e | -) | a, t⟩ <;> rw [hxs] at hx
  · exact hx
  · trivial
  · exact hk a t hx

end

end Ensures

namespace Run

variable {α : Type} {P : World → Prop} {Q : α → World → Prop} {E : RuntimeError → World → Prop}

theorem ensures_ofExcept {x : Except RuntimeError α} (h : ∀ a, x = .ok a → ∀ w, P w → Q a w)
    (he : ∀ e, x = .error e → ∀ w, P w → E e w) : Ensures P (ofExcept x) Q E := by
  cases x with
  | ok a => exact h a rfl
  | error e => exact he e rfl

theorem ensures_holding {x : Run α} (values : List Value) (h : Ensures P x Q E)
    (hP : ∀ w held, P w → P { w with held := held })
    (hQ : ∀ a w held, Q a w → Q a { w with held := held })
    (hE : ∀ e w held, E e w → E e { w with held := held }) :
    Ensures P (holding values x) Q E := by
  intro w hw
  have hx := h _ (hP w (values ++ w.held) hw)
  unfold holding
  rcases hxs : x { w with held := values ++ w.held } with ⟨(e | -) | a, t⟩ <;> rw [hxs] at hx
  · exact hE e t w.held hx
  · trivial
  · exact hQ a t w.held hx

theorem ensures_ignoreError {x : Run Unit} {R : World → Prop}
    (h : Ensures P x (fun _ ↦ R) (fun _ ↦ R)) : Ensures P (ignoreError x) (fun _ ↦ R) E := by
  intro w hw
  have hx := h w hw
  unfold ignoreError
  rcases hxs : x w with ⟨(e | -) | a, t⟩ <;> rw [hxs] at hx
  · exact hx
  · trivial
  · exact hx

end Run

namespace Block

/-- The same for a stretch of code. -/
def Ensures (P : Machine → Prop) (b : Block) (Q : Machine → Prop)
    (E : RuntimeError → Machine → Prop) : Prop := ∀ m, P m →
  match (b m).result with
  | .ok _ => Q (b m).machine
  | .error (.error e) => E e (b m).machine
  | .error .exhausted => True

namespace Ensures

variable {P P' Q Q' R : Machine → Prop} {E E' : RuntimeError → Machine → Prop} {a b : Block}

theorem mono (h : Block.Ensures P b Q E) (hP : ∀ m, P' m → P m) (hQ : ∀ m, Q m → Q' m)
    (hE : ∀ e m, E e m → E' e m) : Block.Ensures P' b Q' E' := by
  intro m hm
  have hb := h m (hP m hm)
  rcases hbm : (b m).result with (e | -) | u <;> rw [hbm] at hb
  · exact hE e _ hb
  · trivial
  · exact hQ _ hb

theorem andThen (h : Block.Ensures P a Q E) (h' : Block.Ensures Q b R E) :
    Block.Ensures P (a.andThen b) R E := by
  intro m hm
  have ha := h m hm
  unfold Block.andThen
  rcases ham : (a m).result with (e | -) | u <;> simp only [ham] at ha ⊢
  · exact ha
  · exact h' _ ha

theorem skip : Block.Ensures P .skip P E := fun _ hm ↦ hm

end Ensures

end Block

namespace Exec

variable {r : Registry} {update : Updater} {fuel : Nat} {frame : Frame}
variable {P Q : Machine → Prop} {E : RuntimeError → Machine → Prop}

theorem ensures_runOp {op : Op}
    (h : Ensures P (step r update fuel frame default op) (fun _ ↦ Q) E) :
    Block.Ensures P (runOp r update fuel frame op) Q E := by
  intro m hm
  have hs := h m hm
  unfold runOp
  rcases hsm : step r update fuel frame default op m with ⟨(e | -) | u, m'⟩ <;> rw [hsm] at hs
  · exact hs
  · trivial
  · exact hs

/-- What each of some instructions keeps they keep together. -/
theorem keeps_runOps {ops : List Op}
    (h : ∀ op ∈ ops, Ensures P (step r update fuel frame default op) (fun _ ↦ P) E) :
    Block.Ensures P (runOps r update fuel frame ops) P E := by
  induction ops with
  | nil => exact .skip
  | cons op ops ih =>
    exact (ensures_runOp (h op List.mem_cons_self)).andThen
      (ih fun o ho ↦ h o (List.mem_cons_of_mem _ ho))

theorem ensures_branchOn {jump : Label → Op} {taken untaken : Block} {T F : Machine → Prop}
    (h : Ensures P (condition (jump default)) (fun b m ↦ if b then T m else F m) E)
    (ht : Block.Ensures T taken Q E) (hf : Block.Ensures F untaken Q E) :
    Block.Ensures P (branchOn jump taken untaken) Q E := by
  intro m hm
  have hc := h m hm
  unfold branchOn
  rcases hcm : condition (jump default) m with ⟨(e | -) | (_ | _), m'⟩ <;> simp only [hcm] at hc ⊢
  · exact hc
  · exact hf m' (by simpa using hc)
  · exact ht m' (by simpa using hc)

end Exec

end LiveBinding
