import LiveBinding.Proofs.Settling

namespace LiveBinding

open Exec Fragment Config

/-- A computation comes to something, unless it is left open. -/
def Effect.Comes {α : Type} (x : Effect α) (a : α) : Prop :=
  x.result = .ok a ∨ x.result = .error .exhausted

namespace Effect

variable {α β : Type} {x y : Effect α} {a : α} {b : β} {f : α → Effect β}

theorem Comes.bind (h : x.Comes a) (h' : (f a).Comes b) : (x >>= f).Comes b := by
  rcases h with h | h
  · rw [Comes, bind_of_ok f h]
    exact h'
  · exact .inr (congrArg result (bind_of_error f h))

theorem Comes.map (h : x.Comes a) (g : α → β) : (g <$> x).Comes (g a) := by
  rw [map_eq_pure_bind]
  exact h.bind (.inl rfl)

theorem Within.comes (h : Within x y) (hy : y.result = .ok a) : x.Comes a :=
  h.elim .inr fun heq ↦ .inl (heq ▸ hy)

end Effect

namespace Deployment

variable (D : Deployment)

/-- A moment in an update: the cell that the binding publishes to is locked. -/
structure Live (v : Value) (w : World) (s : Instance) (on : Nat → Option CellId) : Prop where
  sound : D.Sound w s on
  locked : ∃ ls, w.cell? D.result = some ⟨v, ls, 1, false⟩

/-- What happens from one moment to another: the storage changes only at some places, and the points
elsewhere that listen to a cell which changed are noted. -/
structure Advances (W : List Loc) (w : World) (s : Instance) (w' : World) (s' : Instance) : Prop where
  kept : ∀ l ∉ W, D.store s' l = D.store s l
  queued : s.queued ⊆ s'.queued
  told : ∀ p ∈ D.body.points, p.loc ∉ W →
    Outdated (D.reading w) w'.cellValue (D.store s) p → p.step ∈ s'.queued

/-- The host writes properties in an update. The binding is told of that, or some steps still have to be
told. -/
structure Disturbs (v : Value) (on : Nat → Option CellId) (w : World) (s : Instance) (ks : List Nat)
    (w' : World) (s' : Instance) : Prop where
  live : D.Live v w' s' on
  store : D.store s' = D.store s
  queued : s.queued ⊆ s'.queued
  told : ∀ k d, on k = some d → w'.cellValue d ≠ w.cellValue d → k ∈ ks ++ s'.queued

/-- Methods only disturb an update. What they answer is fixed unless they are given a cell. -/
def Reacts (update : Updater) (fuel : Nat) : Prop :=
  ∀ v w s on id args a w', D.Live v w s on →
    invokeMethod D.host update fuel id args w = (.ok a, w') →
    (∃ s', D.Disturbs v on w s [] w' s') ∧ (args.any Value.isCell = false → D.answer id args = .ok a)

/-- Code that ends well leads from one moment to another one. -/
def Leads (v : Value) (W : List Loc) (w : World) (s : Instance) (o : Outcome)
    (Q : Machine → Instance → Prop) : Prop :=
  o.result = .ok () → ∃ s' on', D.Live v o.machine.world s' on' ∧
    D.Advances W w s o.machine.world s' ∧ Q o.machine s'

variable {D} {v : Value} {w w' w'' : World} {s s' s'' : Instance} {on on' : Nat → Option CellId}
variable {W V : List Loc}

namespace Advances

theorem refl (w : World) (s : Instance) : D.Advances W w s w s where
  kept _ _ := rfl
  queued := List.Subset.refl _
  told := by
    rintro p - - ⟨d, -, hne⟩
    exact absurd rfl hne

theorem mono (h : D.Advances W w s w' s') (hW : W ⊆ V) : D.Advances V w s w' s' where
  kept l hl := h.kept l fun hW' ↦ hl (hW hW')
  queued := h.queued
  told p hp hl := h.told p hp fun hW' ↦ hl (hW hW')

theorem trans (h : D.Advances W w s w' s') (h' : D.Advances V w' s' w'' s'') :
    D.Advances (W ++ V) w s w'' s'' where
  kept l hl := by
    rw [List.mem_append, not_or] at hl
    exact (h'.kept l hl.2).trans (h.kept l hl.1)
  queued := List.Subset.trans h.queued h'.queued
  told := by
    rintro p hp hl ⟨d, hd, hne⟩
    rw [List.mem_append, not_or] at hl
    by_cases heq : w'.cellValue d = w.cellValue d
    · exact h'.told p hp hl.2 ⟨d, (h.kept _ hl.1).trans hd, fun h ↦ hne (h.trans heq)⟩
    · exact h'.queued (h.told p hp hl.1 ⟨d, hd, heq⟩)

end Advances

namespace Live

/-- What happens beside the binding does not matter to an update. -/
theorem beside (h : D.Live v w s on) (hb : D.Beside w w') : D.Live v w' s on := by
  obtain ⟨ls, hc⟩ := h.locked
  obtain ⟨ls', hc'⟩ := hb.cell?_of_not_foreign h.sound.not_foreign_result hc
  exact ⟨hb.sound h.sound, ls', hc'⟩

variable {m m' : Machine} {c : Config}

theorem ready (h : D.Live v w s on) (handled : Prop) :
    Ready D.artifact D.body.points w s handled where
  placed := D.compiles.wellPlaced
  layout := D.compiles.layout_eq.2
  exist := h.sound.conforms.exist
  apart := h.sound.result.symm ▸ h.sound.apart
  few _ := Nat.lt_trans D.few (by omega)

/-- Every moment of an update is one from which code can go on. -/
theorem running (h : D.Live v m.world s on) (handled : Prop) :
    Running D.artifact D.body.points D.id m.world s handled m ⟨m.stack, D.store s⟩ where
  stack := rfl
  alike := ⟨rfl, rfl, rfl, rfl, fun _ ↦ rfl⟩
  result := rfl
  told _ cell hd _ hl := .inl ⟨cell, hd, hl⟩
  others _ _ := rfl
  kept := ⟨s, on, h.sound.tracks, h.sound.tracks.holding (h.sound.result.symm ▸ h.sound.away)⟩

theorem store_of_not_within {l : Loc} (hl : ¬l.Within D.artifact) (h : D.Live v w s on)
    (h' : D.Live v w' s' on') : D.store s' l = D.store s l := by
  cases l with
  | slot n =>
    have hn : D.artifact.scratch ≤ n := not_lt.mp hl
    simp only [store, Instance.store]
    rw [Array.getD_eq_getD_getElem?, Array.getD_eq_getD_getElem?,
      Array.getElem?_eq_none (h.sound.tracks.fits.scratch.le.trans hn),
      Array.getElem?_eq_none (h'.sound.tracks.fits.scratch.le.trans hn)]
  | flag n =>
    have hn : ¬n < D.artifact.flags.bits := hl
    simp [store, Instance.store, hn]

theorem reading_eq (h : D.Live v w s on) (h' : D.Live v w' s' on') :
    D.reading w' = withValues (D.reading w) w'.cellValue :=
  D.reading_of_objects (h'.sound.objects.trans h.sound.objects.symm)

/-- Code of the binding adds to the listeners of a cell no others than those of its points, and locks no
cell. -/
theorem cell_of_running (hrun : Running D.artifact D.body.points D.id m.world s True m' c) {d : CellId}
    {cell' : Cell} (hd : m'.world.cell? d = some cell') :
    ∃ cell, m.world.cell? d = some cell ∧ cell'.lockDepth = cell.lockDepth ∧
      ∀ l ∈ cell'.listeners, l ∈ cell.listeners ∨
        ∃ p ∈ D.body.points, l = .binding D.id p.step ∧ ∃ o q, m.world.observable? o q = some d := by
  have hcell := hrun.alike.cell d
  rw [hd] at hcell
  obtain ⟨cell, hc, heq⟩ := Option.map_eq_some_iff.mp hcell.symm
  refine ⟨cell, hc, by simpa using (congrArg Cell.lockDepth heq).symm, fun l hl ↦ ?_⟩
  exact (hrun.told d cell' hd l hl).imp_left fun ⟨x, hx, hl⟩ ↦ Option.some.inj (hx.symm.trans hc) ▸ hl

/-- The storage that code of the binding leaves is the one that its meaning gives. -/
theorem store_of_holding {on' : Nat → Option CellId} {st : Store}
    (ht : Tracks D.artifact D.body.points D.id w' s' on')
    (hh : s'.Holding D.artifact D.body.points s True on' st) (l : Loc) (hl : l.Within D.artifact) :
    D.store s' l = st l := by
  cases l with
  | slot n =>
    have hn : n < D.artifact.scratch := hl
    by_cases hp : ∃ p ∈ D.body.points, p.handle = n
    · obtain ⟨p, hp, rfl⟩ := hp
      refine Eq.trans ?_ (hh.handles trivial p hp).symm
      simp only [store, Instance.store]
      rw [Array.getD_eq_getD_getElem?, ht.handles p hp]
      rfl
    · simp only [store, Instance.store]
      rw [Array.getD_eq_getD_getElem?, hh.slots n hn fun p hmem heq ↦ hp ⟨p, hmem, heq⟩]
      rfl
  | flag n =>
    have hn : n < D.artifact.flags.bits := hl
    simp only [store, Instance.store, hn, decide_true, Bool.true_and]
    exact (hh.flags n hn).symm

/-- Code that writes no property leads from one moment to another one. -/
theorem of_running (h : D.Live v m.world s on)
    (hrun : Running D.artifact D.body.points D.id m.world s True m' c) :
    ∃ s' on', D.Live v m'.world s' on' ∧ s'.queued = s.queued ∧
      ∀ l : Loc, l.Within D.artifact → D.store s' l = c.store l := by
  obtain ⟨s', on', ht, hh⟩ := hrun.kept
  have ha := hrun.alike
  have hhosts : D.Hosts m'.world := by
    refine h.sound.toHosts.later ha.objects ha.frame ha.names ?_ (fun j t ht hj ↦ ⟨t, ?_, rfl⟩)
      fun d cell' hd ↦ ?_
    · exact h.sound.conforms.of_eq ha.objects (fun _ _ x _ ↦ ha.cellValue x)
        (h.sound.conforms.exist.ofEq ha.objects ha.size)
    · rwa [hrun.others j hj] at ht
    · obtain ⟨cell, hc, hdepth, hlisteners⟩ := cell_of_running hrun hd
      refine ⟨cell, hc, fun action ha ↦ (hlisteners _ ha).resolve_right ?_, fun _ _ _ ↦ hdepth⟩
      rintro ⟨p, -, hp, -⟩
      cases hp
  refine ⟨s', on', ⟨{ hhosts with
    tracks := ht
    listens := fun k d hk ↦ ?_
    captures := hh.captures.trans h.sound.captures
    result := hh.result.trans h.sound.result
    alive := hh.alive.symm ▸ h.sound.alive
    requests := hh.queued.symm ▸ h.sound.requests }, ?_⟩, hh.queued, store_of_holding ht hh⟩
  · -- a listener that is new was told of by a point, and any other one listened before
    have hone := ht.listening k d
    rw [if_pos hk, World.listening] at hone
    obtain ⟨cell', hd⟩ : ∃ cell', m'.world.cell? d = some cell' :=
      ⟨_, Array.getElem?_eq_getElem (ht.exist k d hk)⟩
    rw [hd, Option.map_some, Option.getD_some] at hone
    obtain ⟨l, hl, hkl⟩ := List.countP_pos_iff.mp (by omega :
      0 < cell'.listeners.countP (·.isBinding D.id k))
    rw [Listener.eq_binding_of_isBinding hkl] at hl
    obtain ⟨cell, hc, -, hlisteners⟩ := cell_of_running hrun hd
    have hslot (o : ObjectId) (q : String) := ha.observable? o q
    simp only [hslot]
    obtain hl | ⟨p, hp, heq, hslot⟩ := hlisteners _ hl
    · exact h.sound.listens k d ((h.sound.mem_stepsOf hc).mp (Listener.mem_stepsOf.mpr hl))
    · cases heq
      exact ⟨step_mem_steps hp, hslot⟩
  · obtain ⟨ls, hlocked⟩ := h.locked
    have hresult := hrun.result
    rw [h.sound.result] at hresult
    exact ⟨ls, hresult.trans hlocked⟩

/-- What is current stays so while later code runs. -/
theorem current {f : Fragment} {σ τ : List Value} (h : D.Live v w s on) (h' : D.Live v w' s' on')
    (hadv : D.Advances W w s w' s') (hs : f.Sequential) (hsort : f.steps.Pairwise (· < ·))
    (hsub : f.points ⊆ D.body.points) (hW : ∀ l ∈ f.touched, l ∉ W)
    (hcur : f.Current (D.reading w) s.queued σ (D.store s) τ) :
    f.Current (D.reading w') s'.queued σ (D.store s') τ := by
  rw [h.reading_eq h']
  refine (hcur.change (D.strict_reading w) hs hsort hadv.queued fun p hp hout ↦ ?_).of_eq_off hW hadv.kept
  exact hadv.told p (hsub hp) (hW _ (loc_mem_touched hp)) hout

end Live

namespace Leads

variable {N : MethodId → List Value → Prop} {o : Outcome} {e : Effect Config} {m : Machine}
variable {Q P : Machine → Instance → Prop} {a b : Block}

theorem mono (h : D.Leads v W w s o Q) (hW : W ⊆ V) : D.Leads v V w s o Q := by
  intro hok
  obtain ⟨s', on', hlive, hadv, hq⟩ := h hok
  exact ⟨s', on', hlive, hadv.mono hW, hq⟩

theorem imp (h : D.Leads v W w s o Q) (hP : ∀ m' s' on', D.Live v m'.world s' on' →
    D.Advances W w s m'.world s' → Q m' s' → P m' s') : D.Leads v W w s o P := by
  intro hok
  obtain ⟨s', on', hlive, hadv, hq⟩ := h hok
  exact ⟨s', on', hlive, hadv, hP _ _ _ hlive hadv hq⟩

theorem andThen (h : D.Leads v W m.world s (a m) Q)
    (h' : ∀ m' s' on', D.Live v m'.world s' on' → D.Advances W m.world s m'.world s' → Q m' s' →
      D.Leads v V m'.world s' (b m') P) :
    D.Leads v (W ++ V) m.world s (a.andThen b m) P := by
  intro hok
  cases ha : (a m).result with
  | error x =>
    rw [andThen_of_error ha, ha] at hok
    cases hok
  | ok _ =>
    obtain ⟨s₁, on₁, hlive₁, hadv₁, hq⟩ := h ha
    rw [andThen_of_ok ha] at hok ⊢
    obtain ⟨s', on', hlive, hadv, hp⟩ := h' _ s₁ on₁ hlive₁ hadv₁ hq hok
    exact ⟨s', on', hlive, hadv₁.trans hadv, hp⟩

/-- Code that writes no property and does what a computation says. -/
theorem of_follows (h : D.Live v m.world s on)
    (hf : o.Follows N (Running D.artifact D.body.points D.id m.world s True) W (D.store s) e)
    (hne : e.result ≠ .error .exhausted) (hW : ∀ l ∈ W, l.Within D.artifact)
    (hkept : ∀ c, e.result = .ok c → ∀ l ∉ W, c.store l = D.store s l) :
    D.Leads v W m.world s o fun m' s' ↦
      e.result = .ok ⟨m'.stack, D.store s'⟩ ∧ D.reading m'.world = D.reading m.world := by
  intro hok
  obtain ⟨hx, -⟩ | ⟨-, ⟨c, hres, -, hrun⟩ | ⟨x, -, hx⟩⟩ := hf.ends hne
  · rw [hok] at hx
    cases hx
  · obtain ⟨s', on', hlive, hq, hwithin⟩ := h.of_running hrun
    have hstore : D.store s' = c.store := by
      funext l
      by_cases hl : l.Within D.artifact
      · exact hwithin l hl
      · exact (Live.store_of_not_within hl h hlive).trans
          (hkept c hres l fun hmem ↦ hl (hW l hmem)).symm
    have hvalue := hrun.alike.cellValue
    refine ⟨s', on', hlive, ⟨fun l hl ↦ ?_, hq ▸ List.Subset.refl _, ?_⟩, ?_,
      D.reading_eq hrun.alike.objects (funext hvalue)⟩
    · rw [hstore]
      exact hkept c hres l hl
    · rintro p - - ⟨d, -, hd⟩
      exact absurd (hvalue d) hd
    · rw [hres, hstore, hrun.stack]
  · rw [hok] at hx
    cases hx

theorem of_pure {c : Config} (h : D.Live v m.world s on)
    (hf : o.Follows N (Running D.artifact D.body.points D.id m.world s True) W (D.store s) (pure c))
    (hW : ∀ l ∈ W, l.Within D.artifact) (hkept : ∀ l ∉ W, c.store l = D.store s l) :
    D.Leads v W m.world s o fun m' s' ↦ m'.stack = c.stack ∧ D.store s' = c.store := by
  refine (of_follows h hf ?_ hW ?_).imp ?_
  · rintro he
    cases he
  · rintro _ ⟨⟩
    exact hkept
  · rintro m' s' - - - ⟨hend, -⟩
    obtain rfl := Except.ok.inj hend
    exact ⟨rfl, rfl⟩

variable {update : Updater} {fuel : Nat} {frame : Frame}

/-- An instruction that calls a method. -/
theorem of_call (hr : D.Reacts update fuel) {op : Op} {id : MethodId} {args σ : List Value}
    (h : D.Live v m.world s on)
    (hop : (D.reading m.world).ordinary op ⟨m.stack, D.store s⟩ =
      (fun a ↦ (⟨a :: σ, D.store s⟩ : Config)) <$> (D.reading m.world).call id args)
    (hb : b m = ⟨[⟨id, args, (lift (invokeMethod D.host update fuel id args) { m with stack := σ }).1⟩],
      (call D.host update fuel id args { m with stack := σ }).1,
      (call D.host update fuel id args { m with stack := σ }).2⟩) :
    D.Leads v [] m.world s (b m) fun m' s' ↦
      ((D.reading m.world).ordinary op ⟨m.stack, D.store s⟩).Comes ⟨m'.stack, D.store s'⟩ := by
  intro hok
  have hlive₀ : D.Live v { m.world with held := σ ++ m.world.held } s on :=
    h.beside (.ofEq rfl rfl rfl rfl rfl)
  rcases hinvoke : invokeMethod D.host update fuel id args
    { m.world with held := σ ++ m.world.held } with ⟨_ | a, w'⟩
  · have hl : lift (invokeMethod D.host update fuel id args) { m with stack := σ } = _ :=
      lift_apply hinvoke
    rw [hb, call, bind_apply, hl] at hok
    cases hok
  have hl : lift (invokeMethod D.host update fuel id args) { m with stack := σ } = _ :=
    lift_apply hinvoke
  obtain ⟨⟨s', hlive, hstore, hqueued, htold⟩, hanswer⟩ := hr v _ s on id args a w' hlive₀ hinvoke
  rw [hb, call, bind_apply, hl]
  refine ⟨s', on, hlive.beside (.ofEq rfl rfl rfl rfl rfl), ⟨fun l _ ↦ congrFun hstore l, hqueued, ?_⟩, ?_⟩
  · rintro p hp - ⟨d, hd, hne⟩
    exact htold p.step d (h.sound.on_of_store hp hd) hne
  · have hcomes : ((D.reading m.world).call id args).Comes a := by
      simp only [Effect.Comes, Reading.call, reading, Reading.guarded, World.reading, asked]
      cases hcells : args.any Value.isCell with
      | true => exact .inr rfl
      | false => exact .inl (by rw [hanswer hcells]; rfl)
    show Effect.Comes _ (Config.mk (a :: σ) (D.store s'))
    rw [hstore, hop]
    exact hcomes.map _

/-- The test of a left operand. -/
theorem of_decide {op : BinaryOp} {r : Registry}
    (h : ∀ u σ t, m.stack = u :: σ → u.toBool = .ok t →
      if op.skips t then D.Leads v W w s (a { m with stack := u :: σ }) Q
      else D.Leads v W w s (b { m with stack := σ }) Q) :
    D.Leads v W w s (decide r update fuel frame op a b m) Q := by
  cases hstack : m.stack with
  | nil =>
    intro hok
    rw [decide_nil hstack] at hok
    cases hok
  | cons u σ =>
    rw [decide_eq hstack]
    cases ht : u.toBool with
    | error e =>
      intro hok
      cases hok
    | ok t =>
      have hside := h u σ t hstack ht
      dsimp only
      split at hside <;> rename_i hskip
      · rwa [if_pos hskip]
      · rwa [if_neg hskip]

/-- What `&&` or `||` does after a left operand, if its right operand does as it should. -/
theorem of_shortCircuit {op : BinaryOp} {f g : Fragment}
    (hs : (shortCircuit op f g).Sequential) (hsort : f.steps.Pairwise (· < ·))
    (hsub : f.points ⊆ D.body.points) (h : D.Live v m.world s on)
    (hg : ∀ τ, D.Leads v g.writes m.world s
      (g.run D.host update fuel frame (some D.artifact.flags) { m with stack := τ })
      fun m' s' ↦ g.Current (D.reading m'.world) s'.queued τ (D.store s') m'.stack) :
    D.Leads v g.writes m.world s (decide D.host update fuel frame op .skip
      (g.run D.host update fuel frame (some D.artifact.flags)) m)
      fun m' s' ↦ ∀ σ, f.Current (D.reading m.world) s.queued σ (D.store s) m.stack →
        (shortCircuit op f g).Current (D.reading m'.world) s'.queued σ (D.store s') m'.stack := by
  obtain ⟨hsf, -, hnone, hd⟩ := hs
  refine of_decide fun u τ t hstack ht ↦ ?_
  rw [hstack]
  split
  · next hskip =>
    refine fun _ ↦ ⟨s, on, h, .refl _ _, fun σ hleft ↦ .shortCircuit hnone hleft ht ?_⟩
    rw [if_pos hskip]
    rfl
  · next hskip =>
    refine (hg τ).imp fun m' s' on' h' hadv hright σ hleft ↦ ?_
    refine .shortCircuit hnone (h.current h' hadv hsf hsort hsub hd hleft) ht ?_
    rwa [if_neg hskip]

/-- So does a branch. -/
theorem of_branch (hb : frame.binding = some D.id) {op : BinaryOp} {f g : Fragment}
    {flag counter : Nat} {ps : List SavePoint}
    (hf : (branch op f g flag counter ps).Placed D.artifact D.body.points)
    (hs : (branch op f g flag counter ps).Sequential) (hsort : (f.steps ++ g.steps).Pairwise (· < ·))
    (hsub : f.points ⊆ D.body.points) (h : D.Live v m.world s on)
    (hg : ∀ m s on, D.Live v m.world s on → D.Leads v g.writes m.world s
      (g.run D.host update fuel frame (some D.artifact.flags) m)
      fun m' s' ↦ g.Current (D.reading m'.world) s'.queued m.stack (D.store s') m'.stack) :
    D.Leads v (.flag flag :: ps.map SavePoint.loc ++ g.writes) m.world s
      (decide D.host update fuel frame op
        (skipBranch D.host update fuel frame (some D.artifact.flags) flag counter ps)
        ((assignFlag D.host update fuel frame (some D.artifact.flags) flag true).andThen
          (g.run D.host update fuel frame (some D.artifact.flags))) m)
      fun m' s' ↦ ∀ σ, f.Current (D.reading m.world) s.queued σ (D.store s) m.stack →
        (branch op f g flag counter ps).Current (D.reading m'.world) s'.queued σ (D.store s')
          m'.stack := by
  obtain ⟨-, -, hflag, hcounter, hps, hcount⟩ := hf
  obtain ⟨hsf, -, -, hd, hkeep⟩ := hs
  rw [List.pairwise_append] at hsort
  have hps' : ∀ p ∈ ps, p.loc.Within D.artifact := fun p hp ↦
    D.compiles.wellPlaced.handle_lt p (hps hp)
  refine of_decide fun u τ t hstack ht ↦ ?_
  rw [hstack]
  split
  · next hskip =>
    have hfollows := @Running.follows_skipBranch _ _ _ _ _ _ _ _ D.host update fuel frame
      (fun _ _ ↦ True) (h.ready True) hb _ _ _ hflag hcounter hps hcount
      (Live.running (m := { m with stack := u :: τ }) h True)
    have hends := of_pure (m := { m with stack := u :: τ }) h hfollows ?_ ?_
    · refine (hends.mono (List.subset_append_left _ g.writes)).imp ?_
      rintro m' s' on' h' hadv ⟨hstack', hstore⟩ σ hleft
      have hskipped : skip flag ps ⟨u :: τ, D.store s'⟩ = ⟨u :: τ, D.store s'⟩ := by
        rw [hstore]
        exact skip_skip flag ps ⟨u :: τ, D.store s⟩
      rw [hstack']
      exact .branch_skip (h.current h' hadv hsf hsort.1 hsub hd hleft) ht hskip hskipped
    · intro l hl
      rcases List.mem_cons.mp hl with rfl | hl
      · exact hflag
      · obtain ⟨p, hp, rfl⟩ := List.mem_map.mp hl
        exact hps' p hp
    · intro l hl
      rw [List.mem_cons, not_or] at hl
      exact (Store.clear_of_not_mem hl.2).trans (Function.update_of_ne hl.1 _ _)
  · next hskip =>
    have hfollows := @Running.follows_assignFlag _ _ _ _ _ _ _ _ D.host update fuel frame
      (fun _ _ ↦ True) (h.ready True) hb _ hflag true
      (Live.running (m := { m with stack := τ }) h True)
    have hends := of_pure (m := { m with stack := τ }) h hfollows ?_ ?_
    · refine (hends.andThen fun m₁ s₁ on₁ h₁ hadv₁ hset ↦ (hg m₁ s₁ on₁ h₁).imp
        fun m' s' on' h' hadv hright σ hleft ↦ ?_).mono ?_
      · obtain ⟨hstack₁, hstore⟩ := hset
        rw [hstack₁] at hright
        have hleft₁ := h.current h₁ hadv₁ hsf hsort.1 hsub (fun l hl hmem ↦ hd l hl (by simp_all)) hleft
        have hleft' := h₁.current h' hadv hsf hsort.1 hsub (fun l hl hmem ↦ hd l hl (by simp_all)) hleft₁
        refine .branch_run (fun k hk hk' ↦ Nat.lt_irrefl k (hsort.2.2 k hk k hk')) hleft' ht
          (by simpa using hskip) ?_ hright
        rw [hadv.kept _ hkeep, hstore]
        exact Function.update_self ..
      · exact List.append_subset.mpr ⟨by simp, List.subset_append_right _ _⟩
    · intro l hl
      obtain rfl := List.mem_singleton.mp hl
      exact hflag
    · intro l hl
      exact Function.update_of_ne (by simpa using hl) _ _

/-- Instructions other than calls do not depend on what methods do. -/
theorem ordinary_host (D : Deployment) (w : World) (answer : MethodId → List Value → Except Stop Value)
    (locals : List Value) (captures : Array Value) {op : Op} (hcall : op.isCall = false) (c : Config) :
    (w.reading D.host answer locals captures).ordinary op c =
      (w.reading D.registry answer locals captures).ordinary op c := by
  obtain ⟨_ | ⟨b, _ | ⟨a, σ⟩⟩, st⟩ := c
  all_goals
    cases op with
    | invoke | invokeStatic | construct => cases hcall
    | observableValue => first | rfl | (cases b <;> rfl)
    | concat | toStr => simp only [Reading.ordinary, Reading.op, Reading.simple, World.reading, host,
      World.text_methods]
    | _ => rfl

theorem storesOf_of_isPlain {op : Op} (h : op.isPlain) : storesOf [op] = [] := by
  cases op <;> first | rfl | cases h

/-- A plain instruction other than a call works on the stack alone. -/
theorem ordinary_of_isPlain (rd : Reading) {op : Op} (h : op.isPlain) (hcall : op.isCall = false)
    (c : Config) : rd.ordinary op c = (⟨·, c.store⟩) <$> .of (rd.simple op c.stack) := by
  cases op with
  | invoke | invokeStatic | construct => cases hcall
  | _ => first | rfl | cases h

section

variable (hr : D.Reacts update fuel) (hb : frame.binding = some D.id) (hl : frame.locals = [])

/-- An instruction that does what it does in the host as it is. -/
theorem of_ordinary (hl : frame.locals = []) {op : Op} (hW : ∀ l ∈ W, l.Within D.artifact)
    (hstores : ∀ n, op = .storeScratch n → .slot n ∈ W) (h : D.Live v m.world s on)
    (hf : o.Follows N (Running D.artifact D.body.points D.id m.world s True) W (D.store s)
      ((m.world.reading D.host (asked D.answer) frame.locals s.captures).ordinary op
        ⟨m.stack, D.store s⟩))
    (hcall : op.isCall = false) :
    D.Leads v W m.world s o fun m' s' ↦
      ((D.reading m.world).ordinary op ⟨m.stack, D.store s⟩).Comes ⟨m'.stack, D.store s'⟩ := by
  rw [hl, h.sound.captures, ordinary_host D _ _ _ _ hcall] at hf
  refine (of_follows h hf (fun he ↦ (World.ordinary_yields hcall _).2 _ he rfl) hW fun c hc l hl ↦ ?_).imp fun m' s' _ _ _ hend ↦
    (Reading.ordinary_guarded op _).comes hend.1
  exact Reading.ordinary_store hc fun n hop heq ↦ hl (heq ▸ hstores n hop)

include hr hb hl

/-- An instruction of the code of a binding. -/
theorem of_op {op : Op} (hop : op.Placed D.artifact D.body.points) (h : D.Live v m.world s on) :
    D.Leads v ((storesOf [op]).map .slot) m.world s (runOp D.host update fuel frame op m)
      fun m' s' ↦ ((D.reading m.world).ordinary op ⟨m.stack, D.store s⟩).Comes
        ⟨m'.stack, D.store s'⟩ := by
  have hrun := h.running True
  obtain hplain | ⟨n, rfl⟩ | ⟨n, rfl | rfl, hn, hp⟩ := hop
  · by_cases hcall : op.isCall = false
    · have hnone := storesOf_of_isPlain hplain
      refine of_ordinary hl (by simp [hnone]) (fun n hop ↦ ?_) h (N := fun _ _ ↦ True) ?_ hcall
      · rw [hop] at hplain
        cases hplain
      · rw [hnone, ordinary_of_isPlain _ hplain hcall]
        refine follows_of_maps Running.relates hplain (fun id n ↦ ⟨?_, ?_, ?_⟩) hrun <;>
          (rintro rfl; cases hcall)
    cases op with
    | invoke id n =>
      by_cases hlen : m.stack.length < n
      · intro hok
        simp only [runOp, step, bind_apply, popArgs_apply, if_pos hlen] at hok
        cases hok
      cases hd : m.stack.drop n with
      | nil =>
        intro hok
        simp only [runOp, step, bind_apply, popArgs_apply, if_neg hlen, hd, pop_apply] at hok
        cases hok
      | cons receiver rest =>
        by_cases hnull : receiver.isNull
        · intro hok
          simp only [runOp, step, bind_apply, popArgs_apply, if_neg hlen, hd, pop_apply, if_pos hnull] at hok
          cases hok
        have hop : (D.reading m.world).ordinary (.invoke id n) ⟨m.stack, D.store s⟩ =
            (fun a ↦ (⟨a :: rest, D.store s⟩ : Config)) <$>
              (D.reading m.world).call id (receiver :: (m.stack.take n).reverse) := by
          simp only [Reading.ordinary, Reading.op, if_neg hlen, hd, if_neg hnull, Functor.map_map]
        refine of_call hr h hop ?_
        · simp only [runOp, callsOf, step, bind_apply, popArgs_apply, if_neg hlen, hd, pop_apply, hnull]
          rfl
    | invokeStatic id n | construct id n =>
      by_cases hlen : m.stack.length < n
      · intro hok
        simp only [runOp, step, bind_apply, popArgs_apply, if_pos hlen] at hok
        cases hok
      have hop : (D.reading m.world).ordinary (.invokeStatic id n) ⟨m.stack, D.store s⟩ =
          (fun a ↦ (⟨a :: m.stack.drop n, D.store s⟩ : Config)) <$>
            (D.reading m.world).call id (m.stack.take n).reverse := by
        simp only [Reading.ordinary, Reading.op, if_neg hlen, Functor.map_map]
      refine of_call hr h hop ?_
      · simp only [runOp, callsOf, step, bind_apply, popArgs_apply, if_neg hlen]
        rfl
    | _ => exact absurd rfl hcall
  · refine of_ordinary hl (by simp [storesOf]) (by simp) h (N := fun _ _ ↦ True)
      (Running.follows_loadCapture hb n hrun) rfl
  · refine of_ordinary hl (by simp [storesOf]) (by simp) h (N := fun _ _ ↦ True)
      (Running.follows_loadScratch hb hn hp hrun) rfl
  · refine of_ordinary hl ?_ (by simp [storesOf]) h (N := fun _ _ ↦ True)
      (Running.follows_storeScratch hb hn hp hrun) rfl
    rintro l hl
    obtain rfl : l = .slot n := by simpa [storesOf] using hl
    exact hn

theorem of_ops {list : List Op} (hlist : ∀ op ∈ list, op.Placed D.artifact D.body.points)
    (h : D.Live v m.world s on) :
    D.Leads v ((storesOf list).map .slot) m.world s (runOps D.host update fuel frame list m)
      fun m' s' ↦ ((D.reading m.world).all list ⟨m.stack, D.store s⟩).Comes ⟨m'.stack, D.store s'⟩ := by
  induction list generalizing m s on with
  | nil => exact fun _ ↦ ⟨s, on, h, .refl m.world s, .inl rfl⟩
  | cons op list ih =>
    have hstores : storesOf (op :: list) = storesOf [op] ++ storesOf list := by
      rw [storesOf, storesOf, storesOf, ← List.filterMap_append]
      rfl
    rw [hstores, List.map_append]
    refine (of_op hr hb hl (hlist op List.mem_cons_self) h).andThen fun m₁ s₁ on₁ h₁ _ hop ↦ ?_
    refine (ih (fun op hop ↦ hlist op (List.mem_cons_of_mem _ hop)) h₁).imp fun m' s' _ _ _ hall ↦ hop.bind ?_
    rwa [h.reading_eq h₁, all_withValues] at hall

/-- Code that neither has points nor sets anything aside. -/
theorem of_still {f : Fragment} (hf : f.Placed D.artifact D.body.points) (hpoints : f.points = [])
    (hwrites : f.writes = []) (h : D.Live v m.world s on) :
    D.Leads v [] m.world s (f.run D.host update fuel frame (some D.artifact.flags) m)
      fun m' s' ↦ (f.den (D.reading m.world) ⟨m.stack, D.store s⟩).Comes ⟨m'.stack, D.store s'⟩ := by
  induction f generalizing m s on with
  | ops list =>
    have hstores : (storesOf list).map Loc.slot = [] := hwrites
    rw [← hstores]
    exact of_ops hr hb hl hf h
  | append f g ih ih' =>
    obtain ⟨hpf, hpg⟩ := List.append_eq_nil_iff.mp hpoints
    obtain ⟨hwf, hwg⟩ := List.append_eq_nil_iff.mp hwrites
    refine (ih hf.1 hpf hwf h).andThen fun m₁ s₁ on₁ h₁ _ hleft ↦
      (ih' hf.2 hpg hwg h₁).imp fun m' s' _ _ _ hright ↦ hleft.bind ?_
    rwa [h.reading_eq h₁, den_withValues_of_points _ hpg] at hright
  | nullGuard f g ih ih' =>
    obtain ⟨hpf, hpg⟩ := List.append_eq_nil_iff.mp hpoints
    obtain ⟨hwf, hwg⟩ := List.append_eq_nil_iff.mp hwrites
    cases hstack : m.stack with
    | nil =>
      intro hok
      simp only [run, Block.andThen, runOps_dup_nil hstack] at hok
      cases hok
    | cons u σ =>
      simp only [run, nullGuard_eq hstack, den]
      split
      · exact ih' (m := { m with stack := σ }) hf.2 hpg hwg h
      · exact ih (m := { m with stack := u :: σ }) hf.1 hpf hwf h
  | shortCircuit op f g ih ih' =>
    obtain ⟨hpf, hpg⟩ := List.append_eq_nil_iff.mp hpoints
    obtain ⟨hwf, hwg⟩ := List.append_eq_nil_iff.mp hwrites
    refine (ih hf.1 hpf hwf h).andThen fun m₁ s₁ on₁ h₁ _ hleft ↦ ?_
    refine of_decide fun u σ t hstack ht ↦ ?_
    rw [hstack] at hleft
    split
    · next hskip =>
      refine fun _ ↦ ⟨s₁, on₁, h₁, .refl _ _, hleft.bind ?_⟩
      rw [fork_of_toBool ht, if_pos hskip]
      exact .inl rfl
    · next hskip =>
      refine (ih' (m := { m₁ with stack := σ }) hf.2 hpg hwg h₁).imp fun m' s' _ _ _ hright ↦ hleft.bind ?_
      rw [fork_of_toBool ht, if_neg hskip]
      rwa [h.reading_eq h₁, den_withValues_of_points _ hpg] at hright
  | flagTest | flagAssign | branch | observe => simp [writes, locs] at hwrites

/-- Code of a binding leaves everything that it did current, or notes what is left to do. -/
theorem of_run {f : Fragment} (hf : f.Placed D.artifact D.body.points) (hs : f.Sequential)
    (hsort : f.steps.Pairwise (· < ·)) (hsub : f.points ⊆ D.body.points) (h : D.Live v m.world s on) :
    D.Leads v f.writes m.world s (f.run D.host update fuel frame (some D.artifact.flags) m)
      fun m' s' ↦ f.Current (D.reading m'.world) s'.queued m.stack (D.store s') m'.stack := by
  induction f generalizing m s on with
  | ops list =>
    refine (of_ops hr hb hl hf h).imp fun m' s' on' h' hadv hall ↦ ?_
    rw [h.reading_eq h']
    simp only [Current, Open, den, all_withValues]
    rcases hall with hall | hall
    · exact .inl (den_idem hs hall)
    · right; right
      obtain hnone | ⟨n, rfl⟩ := hs
      · have hsame : D.store s' = D.store s := funext fun l ↦ hadv.kept l (by simp [hnone])
        rwa [hsame]
      · cases hstack : m.stack <;> rw [hstack] at hall <;> cases hall
  | nullGuard f g =>
    have hpoints : (nullGuard f g).points = [] := by simp [points, hs.1]
    have hwrites : (nullGuard f g).writes = [] := by
      simpa [writes, locs] using hs.2
    rw [hwrites]
    refine (of_still hr hb hl hf hpoints hwrites h).imp fun m' s' on' h' hadv hden ↦ ?_
    have hsame : D.store s' = D.store s := funext fun l ↦ hadv.kept l (by simp)
    rw [h.reading_eq h', hsame]
    rw [hsame] at hden
    simp only [Current, Open, den_withValues_of_points _ hpoints]
    exact hden.imp_right .inr
  | append f g ih ih' =>
    obtain ⟨hsf, hsg, hd⟩ := hs
    rw [steps_append, List.pairwise_append] at hsort
    obtain ⟨hsubf, hsubg⟩ := List.append_subset.mp hsub
    refine (ih hf.1 hsf hsort.1 hsubf h).andThen fun m₁ s₁ on₁ h₁ _ hleft ↦
      (ih' hf.2 hsg hsort.2.1 hsubg h₁).imp fun m' s' on' h' hadv hright ↦ ?_
    refine .append (fun k hk hk' ↦ Nat.lt_irrefl k (hsort.2.2 k hk k hk')) ?_ hright
    exact h₁.current h' hadv hsf hsort.1 hsubf hd hleft
  | shortCircuit op f g ih ih' =>
    rw [steps_shortCircuit_of_points hs.2.2.1] at hsort
    obtain ⟨hsubf, hsubg⟩ := List.append_subset.mp hsub
    refine (ih hf.1 hs.1 hsort hsubf h).andThen fun m₁ s₁ on₁ h₁ _ hleft ↦ ?_
    refine (of_shortCircuit hs hsort hsubf h₁ fun τ ↦ ?_).imp fun _ _ _ _ _ hcur ↦ hcur _ hleft
    exact ih' (m := { m₁ with stack := τ }) hf.2 hs.2.1 (by simp [steps, hs.2.2.1]) hsubg h₁
  | flagTest | flagAssign => exact hs.elim
  | observe property p =>
    have hp : p ∈ D.body.points := hf
    have hloc : ∀ l ∈ [p.loc], l.Within D.artifact := by
      intro l hl
      obtain rfl := List.mem_singleton.mp hl
      exact D.compiles.wellPlaced.handle_lt p hp
    have hfollows := @Running.follows_observe _ _ _ _ _ _ _ _ _ D.host update fuel frame
      (asked D.answer) (fun _ _ ↦ True) (h.ready True) hb property hp (h.running True)
    rw [hl, h.sound.captures] at hfollows
    refine (of_follows h hfollows ?_ hloc fun c hc l hl ↦
      Reading.observe_store hc fun heq ↦ hl (by simp [heq])).imp fun m' s' on' h' hadv hend ↦ ?_
    · exact fun he ↦ (World.observe_yields _ _ _).2 _ he rfl
    obtain ⟨hend, hreading⟩ := hend
    rw [hreading]
    rcases (Reading.observe_guarded property p ⟨m.stack, D.store s⟩ rfl).comes hend with hobs | hobs
    · exact .inl (den_idem (f := observe property p) trivial hobs)
    · exact .inr (.inr (@observe_error _ _ (D.reading m.world).value _ _ _ _ _ hobs))
  | branch op f g flag counter ps ih ih' =>
    rw [steps_branch] at hsort
    obtain ⟨hsubf, hsubg⟩ := List.append_subset.mp hsub
    have hsort' := List.pairwise_append.mp hsort
    refine (ih hf.1 hs.1 hsort'.1 hsubf h).andThen fun m₁ s₁ on₁ h₁ _ hleft ↦ ?_
    refine (of_branch hb hf hs hsort hsubf h₁ fun m s on h ↦ ?_).imp fun _ _ _ _ _ hcur ↦ hcur _ hleft
    exact ih' hf.2.1 hs.2.1 hsort'.2.1 hsubg h

omit hr in
/-- At a point that was reached, the value that the binding listens to is read again. -/
theorem of_reread {k : Nat} {property : String} {p : SavePoint} (hp : p ∈ D.body.points)
    (h : D.Live v m.world s on) (hstack : m.stack = []) :
    D.Leads v ((observe property p).writesFrom k) m.world s
      ((observe property p).resume D.host update fuel frame (some D.artifact.flags) k m) fun m' s' ↦
        ∀ σ, (observe property p).Reached (D.reading m.world) k ⟨σ, D.store s⟩ →
          (observe property p).Current (D.reading m'.world) s'.queued σ (D.store s') m'.stack := by
  have hfollows := @Running.follows_reread _ _ _ _ _ _ _ _ _ D.host update fuel frame
    (asked D.answer) (fun _ _ ↦ True) hb trivial hp (h.running True)
  rw [hl, h.sound.captures, hstack] at hfollows
  cases hon : on p.step with
  | none =>
    simp only [Reading.reread, h.sound.store_point hp, hon, Value.ofCell?] at hfollows
    refine (of_follows h hfollows (by simp [Effect.fail]) (by simp) (by simp [Effect.fail])).imp ?_
    rintro m' s' - - - ⟨hend, -⟩
    cases hend
  | some d =>
    simp only [Reading.reread, h.sound.store_point hp, hon, Value.ofCell?] at hfollows
    refine (of_follows h hfollows (by simp [pure]) (by simp) ?_).imp ?_
    · rintro _ ⟨⟩
      exact fun _ _ ↦ rfl
    rintro m' s' - h' hadv ⟨hend, hreading⟩ σ ⟨u, o, e, rfl, ho, he, hloc⟩
    have hloc : D.store s p.loc = .cell e := hloc
    obtain rfl : d = e := by
      rw [h.sound.store_point hp, hon] at hloc
      cases hloc
      rfl
    obtain ⟨hstack', hstore⟩ := Config.mk.inj (Except.ok.inj hend)
    have hsame : Function.update (D.store s) p.loc (.cell d) = D.store s := by
      rw [← hloc, Function.update_eq_self]
    rw [← hstack', ← hstore, hreading]
    left
    simp only [den, Reading.observe, List.isEmpty_nil, Bool.not_true, Bool.and_false,
      Bool.false_eq_true, if_false, ho, he, bind, Except.bind, hsame, Effect.of]
    rfl

/-- What is left of the code from a point on does so too, if the point was reached. -/
theorem of_resume {k : Nat} {f : Fragment} (hf : f.Placed D.artifact D.body.points) (hs : f.Sequential)
    (hsort : f.steps.Pairwise (· < ·)) (hsub : f.points ⊆ D.body.points) (hk : k ∈ f.steps)
    (h : D.Live v m.world s on) (hstack : m.stack = []) :
    D.Leads v (f.writesFrom k) m.world s
      (f.resume D.host update fuel frame (some D.artifact.flags) k m) fun m' s' ↦
        ∀ σ, f.Reached (D.reading m.world) k ⟨σ, D.store s⟩ →
          f.Current (D.reading m'.world) s'.queued σ (D.store s') m'.stack := by
  induction f generalizing m s on with
  | ops | flagTest | flagAssign => cases hk
  | nullGuard f g => simp [steps, points, hs.1] at hk
  | observe property p => exact of_reread hb hl hf h hstack
  | append f g ih ih' =>
    obtain ⟨hsf, hsg, hd⟩ := hs
    rw [steps_append] at hsort hk
    have hsort := List.pairwise_append.mp hsort
    have hdisj : f.steps.Disjoint g.steps := fun k hk hk' ↦ Nat.lt_irrefl k (hsort.2.2 k hk k hk')
    obtain ⟨hsubf, hsubg⟩ := List.append_subset.mp hsub
    simp only [resume, writesFrom, Reached]
    split
    · next hkf =>
      refine (ih hf.1 hsf hsort.1 hsubf hkf h hstack).andThen fun m₁ s₁ on₁ h₁ _ hleft ↦
        (of_run hr hb hl hf.2 hsg hsort.2.1 hsubg h₁).imp fun m' s' on' h' hadv hright σ hreach ↦ ?_
      exact .append hdisj (h₁.current h' hadv hsf hsort.1 hsubf hd (hleft σ hreach)) hright
    · next hkf =>
      refine (ih' hf.2 hsg hsort.2.1 hsubg ((List.mem_append.mp hk).resolve_left hkf) h hstack).imp ?_
      rintro m' s' on' h' hadv hright σ ⟨ρ, hleft, hreach⟩
      refine .append hdisj (h.current h' hadv hsf hsort.1 hsubf ?_ (.inl hleft)) (hright ρ hreach)
      exact fun l hl hmem ↦ hd l hl (writesFrom_subset_writes k g hmem)
  | shortCircuit op f g ih ih' =>
    rw [steps_shortCircuit_of_points hs.2.2.1] at hsort hk
    obtain ⟨hsubf, hsubg⟩ := List.append_subset.mp hsub
    simp only [resume, writesFrom, if_pos hk]
    refine (ih hf.1 hs.1 hsort hsubf hk h hstack).andThen fun m₁ s₁ on₁ h₁ _ hleft ↦ ?_
    refine (of_shortCircuit hs hsort hsubf h₁ fun τ ↦ ?_).imp ?_
    · exact of_run hr hb hl (m := { m₁ with stack := τ }) hf.2 hs.2.1 (by simp [steps, hs.2.2.1]) hsubg h₁
    · rintro m' s' - - - hcur σ ⟨-, hreach⟩
      exact hcur σ (hleft σ hreach)
  | branch op f g flag counter ps ih ih' =>
    rw [steps_branch] at hsort hk
    have hsort' := List.pairwise_append.mp hsort
    obtain ⟨hsubf, hsubg⟩ := List.append_subset.mp hsub
    simp only [resume, writesFrom, Reached]
    split
    · next hkf =>
      refine (ih hf.1 hs.1 hsort'.1 hsubf hkf h hstack).andThen fun m₁ s₁ on₁ h₁ _ hleft ↦ ?_
      refine (of_branch hb hf hs hsort hsubf h₁ fun m s on h ↦ ?_).imp fun _ _ _ _ _ hcur σ hreach ↦
        hcur σ (hleft σ hreach)
      exact of_run hr hb hl hf.2.1 hs.2.1 hsort'.2.1 hsubg h
    · next hkf =>
      refine (ih' hf.2.1 hs.2.1 hsort'.2.1 hsubg ((List.mem_append.mp hk).resolve_left hkf) h hstack).imp ?_
      rintro m' s' on' h' hadv hright σ ⟨u, ρ, t, hleft, ht, hskip, hflag, hreach⟩
      have hsub := writesFrom_subset_writes k g
      refine .branch_run (fun k hk hk' ↦ Nat.lt_irrefl k (hsort'.2.2 k hk k hk'))
        (h.current h' hadv hs.1 hsort'.1 hsubf (fun l hl hmem ↦ hs.2.2.2.1 l hl ?_) (.inl hleft)) ht hskip
        ?_ (hright ρ hreach)
      · exact List.mem_append_right _ (hsub hmem)
      · rw [hadv.kept _ fun hmem ↦ hs.2.2.2.2 (hsub hmem), hflag]

end

end Leads

/-- When an update starts, the cell that the binding publishes to is locked. -/
theorem Sound.locked (h : D.Sound w s on) {ls : List Listener}
    (hc : w.cell? D.result = some ⟨v, ls, 0, false⟩) :
    D.Live v (Compiles.locked w s).world s on ∧
      D.reading (Compiles.locked w s).world = D.reading w := by
  have hworld : (Compiles.locked w s).world = w.putCell D.result ⟨v, ls, 1, false⟩ := by
    show w.modifyCell s.result Cell.lock = _
    rw [h.result]
    exact World.modifyCell_congr hc rfl
  have hcell : (w.putCell D.result ⟨v, ls, 1, false⟩).cell? D.result = some ⟨v, ls, 1, false⟩ :=
    World.cell?_putCell hc
  rw [hworld]
  refine ⟨⟨h.putResult hc rfl, ls, hcell⟩, D.reading_eq rfl (funext fun d ↦ ?_)⟩
  by_cases hd : D.result = d
  · subst hd
    simp only [World.cellValue, hcell, hc, Option.map_some, Option.getD_some]
  · simp only [World.cellValue, World.putCell, World.cell?_modifyCell, if_neg hd]

theorem placed_code : D.code.Placed D.artifact D.body.points :=
  ⟨D.compiles.placed D.ordered, placed_of_isPlain D.compiles.plain⟩

theorem Determined.single (hd : D.Determined) (h : D.Live v w s on) {Q : List Nat} {u : Value}
    {σ : List Value} (hcur : D.code.Current (D.reading w) Q [] (D.store s) (u :: σ)) :
    D.code.Current (D.reading w) Q [] (D.store s) [u] := by
  refine hcur.imp_left fun hden ↦ ?_
  obtain ⟨u', hu⟩ := (hd w h.sound.conforms h.sound.objects _).2 _ hden
  obtain ⟨rfl, rfl⟩ : u = u' ∧ σ = [] := by simpa using hu
  exact hden

/-- Where methods only react, updates that end well compute what they should. -/
theorem Reacts.evaluates {fuel : Nat} (hd : D.Determined)
    (hr : D.Reacts (updateInstance D.host fuel) fuel) : D.Evaluates fuel := by
  intro k hk w s on v ls hs hc hok
  obtain ⟨hlive, hreading⟩ := hs.locked hc
  have hplaced := D.placed_code
  have hsub : D.code.points ⊆ D.body.points := D.points_code ▸ List.Subset.refl _
  rw [Compiles.computed, ← D.compiles.flags] at hok ⊢
  by_cases h0 : k = 0
  · simp only [if_pos h0] at hok ⊢
    obtain ⟨s', on', h', hadv, hcur⟩ := Leads.of_run hr rfl rfl hplaced D.sequential_code D.sorted_code hsub
      hlive hok
    refine ⟨s', on', h'.sound, h'.locked, hadv.queued, absurd h0, absurd h0, fun _ u σ hσ ↦ ?_⟩
    exact hd.single h' (hσ ▸ hcur)
  · have hk := (List.mem_cons.mp hk).resolve_left h0
    simp only [if_neg h0] at hok ⊢
    have hresume (frame : Frame) : (D.body.resume D.host (updateInstance D.host fuel) fuel frame
        (some D.artifact.flags) k).andThen (D.coercion.run D.host (updateInstance D.host fuel) fuel
          frame (some D.artifact.flags)) = D.code.resume D.host (updateInstance D.host fuel) fuel
            frame (some D.artifact.flags) k := by
      rw [code, resume, if_pos hk]
    rw [hresume] at hok ⊢
    obtain ⟨s', on', h', hadv, hcur⟩ := Leads.of_resume hr rfl rfl hplaced D.sequential_code D.sorted_code
      hsub (D.steps_code.symm ▸ hk) hlive rfl hok
    refine ⟨s', on', h'.sound, h'.locked, hadv.queued, fun _ ↦ hadv.kept, fun _ p hp hloc hout ↦ ?_, ?_⟩
    · exact hadv.told p (hsub hp) hloc (hreading ▸ hout)
    · rintro hreach u σ hσ
      exact hd.single h' (hσ ▸ hcur [] (hreading ▸ hreach.resolve_left h0))

end Deployment

end LiveBinding
