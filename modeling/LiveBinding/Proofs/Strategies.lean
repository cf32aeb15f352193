import LiveBinding.Proofs.Evaluation
import LiveBinding.Proofs.Subscription
import Mathlib.Data.List.TakeWhile

namespace LiveBinding

namespace Reading

/-- Observable properties are also read through their cells when they are read as properties. -/
def Through (rd : Reading) (classes : ObjectId → Option ClassId) : Prop :=
  ∀ o d c name p, classes o = some d → rd.registry.model.isSubclass d c →
    rd.registry.model.property (.class c) name = some p → p.flags.observable →
    rd.property o p.name = rd.value <$> rd.cell o p.name

end Reading

/-- Code loads the value of every name in scope. -/
def Scope.Loads (scope : Scope) (k : Prop) (rd : Reading) (env : Loadable → Value) : Prop :=
  ∀ name l, scope.lookup? name = some (.bound l) → ∀ σ, l.load.Turns k rd σ (· :: σ) (pure (env l))

/-- The captures hold the values of the names in scope. -/
def Scope.Captures (scope : Scope) (captured : List Loadable) (rd : Reading)
    (env : Loadable → Value) : Prop :=
  ∀ name l slot, scope.lookup? name = some (.bound l) →
    captured.findIdx? (·.id == l.id) = some slot → rd.captures[slot]? = some (env l)

section

variable {k : Prop} {rd : Reading} {σ : List Value}

/-- Operands that stay on the stack. -/
theorem turns_concat {os : List Operand} {es : List (Effect Value)}
    (h : List.Forall₂ (Operand.Comes k rd) os es)
    (hm : rd.strict → ∀ o ∈ os, o.monitored = false) (σ : List Value) :
    (Fragment.concat (os.map Operand.code)).Turns k rd σ (fun vs ↦ vs.reverse ++ σ) (.each es) := by
  induction h generalizing σ with
  | nil => exact .empty _ rfl
  | @cons o e os es ho hes ih =>
    refine (ho σ fun hs hmon ↦ ?_).append fun v _ ↦ .map ?_
    · rw [hm hs o List.mem_cons_self] at hmon
      cases hmon
    · simp only [List.reverse_cons, List.append_assoc, List.singleton_append]
      exact ih (fun hs o ho ↦ hm hs o (List.mem_cons_of_mem _ ho)) (v :: σ)

/-- The first operand may start on another stack. -/
theorem turns_concat_first {o : Operand} {e : Effect Value} {os : List Operand}
    {es : List (Effect Value)} {ρ : List Value} (ho : o.code.Turns k rd ρ (· :: σ) e)
    (h : List.Forall₂ (Operand.Comes k rd) os es)
    (hm : rd.strict → ∀ o ∈ os, o.monitored = false) :
    (Fragment.concat ((o :: os).map Operand.code)).Turns k rd ρ (fun vs ↦ vs.reverse ++ σ)
      (.each (e :: es)) := by
  refine ho.append fun v _ ↦ .map ?_
  simp only [List.reverse_cons, List.append_assoc, List.singleton_append]
  exact turns_concat h hm (v :: σ)

end

namespace Strategy

theorem faithful_direct {k : Prop} {rd : Reading} {classes : ObjectId → Option ClassId}
    {scope : Scope} {env : Loadable → Value} (hs : rd.strict = false)
    (hl : scope.Loads k rd env) (ht : rd.Through classes) :
    direct.Faithful k rd classes scope env (fun _ _ _ ↦ True) (fun _ ↦ True) where
  back _ _ := trivial
  plain _ _ _ := trivial
  append _ _ := trivial
  node _ _ _ := trivial
  member _ _ _ := trivial
  args args _ s := by
    generalize (Node.renderArgs direct args s).1.map Operand.code = fs
    induction fs with
    | nil => rfl
    | cons f fs ih => exact ⟨s, trivial, ih⟩
  operands_back _ := trivial
  loadScope hname _ := hl _ _ hname
  observe {t name p v σ} _ hp hv hobs _ := by
    refine Node.turns_getProperty fun _ o ho ↦ ?_
    subst ho
    obtain ⟨c, rfl⟩ := Registry.property_class hp
    obtain hnull | ⟨_, d, heq, hd, hsub⟩ | ⟨_, _, heq, -⟩ := hv
    · cases hnull
    · cases heq
      exact ht o d c name p hd hsub hp hobs
    · cases heq
  noOperands _ := rfl
  operands _ ho hes _ := turns_concat_first ho hes fun h ↦ by rw [hs] at h; cases h
  shortCircuit {op left right monitored s σ e e'} _ _ _ hleft hbool hright := by
    intro st
    refine (hleft trivial st).bind fun c a _ ha hc ↦ ?_
    obtain ⟨b, rfl⟩ := hbool a ha
    obtain ⟨ρ, st'⟩ := c
    obtain rfl : ρ = .bool b :: σ := hc
    exact Fragment.Turns.fork (.pure rfl) (hright s trivial st')

end Strategy

namespace Fragment

theorem points_subset_slots (f : Fragment) : f.points.map SavePoint.handle ⊆ f.slots := fun _ h ↦
  f.perm_slots.symm.subset (List.mem_append_right _ h)

/-- A fragment writes to no scratch slots but its own. -/
theorem mem_slots_of_writes {f : Fragment} {enclosing : List Nat} (h : f.Nested enclosing) {n : Nat}
    (hn : .slot n ∈ f.writes) : n ∈ f.slots := by
  induction f generalizing enclosing with
  | ops list =>
    obtain ⟨m, hm, heq⟩ := List.mem_map.mp hn
    cases heq
    exact hm
  | append f g ih ih' | nullGuard f g ih ih' | shortCircuit _ f g ih ih' =>
    exact List.mem_append.mpr ((List.mem_append.mp hn).imp (ih h.1) (ih' h.2))
  | flagTest | flagAssign => simp [writes, locs] at hn
  | observe property p =>
    simp only [writes, locs, SavePoint.loc, List.mem_singleton, Loc.slot.injEq] at hn
    exact List.mem_singleton.mpr hn
  | branch op f g flag counter ps ih ih' =>
    obtain ⟨hf, hg, hp⟩ := h
    simp only [writes, locs, List.mem_append, List.mem_cons, reduceCtorEq, false_or] at hn
    refine List.mem_append.mpr (hn.imp (ih hf) ?_)
    rintro (hps | hn)
    · obtain ⟨p, hmem, heq⟩ := List.mem_map.mp hps
      cases heq
      exact points_subset_slots g (List.mem_map_of_mem (hp.subset hmem))
    · exact ih' hg hn

@[simp] theorem writes_concat (fs : List Fragment) : (concat fs).writes = fs.flatMap writes := by
  induction fs with
  | nil => rfl
  | cons f fs ih =>
    show f.writes ++ (concat fs).writes = _
    rw [ih, List.flatMap_cons]

theorem den_concat_append (rd : Reading) (fs gs : List Fragment) (c : Config) :
    (concat (fs ++ gs)).den rd c = (concat fs).den rd c >>= (concat gs).den rd := by
  induction fs generalizing c with
  | nil => rfl
  | cons f fs ih =>
    show f.den rd c >>= (concat (fs ++ gs)).den rd = (f.den rd c >>= (concat fs).den rd) >>= _
    rw [bind_assoc]
    exact bind_congr fun c' ↦ ih c'

end Fragment

/-- The scratch slots hold some values. -/
def Config.Holds (slots : List Nat) (vs : List Value) (c : Config) : Prop :=
  List.Forall₂ (fun n v ↦ c.store (.slot n) = v) slots vs

theorem Effect.each_append {α : Type} (es es' : List (Effect α)) :
    each (es ++ es') = do
      let as ← each es
      let as' ← each es'
      return as ++ as' := by
  induction es with
  | nil => simp [each]
  | cons e es ih => simp [each, ih]

namespace Resumable

open Fragment

variable {k : Prop} {rd : Reading} {σ ρ : List Value}

theorem turns_store {o : Operand} {e : Effect Value} {n : Nat} {fs : List Fragment}
    {slots : List Nat} {es : List (Effect Value)} (ho : o.code.Turns k rd ρ (· :: σ) e)
    (hrest : ∀ st, Effect.Rel k (fun c vs ↦ c.stack = σ ∧ c.Holds slots vs)
      ((concat fs).den rd ⟨σ, st⟩) (.each es))
    (hn : .slot n ∉ (concat fs).writes) (st : Store) :
    Effect.Rel k (fun c vs ↦ c.stack = σ ∧ c.Holds (n :: slots) vs)
      ((concat ((o.code ++ .op (.storeScratch n)) :: fs)).den rd ⟨ρ, st⟩) (.each (e :: es)) := by
  show Effect.Rel k _ ((o.code.den rd ⟨ρ, st⟩ >>= den rd (.op (.storeScratch n))) >>= _) _
  rw [bind_assoc]
  refine (ho st).bind fun c v _ _ hc ↦ ?_
  obtain ⟨ρ', st'⟩ := c
  obtain rfl : ρ' = v :: σ := hc
  have hstore : den rd (.op (.storeScratch n)) ⟨v :: σ, st'⟩ =
      pure ⟨σ, Function.update st' (.slot n) v⟩ := rfl
  rw [hstore, pure_bind]
  show Effect.Rel k _ ((concat fs).den rd _) _
  rw [← bind_pure ((concat fs).den rd _)]
  refine (hrest _).bind fun c vs hc _ ⟨hσ, hvs⟩ ↦ .pure ⟨hσ, .cons ?_ hvs⟩
  exact (den_store hc hn).trans (Function.update_self _ _ _)

theorem not_mem_writes_stores {os : List Operand} {slots : List Nat} {n : Nat} (hn : n ∉ slots)
    (ho : ∀ o ∈ os, .slot n ∉ o.code.writes) :
    .slot n ∉ (concat ((os.zip slots).map fun (o, n) ↦ o.code ++ .op (.storeScratch n))).writes := by
  rw [writes_concat, List.mem_flatMap]
  rintro ⟨f, hf, hw⟩
  obtain ⟨⟨o, m⟩, hom, rfl⟩ := List.mem_map.mp hf
  obtain hw | hw := List.mem_append.mp hw
  · exact ho o (List.of_mem_zip hom).1 hw
  · obtain rfl : n = m := by simpa [writes, locs, storesOf, Fragment.op] using hw
    exact hn (List.of_mem_zip hom).2

theorem turns_stores {os : List Operand} {slots : List Nat} {es : List (Effect Value)}
    (hlen : os.length = slots.length) (hes : List.Forall₂ (Operand.Comes k rd) os es)
    (hσ : rd.strict → σ = []) (hnd : slots.Nodup)
    (hfresh : ∀ o ∈ os, ∀ n ∈ slots, .slot n ∉ o.code.writes) (st : Store) :
    Effect.Rel k (fun c vs ↦ c.stack = σ ∧ c.Holds slots vs)
      ((concat ((os.zip slots).map fun (o, n) ↦ o.code ++ .op (.storeScratch n))).den rd ⟨σ, st⟩)
      (.each es) := by
  induction hes generalizing slots st with
  | nil =>
    obtain rfl := List.length_eq_zero_iff.mp hlen.symm
    exact .pure ⟨rfl, .nil⟩
  | @cons o e os es ho hes ih =>
    obtain _ | ⟨n, slots⟩ := slots
    · cases hlen
    rw [List.nodup_cons] at hnd
    refine turns_store (ho σ fun hs _ ↦ hσ hs) (fun st ↦ ih (by simpa using hlen) hnd.2
      (fun o ho n hn ↦ hfresh o (List.mem_cons_of_mem _ ho) n (List.mem_cons_of_mem _ hn)) st) ?_ st
    exact not_mem_writes_stores hnd.1 fun o ho ↦
      hfresh o (List.mem_cons_of_mem _ ho) n List.mem_cons_self

theorem den_loads {slots : List Nat} {vs : List Value} {st : Store}
    (h : List.Forall₂ (fun n v ↦ st (.slot n) = v) slots vs) (σ : List Value) :
    (concat (slots.map fun n ↦ .op (.loadScratch n))).den rd ⟨σ, st⟩ = pure ⟨vs.reverse ++ σ, st⟩ := by
  induction h generalizing σ with
  | nil => rfl
  | @cons n v slots vs hn _ ih =>
    show pure ⟨st (.slot n) :: σ, st⟩ >>= den rd (concat (slots.map _)) = _
    rw [pure_bind, show st (.slot n) = v from hn, ih]
    simp

/-- Operands of which the first ones are set aside and loaded again. -/
theorem turns_spill {o : Operand} {e : Effect Value} {os rest : List Operand} {n : Nat}
    {slots : List Nat} {es es' : List (Effect Value)} (ho : o.code.Turns k rd ρ (· :: σ) e)
    (hlen : os.length = slots.length) (hes : List.Forall₂ (Operand.Comes k rd) os es)
    (hσ : rd.strict → σ = []) (hnd : (n :: slots).Nodup)
    (hfresh : ∀ p ∈ o :: os, ∀ m ∈ n :: slots, .slot m ∉ p.code.writes)
    (hes' : List.Forall₂ (Operand.Comes k rd) rest es')
    (hm : rd.strict → ∀ o ∈ rest, o.monitored = false) :
    (spill (o :: os ++ rest) (n :: slots)).Turns k rd ρ (fun vs ↦ vs.reverse ++ σ)
      (.each (e :: es ++ es')) := by
  intro st
  have hzip : (o :: os ++ rest).zip (n :: slots) = (o :: os).zip (n :: slots) := by
    have h := @List.zip_append _ _ (o :: os) rest (n :: slots) [] (by simpa using hlen)
    rwa [List.append_nil, List.zip_nil_right, List.append_nil] at h
  have hdrop : (o :: os ++ rest).drop (n :: slots).length = rest :=
    List.drop_left' (by simpa using hlen)
  rw [spill, hzip, hdrop, List.append_assoc, den_concat_append, Effect.each_append]
  rw [List.nodup_cons] at hnd
  have hstores := turns_store ho (turns_stores hlen hes hσ hnd.2
    fun p hp m hm ↦ hfresh p (List.mem_cons_of_mem _ hp) m (List.mem_cons_of_mem _ hm))
    (not_mem_writes_stores hnd.1 fun p hp ↦
      hfresh p (List.mem_cons_of_mem _ hp) n List.mem_cons_self) st
  refine hstores.bind fun c vs _ _ hend ↦ ?_
  obtain ⟨σ', st'⟩ := c
  obtain ⟨hc, hvs⟩ := hend
  obtain rfl : σ' = σ := hc
  rw [den_concat_append, den_loads hvs, pure_bind]
  refine Fragment.Turns.map ?_ st'
  simp only [List.reverse_append, List.append_assoc]
  exact turns_concat hes' hm _

/-- What is set aside is all up to the last operand that can resume. -/
theorem spilled_spec (os : List Operand) :
    ∃ n ≤ os.length, spilled os = (if n ≤ 1 then 0 else n) ∧ (0 < n → os.any Operand.monitored) ∧
      ∀ o ∈ os.drop n, o.monitored = false := by
  generalize hl : os.reverse.dropWhile (!·.monitored) = last
  have hsplit : os = last.reverse ++ (os.reverse.takeWhile (!·.monitored)).reverse := by
    rw [← hl, ← List.reverse_append, List.takeWhile_append_dropWhile, List.reverse_reverse]
  refine ⟨last.length, ?_, ?_, fun hpos ↦ ?_, fun o ho ↦ ?_⟩
  · rw [hsplit, List.length_append, List.length_reverse]
    exact Nat.le_add_right _ _
  · rw [← hl]
    rfl
  · by_contra hnone
    rw [List.dropWhile_eq_nil_iff.mpr] at hl
    · rw [← hl] at hpos
      exact Nat.lt_irrefl 0 hpos
    · simpa using hnone
  · rw [hsplit, List.drop_left' List.length_reverse, List.mem_reverse] at ho
    simpa using List.mem_takeWhile_imp ho

theorem slot_lt {s t : Resumable} {fs : List Fragment} (h : InOrder Renders s fs t) {f : Fragment}
    (hf : f ∈ fs) {n : Nat} (hn : .slot n ∈ f.writes) : n < t.storage.scratch := by
  have hle (s : Resumable) (fs : List Fragment) (h : InOrder Renders s fs t) :
      s.storage.scratch ≤ t.storage.scratch := by
    induction fs generalizing s with
    | nil => exact (h : s = t) ▸ Nat.le_refl _
    | cons f fs ih =>
      obtain ⟨u, hf, h⟩ := h
      exact Nat.le_trans (hf.nextSlot ▸ Nat.le_add_right _ _) (ih u h)
  induction fs generalizing s with
  | nil => cases hf
  | cons g fs ih =>
    obtain ⟨u, hg, h⟩ := h
    rcases List.mem_cons.mp hf with rfl | hf
    · have hmem := hg.slots.subset (mem_slots_of_writes hg.nested hn)
      have hu := hle u fs h
      rw [hg.nextSlot] at hu
      rw [List.mem_range'_1] at hmem
      omega
    · exact ih h hf

theorem turns_operands {s t : Resumable} {o : Operand} {os : List Operand} {e : Effect Value}
    {es : List (Effect Value)} (hos : InOrder Renders s ((o :: os).map Operand.code) t)
    (ho : o.code.Turns k rd ρ (· :: σ) e) (hes : List.Forall₂ (Operand.Comes k rd) os es)
    (hσ : rd.strict → (o :: os).any Operand.monitored → σ = []) :
    (Strategy.resumable.operands (o :: os) t).1.Turns k rd ρ (fun vs ↦ vs.reverse ++ σ)
      (.each (e :: es)) := by
  show (spill (o :: os) (newSlots (spilled (o :: os)) t).1).Turns k rd ρ _ _
  rw [Renders.newSlots_eq]
  obtain ⟨n, hn, hspilled, hany, hrest⟩ := spilled_spec (o :: os)
  rw [hspilled]
  by_cases hone : n ≤ 1
  · rw [if_pos hone]
    refine turns_concat_first ho hes fun _ p hp ↦ hrest p ?_
    obtain _ | _ | n := n
    · exact List.mem_cons_of_mem _ hp
    · exact hp
    · omega
  · rw [if_neg hone]
    obtain ⟨n, rfl⟩ : ∃ m, n = m + 1 := ⟨n - 1, by omega⟩
    have hlen : n ≤ os.length := by simpa using hn
    have hsplit : o :: os = o :: os.take n ++ os.drop n := by
      rw [List.cons_append, List.take_append_drop]
    rw [hsplit, ← List.take_append_drop n es, List.range'_succ]
    refine turns_spill ho ?_ (List.forall₂_take n hes)
      (fun hs ↦ hσ hs (hany (Nat.succ_pos n))) ?_ ?_ (List.forall₂_drop n hes) fun _ ↦ hrest
    · rw [List.length_take, List.length_range', Nat.min_eq_left hlen]
    · exact List.nodup_range' (s := t.storage.scratch) (n := n + 1)
    · intro p hp m hm hw
      have hp : p ∈ o :: os := by
        rw [hsplit]
        exact List.mem_append_left _ hp
      have hlt := slot_lt hos (List.mem_map_of_mem hp) hw
      have hm : m ∈ List.range' t.storage.scratch (n + 1) := hm
      rw [List.mem_range'_1] at hm
      omega

end Resumable

namespace Strategy

/-- The captures of a state are among those of the last one. -/
def Keeping (captured : List Loadable) (s : Resumable) : Prop := s.storage.captured <+: captured

theorem turns_loadCapture {k : Prop} {rd : Reading} {scope : Scope} {env : Loadable → Value}
    {captured : List Loadable} (hc : scope.Captures captured rd env) {name : String}
    {l : Loadable} (hname : scope.lookup? name = some (.bound l)) (s : Resumable)
    (hg : Keeping captured (resumable.loadScope l s).2) (σ : List Value) :
    (resumable.loadScope l s).1.Turns k rd σ (· :: σ) (pure (env l)) := by
  have hslot : captured.findIdx? (·.id == l.id) = some (Storage.capture l s.storage).1 := by
    have hg : (Storage.capture l s.storage).2.captured <+: captured := hg
    unfold Storage.capture at hg ⊢
    split at hg
    · next slot hslot =>
      obtain ⟨rest, rfl⟩ := hg
      simp only [List.findIdx?_append, hslot]
      rfl
    · next hnone =>
      obtain ⟨rest, rfl⟩ := hg
      simp only [List.append_assoc, List.findIdx?_append, hnone]
      simp [Storage.captures]
  intro st
  have hv := hc name l _ hname hslot
  have hden : (Fragment.op (.loadCapture (Storage.capture l s.storage).1)).den rd ⟨σ, st⟩ =
      pure ⟨env l :: σ, st⟩ := by
    show ((⟨·, st⟩ : List Value → Config) <$> Effect.of (rd.simple (.loadCapture _) σ)) >>= pure = _
    simp only [Reading.simple, hv]
    rfl
  show Effect.Rel k _ ((Fragment.op (.loadCapture (Storage.capture l s.storage).1)).den rd ⟨σ, st⟩) _
  rw [hden]
  exact .pure rfl

theorem turns_observe {k : Prop} {rd : Reading} {p : PropertyInfo} {σ : List Value}
    (point : SavePoint) (v : Value) (hobs : p.flags.observable) (hσ : rd.strict → σ = []) :
    (Fragment.observe p.name point).Turns k rd (v :: σ) (· :: σ) (rd.read p v) := by
  intro st
  have hstrict : (rd.strict && !σ.isEmpty) = false := by
    cases hs : rd.strict with
    | false => rfl
    | true => rw [hσ hs]; rfl
  simp only [Fragment.den, Reading.observe, hstrict, Bool.false_eq_true, if_false, Reading.read,
    hobs, if_true]
  cases v.receiver p.name with
  | error e => exact ⟨fun _ ↦ rfl, .inr ⟨e, rfl, rfl⟩⟩
  | ok o =>
    simp only [bind, Except.bind]
    cases rd.cell o p.name with
    | error e => exact ⟨fun _ ↦ rfl, .inr ⟨e, rfl, rfl⟩⟩
    | ok c => exact .of_ok rfl rfl rfl fun _ ↦ rfl

theorem faithful_resumable {k : Prop} {rd : Reading} {classes : ObjectId → Option ClassId}
    {scope : Scope} {env : Loadable → Value} {captured : List Loadable}
    (hc : scope.Captures captured rd env) :
    resumable.Faithful k rd classes scope env Renders (Keeping captured) where
  back h hg := h.captured.trans hg
  plain s _ h := .plain s h
  append h h' := h.append h'
  node n h s := n.renders h s
  member m h s := Node.rendersMember m h s
  args args h s := Node.rendersArgs args h s
  operands_back {os t} hg := by
    have hg : Keeping captured (Resumable.newSlots _ t).2 := hg
    rw [Renders.newSlots_eq] at hg
    exact hg
  loadScope {name l s} hname hg σ := turns_loadCapture hc hname s hg σ
  observe _ _ _ hobs hσ := turns_observe _ _ hobs hσ
  noOperands _ := rfl
  operands hos ho hes hσ := Resumable.turns_operands hos ho hes hσ
  shortCircuit {op left right monitored s σ e e'} hin hg hσ hleft hbool hright := by
    cases monitored with
    | false =>
      have hg : Keeping captured (right s).2 := hg
      intro st
      refine (hleft ((hin s).captured.trans hg) st).bind fun c a _ ha hc ↦ ?_
      obtain ⟨b, rfl⟩ := hbool a ha
      obtain ⟨ρ, st'⟩ := c
      obtain rfl : ρ = .bool b :: σ := hc
      exact Fragment.Turns.fork (.pure rfl) (hright s hg st')
    | true =>
      have hg : Keeping captured (right (Layout.inside s)).2 := hg
      intro st
      refine (hleft ((hin (Layout.inside s)).captured.trans hg) st).bind fun c a _ ha hc ↦ ?_
      obtain ⟨b, rfl⟩ := hbool a ha
      obtain ⟨ρ, st'⟩ := c
      obtain rfl : ρ = .bool b :: σ := hc
      exact Fragment.Turns.fork (.pure rfl) (hright _ hg _)

end Strategy

end LiveBinding
