import LiveBinding.Proofs.Conversion
import LiveBinding.Proofs.Labels

namespace LiveBinding

open Assembler Exec

/-- What a string means when it is read as a primitive. -/
def Prim.read (text : String) : Prim → Except RuntimeError Value
  | boolean => .ok (.bool (Literal.equalsIgnoringCase text "true"))
  | char =>
    match text.toList with
    | [c] => .ok (.char c)
    | _ => .error (.numberFormat text char.name)
  | kind => Value.parse text kind

namespace Fragment

variable (r : Registry) (update : Updater) (fuel : Nat) (frame : Frame)

/-- What the code of a fragment comes to. It can stand alone, and it does the same wherever it
stands in a routine. -/
structure Performs (f : Fragment) (m : Machine) (o : Outcome) : Prop where
  stands : ∃ R, Assembles ((f.emit none .empty).emit .return) R
  reaches : ∀ {layout : Option FlagLayout} {a b : Assembler} {R : Routine}, Assembles b R →
    Continues (f.emit layout a) b →
    Reaches r update fuel frame R a.ops.size m o (f.emit layout a).ops.size

variable {r update fuel frame} {f : Fragment} {m : Machine}

theorem performs_run (hf : f.isPlain) :
    f.Performs r update fuel frame m (f.run r update fuel frame none m) where
  stands := ⟨_, ⟨((composable_isInert.plain f hf).isSealed none).finish⟩⟩
  reaches {layout a b R} hR hb := by
    rw [← run_of_isPlain hf layout]
    exact reaches_run (Layout.plain .start hf).straight (codeAt_emit hR layout f hb) m

end Fragment

namespace Exec

variable (r : Registry) (update : Updater) (fuel : Nat) (frame : Frame)

/-- Instructions push a value and touch nothing else. -/
def Pushes (ops : List Op) (v : Value) : Prop := ∀ m,
  runOps r update fuel frame ops m = ⟨[], .ok (), { m with stack := v :: m.stack }⟩

/-- Instructions that call no method put something in the place of the value on top and touch nothing
else, or fail. -/
def Gives (m : Machine) (ops : List Op) (v : Value) (x : Except RuntimeError Value) : Prop := ∀ σ,
  match x with
  | .ok v' => runOps r update fuel frame ops { m with stack := v :: σ } =
      ⟨[], .ok (), { m with stack := v' :: σ }⟩
  | .error e => ∃ m', runOps r update fuel frame ops { m with stack := v :: σ } =
      ⟨[], .error (.error e), m'⟩

variable {r update fuel frame} {m : Machine} {ops ops' : List Op} {v : Value}
variable {x : Except RuntimeError Value}

theorem gives_nil : Gives r update fuel frame m [] v (.ok v) := fun _ ↦ rfl

theorem Gives.append {f : Value → Except RuntimeError Value} (h : Gives r update fuel frame m ops v x)
    (h' : ∀ v', x = .ok v' → Gives r update fuel frame m ops' v' (f v')) :
    Gives r update fuel frame m (ops ++ ops') v (x >>= f) := fun σ ↦ by
  cases x with
  | ok v' =>
    have hrest := h' v' rfl σ
    rw [show (Except.ok v' >>= f) = f v' from rfl, runOps_append]
    cases hf : f v' <;> rw [hf] at hrest <;> simpa only [andThen_ok (h σ)] using hrest
  | error e =>
    obtain ⟨m', hm⟩ := h σ
    refine ⟨m', ?_⟩
    rw [runOps_append]
    simp only [Block.andThen, hm]

theorem Gives.thenOk {v' : Value} (h : Gives r update fuel frame m ops v (.ok v'))
    (h' : Gives r update fuel frame m ops' v' x) : Gives r update fuel frame m (ops ++ ops') v x :=
  h.append (f := fun _ ↦ x) fun _ he ↦ Except.ok.inj he ▸ h'

theorem Pushes.gives {v' : Value} (h : Pushes r update fuel frame ops v)
    (h' : ∀ m, Gives r update fuel frame m ops' v (.ok v')) :
    Pushes r update fuel frame (ops ++ ops') v' := fun m ↦ by
  rw [runOps_append, andThen_ok (h m)]
  exact h' m m.stack

/-- An instruction that calls no method and gives back what it computes of the value on top. -/
theorem gives_of_step {op : Op} (hcalls : ∀ m, callsOf r update fuel op m = [])
    (h : ∀ σ, step r update fuel frame default op { m with stack := v :: σ } =
      (do push (← ofExcept x)) { m with stack := σ }) : Gives r update fuel frame m [op] v x :=
  fun σ ↦ by
    cases x with
    | ok v' =>
      refine runOps_cons ?_ []
      simp only [Does, runOp, h, hcalls]
      rfl
    | error e =>
      refine ⟨{ m with stack := σ }, ?_⟩
      simp only [runOps, runOp, Block.andThen, h, hcalls]
      rfl

theorem gives_convert (p q : Prim) : Gives r update fuel frame m [.convert p q] v (v.convert q) :=
  gives_of_step (fun _ ↦ rfl) fun _ ↦ rfl

theorem gives_toStr : Gives r update fuel frame m [.toStr] v (.ok (.str (m.world.text r v))) :=
  gives_of_step (fun _ ↦ rfl) fun _ ↦ rfl

theorem gives_box (p : Prim) : Gives r update fuel frame m [.box p] v (.ok v) := fun _ ↦ rfl

theorem gives_unbox (p : Prim) (hv : v ≠ .null) : Gives r update fuel frame m [.unbox p] v (.ok v) := by
  refine gives_of_step (fun _ ↦ rfl) fun σ ↦ ?_
  simp only [step, bind_apply, get_apply, List.head?_cons, Option.map_some, Option.getD_some,
    Value.isNull_eq_false hv, Bool.false_eq_true, if_false]
  rfl

theorem gives_parse (p : Prim) (text : String) :
    Gives r update fuel frame m [Coercion.parse p] (.str text) (p.read text) := by
  refine gives_of_step (fun _ ↦ by cases p <;> rfl) fun σ ↦ ?_
  cases p <;> simp only [Coercion.parse, Prim.read, step, popText, bind_apply, pop_apply, pure_apply]
  case char => rcases text.toList with _ | ⟨c, _ | _⟩ <;> rfl
  case boolean => rfl

theorem gives_parseBoxed (p : Prim) (text : String) :
    Gives r update fuel frame m [Coercion.parse p, .box p] (.str text) (p.read text) := by
  have h : Gives r update fuel frame m ([Coercion.parse p] ++ [Op.box p]) (.str text)
      (p.read text >>= pure) := (gives_parse p text).append fun _ _ ↦ gives_box p
  rwa [bind_pure] at h

theorem gives_enumValueOf (c : ClassId) (text : String) :
    Gives r update fuel frame m [.enumValueOf c] (.str text) (r.enumValueOf c text) :=
  gives_of_step (fun _ ↦ rfl) fun _ ↦ rfl

/-- A call of a static method with the value on top. -/
theorem runOps_invokeStatic (id : MethodId) (σ : List Value) :
    runOps r update fuel frame [.invokeStatic id 1] { m with stack := v :: σ } =
      match (invokeMethod r update fuel id [v]).holding σ m.world with
      | (.ok v', w) => ⟨[⟨id, [v], .ok v'⟩], .ok (), { m with stack := v' :: σ, world := w }⟩
      | (.error e, w) => ⟨[⟨id, [v], .error e⟩], .error e, { m with stack := σ, world := w }⟩ := by
  have hlen : ¬(v :: σ).length < 1 := by simp
  simp only [runOps, runOp, Block.andThen, step, callsOf, call, bind_apply, popArgs_apply, hlen,
    if_false, List.take_succ_cons, List.take_zero, List.reverse_singleton, List.drop_succ_cons,
    List.drop_zero, lift]
  rcases (invokeMethod r update fuel id [v]).holding σ m.world with ⟨e | v', w⟩ <;> rfl

theorem gives_cast {p q : Prim} (h : Coercion.cast? p q = some ops) (hv : v.prim? = some p) :
    ∃ v', Gives r update fuel frame m ops v (.ok v') ∧ v'.prim? = some q := by
  unfold Coercion.cast? at h
  split at h
  · next hpq =>
    cases h
    exact ⟨v, gives_nil, hpq ▸ hv⟩
  · split at h
    · next hn =>
      cases h
      rw [Bool.and_eq_true] at hn
      obtain ⟨v', hc, ht⟩ := convert_eq_ok hn.1 hn.2 hv
      exact ⟨v', hc ▸ gives_convert p q, ht⟩
    · cases h

end Exec

namespace Prim

variable {p : Prim} {text : String}

theorem prim?_of_read {v : Value} (h : p.read text = .ok v) : v.prim? = some p := by
  unfold read at h
  split at h
  · cases h; rfl
  · split at h <;> cases h
    rfl
  · have hparse : Yields (Value.prim? · = some p) (fun _ ↦ True) (Stop.raise (Value.parse text p)) :=
      yields_parse (fun _ _ ↦ trivial) text p
    exact hparse.1 v (by rw [h]; rfl)

theorem read_error {e : RuntimeError} (h : p.read text = .error e) : e = .numberFormat text p.name := by
  unfold read at h
  split at h
  · cases h
  · split at h <;> cases h
    rfl
  · unfold Value.parse at h
    dsimp only at h
    split at h <;> cases h
    rfl

end Prim

/-- What null turns into. -/
def Ty.defaultValue : Ty → Value
  | prim p => .zero p
  | _ => .null

/-- Static methods that read a type from a string give values of the type they declare. -/
def Registry.FactoriesConform (r : Registry) (update : Updater) (fuel : Nat) : Prop :=
  ∀ t f text w v w', Coercion.valueOf? r.model t = some f →
    invokeMethod r update fuel f.id [.str text] w = (.ok v, w') → r.HasTy w'.classOf f.ret v

namespace Coercion

variable {r : Registry} {update : Updater} {fuel : Nat} {frame : Frame} {s t : Ty}

theorem pushes_default {ops : List Op} (h : defaultValue? t = some ops) :
    Pushes r update fuel frame ops t.defaultValue := by
  intro m
  unfold defaultValue? at h
  split at h <;> cases h <;> rfl

theorem hasTy_default {ops : List Op} (h : defaultValue? t = some ops)
    (classes : ObjectId → Option ClassId) : r.HasTy classes t t.defaultValue := by
  cases t with
  | void => cases h
  | null | object => rfl
  | prim p => cases p <;> rfl
  | boxed | str | «class» => exact .inl rfl

/-- A value was replaced by one of the type, and nothing below it was touched. -/
structure Replaces (r : Registry) (s t : Ty) (m : Machine) (v : Value) (σ : List Value) (o : Outcome)
    (v' : Value) : Prop where
  result : o.result = .ok ()
  machine : o.machine = { m with stack := v' :: σ, world := o.machine.world }
  typed : r.HasTy o.machine.world.classOf t v'
  kept : r.model.isAssignable s t → v' = v
  null : v = .null → v' = t.defaultValue
  world : o.machine.world = m.world ∨
    ∃ f, valueOf? r.model t = some f ∧ o.calls = [⟨f.id, [v], .ok v'⟩]

/-- A value that is not null has no counterpart in the type: its text spells none, or the method that
was to read it failed. -/
structure Refuses (r : Registry) (s t : Ty) (v : Value) (o : Outcome) (e : Stop) : Prop where
  result : o.result = .error e
  convertible : r.model.isAssignable s t = false
  notNull : v ≠ .null
  cause : (∃ text p, v = .str text ∧ t.primitive? = some p ∧
      e = .error (.numberFormat text p.name)) ∨
    (∃ text c, v = .str text ∧ t = .class c ∧ e = .error (.noSuchConstant text (r.className c))) ∨
    ∃ f, valueOf? r.model t = some f ∧ o.calls = [⟨f.id, [v], .error e⟩]

/-- The coercion did what it is for, or could not. -/
def Settles (r : Registry) (s t : Ty) (m : Machine) (v : Value) (σ : List Value) (o : Outcome) : Prop :=
  (∃ v', Replaces r s t m v σ o v') ∨ ∃ e, Refuses r s t v o e

variable {m : Machine} {ops : List Op} {v : Value} {σ : List Value}

/-- A conversion that calls no method. -/
theorem settles_gives {x : Except RuntimeError Value} (hx : Gives r update fuel frame m ops v x)
    (ha : r.model.isAssignable s t = false) (hn : v ≠ .null)
    (hok : ∀ v', x = .ok v' → r.HasTy m.world.classOf t v')
    (herr : ∀ e, x = .error e → ∃ text, v = .str text ∧
      ((∃ p, t.primitive? = some p ∧ e = .numberFormat text p.name) ∨
        ∃ c, t = .class c ∧ e = .noSuchConstant text (r.className c))) :
    Settles r s t m v σ (runOps r update fuel frame ops { m with stack := v :: σ }) := by
  cases x with
  | ok v' =>
    have hrun : runOps r update fuel frame ops { m with stack := v :: σ } = _ := hx σ
    refine .inl ⟨v', ?_⟩
    rw [hrun]
    exact ⟨rfl, rfl, hok v' rfl, fun h ↦ absurd h (by simp [ha]), fun h ↦ absurd h hn, .inl rfl⟩
  | error e =>
    obtain ⟨m', hrun⟩ : ∃ m', runOps r update fuel frame ops { m with stack := v :: σ } = _ := hx σ
    obtain ⟨text, hv, ⟨p, hp, rfl⟩ | ⟨c, hc, rfl⟩⟩ := herr e rfl
    · refine .inr ⟨_, ?_, ha, hn, .inl ⟨text, p, hv, hp, rfl⟩⟩
      rw [hrun]
    · refine .inr ⟨_, ?_, ha, hn, .inr (.inl ⟨text, c, hv, hc, rfl⟩)⟩
      rw [hrun]

/-- A conversion by a static method of the type. -/
theorem settles_factory {f : MethodInfo} {text : String} (hr : r.FactoriesConform update fuel)
    (hf : valueOf? r.model t = some f) (ha : r.model.isAssignable s t = false) :
    Settles r s t m (.str text) σ
      (runOps r update fuel frame [.invokeStatic f.id 1] { m with stack := .str text :: σ }) := by
  have hassign : r.model.isAssignable f.ret t := by
    have hp := List.find?_some hf
    simp only [Bool.and_eq_true] at hp
    exact hp.2
  rw [runOps_invokeStatic]
  cases hx : invokeMethod r update fuel f.id [.str text] { m.world with held := σ ++ m.world.held } with
  | mk x w =>
    have hhold : (invokeMethod r update fuel f.id [.str text]).holding σ m.world =
        (x, { w with held := m.world.held }) := by
      rw [Run.holding, hx]
    rw [hhold]
    cases x with
    | ok v =>
      have ht := (hr t f text _ v w hf hx).assign hassign
      exact .inl ⟨v, rfl, rfl, ht, fun h ↦ absurd h (by simp [ha]), fun h ↦ absurd h (by simp),
        .inr ⟨f, hf, rfl⟩⟩
    | error e => exact .inr ⟨e, rfl, ha, by simp, .inr (.inr ⟨f, hf, rfl⟩)⟩

theorem enumValueOf_error {c : ClassId} {text : String} {e : RuntimeError}
    (hc : (r.model.enumConstants (.class c)).isSome) (h : r.enumValueOf c text = .error e) :
    e = .noSuchConstant text (r.className c) := by
  unfold Registry.enumValueOf at h
  cases hd : r.classes[c.index]? with
  | none => simp [Registry.model, hd] at hc
  | some d =>
    simp only [hd] at h
    split at h <;> cases h
    simp [Registry.className, hd]

theorem hasTy_enumValueOf {c : ClassId} {text : String} {classes : ObjectId → Option ClassId}
    (hc : (r.model.enumConstants (.class c)).isSome) (h : r.enumValueOf c text = .ok v) :
    r.HasTy classes (.class c) v := by
  unfold Registry.enumValueOf at h
  split at h
  · cases h
  · split at h <;> cases h
    exact .inr (.inr ⟨c, _, rfl, hc, Registry.isSubclass_refl c⟩)

theorem eq_str {classes : ObjectId → Option ClassId} (hv : r.HasTy classes .str v) (hn : v ≠ .null) :
    ∃ text, v = .str text :=
  Or.resolve_left hv hn

theorem prim?_of_boxed {classes : ObjectId → Option ClassId} {p : Prim}
    (hv : r.HasTy classes (.boxed p) v) (hn : v ≠ .null) : v.prim? = some p :=
  Or.resolve_left hv hn

/-- A value that is not null is converted, one case for each way to convert. -/
theorem settles_conversion (hr : r.FactoriesConform update fuel)
    (h : conversion? r.model s t = some ops) (ha : r.model.isAssignable s t = false)
    (hv : r.HasTy m.world.classOf s v) (hn : v ≠ .null) :
    Settles r s t m v σ (runOps r update fuel frame ops { m with stack := v :: σ }) := by
  have hsettles {ops : List Op} {v' : Value} (hg : Gives r update fuel frame m ops v (.ok v'))
      (ht : r.HasTy m.world.classOf t v') :
      Settles r s t m v σ (runOps r update fuel frame ops { m with stack := v :: σ }) :=
    settles_gives hg ha hn (fun _ h ↦ Except.ok.inj h ▸ ht) fun _ h ↦ nomatch h
  unfold conversion? at h
  split at h
  · cases h
  · cases h
  · cases h
  · cases h
    exact hsettles gives_toStr (.inr ⟨_, rfl⟩)
  · next p =>
    cases h
    obtain ⟨text, rfl⟩ := eq_str hv hn
    exact settles_gives (gives_parse p text) ha hn (fun _ ↦ Prim.prim?_of_read) fun e he ↦
      ⟨text, rfl, .inl ⟨p, rfl, Prim.read_error he⟩⟩
  · next p =>
    cases h
    obtain ⟨text, rfl⟩ := eq_str hv hn
    exact settles_gives (gives_parseBoxed p text) ha hn (fun _ h ↦ .inr (Prim.prim?_of_read h)) fun e he ↦
      ⟨text, rfl, .inl ⟨p, rfl, Prim.read_error he⟩⟩
  · next c =>
    obtain ⟨text, rfl⟩ := eq_str hv hn
    split at h
    · next hc =>
      cases h
      exact settles_gives (gives_enumValueOf c text) ha hn (fun _ ↦ hasTy_enumValueOf hc) fun e he ↦
        ⟨text, rfl, .inr ⟨c, rfl, enumValueOf_error hc he⟩⟩
    · obtain ⟨f, hf, rfl⟩ := Option.map_eq_some_iff.mp h
      exact settles_factory hr hf ha
  · obtain ⟨v', hg, ht⟩ := gives_cast h hv
    exact hsettles hg ht
  · obtain ⟨ops', hops, rfl⟩ := Option.map_eq_some_iff.mp h
    obtain ⟨v', hg, ht⟩ := gives_cast hops (prim?_of_boxed hv hn)
    exact hsettles ((gives_unbox _ hn).thenOk hg) ht
  · obtain ⟨ops', hops, rfl⟩ := Option.map_eq_some_iff.mp h
    obtain ⟨v', hg, ht⟩ := gives_cast hops hv
    exact hsettles (hg.thenOk (gives_box _)) (.inr ht)
  · obtain ⟨ops', hops, rfl⟩ := Option.map_eq_some_iff.mp h
    obtain ⟨v', hg, ht⟩ := gives_cast hops (prim?_of_boxed hv hn)
    exact hsettles (((gives_unbox _ hn).thenOk hg).thenOk (gives_box _)) (.inr ht)
  · split at h
    · next hbox =>
      cases h
      exact hsettles (gives_box _) (Registry.HasTy.assign hbox (.inr hv))
    · cases h
  · cases h

/-- A value that does not need to be converted stays, and null turns into the default. -/
theorem settles_kept (ha : r.model.isAssignable s t) (hv : r.HasTy m.world.classOf s v) :
    Settles r s t m v σ ⟨[], .ok (), { m with stack := v :: σ }⟩ := by
  have ht := hv.assign ha
  refine .inl ⟨v, rfl, rfl, ht, fun _ ↦ rfl, fun hn ↦ ?_, .inl rfl⟩
  subst hn
  cases t with
  | prim p => cases ht
  | _ => rfl

theorem settles_default {ops : List Op} (hd : defaultValue? t = some ops)
    (ha : r.model.isAssignable s t = false) :
    Settles r s t m .null σ (runOps r update fuel frame ops { m with stack := σ }) := by
  rw [pushes_default hd _]
  exact .inl ⟨t.defaultValue, rfl, rfl, hasTy_default hd _, fun h ↦ absurd h (by simp [ha]),
    fun _ ↦ rfl, .inl rfl⟩

theorem run_nullGuard (layout : Option FlagLayout) (convert default : Fragment) :
    (Fragment.nullGuard convert default).run r update fuel frame layout { m with stack := v :: σ } =
      if v.isNull then default.run r update fuel frame layout { m with stack := σ }
      else convert.run r update fuel frame layout { m with stack := v :: σ } := by
  rw [Fragment.run, andThen_ok (runOps_cons (does_dup rfl) []), branchOn_jumpIfNull rfl,
    andThen_ok (runOps_cons (does_pop rfl) [])]

/-- The code of a coercion does what it is for, or cannot. -/
theorem settles_run {c : Fragment} (hr : r.FactoriesConform update fuel)
    (hc : coerce? r.model s t = some c) (hv : r.HasTy m.world.classOf s v) :
    Settles r s t m v σ (c.run r update fuel frame none { m with stack := v :: σ }) := by
  unfold coerce? at hc
  split at hc
  · next ha =>
    cases hc
    exact settles_kept ha hv
  next ha =>
  rw [Bool.not_eq_true] at ha
  split at hc
  · next hs =>
    obtain ⟨ops, hd, rfl⟩ := Option.map_eq_some_iff.mp hc
    obtain rfl : v = .null := by rwa [hs] at hv
    show Settles r s t m .null σ (runOps r update fuel frame (.pop :: ops) _)
    rw [runOps_cons (does_pop rfl)]
    exact settles_default hd ha
  split at hc
  · cases hc
  next convert hconvert =>
  split at hc
  · obtain ⟨ops, hd, rfl⟩ := Option.map_eq_some_iff.mp hc
    rw [run_nullGuard]
    by_cases hn : v = .null
    · subst hn
      exact settles_default hd ha
    · rw [Value.isNull_eq_false hn]
      exact settles_conversion hr hconvert ha hv hn
  · next hs =>
    cases hc
    -- only references can be null, except for what a method of no result leaves
    refine settles_conversion hr hconvert ha hv ?_
    rintro rfl
    cases s with
    | void => simp [conversion?] at hconvert
    | prim p => cases hv
    | _ => exact hs rfl

end Coercion

open Coercion in
/-- The code of a coercion takes a value of the one type off any stack and puts one of the other type
in its place. A value that needs no conversion stays, null turns into the default without fail, and
any other fails only if its text spells nothing of the type, or with the method that reads the
text. -/
theorem coercion_replaces {r : Registry} {update : Updater} {fuel : Nat} {frame : Frame} {s t : Ty}
    {c : Fragment} {m : Machine} {v : Value} {σ : List Value} (hr : r.FactoriesConform update fuel)
    (hc : coerce? r.model s t = some c) (hm : m.stack = v :: σ) (hv : r.HasTy m.world.classOf s v) :
    ∃ o, c.Performs r update fuel frame m o ∧
      ((∃ v', Replaces r s t m v σ o v') ∨ ∃ e, Refuses r s t v o e) := by
  refine ⟨_, Fragment.performs_run (isPlain_coerce hc), ?_⟩
  have hstack : m = { m with stack := v :: σ } := by rw [← hm]
  rw [hstack]
  exact settles_run hr hc hv

namespace Sample

/-- A class whose values are made from text, a new one each time. -/
def minting : Registry where
  classes := #[{ name := "Coin", superclass := none }]
  methods := #[⟨⟨⟨0⟩, .class ⟨0⟩, "valueOf", [.str], .class ⟨0⟩, { accessible := true, static := true }⟩,
    fun _ ↦ .make ⟨0⟩ [] fun o ↦ .done (.object o), []⟩]

theorem factoriesConform_minting (update : Updater) (fuel : Nat) :
    minting.FactoriesConform update fuel := by
  intro t f text w v w' hf h
  obtain ⟨⟨d, hd, rfl⟩, -⟩ := Registry.mem_staticMethods (List.mem_of_find?_eq_some hf)
  obtain rfl := List.mem_singleton.mp (Array.mem_toList_iff.mpr hd)
  rcases fuel with _ | _ | fuel
  · cases h
  · cases h
  · cases h
    refine .inr (.inl ⟨_, ⟨0⟩, rfl, ?_, by decide⟩)
    simp [World.classOf, World.object?, World.nameObject]

/-- The code that makes a coin of a string. -/
def mint : Fragment := .nullGuard (.ops [.invokeStatic ⟨0⟩ 1]) (.ops [.pushNull])

/-- The routine that makes a coin of the string on top. -/
def mintRoutine : Routine where
  ops := #[.dup, .jumpIfNull ⟨0⟩, .invokeStatic ⟨0⟩ 1, .jump ⟨1⟩, .pop, .pushNull, .return]
  positions := #[4, 6]

def minter : Machine where
  world := {}
  stack := [.str "1", .int 7]

end Sample

open Sample in
theorem coercion_replaces_minted :
    ∃ o, Reaches minting (fun _ _ ↦ pure ()) 2 {} mintRoutine 0 minter o 6 ∧
      ((∃ v, Coercion.Replaces minting .str (.class ⟨0⟩) minter (.str "1") [.int 7] o v) ∨
        ∃ e, Coercion.Refuses minting .str (.class ⟨0⟩) (.str "1") o e) := by
  have hcoerce : Coercion.coerce? minting.model .str (.class ⟨0⟩) = some mint := rfl
  have hstack : minter.stack = .str "1" :: [.int 7] := rfl
  obtain ⟨o, ho, h⟩ := coercion_replaces (factoriesConform_minting (fun _ _ ↦ pure ()) 2) hcoerce
    hstack (.inr ⟨"1", rfl⟩)
  have hcode : Assembles ((mint.emit none .empty).emit .return) mintRoutine := by
    have hpositions : ((mint.emit none .empty).emit .return).positions.map (·.getD 0) = #[4, 6] := by
      decide +kernel
    constructor
    rw [((Fragment.composable_isInert.plain mint rfl).isSealed none).finish, hpositions]
    rfl
  exact ⟨o, ho.reaches hcode (continues_emit _ _), h⟩

end LiveBinding
