import LiveBinding.Proofs.Denotation
import LiveBinding.Proofs.Order
import LiveBinding.Proofs.Routines

namespace LiveBinding

/-- What can be read in a world, by code with some locals and captures. -/
def World.reading (r : Registry) (answer : MethodId → List Value → Except Stop Value)
    (locals : List Value) (captures : Array Value) (w : World) : Reading where
  registry := r
  locals := locals
  captures := captures
  text v := .ok (w.text r v)
  property o p :=
    match w.get? o p with
    | some v => .ok v
    | none => .error (.error (.noSuchMember p))
  cell o p :=
    match w.observable? o p with
    | some c => .ok c
    | none => .error (.error (.noSuchMember p))
  peek c := .ok (w.cellValue c)
  value := w.cellValue
  answer := answer

/-- Host methods write nothing but records. Where an answer is not left open they give it, unless the
steps are not enough for that. -/
def Answers (r : Registry) (update : Updater) (fuel : Nat) (objects : Array HostObject)
    (answer : MethodId → List Value → Except Stop Value)
    (enough : MethodId → List Value → Prop) : Prop :=
  ∀ m args (w : World), w.objects = objects → ∃ result events,
    invokeMethod r update fuel m args w = (result, { w with events := events }) ∧
    (answer m args ≠ .error .exhausted →
      result = answer m args ∨ result = .error .exhausted ∧ ¬enough m args)

/-- Worlds that differ in who listens and in what bindings keep. -/
structure World.Alike (w w' : World) : Prop where
  objects : w'.objects = w.objects
  frame : w'.frame = w.frame
  names : w'.names = w.names
  size : w'.cells.size = w.cells.size
  cell : ∀ c, (w'.cell? c).map ({ · with listeners := [] }) =
    (w.cell? c).map ({ · with listeners := [] })

namespace World.Alike

variable {w w' : World}

theorem cellValue (h : w.Alike w') (c : CellId) : w'.cellValue c = w.cellValue c := by
  have hc := congrArg (Option.map Cell.value) (h.cell c)
  simp only [Option.map_map] at hc
  exact congrArg (Option.getD · .null) hc

theorem get? (h : w.Alike w') (o : ObjectId) (p : String) : w'.get? o p = w.get? o p := by
  simp only [World.get?, World.slot?, World.object?, h.objects, funext h.cellValue]

theorem observable? (h : w.Alike w') (o : ObjectId) (p : String) :
    w'.observable? o p = w.observable? o p := by
  simp only [World.observable?, World.slot?, World.object?, h.objects]

theorem text (h : w.Alike w') (r : Registry) (v : Value) : w'.text r v = w.text r v := by
  have hwithin (fuel : Nat) (v : Value) : w'.textWithin r fuel v = w.textWithin r fuel v := by
    induction fuel generalizing v with
    | zero => cases v <;> simp only [World.textWithin, World.object?, h.objects]
    | succ fuel ih =>
      cases v <;> simp only [World.textWithin, World.object?, h.objects, h.cellValue, ih]
  rw [World.text, World.text, h.size]
  exact hwithin _ v

end World.Alike

namespace Exec

variable {r : Registry} {update : Updater} {fuel : Nat} {frame : Frame} {w₀ : World}
variable {answer : MethodId → List Value → Except Stop Value} {captures : Array Value}

/-- A computation does to the stack what a function does, and else nothing. -/
def Maps (x : Exec Unit) (f : List Value → Except Stop (List Value)) (m : Machine) : Prop :=
  ∃ σ, x m = match f m.stack with
    | .ok τ => (.ok (), { m with stack := τ })
    | .error e => (.error e, { m with stack := σ })

theorem Maps.of_except {α : Type} {x : Exec Unit} {f : List Value → Except Stop (List Value)}
    {m : Machine} {τ : List Value} (a : Except RuntimeError α) (g : α → Value)
    (hx : x m = (ofExcept a >>= fun v ↦ push (g v)) { m with stack := τ })
    (hf : f m.stack = (g · :: τ) <$> Stop.raise a) : Maps x f m := by
  refine ⟨τ, ?_⟩
  rw [hx, hf]
  cases a <;> rfl

theorem Maps.of_error {x : Exec Unit} {f : List Value → Except Stop (List Value)} {m : Machine}
    {τ : List Value} {e : RuntimeError} (hx : x m = (.error (.error e), { m with stack := τ }))
    (hf : f m.stack = .error (.error e)) : Maps x f m := ⟨τ, by rw [hx, hf]⟩

theorem maps_step {op : Op} (hop : op.isPlain) (hcall : ∀ m n, op ≠ .invoke m n ∧
    op ≠ .invokeStatic m n ∧ op ≠ .construct m n) {m : Machine} (hw : w₀.Alike m.world) :
    Maps (step r update fuel frame default op)
      ((w₀.reading r answer frame.locals captures).simple op) m := by
  obtain ⟨w, σ, pc, locks⟩ := m
  cases op with
  | pushNull | pushBool | pushInt | pushLong | pushFloat | pushDouble | pushChar | pushStr =>
    exact ⟨[], rfl⟩
  | box => exact ⟨[], rfl⟩
  | fault => exact ⟨σ, rfl⟩
  | dup | pop =>
    rcases σ with _ | ⟨v, σ⟩
    · exact ⟨[], rfl⟩
    · exact ⟨[], rfl⟩
  | swap | refEq =>
    rcases σ with _ | ⟨b, _ | ⟨a, σ⟩⟩
    · exact ⟨[], rfl⟩
    · exact ⟨[], rfl⟩
    · exact ⟨[], rfl⟩
  | loadLocal n =>
    refine ⟨σ, ?_⟩
    simp only [step, Reading.simple, World.reading]
    cases frame.locals[n]? <;> rfl
  | getStatic f => exact .of_except (r.staticValue f) id rfl rfl
  | arith o kind =>
    rcases σ with _ | ⟨b, _ | ⟨a, σ⟩⟩
    · exact ⟨[], rfl⟩
    · exact ⟨[], rfl⟩
    · exact .of_except (a.arith o kind b) id rfl rfl
  | cmp o kind =>
    rcases σ with _ | ⟨b, _ | ⟨a, σ⟩⟩
    · exact ⟨[], rfl⟩
    · exact ⟨[], rfl⟩
    · exact .of_except (a.compare o kind b) .bool rfl rfl
  | neg kind =>
    rcases σ with _ | ⟨a, σ⟩
    · exact ⟨[], rfl⟩
    · exact .of_except (a.negate kind) id rfl rfl
  | convert _ target =>
    rcases σ with _ | ⟨a, σ⟩
    · exact ⟨[], rfl⟩
    · exact .of_except (a.convert target) id rfl rfl
  | not =>
    rcases σ with _ | ⟨a, σ⟩
    · exact ⟨[], rfl⟩
    · exact .of_except a.toBool (fun b ↦ .bool !b) rfl rfl
  | concat =>
    rcases σ with _ | ⟨b, _ | ⟨a, σ⟩⟩
    · exact ⟨[], rfl⟩
    · exact ⟨[], rfl⟩
    · refine ⟨[], ?_⟩
      show (Except.ok (), (⟨w, .str (w.text r a ++ w.text r b) :: σ, pc, locks⟩ : Machine)) = _
      rw [hw.text, hw.text]
      rfl
  | toStr =>
    rcases σ with _ | ⟨a, σ⟩
    · exact ⟨[], rfl⟩
    · refine ⟨[], ?_⟩
      show (Except.ok (), (⟨w, .str (w.text r a) :: σ, pc, locks⟩ : Machine)) = _
      rw [hw.text]
      rfl
  | unbox kind =>
    refine ⟨σ, ?_⟩
    rcases σ with _ | ⟨a, σ⟩
    · rfl
    · cases a <;> rfl
  | getProperty p =>
    rcases σ with _ | ⟨v, σ⟩
    · exact ⟨[], rfl⟩
    · cases v with
      | object o =>
        refine ⟨σ, ?_⟩
        have hget : w.get? o p = w₀.get? o p := hw.get? o p
        simp only [step, popReceiver, bind_apply, pop_apply, get_apply, pure_apply, hget]
        simp only [Reading.simple, World.reading, Value.receiver, bind, Except.bind]
        cases w₀.get? o p <;> rfl
      | _ => exact ⟨σ, rfl⟩
  | getObservable p =>
    rcases σ with _ | ⟨v, σ⟩
    · exact ⟨[], rfl⟩
    · cases v with
      | object o =>
        refine ⟨σ, ?_⟩
        have hget : w.observable? o p = w₀.observable? o p := hw.observable? o p
        simp only [step, popReceiver, bind_apply, pop_apply, get_apply, pure_apply, hget]
        simp only [Reading.simple, World.reading, Value.receiver, bind, Except.bind]
        cases w₀.observable? o p <;> rfl
      | _ => exact ⟨σ, rfl⟩
  | observableValue =>
    rcases σ with _ | ⟨v, σ⟩
    · exact ⟨[], rfl⟩
    · cases v with
      | cell c =>
        refine ⟨[], ?_⟩
        show (Except.ok (), (⟨w, w.cellValue c :: σ, pc, locks⟩ : Machine)) = _
        rw [hw.cellValue]
        rfl
      | _ => exact ⟨σ, rfl⟩
  | charAt =>
    rcases σ with _ | ⟨i, σ⟩
    · exact ⟨[], rfl⟩
    · cases i with
      | int n =>
        rcases σ with _ | ⟨t, σ⟩
        · exact ⟨[], rfl⟩
        · cases t with
          | str s => exact .of_except (Builtin.charAt s n) (fun c ↦ .str (String.singleton c)) rfl rfl
          | _ => exact ⟨σ, rfl⟩
      | _ => exact ⟨σ, by rcases σ <;> rfl⟩
  | parseNumber kind =>
    rcases σ with _ | ⟨v, σ⟩
    · exact ⟨[], rfl⟩
    · cases v with
      | str s => exact .of_except (Value.parse s kind) id rfl rfl
      | _ => exact ⟨σ, rfl⟩
  | parseBool =>
    rcases σ with _ | ⟨v, σ⟩
    · exact ⟨[], rfl⟩
    · cases v <;> exact ⟨σ, rfl⟩
  | parseChar =>
    rcases σ with _ | ⟨v, σ⟩
    · exact ⟨[], rfl⟩
    · cases v with
      | str s =>
        refine ⟨σ, ?_⟩
        simp only [step, popText, bind_apply, pop_apply, pure_apply]
        simp only [Reading.simple, Value.parsed, bind, Except.bind]
        rcases s.toList with _ | ⟨c, _ | _⟩ <;> rfl
      | _ => exact ⟨σ, rfl⟩
  | enumValueOf c =>
    rcases σ with _ | ⟨v, σ⟩
    · exact ⟨[], rfl⟩
    · cases v with
      | str s => exact .of_except (r.enumValueOf c s) id rfl rfl
      | _ => exact ⟨σ, rfl⟩
  | invoke m n => exact absurd rfl (hcall m n).1
  | invokeStatic m n => exact absurd rfl (hcall m n).2.1
  | construct m n => exact absurd rfl (hcall m n).2.2
  | _ => cases hop

end Exec

/-- A relation between machines and configurations, which only the stack, the records of the host and
the storage of a binding matter to. -/
structure Relates (w₀ : World) (P : Machine → Config → Prop) : Prop where
  stack : ∀ {m c}, P m c → m.stack = c.stack
  alike : ∀ {m c}, P m c → w₀.Alike m.world
  keep : ∀ {m c}, P m c → ∀ σ events,
    P { m with stack := σ, world := { m.world with events := events } } ⟨σ, c.store⟩

/-- An outcome is the one of a computation that starts with a store, unless that is left open or the
steps are not enough for one of its calls. In any case only some places change. -/
structure Outcome.Follows (enough : MethodId → List Value → Prop) (P : Machine → Config → Prop)
    (W : List Loc) (st : Store) (o : Outcome) (e : Effect Config) : Prop where
  within : ∃ c, P o.machine c ∧ ∀ l ∉ W, c.store l = st l
  ends : e.result ≠ .error .exhausted →
    (o.result = .error .exhausted ∧ ∃ call ∈ e.calls, ¬enough call.method call.args) ∨
    o.calls = e.calls ∧ ((∃ c, e.result = .ok c ∧ o.result = .ok () ∧ P o.machine c) ∨
      ∃ x, e.result = .error x ∧ o.result = .error x)

namespace Outcome.Follows

variable {enough : MethodId → List Value → Prop} {P : Machine → Config → Prop} {a b : Block}
variable {m : Machine} {c : Config} {W V : List Loc} {st : Store}

theorem ok {n : Machine} (h : a m = ⟨[], .ok (), n⟩) (hc : P n c)
    (hW : ∀ l ∉ W, c.store l = st l) : (a m).Follows enough P W st (pure c) := by
  rw [h]
  exact ⟨⟨c, hc, hW⟩, fun _ ↦ .inr ⟨rfl, .inl ⟨c, rfl, rfl, hc⟩⟩⟩

theorem error {n : Machine} {e : RuntimeError} (h : a m = ⟨[], .error (.error e), n⟩)
    (hc : P n c) (hW : ∀ l ∉ W, c.store l = st l) : (a m).Follows enough P W st (.fail e) := by
  rw [h]
  exact ⟨⟨c, hc, hW⟩, fun _ ↦ .inr ⟨rfl, .inr ⟨_, rfl, rfl⟩⟩⟩

theorem mono {o : Outcome} {e : Effect Config} (h : o.Follows enough P W st e) (hW : W ⊆ V) :
    o.Follows enough P V st e := by
  obtain ⟨c, hc, hs⟩ := h.within
  exact ⟨⟨c, hc, fun l hl ↦ hs l fun hw ↦ hl (hW hw)⟩, h.ends⟩

theorem andThen {e : Effect Config} {f : Config → Effect Config}
    (h : (a m).Follows enough P W st e)
    (h' : ∀ m c, P m c → (b m).Follows enough P V c.store (f c)) :
    (a.andThen b m).Follows enough P (W ++ V) st (e >>= f) := by
  obtain ⟨c₁, hc₁, hs₁⟩ := h.within
  constructor
  · cases hr : (a m).result with
    | error x =>
      simp only [Block.andThen, hr]
      exact ⟨c₁, hc₁, fun l hl ↦ hs₁ l fun hw ↦ hl (List.mem_append_left _ hw)⟩
    | ok u =>
      obtain ⟨c₂, hc₂, hs₂⟩ := (h' _ _ hc₁).within
      simp only [Block.andThen, hr]
      refine ⟨c₂, hc₂, fun l hl ↦ ?_⟩
      rw [List.mem_append, not_or] at hl
      exact (hs₂ l hl.2).trans (hs₁ l hl.1)
  · intro hne
    cases he : e.result with
    | error x =>
      rw [Effect.bind_of_error f he] at hne ⊢
      obtain ⟨hr, hcall⟩ | ⟨hcalls, ⟨c, hc, -⟩ | ⟨y, hy, hr⟩⟩ := h.ends (by rw [he]; exact hne)
      · simp only [Block.andThen, hr]
        exact .inl ⟨trivial, hcall⟩
      · rw [he] at hc
        cases hc
      · rw [he] at hy
        cases hy
        simp only [Block.andThen, hr]
        exact .inr ⟨hcalls, .inr ⟨x, rfl, rfl⟩⟩
    | ok d =>
      rw [Effect.bind_of_ok f he] at hne ⊢
      obtain ⟨hr, call, hmem, hcall⟩ | ⟨hcalls, ⟨c, hc, hr, hP⟩ | ⟨y, hy, -⟩⟩ :=
        h.ends (by rw [he]; simp)
      · simp only [Block.andThen, hr]
        exact .inl ⟨trivial, call, List.mem_append_left _ hmem, hcall⟩
      · rw [he] at hc
        cases hc
        simp only [Block.andThen, hr]
        refine ((h' _ _ hP).ends hne).imp ?_ ?_
        · rintro ⟨hr', call, hmem, hcall⟩
          exact ⟨hr', call, List.mem_append_right _ hmem, hcall⟩
        · rintro ⟨hcalls', h'⟩
          exact ⟨by rw [hcalls, hcalls'], h'⟩
      · rw [he] at hy
        cases hy

end Outcome.Follows

namespace Exec

variable {r : Registry} {update : Updater} {fuel : Nat} {frame : Frame} {w₀ : World}
variable {answer : MethodId → List Value → Except Stop Value} {captures : Array Value}
variable {enough : MethodId → List Value → Prop} {P : Machine → Config → Prop}

section

variable (hP : Relates w₀ P) (ha : Answers r update fuel w₀.objects answer enough)
include hP

theorem follows_of_maps {op : Op} (hop : op.isPlain) (hcall : ∀ m n, op ≠ .invoke m n ∧
    op ≠ .invokeStatic m n ∧ op ≠ .construct m n) {m : Machine} {c : Config} (h : P m c) :
    (runOp r update fuel frame op m).Follows enough P [] c.store
      ((⟨·, c.store⟩) <$> .of ((w₀.reading r answer frame.locals captures).simple op c.stack)) := by
  have hmaps : Maps (step r update fuel frame default op)
      ((w₀.reading r answer frame.locals captures).simple op) m := maps_step hop hcall (hP.alike h)
  obtain ⟨σ, hs⟩ := hmaps
  have hcalls : callsOf r update fuel op m = [] := by
    cases op with
    | invoke id n => exact absurd rfl (hcall id n).1
    | invokeStatic id n => exact absurd rfl (hcall id n).2.1
    | construct id n => exact absurd rfl (hcall id n).2.2
    | _ => rfl
  have hrun : runOp r update fuel frame op m =
      ⟨[], (step r update fuel frame default op m).1, (step r update fuel frame default op m).2⟩ := by
    rw [runOp, hcalls]
    rfl
  rw [hrun, hs, hP.stack h]
  cases (w₀.reading r answer frame.locals captures).simple op c.stack with
  | ok τ =>
    have hk := hP.keep h τ m.world.events
    exact ⟨⟨_, hk, fun _ _ ↦ rfl⟩, fun _ ↦ .inr ⟨rfl, .inl ⟨⟨τ, c.store⟩, rfl, rfl, hk⟩⟩⟩
  | error e =>
    have hk := hP.keep h σ m.world.events
    exact ⟨⟨_, hk, fun _ _ ↦ rfl⟩, fun _ ↦ .inr ⟨rfl, .inr ⟨e, rfl, rfl⟩⟩⟩

include ha

theorem follows_call {b : Block} {id : MethodId} {args σ : List Value} {m : Machine} {c : Config}
    (h : P m c)
    (hb : b m =
      ⟨[⟨id, args, (lift (invokeMethod r update fuel id args) { m with stack := σ }).1⟩],
        (call r update fuel id args { m with stack := σ }).1,
        (call r update fuel id args { m with stack := σ }).2⟩) :
    (b m).Follows enough P [] c.store ((fun v ↦ ⟨v :: σ, c.store⟩) <$>
      (w₀.reading r answer frame.locals captures).call id args) := by
  obtain ⟨result, events, hinvoke, hans⟩ :=
    ha id args { m.world with held := σ ++ m.world.held } (hP.alike h).objects
  have hl : lift (invokeMethod r update fuel id args) { m with stack := σ } =
      (result, { m with stack := σ, world := { m.world with events := events } }) := by
    unfold lift Run.holding
    dsimp only
    rw [hinvoke]
  have hk := hP.keep h
  rw [hb, hl]
  have hres : ((w₀.reading r answer frame.locals captures).call id args).result = answer id args :=
    rfl
  constructor
  · cases result with
    | ok v =>
      rw [call, bind_apply, hl]
      exact ⟨_, hk (v :: σ) events, fun _ _ ↦ rfl⟩
    | error e =>
      rw [call, bind_apply, hl]
      exact ⟨_, hk σ events, fun _ _ ↦ rfl⟩
  · intro hne
    have hopen : answer id args ≠ .error .exhausted := by
      intro he
      refine hne ?_
      rw [Effect.result_map, hres, he]
      rfl
    rcases hans hopen with rfl | ⟨rfl, hnot⟩
    · right
      cases hv : answer id args with
      | ok v =>
        rw [hv] at hl hres
        rw [call, bind_apply, hl, Effect.map_of_ok _ hres]
        exact ⟨by rw [← hv]; rfl, .inl ⟨_, rfl, rfl, hk (v :: σ) events⟩⟩
      | error e =>
        rw [hv] at hl hres
        rw [call, bind_apply, hl, Effect.map_of_error _ hres]
        exact ⟨by rw [← hv]; rfl, .inr ⟨e, rfl, rfl⟩⟩
    · left
      rw [call, bind_apply, hl]
      refine ⟨rfl, ⟨id, args, answer id args⟩, ?_, hnot⟩
      rw [map_eq_pure_bind]
      cases hv : answer id args with
      | ok v => rw [Effect.bind_of_ok _ (hres.trans hv), ← hv]; exact List.mem_cons_self
      | error e => rw [Effect.bind_of_error _ (hres.trans hv), ← hv]; exact List.mem_cons_self

/-- A plain instruction does to the machine what it does to the stack. -/
theorem follows_op {op : Op} (hop : op.isPlain) {m : Machine} {c : Config} (h : P m c) :
    (runOp r update fuel frame op m).Follows enough P [] c.store
      ((w₀.reading r answer frame.locals captures).ordinary op c) := by
  have hstack := hP.stack h
  have hkeep := hP.keep h m.stack m.world.events
  cases op with
  | invoke id n =>
    show (runOp r update fuel frame (.invoke id n) m).Follows enough P [] c.store
      ((⟨·, c.store⟩) <$> Reading.op _ (.invoke id n) c.stack)
    simp only [Reading.op]
    by_cases hlen : c.stack.length < n
    · rw [if_pos hlen]
      refine .error (n := m) ?_ hkeep fun _ _ ↦ rfl
      rw [← hstack] at hlen
      simp only [runOp, callsOf, step, bind_apply, popArgs_apply, if_pos hlen,
        List.drop_eq_nil_of_le (Nat.le_of_lt hlen)]
    rw [if_neg hlen]
    cases hd : c.stack.drop n with
    | nil =>
      refine .error (n := { m with stack := [] }) ?_ (hP.keep h [] m.world.events) fun _ _ ↦ rfl
      rw [← hstack] at hlen hd
      simp only [runOp, callsOf, step, bind_apply, popArgs_apply, if_neg hlen, hd, pop_apply]
    | cons v rest =>
      dsimp only
      rw [← hstack] at hlen hd
      by_cases hnull : v.isNull
      · rw [if_pos hnull]
        refine .error (n := { m with stack := rest }) ?_ (hP.keep h rest m.world.events)
          fun _ _ ↦ rfl
        simp only [runOp, callsOf, step, bind_apply, popArgs_apply, if_neg hlen, hd, pop_apply,
          if_pos hnull]
        rfl
      · rw [if_neg hnull, Functor.map_map]
        refine follows_call hP ha h ?_
        simp only [runOp, callsOf, step, bind_apply, popArgs_apply, if_neg hlen, hd, pop_apply,
          hnull, ← hstack]
        rfl
  | invokeStatic id n | construct id n =>
    show (runOp r update fuel frame _ m).Follows enough P [] c.store
      ((⟨·, c.store⟩) <$> Reading.op _ (.invokeStatic id n) c.stack)
    simp only [Reading.op]
    by_cases hlen : c.stack.length < n
    · rw [if_pos hlen]
      refine .error (n := m) ?_ hkeep fun _ _ ↦ rfl
      rw [← hstack] at hlen
      simp only [runOp, callsOf, step, bind_apply, popArgs_apply, if_pos hlen]
    · rw [if_neg hlen, Functor.map_map]
      refine follows_call hP ha h ?_
      rw [← hstack] at hlen
      simp only [runOp, callsOf, step, bind_apply, popArgs_apply, if_neg hlen, ← hstack]
      rfl
  | loadScratch | storeScratch => cases hop
  | _ => exact follows_of_maps hP hop (by simp) h

end

end Exec

namespace Fragment

open Exec

variable {r : Registry} {update : Updater} {fuel : Nat} {frame : Frame} {w₀ : World}
variable {answer : MethodId → List Value → Except Stop Value} {captures : Array Value}
variable {enough : MethodId → List Value → Prop} {P : Machine → Config → Prop}
variable {a b : Block} {x y : Config → Effect Config} {W : List Loc}

theorem branchOn_skipJump {op : BinaryOp} {m : Machine} {v : Value} {σ : List Value}
    (hm : m.stack = v :: σ) :
    branchOn (skipJump op) a b m =
      match v.toBool with
      | .ok t => if op.skips t then a { m with stack := σ } else b { m with stack := σ }
      | .error e => ⟨[], .error (.error e), { m with stack := σ }⟩ := by
  by_cases hop : op = .and
  all_goals
    simp only [branchOn, skipJump, BinaryOp.skips, hop, if_true, if_false, condition, bind_apply,
      pop_apply, hm]
    cases v.toBool with
    | error e => rfl
    | ok t => cases t <;> rfl

theorem runOps_dup {m : Machine} {v : Value} {σ : List Value} (hm : m.stack = v :: σ) :
    runOps r update fuel frame [.dup] m = ⟨[], .ok (), { m with stack := v :: v :: σ }⟩ := by
  rw [runOps_cons (does_dup hm)]
  rfl

theorem runOps_dup_nil {m : Machine} (hm : m.stack = []) :
    runOps r update fuel frame [.dup] m = ⟨[], .error (.error .underflow), m⟩ := by
  simp only [runOps, Block.andThen, runOp, step, bind_apply, pop_apply, hm]
  rfl

theorem runOps_pop {m : Machine} {v : Value} {σ : List Value} (hm : m.stack = v :: σ) :
    runOps r update fuel frame [.pop] m = ⟨[], .ok (), { m with stack := σ }⟩ := by
  rw [runOps_cons (does_pop hm)]
  rfl

/-- Code that goes one way for `null` and another way for other values. -/
theorem nullGuard_eq {m : Machine} {v : Value} {σ : List Value} (hm : m.stack = v :: σ) :
    (runOps r update fuel frame [.dup]).andThen (branchOn .jumpIfNull
      ((runOps r update fuel frame [.pop]).andThen b) a) m =
      if v.isNull then b { m with stack := σ } else a { m with stack := v :: σ } := by
  rw [andThen_ok (runOps_dup hm), branchOn_jumpIfNull rfl]
  split
  · rw [andThen_ok (runOps_pop rfl)]
  · rfl

theorem decide_eq {op : BinaryOp} {m : Machine} {v : Value} {σ : List Value} (hm : m.stack = v :: σ) :
    decide r update fuel frame op a b m =
      match v.toBool with
      | .ok t => if op.skips t then a { m with stack := v :: σ } else b { m with stack := σ }
      | .error e => ⟨[], .error (.error e), { m with stack := v :: σ }⟩ := by
  rw [decide, andThen_ok (runOps_dup hm), branchOn_skipJump rfl]
  cases v.toBool with
  | error e => rfl
  | ok t =>
    dsimp only
    split
    · rfl
    · rw [andThen_ok (runOps_pop rfl)]

theorem decide_nil {op : BinaryOp} {m : Machine} (hm : m.stack = []) :
    decide r update fuel frame op a b m = ⟨[], .error (.error .underflow), m⟩ := by
  simp only [decide, Block.andThen, runOps_dup_nil hm]

section

variable (hP : Relates w₀ P)
include hP

theorem follows_nullGuard (ha : ∀ m c, P m c → (a m).Follows enough P W c.store (x c))
    (hb : ∀ m c, P m c → (b m).Follows enough P W c.store (y c)) {m : Machine} {σ : List Value}
    {v : Value} {st : Store} (h : P m ⟨v :: σ, st⟩) :
    ((runOps r update fuel frame [.dup]).andThen (branchOn .jumpIfNull
      ((runOps r update fuel frame [.pop]).andThen b) a) m).Follows enough P W st
      (if v.isNull then y ⟨σ, st⟩ else x ⟨v :: σ, st⟩) := by
  rw [nullGuard_eq (hP.stack h)]
  split
  · exact hb _ _ (hP.keep h σ m.world.events)
  · exact ha _ _ (hP.keep h (v :: σ) m.world.events)

theorem follows_decide {op : BinaryOp} (ha : ∀ m c, P m c → (a m).Follows enough P W c.store (x c))
    (hb : ∀ m c, P m c → (b m).Follows enough P W c.store (y c)) {m : Machine} {c : Config}
    (h : P m c) :
    (decide r update fuel frame op a b m).Follows enough P W c.store (Config.fork op x y c) := by
  have hstack := hP.stack h
  obtain ⟨_ | ⟨v, σ⟩, st⟩ := c
  · exact .error (n := m) (decide_nil hstack) h fun _ _ ↦ rfl
  rw [decide_eq hstack]
  cases hv : v.toBool with
  | error e =>
    simp only [Config.fork, hv]
    exact .error (a := fun _ ↦ _) (m := m) rfl (hP.keep h (v :: σ) m.world.events) fun _ _ ↦ rfl
  | ok t =>
    rw [Config.fork_of_toBool hv]
    dsimp only
    split
    · exact ha _ _ (hP.keep h (v :: σ) m.world.events)
    · exact hb _ _ (hP.keep h σ m.world.events)

end

variable (hP : Relates w₀ P) (hans : Answers r update fuel w₀.objects answer enough)
include hP hans

theorem follows_plainOps {list : List Op} (h : list.all Op.isPlain) {m : Machine} {c : Config}
    (hc : P m c) :
    (runOps r update fuel frame list m).Follows enough P [] c.store
      ((w₀.reading r answer frame.locals captures).all list c) := by
  induction list generalizing m c with
  | nil => exact .ok rfl hc fun _ _ ↦ rfl
  | cons op list ih =>
    rw [List.all_cons, Bool.and_eq_true] at h
    exact (follows_op hP hans h.1 hc).andThen fun _ _ hc ↦ ih h.2 hc

/-- Plain code does to the machine what its meaning says. -/
theorem follows_plain (layout : Option FlagLayout) {f : Fragment} (h : f.isPlain) {m : Machine}
    {c : Config} (hc : P m c) :
    (f.run r update fuel frame layout m).Follows enough P [] c.store
      (f.den (w₀.reading r answer frame.locals captures) c) := by
  induction f generalizing m c with
  | ops list => exact follows_plainOps hP hans h hc
  | append f g ih ih' =>
    rw [isPlain, Bool.and_eq_true] at h
    exact (ih h.1 hc).andThen fun _ _ hc ↦ ih' h.2 hc
  | nullGuard f g ih ih' =>
    rw [isPlain, Bool.and_eq_true] at h
    obtain ⟨_ | ⟨v, σ⟩, st⟩ := c
    · refine .error (n := m) ?_ hc fun _ _ ↦ rfl
      simp only [run, Block.andThen, runOps_dup_nil (hP.stack hc)]
    · exact follows_nullGuard hP (fun _ _ hc ↦ ih h.1 hc) (fun _ _ hc ↦ ih' h.2 hc) hc
  | shortCircuit op f g ih ih' =>
    rw [isPlain, Bool.and_eq_true] at h
    refine (ih h.1 hc).andThen fun _ _ hc ↦ follows_decide hP (fun _ _ hc ↦ ?_)
      (fun _ _ hc ↦ ih' h.2 hc) hc
    exact .ok rfl hc fun _ _ ↦ rfl
  | flagTest | flagAssign | observe | branch => cases h

end Fragment

end LiveBinding
