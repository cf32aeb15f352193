import LiveBinding.Proofs.Bookkeeping
import LiveBinding.Proofs.Conformance
import LiveBinding.Proofs.Updating

namespace LiveBinding

open Exec Fragment

def Op.isCall : Op → Bool
  | .invoke .. | .invokeStatic .. | .construct .. => true
  | _ => false

/-- Plain code that calls no methods. -/
def Fragment.isSilent : Fragment → Bool
  | ops list => list.all fun op ↦ op.isPlain && !op.isCall
  | append f g | nullGuard f g | shortCircuit _ f g => f.isSilent && g.isSilent
  | flagTest _ | flagAssign .. | observe .. | branch .. => false

theorem Fragment.isPlain_of_isSilent {f : Fragment} (h : f.isSilent) : f.isPlain := by
  induction f with
  | ops list =>
    simp only [isSilent, isPlain, List.all_eq_true, Bool.and_eq_true] at h ⊢
    exact fun op hop ↦ (h op hop).1
  | append f g ih ih' | nullGuard f g ih ih' | shortCircuit _ f g ih ih' =>
    simp only [isSilent, isPlain, Bool.and_eq_true] at h ⊢
    exact ⟨ih h.1, ih' h.2⟩
  | _ => cases h

/-- The text of a value does not depend on what the methods of the host do. -/
theorem World.text_methods (w : World) (r : Registry) (methods : Array MethodDef) (u : Value) :
    w.text { r with methods } u = w.text r u := by
  have hwithin (n : Nat) : ∀ u, w.textWithin { r with methods } n u = w.textWithin r n u := by
    induction n with
    | zero => intro u; cases u <;> rfl
    | succ n ih =>
      intro u
      cases u with
      | cell c => exact ih _
      | _ => rfl
  exact hwithin _ u

/-- Code that calls nothing does not depend on what the methods of the host do. -/
theorem Fragment.run_methods {f : Fragment} (h : f.isSilent) (r : Registry) (methods : Array MethodDef)
    (update : Updater) (fuel : Nat) (frame : Frame) (layout : Option FlagLayout) :
    f.run { r with methods } update fuel frame layout = f.run r update fuel frame layout := by
  have hop {op : Op} (hop : op.isPlain ∧ op.isCall = false) :
      runOp { r with methods } update fuel frame op = runOp r update fuel frame op := by
    have htext : textOf { r with methods } = textOf r := by
      funext v m
      simp only [textOf, Exec.bind_apply, get_apply, World.text_methods]
    cases op with
    | invoke | invokeStatic | construct => cases hop.2
    | publish | lockRelease => cases hop.1
    | concat | toStr => funext m; simp only [runOp, step, htext]; rfl
    | _ => rfl
  have hops {list : List Op} (h : list.all fun op ↦ op.isPlain && !op.isCall) :
      runOps { r with methods } update fuel frame list = runOps r update fuel frame list := by
    induction list with
    | nil => rfl
    | cons op list ih =>
      simp only [List.all_cons, Bool.and_eq_true, Bool.not_eq_true'] at h
      rw [runOps, runOps, hop h.1, ih (by simpa using h.2)]
  induction f with
  | ops list => exact hops h
  | append f g ih ih' =>
    simp only [isSilent, Bool.and_eq_true] at h
    rw [run, run, ih h.1, ih' h.2]
  | nullGuard f g ih ih' =>
    simp only [isSilent, Bool.and_eq_true] at h
    rw [run, run, ih h.1, ih' h.2]
    rfl
  | shortCircuit op f g ih ih' =>
    simp only [isSilent, Bool.and_eq_true] at h
    rw [run, run, ih h.1, ih' h.2]
    rfl
  | _ => cases h

/-- The code of a loadable pushes a value in the frame of the host, in some worlds, and does nothing
else. -/
structure Loadable.Loads (r : Registry) (frame : List Value) (W : World → Prop) (l : Loadable)
    (v : Value) : Prop where
  silent : l.load.isSilent
  pushes : ∀ w, W w → ∀ update fuel binding stack,
    l.load.run r update fuel { locals := frame, binding } none { world := w, stack } =
      ⟨[], .ok (), { world := w, stack := v :: stack }⟩

namespace World

variable {r : Registry} {answer : MethodId → List Value → Except Stop Value} {locals : List Value}
variable {captures : Array Value} {w : World}

theorem raise_yields {α : Type} (x : Except RuntimeError α) :
    Yields (fun _ ↦ True) (· ≠ .exhausted) (Stop.raise x) :=
  ⟨fun _ _ ↦ trivial, fun _ he h ↦ Stop.raise_ne_exhausted x (h ▸ he)⟩

theorem yields_map {α β : Type} {x : Except Stop α} (f : α → β)
    (h : Yields (fun _ ↦ True) (· ≠ .exhausted) x) :
    Yields (fun _ ↦ True) (· ≠ .exhausted) (f <$> x) := h.bind fun _ _ ↦ .ok trivial

/-- Instructions that call nothing come to an end. -/
theorem simple_yields (op : Op) (σ : List Value) :
    Yields (fun _ ↦ True) (· ≠ .exhausted) ((w.reading r answer locals captures).simple op σ) := by
  have hne (e : RuntimeError) : Stop.error e ≠ .exhausted := by simp
  have hreceiver (v : Value) (p : String) :
      Yields (fun _ ↦ True) (· ≠ .exhausted) (v.receiver p) := by
    cases v <;> first | exact .ok trivial | exact .error (hne _)
  have hparsed (v : Value) (operation : String) :
      Yields (fun _ ↦ True) (· ≠ .exhausted) (v.parsed operation) := by
    cases v <;> first | exact .ok trivial | exact .error (hne _)
  have hfault {α : Type} (message : String) (x : Option α) :
      Yields (fun _ ↦ True) (· ≠ .exhausted) (Stop.fault message x) := by
    cases x <;> first | exact .ok trivial | exact .error (hne _)
  unfold Reading.simple
  split <;> try first
    | exact .ok trivial
    | exact .error (hne _)
    | exact raise_yields _
    | exact yields_map _ (raise_yields _)
    | exact yields_map _ (hfault _ _)
    | exact (hparsed _ _).bind fun _ _ ↦ yields_map _ (raise_yields _)
    | exact yields_map _ (hparsed _ _)
  · refine (hreceiver _ _).bind fun o _ ↦ yields_map _ ?_
    simp only [World.reading]
    split
    · exact .ok trivial
    · exact .error (hne _)
  · refine (hreceiver _ _).bind fun o _ ↦ yields_map _ ?_
    simp only [World.reading]
    split
    · exact .ok trivial
    · exact .error (hne _)
  · refine (raise_yields _).bind fun _ _ ↦ ?_
    split
    · exact (hparsed _ _).bind fun _ _ ↦ yields_map _ (raise_yields _)
    · exact .error (hne _)
  · split
    · exact .error (hne _)
    · exact .ok trivial
  · refine (hparsed _ _).bind fun s _ ↦ ?_
    split
    · exact .ok trivial
    · exact .error (hne _)

theorem ordinary_yields {op : Op} (h : op.isCall = false) (c : Config) :
    Yields (fun _ ↦ True) (· ≠ .exhausted)
      ((w.reading r answer locals captures).ordinary op c).result := by
  have hsimple := yields_map (fun σ ↦ (⟨σ, c.store⟩ : Config))
    (@simple_yields r answer locals captures w op c.stack)
  cases op with
  | loadScratch => exact .ok trivial
  | storeScratch =>
    obtain ⟨_ | ⟨v, σ⟩, st⟩ := c
    · exact .error (by simp)
    · exact .ok trivial
  | invoke | invokeStatic | construct => cases h
  | _ => exact Effect.result_map _ _ ▸ hsimple

theorem observe_yields (property : String) (p : SavePoint) (c : Config) :
    Yields (fun _ ↦ True) (· ≠ .exhausted)
      ((w.reading r answer locals captures).observe property p c).result := by
  obtain ⟨_ | ⟨v, σ⟩, st⟩ := c
  · exact .error (by simp)
  · simp only [Reading.observe, reading, Bool.false_and, Bool.false_eq_true, if_false, Effect.of]
    cases v with
    | object o =>
      simp only [Value.receiver, bind, Except.bind]
      cases w.observable? o property with
      | some d => exact .ok trivial
      | none => exact .error (by simp)
    | _ => exact .error (by simp)

theorem den_silent {f : Fragment} (h : f.isSilent) (c : Config) :
    Yields (fun _ ↦ True) (· ≠ .exhausted)
      (f.den (w.reading r answer locals captures) c).result := by
  induction f generalizing c with
  | ops list =>
    simp only [isSilent, List.all_eq_true, Bool.and_eq_true] at h
    show Yields _ _ ((w.reading r answer locals captures).all list c).result
    induction list generalizing c with
    | nil => exact .ok trivial
    | cons op list ih =>
      refine Yields.bindEffect (P := fun _ ↦ True) ?_ fun c _ ↦
        ih c fun o ho ↦ h o (List.mem_cons_of_mem _ ho)
      exact ordinary_yields (by simpa using (h op List.mem_cons_self).2) c
  | append f g ih ih' =>
    rw [isSilent, Bool.and_eq_true] at h
    exact (ih h.1 c).bindEffect fun c _ ↦ ih' h.2 c
  | nullGuard f g ih ih' =>
    rw [isSilent, Bool.and_eq_true] at h
    obtain ⟨_ | ⟨v, σ⟩, st⟩ := c
    · exact .error nofun
    · simp only [den]
      split
      · exact ih' h.2 _
      · exact ih h.1 _
  | shortCircuit op f g ih ih' =>
    rw [isSilent, Bool.and_eq_true] at h
    refine (ih h.1 c).bindEffect fun c _ ↦ ?_
    obtain ⟨_ | ⟨v, σ⟩, st⟩ := c
    · exact .error nofun
    · refine Yields.bindEffect (x := .of _) (raise_yields v.toBool) fun b _ ↦ ?_
      split
      · exact .ok trivial
      · exact ih' h.2 _
  | _ => cases h

end World

/-- Only the stack and what the host records change. -/
structure Evaluating (w₀ : World) (m : Machine) (c : Config) : Prop where
  stack : m.stack = c.stack
  world : ∃ events, m.world = { w₀ with events }

theorem Evaluating.relates (w₀ : World) : Relates w₀ (Evaluating w₀) where
  stack h := h.stack
  alike h := by
    obtain ⟨events, hw⟩ := h.world
    rw [hw]
    exact ⟨rfl, rfl, rfl, rfl, fun _ ↦ rfl⟩
  keep h σ events := by
    obtain ⟨_, hw⟩ := h.world
    exact ⟨rfl, events, by rw [hw]⟩

namespace Loadable.Loads

variable {r : Registry} {frame : List Value} {W : World → Prop} {l : Loadable} {v : Value} {w : World}
variable {answer : MethodId → List Value → Except RuntimeError Value}

theorem isPlain (h : l.Loads r frame W v) : l.load.isPlain := isPlain_of_isSilent h.silent

theorem forall_isPlain {ls : List Loadable} {vs : List Value} (h : List.Forall₂ (Loads r frame W) ls vs) :
    ∀ l ∈ ls, l.load.isPlain := by
  induction h with
  | nil => exact fun _ h ↦ nomatch h
  | cons h _ ih => exact List.forall_mem_cons.mpr ⟨h.isPlain, ih⟩

/-- What a loadable loads is what its code means. -/
theorem turns (h : l.Loads r frame W v) (hr : r.Functional w.objects answer) (hw : W w) {k : Prop}
    (captures : Array Value) (σ : List Value) :
    l.load.Turns k (w.reading r (asked answer) frame captures) σ (· :: σ) (pure v) := by
  intro st
  have hf : (l.load.run r (updateInstance r 0) 0 { locals := frame } none
      { world := w, stack := σ }).Follows _ (Evaluating w) [] st
        (l.load.den (w.reading r (asked answer) frame captures) ⟨σ, st⟩) :=
    @follows_plain r _ _ { locals := frame } w _ captures _ _ (Evaluating.relates w)
      (hr.answers (updateInstance r 0) 0) none _ h.isPlain { world := w, stack := σ } ⟨σ, st⟩
      ⟨rfl, w.events, rfl⟩
  have hne : ∀ e, (l.load.den (w.reading r (asked answer) frame captures) ⟨σ, st⟩).result = .error e →
      e ≠ .exhausted := (World.den_silent h.silent ⟨σ, st⟩).2
  rw [h.pushes w hw] at hf
  obtain ⟨he, -⟩ | ⟨hcalls, ⟨c, hc, -, hP⟩ | ⟨e, -, he⟩⟩ := hf.ends fun he ↦ hne _ he rfl
  · cases he
  · exact .of_ok hc rfl hP.stack.symm fun _ ↦ hcalls.symm
  · cases he

end Loadable.Loads


/-- The code of a loadable comes to a value in the frame of the host, in some worlds. It may call
methods. -/
structure Loadable.Gives (r : Registry) (answer : MethodId → List Value → Except RuntimeError Value)
    (frame : List Value) (W : World → Prop) (l : Loadable) (v : Value) : Prop where
  plain : l.load.isPlain
  turns : ∀ w, W w → ∀ σ, l.load.Turns False (w.reading r (asked answer) frame #[]) σ (· :: σ) (pure v)

theorem Loadable.Loads.gives {r : Registry} {frame : List Value} {W : World → Prop} {l : Loadable}
    {v : Value} {answer : MethodId → List Value → Except RuntimeError Value}
    (h : l.Loads r frame W v) (hr : ∀ w, W w → r.Functional w.objects answer) :
    l.Gives r answer frame W v :=
  ⟨h.isPlain, fun w hw σ ↦ h.turns (hr w hw) hw #[] σ⟩

namespace Fragment

/-- Plain code does not depend on how flags are laid out. -/
theorem run_of_isPlain {r : Registry} {update : Updater} {fuel : Nat} {frame : Frame} {f : Fragment}
    (h : f.isPlain) (layout : Option FlagLayout) :
    f.run r update fuel frame layout = f.run r update fuel frame none := by
  induction f with
  | ops list => rfl
  | append f g ih ih' | nullGuard f g ih ih' | shortCircuit _ f g ih ih' =>
    rw [isPlain, Bool.and_eq_true] at h
    simp only [run, ih h.1, ih' h.2]
  | _ => cases h

end Fragment

def Instance.setCapture (s : Instance) (n : Nat) (v : Value) : Instance :=
  { s with captures := s.captures.setIfInBounds n v }

def Instance.capturing (s : Instance) (vs : List Value) : Instance :=
  { s with captures := vs.toArray }

theorem Exec.does_storeCapture {r : Registry} {update : Updater} {fuel : Nat} {frame : Frame}
    {i : InstanceId} {s : Instance} {m : Machine} {n : Nat} {v : Value} {rest : List Value}
    (hb : frame.binding = some i) (hs : m.world.instance? i = some s) (hm : m.stack = v :: rest)
    (hn : n < s.captures.size) :
    Does r update fuel frame (.storeCapture n) m
      { m with stack := rest, world := m.world.put i (s.setCapture n v) } := by
  have hs' : ({ m with stack := rest } : Machine).world.instance? i = some s := hs
  simp only [Does, runOp, step, bind_apply, pop_apply, hm, state_apply hb hs', storeAt, hn, if_true,
    pure_apply, setState_apply hb]
  rfl

/-- The captures hold the values of the loadables once these are loaded. -/
theorem Storage.run_loads {r : Registry} {update : Updater} {fuel : Nat} {frame : List Value}
    {i : InstanceId} {W : World → Prop} (hW : ∀ w s, W w → W (w.put i s)) {ls : List Loadable}
    {vs : List Value} (h : List.Forall₂ (Loadable.Loads r frame W) ls vs) {n : Nat} {w : World}
    {s : Instance} (hw : W w) (hs : w.instance? i = some s) (hn : s.captures.size = n + ls.length)
    (layout : Option FlagLayout) :
    (loads n ls).run r update fuel { locals := frame, binding := some i } layout { world := w } =
      ⟨[], .ok (), { world := w.put i (s.capturing (s.captures.toList.take n ++ vs)) }⟩ := by
  induction h generalizing n w s with
  | nil =>
    have hself : s.captures.toList.take n = s.captures.toList := List.take_of_length_le (by
      rw [Array.length_toList, hn]
      exact Nat.le_refl _)
    rw [List.append_nil, hself, Instance.capturing, Array.toArray_toList, World.put_self hs]
    rfl
  | @cons l v ls vs hl _ ih =>
    have hlt : n < s.captures.size := by
      rw [hn, List.length_cons]
      omega
    have hput : (w.put i (s.setCapture n v)).instance? i = some (s.setCapture n v) :=
      World.instance?_put hs
    have hstore : Does r update fuel { locals := frame, binding := some i } (.storeCapture n)
        { world := w, stack := [v] } _ := Exec.does_storeCapture rfl hs rfl hlt
    show ((l.load.run r update fuel _ layout).andThen (runOps r update fuel _ [.storeCapture n])).andThen
      ((loads (n + 1) ls).run r update fuel _ layout) _ = _
    rw [Block.andThen_assoc, run_of_isPlain hl.isPlain, andThen_ok (hl.pushes w hw _ _ _ []),
      andThen_ok ((runOps_cons hstore []).trans rfl), ih (hW _ _ hw) hput (by
        simp only [Instance.setCapture, Array.size_setIfInBounds, hn, List.length_cons]
        omega),
      World.put_put]
    have htake : (s.setCapture n v).captures.toList.take (n + 1) = s.captures.toList.take n ++ [v] := by
      simp [Instance.setCapture, List.take_add_one, hlt, List.take_set_of_le]
    rw [htake, List.append_assoc]
    rfl

/-- What is read of a world depends on its objects and cells only. -/
theorem World.reading_congr {w w' : World} (ho : w'.objects = w.objects) (hc : w'.cells = w.cells)
    (r : Registry) (answer : MethodId → List Value → Except Stop Value) (locals : List Value)
    (captures : Array Value) :
    w'.reading r answer locals captures = w.reading r answer locals captures := by
  have hvalue : w'.cellValue = w.cellValue := by
    funext c
    simp only [World.cellValue, World.cell?, hc]
  have htext : w'.text r = w.text r := by
    have hwithin (n : Nat) : ∀ v, w'.textWithin r n v = w.textWithin r n v := by
      induction n with
      | zero => intro v; cases v <;> simp only [World.textWithin, World.object?, ho]
      | succ n ih =>
        intro v
        cases v <;> simp only [World.textWithin, World.object?, ho, hvalue, ih]
    funext v
    rw [World.text, World.text, hc]
    exact hwithin _ v
  simp only [World.reading, htext, hvalue, World.get?, World.observable?, World.slot?, World.object?, ho]

/-- The methods that are called to load some names. -/
def Loadable.calls (rd : Reading) (ls : List Loadable) : List Call :=
  ls.flatMap fun l ↦ (l.load.den rd ⟨[], fun _ ↦ .null⟩).calls

/-- So they do if methods are called for that, unless a call runs out of steps. In a host with other
methods none may be called. -/
theorem Storage.run_gives {r : Registry} {methods : Array MethodDef} {update : Updater} {fuel : Nat}
    {frame : List Value} {i : InstanceId} {w₀ : World} {W : World → Prop}
    {answer : MethodId → List Value → Except RuntimeError Value} (hr : r.Functional w₀.objects answer)
    (hW : W w₀) {ls : List Loadable} {vs : List Value}
    (h : List.Forall₂ (Loadable.Gives r answer frame W) ls vs)
    (hcalls : methods = r.methods ∨ ∀ l ∈ ls, l.load.isSilent) {n : Nat} {m : Machine} {s : Instance}
    (ho : m.world.objects = w₀.objects) (hc : m.world.cells = w₀.cells) (hm : m.stack = [])
    (hs : m.world.instance? i = some s) (hn : s.captures.size = n + ls.length)
    (layout : Option FlagLayout) :
    let o := (loads n ls).run { r with methods } update fuel { locals := frame, binding := some i }
      layout m
    (o.result = .error .exhausted ∧ ∃ call ∈ Loadable.calls (w₀.reading r (asked answer) frame #[]) ls,
      ¬Registry.Functional.Enough r update fuel w₀.objects call.method call.args) ∨
    o.result = .ok () ∧ ∃ events, o.machine.world =
      ({ m.world with events }).put i (s.capturing (s.captures.toList.take n ++ vs)) := by
  intro o
  induction h generalizing n m s with
  | nil =>
    refine .inr ⟨rfl, m.world.events, ?_⟩
    have hself : s.captures.toList.take n = s.captures.toList := List.take_of_length_le (by
      rw [Array.length_toList, hn]
      exact Nat.le_refl _)
    rw [List.append_nil, hself, Instance.capturing, Array.toArray_toList, World.put_self hs]
    rfl
  | @cons l v ls vs hl _ ih =>
    have hlt : n < s.captures.size := by
      rw [hn, List.length_cons]
      omega
    have hreading := World.reading_congr ho hc r (asked answer) frame #[]
    have hturns := hl.turns w₀ hW [] (fun _ ↦ .null)
    obtain ⟨c, hden, hstack⟩ : ∃ c, (l.load.den (w₀.reading r (asked answer) frame #[])
        ⟨[], fun _ ↦ .null⟩).result = .ok c ∧ c.stack = [v] := by
      obtain ⟨-, ⟨c, _, hden, hv, hstack⟩ | ⟨e, -, he⟩⟩ := hturns
      · cases hv
        exact ⟨c, hden, hstack⟩
      · cases he
    have hrun : l.load.run { r with methods } update fuel { locals := frame, binding := some i } layout =
        l.load.run r update fuel { locals := frame, binding := some i } layout := by
      rcases hcalls with rfl | hsilent
      · rfl
      · exact run_methods (hsilent l List.mem_cons_self) ..
    have hf := @follows_plain r update fuel { locals := frame, binding := some i } m.world (asked answer)
      #[] _ _ (Evaluating.relates m.world) (by rw [ho]; exact hr.answers update fuel) layout _ hl.plain m
      ⟨[], fun _ ↦ .null⟩ ⟨hm, m.world.events, rfl⟩
    rw [hreading] at hf
    have hshow : o = ((l.load.run { r with methods } update fuel _ layout).andThen
        (runOps { r with methods } update fuel _ [.storeCapture n])).andThen
          ((loads (n + 1) ls).run { r with methods } update fuel _ layout) m := rfl
    rw [Block.andThen_assoc, hrun] at hshow
    obtain ⟨hx, call, hcall, hnot⟩ | ⟨-, ⟨d, hd, hok, hP⟩ | ⟨e, he, -⟩⟩ := hf.ends (by simp [hden])
    · refine .inl ⟨?_, call, List.mem_append_left _ hcall, hnot⟩
      rw [hshow]
      simp only [Block.andThen, hx]
    · rw [hden] at hd
      cases hd
      obtain ⟨hstack', events, hworld⟩ := hP
      generalize l.load.run r update fuel _ layout = load at hshow hok hstack' hworld
      have hstore : Does { r with methods } update fuel { locals := frame, binding := some i } (.storeCapture n)
          (load m).machine _ := Exec.does_storeCapture rfl (hworld ▸ hs) (hstack'.trans hstack) hlt
      have hput : (({ m.world with events }).put i (s.setCapture n v)).instance? i =
          some (s.setCapture n v) := World.instance?_put hs
      have hnext := @ih (hcalls.imp id fun hall l hl ↦ hall l (List.mem_cons_of_mem _ hl)) (n + 1) { (load m).machine with
        stack := [], world := ({ m.world with events }).put i (s.setCapture n v) }
        (s.setCapture n v) ho hc rfl hput (by
          simp only [Instance.setCapture, Array.size_setIfInBounds, hn, List.length_cons]
          omega)
      have hthen (b : Block) : (load.andThen b m).result = (b (load m).machine).result ∧
          (load.andThen b m).machine = (b (load m).machine).machine := by
        simp only [Block.andThen, hok, and_self]
      have htake : (s.setCapture n v).captures.toList.take (n + 1) = s.captures.toList.take n ++ [v] := by
        simp [Instance.setCapture, List.take_add_one, hlt, List.take_set_of_le]
      rw [hshow, (hthen _).1, (hthen _).2, andThen_ok ((runOps_cons hstore []).trans rfl), hworld]
      refine hnext.imp ?_ <| And.imp_right <| Exists.imp fun events' hworld' ↦ hworld'.trans ?_
      · rintro ⟨hx, call, hcall, hnot⟩
        exact ⟨hx, call, List.mem_append_right _ hcall, hnot⟩
      · rw [htake, List.append_assoc]
        exact World.put_put (w := { m.world with events := events' }) ..
    · rw [hden] at he
      cases he

end LiveBinding
