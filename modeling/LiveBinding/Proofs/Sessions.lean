import LiveBinding.Host.Registry
import LiveBinding.Unit.Session
import LiveBinding.Proofs.Outcome
import Mathlib.Logic.Relation

namespace LiveBinding

namespace UnitCompiler

section

variable (c : UnitCompiler)

mutual

/-- How a call with its result and the two states around it comes about. -/
inductive Call : UnitKey → Progress → Except CompileError CompiledUnit → Progress → Prop
  | memoized {key : UnitKey} {p : Progress} {u : CompiledUnit} :
    p.done.lookup key = some u → Call key p (.ok u) p
  | cycle {key : UnitKey} {p : Progress} : p.done.lookup key = none → key ∈ p.stack →
    Call key p (.error (Problem.includeCycle (p.cycleTo key))) p
  | failed {key : UnitKey} {p q : Progress} {e : CompileError} : p.done.lookup key = none →
    key ∉ p.stack → Run key (p.push key) (.error e) q → Call key p (.error e) q.pop
  | finished {key : UnitKey} {p q : Progress} {u : CompiledUnit} : p.done.lookup key = none →
    key ∉ p.stack → Run key (p.push key) (.ok u) q → Call key p (.ok u) (q.pop.remember key u)

inductive Run : UnitKey → Progress → Except CompileError CompiledUnit → Progress → Prop
  | missing {key : UnitKey} {p : Progress} : c.load? key.location = none →
    Run key p (.error (Problem.unitNotFound key.location)) p
  | linked {key : UnitKey} {p q : Progress} {unit : MarkupUnit}
    {includes : Except CompileError (List CompiledUnit)} : c.load? key.location = some unit →
    CallAll key.encoding unit.includes p includes q → Run key p (includes.bind (c.link key unit)) q

inductive CallAll : Encoding → List String → Progress →
    Except CompileError (List CompiledUnit) → Progress → Prop
  | nil {encoding : Encoding} {p : Progress} : CallAll encoding [] p (.ok []) p
  | stop {encoding : Encoding} {location : String} {rest : List String} {p q : Progress}
    {e : CompileError} : Call ⟨location, encoding⟩ p (.error e) q →
    CallAll encoding (location :: rest) p (.error e) q
  | more {encoding : Encoding} {location : String} {rest : List String} {p q r : Progress}
    {u : CompiledUnit} {units : Except CompileError (List CompiledUnit)} :
    Call ⟨location, encoding⟩ p (.ok u) q → CallAll encoding rest q units r →
    CallAll encoding (location :: rest) p (units.map (u :: ·)) r

end

mutual

/-- What a unit is compiled to, whatever is finished before. -/
inductive Compiles : UnitKey → CompiledUnit → Prop
  | intro {key : UnitKey} {unit : MarkupUnit} {includes : List CompiledUnit} {u : CompiledUnit} :
    c.load? key.location = some unit → CompilesAll key.encoding unit.includes includes →
    c.link key unit includes = .ok u → Compiles key u

inductive CompilesAll : Encoding → List String → List CompiledUnit → Prop
  | nil {encoding : Encoding} : CompilesAll encoding [] []
  | cons {encoding : Encoding} {location : String} {rest : List String} {u : CompiledUnit}
    {us : List CompiledUnit} : Compiles ⟨location, encoding⟩ u → CompilesAll encoding rest us →
    CompilesAll encoding (location :: rest) (u :: us)

end

/-- The unit at the first location includes the second one. -/
def Includes (location next : String) : Prop :=
  ∃ unit, c.load? location = some unit ∧ next ∈ unit.includes

def Reaches : String → String → Prop := Relation.ReflTransGen c.Includes

/-- A call returns `r` and leaves the state `q`. Where it does not, it goes on forever. -/
def Returns (key : UnitKey) (p : Progress) (r : Except CompileError CompiledUnit)
    (q : Progress) : Prop :=
  ∃ depth, c.compileAs depth key p = some (r, q)

/-- The states of a session: a new one, and what calls one after the other make of it. -/
inductive Reached : Progress → Prop
  | new : Reached {}
  | call {key : UnitKey} {p q : Progress} {r : Except CompileError CompiledUnit} : Reached p →
    c.Returns key p r q → Reached q

end

variable {c : UnitCompiler} {key : UnitKey} {p q : Progress}

section

variable {compile : UnitKey → Progress → Option (Outcome CompiledUnit)}
  (hcompile : ∀ key p r q, compile key p = some (r, q) → c.Call key p r q)

include hcompile

theorem callAll_of_compileAll {encoding : Encoding} {locations : List String}
    {r : Except CompileError (List CompiledUnit)}
    (h : compileAll compile encoding locations p = some (r, q)) :
    c.CallAll encoding locations p r q := by
  induction locations generalizing p r with
  | nil =>
    cases h
    exact .nil
  | cons location rest ih =>
    obtain ⟨⟨result, middle⟩, hresult, hnext⟩ := Option.bind_eq_some_iff.mp h
    cases result with
    | error e =>
      cases hnext
      exact .stop (hcompile _ _ _ _ hresult)
    | ok u =>
      obtain ⟨⟨units, last⟩, hunits, hlast⟩ := Option.bind_eq_some_iff.mp hnext
      cases hlast
      exact .more (hcompile _ _ _ _ hresult) (ih hunits)

theorem run_of_run {r : Except CompileError CompiledUnit}
    (h : c.run compile key p = some (r, q)) : c.Run key p r q := by
  unfold run at h
  split at h
  · next hload =>
    cases h
    exact .missing hload
  · next unit hload =>
    obtain ⟨⟨includes, middle⟩, hincludes, hnext⟩ := Option.bind_eq_some_iff.mp h
    cases hnext
    exact .linked hload (callAll_of_compileAll hcompile hincludes)

end

theorem call_of_compileAs {depth : Nat} {r : Except CompileError CompiledUnit}
    (h : c.compileAs depth key p = some (r, q)) : c.Call key p r q := by
  induction depth generalizing key p r q with
  | zero => cases h
  | succ depth ih =>
    unfold compileAs at h
    split at h
    · next u hlookup =>
      cases h
      exact .memoized hlookup
    · next hlookup =>
      split at h
      · next hstack =>
        cases h
        exact .cycle hlookup hstack
      · next hstack =>
        obtain ⟨⟨result, middle⟩, hresult, hnext⟩ := Option.bind_eq_some_iff.mp h
        have hrun := run_of_run (fun _ _ _ _ ↦ ih) hresult
        cases result with
        | error e =>
          cases hnext
          exact .failed hlookup hstack hrun
        | ok u =>
          cases hnext
          exact .finished hlookup hstack hrun

mutual

/-- A call that comes about is the outcome at every depth that is large enough. -/
theorem Call.compileAs : ∀ {key : UnitKey} {p q : Progress} {r : Except CompileError CompiledUnit},
    c.Call key p r q → ∃ least, ∀ depth, least < depth → c.compileAs depth key p = some (r, q)
  | _, _, _, _, .memoized hlookup => ⟨0, fun
    | depth + 1, _ => by rw [UnitCompiler.compileAs, hlookup]⟩
  | _, _, _, _, .cycle hlookup hstack => ⟨0, fun
    | depth + 1, _ => by
      rw [UnitCompiler.compileAs, hlookup]
      exact if_pos hstack⟩
  | _, _, _, _, .failed hlookup hstack h => by
    obtain ⟨least, hleast⟩ := h.run
    refine ⟨least + 1, fun depth hdepth ↦ ?_⟩
    obtain ⟨depth, rfl⟩ : ∃ n, depth = n + 1 := ⟨depth - 1, by omega⟩
    rw [UnitCompiler.compileAs, hlookup]
    simp only [if_neg hstack, hleast depth (by omega)]
    rfl
  | _, _, _, _, .finished hlookup hstack h => by
    obtain ⟨least, hleast⟩ := h.run
    refine ⟨least + 1, fun depth hdepth ↦ ?_⟩
    obtain ⟨depth, rfl⟩ : ∃ n, depth = n + 1 := ⟨depth - 1, by omega⟩
    rw [UnitCompiler.compileAs, hlookup]
    simp only [if_neg hstack, hleast depth (by omega)]
    rfl

theorem Run.run : ∀ {key : UnitKey} {p q : Progress} {r : Except CompileError CompiledUnit},
    c.Run key p r q →
    ∃ least, ∀ depth, least < depth → c.run (c.compileAs depth) key p = some (r, q)
  | _, _, _, _, .missing hload => ⟨0, fun depth _ ↦ by rw [UnitCompiler.run, hload]⟩
  | _, _, _, _, .linked hload h => by
    obtain ⟨least, hleast⟩ := h.compileAll
    refine ⟨least, fun depth hdepth ↦ ?_⟩
    rw [UnitCompiler.run, hload]
    simp only [hleast depth hdepth]
    rfl

theorem CallAll.compileAll : ∀ {encoding : Encoding} {locations : List String} {p q : Progress}
    {r : Except CompileError (List CompiledUnit)}, c.CallAll encoding locations p r q →
    ∃ least, ∀ depth, least < depth →
      UnitCompiler.compileAll (c.compileAs depth) encoding locations p = some (r, q)
  | _, _, _, _, _, .nil => ⟨0, fun _ _ ↦ rfl⟩
  | _, _, _, _, _, .stop h => by
    obtain ⟨least, hleast⟩ := h.compileAs
    refine ⟨least, fun depth hdepth ↦ ?_⟩
    rw [UnitCompiler.compileAll, hleast depth hdepth]
    rfl
  | _, _, _, _, _, .more h hrest => by
    obtain ⟨least, hleast⟩ := h.compileAs
    obtain ⟨least', hleast'⟩ := hrest.compileAll
    refine ⟨max least least', fun depth hdepth ↦ ?_⟩
    have hfirst := hleast depth (by omega)
    have hsecond := hleast' depth (by omega)
    simp only [UnitCompiler.compileAll, hfirst, hsecond, Option.bind_eq_bind, Option.bind_some]

end

theorem returns_iff {r : Except CompileError CompiledUnit} :
    c.Returns key p r q ↔ c.Call key p r q := by
  constructor
  · rintro ⟨depth, h⟩
    exact call_of_compileAs h
  · intro h
    obtain ⟨least, hleast⟩ := h.compileAs
    exact ⟨least + 1, hleast _ (Nat.lt_succ_self least)⟩

/-- Calls cannot come to different ends. -/
theorem Call.unique {q' : Progress} {r r' : Except CompileError CompiledUnit}
    (h : c.Call key p r q) (h' : c.Call key p r' q') : r = r' ∧ q = q' := by
  obtain ⟨least, hleast⟩ := h.compileAs
  obtain ⟨least', hleast'⟩ := h'.compileAs
  have heq := (hleast (max least least' + 1) (by omega)).symm.trans (hleast' _ (by omega))
  simpa using heq

theorem Run.of_link {unit : MarkupUnit} {includes : List CompiledUnit} {u : CompiledUnit}
    (hload : c.load? key.location = some unit)
    (hall : c.CallAll key.encoding unit.includes p (.ok includes) q)
    (hlink : c.link key unit includes = .ok u) : c.Run key p (.ok u) q := by
  have hrun := Run.linked hload hall
  rwa [show (Except.ok includes).bind (c.link key unit) = .ok u from hlink] at hrun

mutual

theorem Compiles.unique : ∀ {key : UnitKey} {u v : CompiledUnit},
    c.Compiles key u → c.Compiles key v → u = v
  | _, _, _, .intro hload hall hlink, .intro hload' hall' hlink' => by
    cases hload.symm.trans hload'
    cases hall.unique hall'
    cases hlink.symm.trans hlink'
    rfl

theorem CompilesAll.unique : ∀ {encoding : Encoding} {locations : List String}
    {us vs : List CompiledUnit}, c.CompilesAll encoding locations us →
    c.CompilesAll encoding locations vs → us = vs
  | _, _, _, _, .nil, .nil => rfl
  | _, _, _, _, .cons h hrest, .cons h' hrest' => by rw [h.unique h', hrest.unique hrest']

end

theorem CompilesAll.exists_of_mem {encoding : Encoding} {location : String} :
    ∀ {locations : List String} {us : List CompiledUnit}, c.CompilesAll encoding locations us →
      location ∈ locations → ∃ u, c.Compiles ⟨location, encoding⟩ u
  | _, _, .cons h hrest, hmem => by
    obtain rfl | hmem := List.mem_cons.mp hmem
    · exact ⟨_, h⟩
    · exact hrest.exists_of_mem hmem

theorem Compiles.includes {u : CompiledUnit} {next : String} (h : c.Compiles key u)
    (hnext : c.Includes key.location next) : ∃ v, c.Compiles ⟨next, key.encoding⟩ v := by
  obtain ⟨unit, hunit, hmem⟩ := hnext
  cases h with
  | intro hload hall _ =>
    cases hload.symm.trans hunit
    exact hall.exists_of_mem hmem

mutual

theorem Compiles.acc : ∀ {key : UnitKey} {u : CompiledUnit}, c.Compiles key u →
    Acc (Function.swap c.Includes) key.location
  | _, _, .intro hload hall _ => by
    have hincludes := hall.acc
    constructor
    rintro next ⟨unit, hunit, hmem⟩
    cases hload.symm.trans hunit
    exact hincludes next hmem

theorem CompilesAll.acc : ∀ {encoding : Encoding} {locations : List String}
    {us : List CompiledUnit}, c.CompilesAll encoding locations us →
    ∀ location ∈ locations, Acc (Function.swap c.Includes) location
  | _, _, _, .cons h hrest, location, hmem => by
    have hfirst := h.acc
    obtain rfl | hmem := List.mem_cons.mp hmem
    · exact hfirst
    · exact hrest.acc location hmem

end

theorem not_transGen_of_acc {location : String}
    (h : Acc (Function.swap c.Includes) location) :
    ¬ Relation.TransGen c.Includes location location := by
  induction h with
  | intro location _ ih =>
    intro hloop
    obtain ⟨next, hnext, hback⟩ := Relation.TransGen.head'_iff.mp hloop
    exact ih next hnext (.tail' hback hnext)

/-- A unit that includes itself, at whatever distance, does not compile. -/
theorem Compiles.not_loop {u : CompiledUnit} (h : c.Compiles key u) :
    ¬ Relation.TransGen c.Includes key.location key.location := not_transGen_of_acc h.acc

theorem Compiles.reach {u : CompiledUnit} {location : String} (h : c.Compiles key u)
    (hreach : c.Reaches key.location location) : ∃ v, c.Compiles ⟨location, key.encoding⟩ v := by
  induction hreach with
  | refl => exact ⟨u, h⟩
  | tail _ hnext ih =>
    obtain ⟨v, hv⟩ := ih
    exact hv.includes hnext

/-- The state `q` has the same units waiting as `p` and has still all that was finished in `p`. -/
structure Grows (p q : Progress) : Prop where
  stack : q.stack = p.stack
  done : ∀ key u, p.done.lookup key = some u → q.done.lookup key = some u

theorem Grows.refl (p : Progress) : Grows p p := ⟨rfl, fun _ _ h ↦ h⟩

theorem Grows.trans {r : Progress} (h : Grows p q) (h' : Grows q r) : Grows p r :=
  ⟨h'.stack.trans h.stack, fun key u hu ↦ h'.done key u (h.done key u hu)⟩

theorem Grows.pop (h : Grows (p.push key) q) : Grows p q.pop where
  stack := by simp [Progress.pop, h.stack, Progress.push]
  done := h.done

theorem lookup_remember_self (p : Progress) (key : UnitKey) (u : CompiledUnit) :
    (p.remember key u).done.lookup key = some u := by
  simp [Progress.remember]

theorem lookup_remember_of_ne {key' : UnitKey} (p : Progress) (u : CompiledUnit)
    (h : key' ≠ key) : (p.remember key u).done.lookup key' = p.done.lookup key' := by
  simp [Progress.remember, List.lookup_cons, beq_false_of_ne h]

mutual

theorem Call.grows : ∀ {key : UnitKey} {p q : Progress} {r : Except CompileError CompiledUnit},
    c.Call key p r q → Grows p q
  | _, p, _, _, .memoized _ => .refl p
  | _, p, _, _, .cycle _ _ => .refl p
  | _, _, _, _, .failed _ _ h => h.grows.pop
  | key, p, _, _, .finished (q := q) (u := u) hlookup _ h => by
    have hpop := h.grows.pop
    refine ⟨hpop.stack, fun key' v hv ↦ ?_⟩
    have hne : key' ≠ key := by
      rintro rfl
      rw [hlookup] at hv
      cases hv
    rw [lookup_remember_of_ne _ _ hne]
    exact hpop.done key' v hv

theorem Run.grows : ∀ {key : UnitKey} {p q : Progress} {r : Except CompileError CompiledUnit},
    c.Run key p r q → Grows p q
  | _, p, _, _, .missing _ => .refl p
  | _, _, _, _, .linked _ h => h.grows

theorem CallAll.grows : ∀ {encoding : Encoding} {locations : List String} {p q : Progress}
    {r : Except CompileError (List CompiledUnit)}, c.CallAll encoding locations p r q → Grows p q
  | _, _, p, _, _, .nil => .refl p
  | _, _, _, _, _, .stop h => h.grows
  | _, _, _, _, _, .more h hrest => h.grows.trans hrest.grows

end

/-- What is finished is right, with all that it includes, and nothing that waits is finished. -/
structure Sound (c : UnitCompiler) (p : Progress) : Prop where
  compiles : ∀ key u, p.done.lookup key = some u → c.Compiles key u
  closed : ∀ key u next, p.done.lookup key = some u → c.Includes key.location next →
    ∃ v, p.done.lookup ⟨next, key.encoding⟩ = some v
  waiting : ∀ key ∈ p.stack, p.done.lookup key = none

theorem Sound.new : c.Sound {} := ⟨nofun, nofun, nofun⟩

theorem Sound.push (h : c.Sound p) (hkey : p.done.lookup key = none) : c.Sound (p.push key) where
  compiles := h.compiles
  closed := h.closed
  waiting := by
    intro key' hmem
    obtain hmem | hmem := List.mem_append.mp hmem
    · exact h.waiting key' hmem
    · cases List.mem_singleton.mp hmem
      exact hkey

theorem Sound.pop (h : c.Sound p) : c.Sound p.pop where
  compiles := h.compiles
  closed := h.closed
  waiting key hmem := h.waiting key (List.dropLast_subset _ hmem)

theorem Sound.remember {u : CompiledUnit} (h : c.Sound p) (hu : c.Compiles key u)
    (hclosed : ∀ next, c.Includes key.location next →
      ∃ v, p.done.lookup ⟨next, key.encoding⟩ = some v)
    (hkey : key ∉ p.stack) : c.Sound (p.remember key u) where
  compiles := by
    intro key' v hv
    by_cases heq : key' = key
    · subst heq
      rw [lookup_remember_self] at hv
      cases hv
      exact hu
    · rw [lookup_remember_of_ne _ _ heq] at hv
      exact h.compiles key' v hv
  closed := by
    intro key' v next hv hnext
    have hfound : ∃ w, p.done.lookup ⟨next, key'.encoding⟩ = some w := by
      by_cases heq : key' = key
      · exact heq ▸ hclosed next (heq ▸ hnext)
      · rw [lookup_remember_of_ne _ _ heq] at hv
        exact h.closed key' v next hv hnext
    by_cases heq : (⟨next, key'.encoding⟩ : UnitKey) = key
    · exact ⟨u, heq ▸ lookup_remember_self p key u⟩
    · rwa [lookup_remember_of_ne _ _ heq]
  waiting := by
    intro key' hmem
    have hne : key' ≠ key := fun heq ↦ hkey (heq ▸ hmem)
    rw [lookup_remember_of_ne _ _ hne]
    exact h.waiting key' hmem

/-- The units are what is finished for the locations. -/
abbrev Finished (p : Progress) (encoding : Encoding) : List String → List CompiledUnit → Prop :=
  List.Forall₂ fun location u ↦ p.done.lookup ⟨location, encoding⟩ = some u

theorem Sound.compilesAll {encoding : Encoding} {locations : List String}
    {us : List CompiledUnit} (h : c.Sound p) (hus : Finished p encoding locations us) :
    c.CompilesAll encoding locations us := by
  induction hus with
  | nil => exact .nil
  | cons hu _ ih => exact .cons (h.compiles _ _ hu) ih

mutual

theorem Call.sound : ∀ {key : UnitKey} {p q : Progress} {r : Except CompileError CompiledUnit},
    c.Call key p r q → c.Sound p → c.Sound q ∧ ∀ u, r = .ok u → q.done.lookup key = some u
  | _, _, _, _, .memoized hlookup, hp => by
    refine ⟨hp, ?_⟩
    rintro u ⟨⟩
    exact hlookup
  | _, _, _, _, .cycle _ _, hp => ⟨hp, nofun⟩
  | _, _, _, _, .failed hlookup _ h, hp => ⟨(h.sound (hp.push hlookup)).1.pop, nofun⟩
  | key, p, _, _, .finished (q := q) (u := u) hlookup hstack h, hp => by
    obtain ⟨hq, hok⟩ := h.sound (hp.push hlookup)
    obtain ⟨unit, includes, hload, hincludes, hlink⟩ := hok u rfl
    have hpopped : q.pop.stack = p.stack := h.grows.pop.stack
    refine ⟨hq.pop.remember (.intro hload (hq.compilesAll hincludes) hlink) ?_ ?_, ?_⟩
    · rintro next ⟨unit', hunit', hmem⟩
      cases hload.symm.trans hunit'
      obtain ⟨v, -, hv⟩ := exists_of_mem_right hincludes.flip hmem
      exact ⟨v, hv⟩
    · rwa [hpopped]
    · rintro v ⟨⟩
      exact lookup_remember_self ..

theorem Run.sound : ∀ {key : UnitKey} {p q : Progress} {r : Except CompileError CompiledUnit},
    c.Run key p r q → c.Sound p → c.Sound q ∧ ∀ u, r = .ok u → ∃ unit includes,
      c.load? key.location = some unit ∧ Finished q key.encoding unit.includes includes ∧
        c.link key unit includes = .ok u
  | _, _, _, _, .missing _, hp => ⟨hp, nofun⟩
  | _, _, _, _, .linked hload h, hp => by
    obtain ⟨hq, hok⟩ := h.sound hp
    refine ⟨hq, fun u hu ↦ ?_⟩
    obtain ⟨includes, hincludes, hlink⟩ := except_bind_ok hu
    exact ⟨_, includes, hload, hok includes hincludes, hlink⟩

theorem CallAll.sound : ∀ {encoding : Encoding} {locations : List String} {p q : Progress}
    {r : Except CompileError (List CompiledUnit)}, c.CallAll encoding locations p r q →
    c.Sound p → c.Sound q ∧ ∀ us, r = .ok us → Finished q encoding locations us
  | _, _, _, _, _, .nil, hp => by
    refine ⟨hp, ?_⟩
    rintro us ⟨⟩
    exact .nil
  | _, _, _, _, _, .stop h, hp => ⟨(h.sound hp).1, nofun⟩
  | _, _, _, _, _, .more h hrest, hp => by
    obtain ⟨hq, hu⟩ := h.sound hp
    obtain ⟨hr, hus⟩ := hrest.sound hq
    refine ⟨hr, fun us' hus' ↦ ?_⟩
    obtain ⟨us, hok, rfl⟩ := map_eq_ok hus'
    exact .cons (hrest.grows.done _ _ (hu _ rfl)) (hus us hok)

end

theorem Sound.lookup_of_reaches {u : CompiledUnit} {location : String} (h : c.Sound p)
    (hu : p.done.lookup key = some u) (hreach : c.Reaches key.location location) :
    ∃ v, p.done.lookup ⟨location, key.encoding⟩ = some v := by
  induction hreach with
  | refl => exact ⟨u, hu⟩
  | @tail middle next _ hnext ih =>
    obtain ⟨v, hv⟩ := ih
    exact h.closed ⟨middle, key.encoding⟩ v next hv hnext

/-- No unit that waits is needed for the unit at the location. -/
def Free (c : UnitCompiler) (p : Progress) (encoding : Encoding) (location : String) : Prop :=
  ∀ key ∈ p.stack, key.encoding = encoding → ¬ c.Reaches location key.location

theorem Sound.free {u : CompiledUnit} (h : c.Sound p) (hu : p.done.lookup key = some u) :
    c.Free p key.encoding key.location := by
  rintro ⟨location, encoding⟩ hmem rfl hreach
  obtain ⟨v, hv⟩ := h.lookup_of_reaches hu hreach
  cases (h.waiting _ hmem).symm.trans hv

theorem Free.congr {encoding : Encoding} {location : String} (h : c.Free p encoding location)
    (hstack : q.stack = p.stack) : c.Free q encoding location :=
  fun key hmem ↦ h key (hstack ▸ hmem)

theorem Free.push {next : String} (h : c.Free p key.encoding key.location)
    (hnext : c.Includes key.location next)
    (hloop : ¬ Relation.TransGen c.Includes key.location key.location) :
    c.Free (p.push key) key.encoding next := by
  intro key' hmem hencoding hreach
  obtain hmem | hmem := List.mem_append.mp hmem
  · exact h key' hmem hencoding (.head hnext hreach)
  · cases List.mem_singleton.mp hmem
    exact hloop (.head' hnext hreach)

mutual

/-- A unit that compiles does so from any sound state in which nothing waits for it. -/
theorem Compiles.call : ∀ {key : UnitKey} {u : CompiledUnit} {p : Progress}, c.Compiles key u →
    c.Sound p → c.Free p key.encoding key.location → ∃ q, c.Call key p (.ok u) q
  | key, u, p, .intro hload hall hlink, hp, hfree => by
    have hu : c.Compiles key u := .intro hload hall hlink
    cases hlookup : p.done.lookup key with
    | some v =>
      cases hu.unique (hp.compiles key v hlookup)
      exact ⟨p, .memoized hlookup⟩
    | none =>
      have hstack : key ∉ p.stack := fun hmem ↦ hfree key hmem rfl .refl
      obtain ⟨q, hq⟩ := hall.callAll (hp.push hlookup) fun next hmem ↦
        hfree.push ⟨_, hload, hmem⟩ hu.not_loop
      exact ⟨_, .finished hlookup hstack (.of_link hload hq hlink)⟩

theorem CompilesAll.callAll : ∀ {encoding : Encoding} {locations : List String}
    {us : List CompiledUnit} {p : Progress}, c.CompilesAll encoding locations us → c.Sound p →
    (∀ location ∈ locations, c.Free p encoding location) →
    ∃ q, c.CallAll encoding locations p (.ok us) q
  | _, _, _, p, .nil, _, _ => ⟨p, .nil⟩
  | encoding, _, _, p, .cons h hrest, hp, hfree => by
    obtain ⟨q, hq⟩ := h.call hp (hfree _ List.mem_cons_self)
    obtain ⟨r, hr⟩ := hrest.callAll (hq.sound hp).1 fun location hmem ↦
      (hfree location (List.mem_cons_of_mem _ hmem)).congr hq.grows.stack
    exact ⟨r, .more hq hr⟩

end

mutual

/-- What is finished already makes no difference to the result. -/
theorem Call.transfer : ∀ {key : UnitKey} {p q p' : Progress}
    {r : Except CompileError CompiledUnit}, c.Call key p r q → c.Sound p → c.Sound p' →
    p'.stack = p.stack → ∃ q', c.Call key p' r q'
  | key, p, _, p', _, .memoized hlookup, hp, hp', hstack =>
    (hp.compiles _ _ hlookup).call hp' ((hp.free hlookup).congr hstack)
  | key, p, _, p', _, .cycle hlookup hmem, hp, hp', hstack => by
    have hmem' : key ∈ p'.stack := hstack ▸ hmem
    have hcycle : c.Call key p' _ p' := .cycle (hp'.waiting key hmem') hmem'
    rw [Progress.cycleTo, hstack] at hcycle
    exact ⟨p', hcycle⟩
  | key, p, _, p', _, .failed hlookup hmem h, hp, hp', hstack => by
    cases hlookup' : p'.done.lookup key with
    | none =>
      obtain ⟨q', hq'⟩ := h.transfer (hp.push hlookup) (hp'.push hlookup')
        (by simp only [Progress.push, hstack])
      exact ⟨_, .failed hlookup' (hstack ▸ hmem) hq'⟩
    | some u =>
      -- a unit that is finished elsewhere cannot fail here
      obtain ⟨q', hq'⟩ := (hp'.compiles key u hlookup').call hp
        ((hp'.free hlookup').congr hstack.symm)
      cases (hq'.unique (.failed hlookup hmem h)).1
  | key, p, _, p', _, .finished hlookup hmem h, hp, hp', hstack => by
    cases hlookup' : p'.done.lookup key with
    | none =>
      obtain ⟨q', hq'⟩ := h.transfer (hp.push hlookup) (hp'.push hlookup')
        (by simp only [Progress.push, hstack])
      exact ⟨_, .finished hlookup' (hstack ▸ hmem) hq'⟩
    | some u =>
      obtain ⟨q', hq'⟩ := (hp'.compiles key u hlookup').call hp
        ((hp'.free hlookup').congr hstack.symm)
      cases (hq'.unique (.finished hlookup hmem h)).1
      exact ⟨p', .memoized hlookup'⟩

theorem Run.transfer : ∀ {key : UnitKey} {p q p' : Progress}
    {r : Except CompileError CompiledUnit}, c.Run key p r q → c.Sound p → c.Sound p' →
    p'.stack = p.stack → ∃ q', c.Run key p' r q'
  | _, _, _, p', _, .missing hload, _, _, _ => ⟨p', .missing hload⟩
  | _, _, _, _, _, .linked hload h, hp, hp', hstack => by
    obtain ⟨q', hq'⟩ := h.transfer hp hp' hstack
    exact ⟨q', .linked hload hq'⟩

theorem CallAll.transfer : ∀ {encoding : Encoding} {locations : List String} {p q p' : Progress}
    {r : Except CompileError (List CompiledUnit)}, c.CallAll encoding locations p r q →
    c.Sound p → c.Sound p' → p'.stack = p.stack → ∃ q', c.CallAll encoding locations p' r q'
  | _, _, _, _, p', _, .nil, _, _, _ => ⟨p', .nil⟩
  | _, _, _, _, _, _, .stop h, hp, hp', hstack => by
    obtain ⟨q', hq'⟩ := h.transfer hp hp' hstack
    exact ⟨q', .stop hq'⟩
  | _, _, _, _, _, _, .more h hrest, hp, hp', hstack => by
    obtain ⟨q', hq'⟩ := h.transfer hp hp' hstack
    obtain ⟨r', hr'⟩ := hrest.transfer (h.sound hp).1 (hq'.sound hp').1
      (by rw [hq'.grows.stack, hstack, h.grows.stack])
    exact ⟨r', .more hq' hr'⟩

end

theorem Reached.sound (h : c.Reached p) : c.Sound p ∧ p.stack = [] := by
  induction h with
  | new => exact ⟨.new, rfl⟩
  | call _ hcall ih =>
    obtain ⟨hp, hstack⟩ := ih
    have hcall := returns_iff.mp hcall
    exact ⟨(hcall.sound hp).1, hcall.grows.stack.trans hstack⟩

/-- Whatever a session has compiled before, the next call returns what it returns in a new session,
and goes on forever only if it does so there too. -/
theorem returns_iff_new (h : c.Reached p) (key : UnitKey)
    (r : Except CompileError CompiledUnit) :
    (∃ q, c.Returns key p r q) ↔ ∃ q, c.Returns key {} r q := by
  obtain ⟨hp, hstack⟩ := h.sound
  simp only [returns_iff]
  constructor
  · rintro ⟨q, hq⟩
    exact hq.transfer hp .new hstack.symm
  · rintro ⟨q, hq⟩
    exact hq.transfer .new hp hstack

end UnitCompiler

namespace Session.Sample

def base : MarkupUnit := { sites := [⟨"title", none⟩] }

def page : MarkupUnit := { includes := ["base"] }

def loop : MarkupUnit := { includes := ["base", "loop"] }

def session : Session where
  model := Registry.model {}
  library := ⟨[("base", base), ("page", page), ("loop", loop)]⟩

def compiler : UnitCompiler := session.compiler

/-- The unit that includes itself does not compile, but the one before it is finished then. -/
theorem exists_call_loop : ∃ e q u, compiler.Call ⟨"loop", .artifact⟩ {} (.error e) q ∧
    q.done.lookup ⟨"base", .artifact⟩ = some u := by
  obtain ⟨u, hlink⟩ : ∃ u, compiler.link ⟨"base", .artifact⟩ base [] = .ok u := ⟨_, rfl⟩
  let p := Progress.push {} ⟨"loop", .artifact⟩
  have hbase : compiler.Run ⟨"base", .artifact⟩ (p.push ⟨"base", .artifact⟩) (.ok u)
      (p.push ⟨"base", .artifact⟩) := .of_link rfl .nil hlink
  have hcall : compiler.Call ⟨"base", .artifact⟩ p (.ok u) (p.remember ⟨"base", .artifact⟩ u) :=
    .finished rfl (by decide) hbase
  let e : CompileError := Problem.includeCycle ["loop", "loop"]
  have hloop : compiler.Call ⟨"loop", .artifact⟩ (p.remember ⟨"base", .artifact⟩ u) (.error e)
      (p.remember ⟨"base", .artifact⟩ u) := .cycle rfl (List.mem_singleton_self _)
  have hall : compiler.CallAll .artifact ["base", "loop"] p ((Except.error e).map (u :: ·))
      (p.remember ⟨"base", .artifact⟩ u) := .more hcall (.stop hloop)
  have hrun : compiler.Run ⟨"loop", .artifact⟩ p
      ((Except.error e).bind (compiler.link ⟨"loop", .artifact⟩ loop))
      (p.remember ⟨"base", .artifact⟩ u) := .linked rfl hall
  exact ⟨e, _, u, .failed rfl (by decide) hrun, rfl⟩

end Session.Sample

open Session.Sample in
theorem UnitCompiler.returns_iff_new_page : ∃ p, compiler.Reached p ∧
    (p.done.lookup ⟨"base", .artifact⟩).isSome ∧
    ∀ r, (∃ q, compiler.Returns ⟨"page", .artifact⟩ p r q) ↔
      ∃ q, compiler.Returns ⟨"page", .artifact⟩ {} r q := by
  obtain ⟨e, p, u, hcall, hbase⟩ := exists_call_loop
  have hp : compiler.Reached p := .call .new (returns_iff.mpr hcall)
  exact ⟨p, hp, by rw [hbase]; rfl, returns_iff_new hp _⟩

end LiveBinding
