import LiveBinding.Proofs.Attributes
import LiveBinding.Proofs.Sessions
import Mathlib.Data.Set.Finite.Basic
import Mathlib.Data.List.Chain
import Mathlib.Data.Finset.Card

namespace LiveBinding

namespace UnitCompiler

/-- Each location includes the next one, the last one is the first again, and no other one comes
twice. -/
structure ClosedChain (c : UnitCompiler) (chain : List String) : Prop where
  includes : chain.IsChain c.Includes
  length : 1 < chain.length
  closed : chain.head? = chain.getLast?
  distinct : chain.dropLast.Nodup

/-- Each unit that waits includes the next one, and the last one includes the unit `key`. -/
structure Waits (c : UnitCompiler) (p : Progress) (key : UnitKey) : Prop where
  includes : (p.stack.map UnitKey.location ++ [key.location]).IsChain c.Includes
  encoding : ∀ k ∈ p.stack, k.encoding = key.encoding
  distinct : p.stack.Nodup

variable {c : UnitCompiler} {key : UnitKey} {p q : Progress}

theorem Waits.of_empty (h : p.stack = []) (key : UnitKey) : c.Waits p key where
  includes := by
    rw [h]
    exact .singleton _
  encoding := by simp [h]
  distinct := by simp [h]

theorem Waits.congr (h : c.Waits p key) (hstack : q.stack = p.stack) : c.Waits q key :=
  ⟨hstack ▸ h.includes, hstack ▸ h.encoding, hstack ▸ h.distinct⟩

theorem Waits.push {next : String} (h : c.Waits p key) (hkey : key ∉ p.stack)
    (hnext : c.Includes key.location next) : c.Waits (p.push key) ⟨next, key.encoding⟩ where
  includes := by
    simp only [Progress.push, List.map_append, List.map_cons, List.map_nil, List.append_assoc,
      List.cons_append, List.nil_append]
    exact List.isChain_append_cons_cons.mpr ⟨h.includes, hnext, .singleton _⟩
  encoding := by
    intro k hk
    obtain hk | hk := List.mem_append.mp hk
    · exact h.encoding k hk
    · rw [List.mem_singleton.mp hk]
  distinct := List.nodup_append.mpr ⟨h.distinct, List.nodup_singleton key, by
    rintro k hk _ hkey' rfl
    exact hkey (List.mem_singleton.mp hkey' ▸ hk)⟩

theorem exists_dropWhile {α : Type} [DecidableEq α] {a : α} {as : List α} (h : a ∈ as) :
    ∃ before after, as = before ++ a :: after ∧ as.dropWhile (· != a) = a :: after := by
  induction as with
  | nil => cases h
  | cons b bs ih =>
    by_cases hb : b = a
    · subst hb
      exact ⟨[], bs, rfl, by simp⟩
    · obtain ⟨before, after, rfl, hdrop⟩ := ih (List.mem_of_ne_of_mem (Ne.symm hb) h)
      exact ⟨b :: before, after, rfl, by simp [hb, hdrop]⟩

/-- The locations of waiting units are different because their encodings are the same. -/
theorem Waits.nodup_locations (h : c.Waits p key) : (p.stack.map UnitKey.location).Nodup := by
  refine List.Nodup.map_on ?_ h.distinct
  rintro ⟨location, encoding⟩ hk ⟨location', encoding'⟩ hk' rfl
  have hencoding : encoding = encoding' := (h.encoding _ hk).trans (h.encoding _ hk').symm
  rw [hencoding]

theorem Waits.closedChain (h : c.Waits p key) (hkey : key ∈ p.stack) :
    c.ClosedChain (p.cycleTo key) := by
  obtain ⟨before, after, hstack, hdrop⟩ := exists_dropWhile hkey
  have hincludes := h.includes
  have hlocations := h.nodup_locations
  rw [hstack, List.map_append] at hincludes hlocations
  rw [Progress.cycleTo, hdrop]
  refine ⟨?_, by simp, by rw [List.getLast?_concat]; rfl, ?_⟩
  · rw [List.append_assoc] at hincludes
    exact hincludes.right_of_append
  · rw [List.dropLast_concat]
    exact hlocations.of_append_right

mutual

theorem Call.closedChain : ∀ {key : UnitKey} {p q : Progress}
    {r : Except CompileError CompiledUnit}, c.Call key p r q → c.Waits p key →
    ∀ e chain, r = .error e → e.problem = .includeCycle chain → c.ClosedChain chain
  | _, _, _, _, .memoized _, _ => nofun
  | _, _, _, _, .cycle _ hmem, hwaits => by
    rintro _ chain ⟨⟩ ⟨⟩
    exact hwaits.closedChain hmem
  | _, _, _, _, .failed _ hmem h, hwaits => h.closedChain fun _ hnext ↦ hwaits.push hmem hnext
  | _, _, _, _, .finished _ _ _, _ => nofun

theorem Run.closedChain : ∀ {key : UnitKey} {p q : Progress}
    {r : Except CompileError CompiledUnit}, c.Run key p r q →
    (∀ next, c.Includes key.location next → c.Waits p ⟨next, key.encoding⟩) →
    ∀ e chain, r = .error e → e.problem = .includeCycle chain → c.ClosedChain chain
  | _, _, _, _, .missing _, _ => by
    rintro _ chain ⟨⟩ ⟨⟩
  | _, _, _, _, @Run.linked _ key _ _ unit includes hload h, hwaits => by
    intro e chain he hproblem
    have hincludes := h.closedChain fun next hmem ↦ hwaits next ⟨unit, hload, hmem⟩
    cases includes with
    | error e' =>
      cases he
      exact hincludes _ chain rfl hproblem
    | ok us =>
      -- the attributes of the unit itself have no cycles
      have hconfined := c.link_confined key unit us _ he
      rw [hproblem] at hconfined
      cases hconfined

theorem CallAll.closedChain : ∀ {encoding : Encoding} {locations : List String} {p q : Progress}
    {r : Except CompileError (List CompiledUnit)}, c.CallAll encoding locations p r q →
    (∀ location ∈ locations, c.Waits p ⟨location, encoding⟩) →
    ∀ e chain, r = .error e → e.problem = .includeCycle chain → c.ClosedChain chain
  | _, _, _, _, _, .nil, _ => nofun
  | _, _, _, _, _, .stop h, hwaits => by
    intro e chain he hproblem
    cases he
    exact h.closedChain (hwaits _ List.mem_cons_self) _ chain rfl hproblem
  | _, _, _, _, _, @CallAll.more _ _ _ _ _ _ _ _ units h hrest, hwaits => by
    intro e chain he hproblem
    have hunits := hrest.closedChain fun location hmem ↦
      (hwaits location (List.mem_cons_of_mem _ hmem)).congr h.grows.stack
    cases units with
    | ok us => cases he
    | error e' =>
      cases he
      exact hunits _ chain rfl hproblem

end

/-- How many of the locations can still begin to wait. -/
def room (locations : Finset String) (encoding : Encoding) (p : Progress) : Nat :=
  (locations.filter (⟨·, encoding⟩ ∉ p.stack)).card

theorem room_push_lt {locations : Finset String} (hlocation : key.location ∈ locations)
    (hkey : key ∉ p.stack) (hq : q.stack = (p.push key).stack) :
    room locations key.encoding q < room locations key.encoding p := by
  apply Finset.card_lt_card
  rw [Finset.ssubset_iff_of_subset]
  · refine ⟨key.location, by simp [hlocation, hkey], ?_⟩
    simp [hq, Progress.push]
  · intro other
    simp only [Finset.mem_filter, hq, Progress.push, List.mem_append]
    intro hother
    exact ⟨hother.1, fun h ↦ hother.2 (.inl h)⟩

theorem exists_compileAll {depth : Nat} {encoding : Encoding} {stack : List UnitKey}
    {locations : List String} (h : ∀ location ∈ locations, ∀ p : Progress, p.stack = stack →
      ∃ r q, c.compileAs depth ⟨location, encoding⟩ p = some (r, q)) (hp : p.stack = stack) :
    ∃ r q, compileAll (c.compileAs depth) encoding locations p = some (r, q) := by
  induction locations generalizing p with
  | nil => exact ⟨_, p, rfl⟩
  | cons location rest ih =>
    obtain ⟨r, q, hq⟩ := h location List.mem_cons_self p hp
    rw [compileAll, hq]
    cases r with
    | error e => exact ⟨_, q, rfl⟩
    | ok u =>
      obtain ⟨us, r, hr⟩ := ih (fun location' hmem ↦ h location' (List.mem_cons_of_mem _ hmem))
        ((call_of_compileAs hq).grows.stack.trans hp)
      exact ⟨us.map (u :: ·), r, by simp only [hr, Option.bind_eq_bind, Option.bind_some]⟩

/-- A call ends before it is deeper than there are units that it can reach: each unit that begins to
wait is one less that can. -/
theorem exists_compileAs {locations : Finset String} {depth : Nat}
    (hloads : ∀ location, c.Reaches key.location location → c.load? location ≠ none →
      location ∈ locations)
    (hroom : room locations key.encoding p < depth) :
    ∃ r q, c.compileAs depth key p = some (r, q) := by
  induction depth generalizing key p with
  | zero => omega
  | succ depth ih =>
    unfold compileAs
    cases p.done.lookup key with
    | some u => exact ⟨_, p, rfl⟩
    | none =>
      by_cases hkey : key ∈ p.stack
      · exact ⟨_, p, if_pos hkey⟩
      have hrun : ∃ r q, c.run (c.compileAs depth) key (p.push key) = some (r, q) := by
        unfold run
        cases hload : c.load? key.location with
        | none => exact ⟨_, _, rfl⟩
        | some unit =>
          have hlocation := hloads key.location .refl (by simp [hload])
          have hnext (next : String) (hmem : next ∈ unit.includes) (p' : Progress)
              (hp' : p'.stack = (p.push key).stack) :
              ∃ r q, c.compileAs depth ⟨next, key.encoding⟩ p' = some (r, q) := by
            have hless := room_push_lt hlocation hkey hp'
            refine ih (fun location hreach ↦ hloads location (.head ⟨unit, hload, hmem⟩ hreach)) ?_
            show room locations key.encoding p' < depth
            omega
          obtain ⟨includes, q, hq⟩ := exists_compileAll hnext rfl
          exact ⟨includes.bind (c.link key unit), q,
            by simp only [hq, Option.bind_eq_bind, Option.bind_some]⟩
      obtain ⟨r, q, hq⟩ := hrun
      simp only [if_neg hkey, hq]
      cases r with
      | error e => exact ⟨_, q.pop, rfl⟩
      | ok u => exact ⟨_, q.pop.remember key u, rfl⟩

theorem exists_returns (hfinite : {location | c.Reaches key.location location}.Finite)
    (p : Progress) : ∃ r q, c.Returns key p r q := by
  have hloads (location : String) (hreach : c.Reaches key.location location)
      (_ : c.load? location ≠ none) : location ∈ hfinite.toFinset :=
    hfinite.mem_toFinset.mpr hreach
  obtain ⟨r, q, h⟩ := exists_compileAs hloads (Nat.lt_succ_self (room _ key.encoding p))
  exact ⟨r, q, _, h⟩

theorem Sound.finished {encoding : Encoding} {locations : List String} {us : List CompiledUnit}
    (h : c.Sound p) (hus : c.CompilesAll encoding locations us)
    (hfound : ∀ location ∈ locations, ∃ v, p.done.lookup ⟨location, encoding⟩ = some v) :
    Finished p encoding locations us := by
  induction locations generalizing us with
  | nil =>
    cases hus
    exact .nil
  | cons location rest ih =>
    cases hus with
    | cons hu hrest =>
      obtain ⟨v, hv⟩ := hfound location List.mem_cons_self
      have heq := (h.compiles _ v hv).unique hu
      exact .cons (heq ▸ hv) (ih hrest fun location' hmem ↦
        hfound location' (List.mem_cons_of_mem _ hmem))

theorem link_eq_ok {unit : MarkupUnit} {includes : List CompiledUnit} {u : CompiledUnit}
    (h : c.link key unit includes = .ok u) :
    ∃ output, u = .mk key.location key.encoding includes output := by
  obtain ⟨sites, -, h⟩ := except_bind_ok h
  obtain ⟨output, -, h⟩ := except_bind_ok h
  cases h
  exact ⟨output, rfl⟩

/-- The entry of a unit is made of the very entries of the units that it includes. -/
theorem Sound.entry {u : CompiledUnit} (h : c.Sound p) (hu : p.done.lookup key = some u) :
    ∃ unit includes output, c.load? key.location = some unit ∧
      u = .mk key.location key.encoding includes output ∧
      Finished p key.encoding unit.includes includes := by
  cases h.compiles key u hu with
  | @intro _ unit includes _ hload hall hlink =>
    obtain ⟨output, hentry⟩ := link_eq_ok hlink
    refine ⟨unit, includes, output, hload, hentry, h.finished hall fun next hmem ↦ ?_⟩
    exact h.closed key u next hu ⟨unit, hload, hmem⟩

/-- What a call does to a session, wherever the session is: the call returns, with the units that
wait as before and with all that was finished as it was. Only units that compile are finished, each
with its includes. An include cycle that is reported is one, and none that can be reached goes
unnoticed. -/
theorem returns_invariant (h : c.Reached p)
    (hfinite : {location | c.Reaches key.location location}.Finite) :
    (∃ r q, c.Returns key p r q) ∧ ∀ r q, c.Returns key p r q → q.stack = p.stack ∧
      (∀ k u, p.done.lookup k = some u → q.done.lookup k = some u) ∧
      (∀ k u, q.done.lookup k = some u → ∃ q', c.Returns k {} (.ok u) q') ∧
      (∀ e, r = .error e → q.done.lookup key = none) ∧
      (∀ k u, q.done.lookup k = some u → ∃ unit includes output,
        c.load? k.location = some unit ∧ u = .mk k.location k.encoding includes output ∧
        Finished q k.encoding unit.includes includes) ∧
      (∀ e chain, r = .error e → e.problem = .includeCycle chain → c.ClosedChain chain) ∧
      ((∃ location, c.Reaches key.location location ∧
        Relation.TransGen c.Includes location location) → ∀ u, r ≠ .ok u) := by
  refine ⟨exists_returns hfinite p, fun r q hreturns ↦ ?_⟩
  obtain ⟨hp, hstack⟩ := h.sound
  have hcall := returns_iff.mp hreturns
  obtain ⟨hq, hok⟩ := hcall.sound hp
  refine ⟨hcall.grows.stack, hcall.grows.done, ?_, ?_, ?_, ?_, ?_⟩
  · intro k u hu
    obtain ⟨q', hq'⟩ := (hq.compiles k u hu).call .new nofun
    exact ⟨q', returns_iff.mpr hq'⟩
  · rintro e rfl
    cases hlookup : q.done.lookup key with
    | none => rfl
    | some u =>
      obtain ⟨q', hq'⟩ := (hq.compiles key u hlookup).call hp (by simp [Free, hstack])
      cases (hq'.unique hcall).1
  · intro k u hu
    exact hq.entry hu
  · exact hcall.closedChain (.of_empty hstack key)
  · rintro ⟨location, hreach, hloop⟩ u rfl
    obtain ⟨v, hv⟩ := (hq.compiles key u (hok u rfl)).reach hreach
    exact hv.not_loop hloop

end UnitCompiler

namespace Session

variable (s : Session)

theorem mem_locations {location : String} (h : s.compiler.load? location ≠ none) :
    location ∈ s.library.units.map Prod.fst := by
  obtain ⟨unit, hload⟩ := Option.ne_none_iff_exists'.mp h
  obtain ⟨before, after, hunits, -⟩ := List.lookup_eq_some_iff.mp hload
  rw [hunits]
  simp

/-- The depth that a session allows is never too small. -/
theorem compile_eq (key : UnitKey) (done : Memo) : ∃ r q,
    s.compiler.Returns key ⟨[], done⟩ r q ∧ s.compile key done = (r, q.done) := by
  let locations := (s.library.units.map Prod.fst).toFinset
  have hloads (location : String) (_ : s.compiler.Reaches key.location location)
      (hload : s.compiler.load? location ≠ none) : location ∈ locations :=
    List.mem_toFinset.mpr (s.mem_locations hload)
  have hroom : UnitCompiler.room locations key.encoding ⟨[], done⟩ < s.library.units.length + 1 := by
    have hfilter : UnitCompiler.room locations key.encoding ⟨[], done⟩ ≤ locations.card :=
      Finset.card_filter_le _ _
    have hcard : locations.card ≤ s.library.units.length := by
      simpa using (s.library.units.map Prod.fst).toFinset_card_le
    omega
  obtain ⟨r, q, h⟩ := UnitCompiler.exists_compileAs hloads hroom
  refine ⟨r, q, ⟨_, h⟩, ?_⟩
  unfold compile
  rw [h]

/-- Only units in memory have includes, so that few locations can be reached. -/
theorem finite_reaches (location : String) : {l | s.compiler.Reaches location l}.Finite := by
  let included := s.library.units.flatMap fun entry ↦ entry.2.includes
  refine (List.finite_toSet (location :: included)).subset fun l hl ↦ ?_
  cases hl with
  | refl => exact List.mem_cons_self
  | tail _ hnext =>
    obtain ⟨unit, hload, hmem⟩ := hnext
    obtain ⟨before, after, hunits, -⟩ := List.lookup_eq_some_iff.mp hload
    have hentry : (_, unit) ∈ s.library.units := hunits ▸ List.mem_append_right _ List.mem_cons_self
    exact List.mem_cons_of_mem _ (List.mem_flatMap.mpr ⟨_, hentry, hmem⟩)

end Session

open Session.Sample in
theorem UnitCompiler.returns_invariant_loop :
    compiler.Reached {} ∧ {location | compiler.Reaches "loop" location}.Finite ∧
      ∃ e q, compiler.Returns ⟨"loop", .listing⟩ {} (.error e) q ∧ q.stack = [] ∧
        q.done.lookup ⟨"loop", .listing⟩ = none := by
  let key : UnitKey := ⟨"loop", .listing⟩
  have hfinite : {location | compiler.Reaches key.location location}.Finite :=
    session.finite_reaches key.location
  refine ⟨.new, hfinite, ?_⟩
  obtain ⟨⟨r, q, hreturns⟩, hall⟩ := returns_invariant .new hfinite
  obtain ⟨hstack, -, -, hfailed, -, -, hcycle⟩ := hall r q hreturns
  have hself : compiler.Includes "loop" "loop" := ⟨_, rfl, by decide⟩
  cases r with
  | error e => exact ⟨e, q, hreturns, hstack, hfailed e rfl⟩
  | ok u => exact (hcycle ⟨"loop", .refl, .single hself⟩ u rfl).elim

end LiveBinding
