import LiveBinding.Proofs.Strategies

namespace LiveBinding

/-- What a scratch slot is for: for an operand that is set aside, or for the cell of an observable
property at a point. Where that point resumes, the operands of the slots `filled` are set aside. -/
inductive Keep where
  | operand (ty : Ty)
  | handle (ty : Ty) (filled : List Nat)

/-- What the types of code depend on, the registry apart. -/
structure Env where
  /-- There is a binding whose storage can be used. -/
  stateful : Prop
  /-- The types that the values of the captures have. -/
  captures : Nat → Ty → Prop
  slots : Nat → Keep
  /-- Code of the scope that pushes a value of a type. -/
  loads : Fragment → Ty → Prop

/-- The slots are for what a list says. -/
def Env.Agrees (env : Env) (A : List (Nat × Keep)) : Prop := ∀ a ∈ A, env.slots a.1 = a.2

theorem Env.agrees_append {env : Env} {A B : List (Nat × Keep)} :
    env.Agrees (A ++ B) ↔ env.Agrees A ∧ env.Agrees B := List.forall_mem_append

/-- The types of the operands of an instruction, the top first, and of its result. The slots in `D`
hold operands. -/
inductive Op.Gives (r : Registry) (env : Env) (D : List Nat) : Op → List Ty → Ty → Prop
  | typed {op : Op} {ins : List Ty} {out : Ty} : Op.Typed r op ins out → Gives r env D op ins out
  | property {c : ClassId} {name : String} {p : PropertyInfo} :
    r.model.property (.class c) name = some p →
    Gives r env D (.getProperty p.name) [.class c] p.ty
  | capture {n : Nat} {t : Ty} : env.stateful → env.captures n t →
    Gives r env D (.loadCapture n) [] t
  | scratch {n : Nat} {t : Ty} : env.stateful → n ∈ D → env.slots n = .operand t →
    Gives r env D (.loadScratch n) [] t
  | invoke {m : MethodInfo} {argc : Nat} : (∃ d ∈ r.methods, d.info = m) →
    m.flags.static = false → argc = m.params.length →
    Gives r env D (.invoke m.id argc) (m.params.reverse ++ [m.owner]) m.ret
  | invokeStatic {m : MethodInfo} {argc : Nat} : (∃ d ∈ r.methods, d.info = m) →
    m.flags.static → argc = m.params.length →
    Gives r env D (.invokeStatic m.id argc) m.params.reverse m.ret
  | construct {m : MethodInfo} {argc : Nat} : (∃ d ∈ r.methods, d.info = m) →
    m.flags.static → argc = m.params.length →
    Gives r env D (.construct m.id argc) m.params.reverse m.ret

namespace Fragment

/-- The slots that a run of a fragment stores operands to, whichever way it goes. -/
def stored : Fragment → List Nat
  | ops list => storesOf list
  | append f g => stored f ++ stored g
  | shortCircuit _ f _ | branch _ f .. => stored f
  | nullGuard .. | flagTest _ | flagAssign .. | observe .. => []

/-- Code takes a stack of types to another one, from a state where the slots in `D` hold operands.
A property is observed alone on the stack. -/
inductive Typed (r : Registry) (env : Env) : List Nat → Fragment → List Ty → List Ty → Prop
  | nil {D : List Nat} {Γ : List Ty} : Typed r env D (ops []) Γ Γ
  | op {D : List Nat} {op : Op} {list : List Op} {ins Γ Δ : List Ty} {out : Ty} :
    Op.Gives r env D op ins out → Typed r env D (ops list) (out :: Γ) Δ →
    Typed r env D (ops (op :: list)) (ins ++ Γ) Δ
  | pop {D : List Nat} {list : List Op} {t : Ty} {Γ Δ : List Ty} :
    Typed r env D (ops list) Γ Δ → Typed r env D (ops (.pop :: list)) (t :: Γ) Δ
  | store {D : List Nat} {n : Nat} {t : Ty} {Γ : List Ty} : env.stateful →
    env.slots n = .operand t → Typed r env D (ops [.storeScratch n]) (t :: Γ) Γ
  | append {D : List Nat} {f g : Fragment} {Γ Θ Δ : List Ty} : Typed r env D f Γ Θ →
    Typed r env (D ++ f.stored) g Θ Δ → Typed r env D (append f g) Γ Δ
  | nullGuard {D : List Nat} {convert default : List Op} {s t : Ty} {Γ : List Ty} :
    Typed r env D (ops convert) (s :: Γ) (t :: Γ) → Typed r env D (ops default) Γ (t :: Γ) →
    Typed r env D (nullGuard (ops convert) (ops default)) (s :: Γ) (t :: Γ)
  | shortCircuit {D : List Nat} {op : BinaryOp} {f g : Fragment} {Γ Θ : List Ty} :
    Typed r env D f Γ (.boolean :: Θ) → Typed r env (D ++ f.stored) g Θ (.boolean :: Θ) →
    Typed r env D (shortCircuit op f g) Γ (.boolean :: Θ)
  | observe {D : List Nat} {c : ClassId} {name : String} {p : PropertyInfo} {point : SavePoint} :
    env.stateful → r.model.property (.class c) name = some p → p.flags.observable →
    env.slots point.handle = .handle p.ty D →
    Typed r env D (observe p.name point) [.class c] [p.ty]
  | branch {D : List Nat} {op : BinaryOp} {f g : Fragment} {flag counter : Nat}
    {points : List SavePoint} : env.stateful → Typed r env D f [] [.boolean] →
    Typed r env (D ++ f.stored) g [] [.boolean] →
    Typed r env D (branch op f g flag counter points) [] [.boolean]
  | load {D : List Nat} {f : Fragment} {t : Ty} {Γ : List Ty} : f.isPlain → env.loads f t →
    Typed r env D f Γ (t :: Γ)
  | assign {D : List Nat} {f : Fragment} {s t : Ty} {Γ Δ : List Ty} : r.model.isAssignable s t →
    Typed r env D f Γ (s :: Δ) → Typed r env D f Γ (t :: Δ)

section

variable {r : Registry} {env : Env} {D : List Nat} {s t : Ty} {Γ Δ : List Ty} {list : List Op}

/-- An instruction on one operand. -/
theorem Typed.unary {op : Op} {out : Ty} (h : Op.Gives r env D op [s] out)
    (h' : Typed r env D (ops list) (out :: Γ) Δ) : Typed r env D (ops (op :: list)) (s :: Γ) Δ :=
  @Typed.op r env D op list [s] Γ Δ out h h'

/-- An instruction without operands. -/
theorem Typed.push {op : Op} {out : Ty} (h : Op.Gives r env D op [] out)
    (h' : Typed r env D (ops list) (out :: Γ) Δ) : Typed r env D (ops (op :: list)) Γ Δ :=
  @Typed.op r env D op list [] Γ Δ out h h'

theorem typed_of_chain (h : Op.Chain r list s t) : Typed r env D (ops list) (s :: Γ) (t :: Γ) := by
  induction h with
  | nil ha => exact .assign ha .nil
  | op hop _ ih => exact .unary (.typed hop) ih
  | call hd hs hp _ ih =>
    refine .unary ?_ ih
    have hcall : Op.Gives r env D _ _ _ := .invokeStatic hd hs (congrArg List.length hp).symm
    rwa [hp] at hcall

theorem typed_of_typedChain {op : Op} {ins : List Ty} (hop : Op.Typed r op ins s)
    (hc : Op.Chain r list s t) : Typed r env D (ops (op :: list)) (ins ++ Γ) (t :: Γ) :=
  .op (.typed hop) (typed_of_chain hc)

theorem typed_of_source (h : Op.Source r list t) : Typed r env D (ops list) Γ (t :: Γ) := by
  obtain ⟨hop, hc⟩ := h
  exact .push (.typed hop) (typed_of_chain hc)

theorem Coerces.typed {c : Fragment} (h : c.Coerces r s t) : Typed r env D c (s :: Γ) (t :: Γ) := by
  cases h with
  | ops hc => exact typed_of_chain hc
  | ofNull hs => exact .pop (typed_of_source hs)
  | guarded hc hs => exact .nullGuard (typed_of_chain hc) (typed_of_source hs)

/-- The slots of the points in typed code are for the cells of the points. -/
theorem Typed.handle {f : Fragment} (h : Typed r env D f Γ Δ) :
    ∀ p ∈ f.points, ∃ t filled, env.slots p.handle = .handle t filled := by
  induction h with
  | nil | op | pop | store | nullGuard => exact nofun
  | append _ _ ih ih' | shortCircuit _ _ ih ih' | branch _ _ _ ih ih' =>
    exact List.forall_mem_append.mpr ⟨ih, ih'⟩
  | observe _ _ _ hs => exact List.forall_mem_singleton.mpr ⟨_, _, hs⟩
  | @load _ f _ _ hf _ =>
    have hpoints := f.points_subset_slots
    rw [slots_of_isPlain hf] at hpoints
    intro p hp
    cases hpoints (List.mem_map_of_mem hp)
  | assign _ _ ih => exact ih

end

/-- Whatever the stack beneath is, code takes some types to others, for some use of its slots. If it
listens, there is nothing beneath. -/
def Produces (r : Registry) (K : Env → Prop) (listens : Prop) (f : Fragment) (ins outs : List Ty) :
    Prop :=
  ∀ D, ∃ A : List (Nat × Keep), A.map Prod.fst = f.slots ∧ ∀ env, K env → env.Agrees A →
    ∀ Γ, (listens → Γ = []) → Typed r env D f (ins ++ Γ) (outs ++ Γ)

namespace Produces

variable {r : Registry} {K : Env → Prop} {listens listens' : Prop} {f g : Fragment}
variable {ins mid outs : List Ty} {s t : Ty}

/-- Code that keeps nothing. -/
theorem of_typed (hf : f.slots = [])
    (h : ∀ env D Γ, K env → Typed r env D f (ins ++ Γ) (outs ++ Γ)) :
    Produces r K listens f ins outs :=
  fun D ↦ ⟨[], hf.symm, fun env hK _ Γ _ ↦ h env D Γ hK⟩

theorem empty : Produces r K listens .empty ins ins := of_typed rfl fun _ _ _ _ ↦ .nil

theorem of_gives {op : Op} (hop : storesOf [op] = [])
    (h : ∀ env D, K env → Op.Gives r env D op ins t) : Produces r K listens (.op op) ins [t] :=
  of_typed hop fun env D _ hK ↦ .op (h env D hK) .nil

theorem of_op {op : Op} (hop : (Fragment.op op).isPlain) (h : Op.Typed r op ins t) :
    Produces r K listens (.op op) ins [t] :=
  of_gives (slots_of_isPlain hop) fun _ _ _ ↦ .typed h

theorem of_coerces (hf : f.isPlain) (h : f.Coerces r s t) : Produces r K listens f [s] [t] :=
  of_typed (slots_of_isPlain hf) fun _ _ _ _ ↦ h.typed

theorem append (h : Produces r K listens f ins mid) (h' : Produces r K listens g mid outs) :
    Produces r K listens (f ++ g) ins outs := by
  intro D
  obtain ⟨A, hA, hf⟩ := h D
  obtain ⟨B, hB, hg⟩ := h' (D ++ f.stored)
  refine ⟨A ++ B, ?_, fun env hK hAB Γ hΓ ↦ ?_⟩
  · rw [List.map_append, hA, hB]
    rfl
  · obtain ⟨hA, hB⟩ := Env.agrees_append.mp hAB
    exact .append (hf env hK hA Γ hΓ) (hg env hK hB Γ hΓ)

theorem mono (h : Produces r K listens f ins outs) (hl : listens → listens') :
    Produces r K listens' f ins outs := by
  intro D
  obtain ⟨A, hA, hf⟩ := h D
  exact ⟨A, hA, fun env hK hAgree Γ hΓ ↦ hf env hK hAgree Γ fun h ↦ hΓ (hl h)⟩

/-- More may lie beneath. -/
theorem frame (h : Produces r K listens f ins outs) (Θ : List Ty) (hl : listens → Θ = []) :
    Produces r K listens f (ins ++ Θ) (outs ++ Θ) := by
  intro D
  obtain ⟨A, hA, hf⟩ := h D
  refine ⟨A, hA, fun env hK hAgree Γ hΓ ↦ ?_⟩
  rw [List.append_assoc, List.append_assoc]
  exact hf env hK hAgree (Θ ++ Γ) fun h ↦ by rw [hl h, hΓ h, List.append_nil]

theorem assign (h : Produces r K listens f ins [s]) (ha : r.model.isAssignable s t) :
    Produces r K listens f ins [t] := by
  intro D
  obtain ⟨A, hA, hf⟩ := h D
  exact ⟨A, hA, fun env hK hAgree Γ hΓ ↦ .assign ha (hf env hK hAgree Γ hΓ)⟩

theorem shortCircuit (op : BinaryOp) (h : Produces r K listens f [] [.boolean])
    (h' : Produces r K listens g [] [.boolean]) :
    Produces r K listens (.shortCircuit op f g) [] [.boolean] := by
  intro D
  obtain ⟨A, hA, hf⟩ := h D
  obtain ⟨B, hB, hg⟩ := h' (D ++ f.stored)
  refine ⟨A ++ B, ?_, fun env hK hAB Γ hΓ ↦ ?_⟩
  · rw [List.map_append, hA, hB]
    rfl
  · obtain ⟨hA, hB⟩ := Env.agrees_append.mp hAB
    exact .shortCircuit (hf env hK hA Γ hΓ) (hg env hK hB Γ hΓ)

theorem branch (op : BinaryOp) (flag counter : Nat) (points : List SavePoint)
    (hs : ∀ env, K env → env.stateful) (h : Produces r K listens f [] [.boolean])
    (h' : Produces r K listens g [] [.boolean]) (hl : listens) :
    Produces r K listens (.branch op f g flag counter points) [] [.boolean] := by
  intro D
  obtain ⟨A, hA, hf⟩ := h D
  obtain ⟨B, hB, hg⟩ := h' (D ++ f.stored)
  refine ⟨A ++ B, ?_, fun env hK hAB Γ hΓ ↦ ?_⟩
  · rw [List.map_append, hA, hB]
    rfl
  · obtain ⟨hA, hB⟩ := Env.agrees_append.mp hAB
    obtain rfl := hΓ hl
    exact .branch (hs env hK) (hf env hK hA [] hΓ) (hg env hK hB [] hΓ)

/-- If no slot is used twice, there is a use of the slots that fits. -/
theorem exists_slots (h : Produces r K listens f [] outs) (hn : f.slots.Nodup) {env : Env}
    (hK : ∀ slots, K { env with slots }) :
    ∃ slots, Typed r { env with slots } [] f [] outs := by
  obtain ⟨A, hA, hf⟩ := h []
  refine ⟨fun n ↦ (A.lookup n).getD (.operand .null), ?_⟩
  have ht := hf { env with slots := _ } (hK fun n ↦ (A.lookup n).getD (.operand .null)) ?_ [] fun _ ↦ rfl
  · simpa using ht
  · rintro ⟨n, k⟩ hmem
    show (A.lookup n).getD _ = k
    rw [← hA] at hn
    have hlookup : A.lookup n = some k := by
      obtain ⟨l₁, l₂, rfl⟩ := List.append_of_mem hmem
      refine List.lookup_eq_some_iff.mpr ⟨l₁, l₂, rfl, fun p hp ↦ ?_⟩
      rw [List.map_append, List.map_cons] at hn
      have hne := (List.nodup_append.mp hn).2.2 p.1 (List.mem_map_of_mem hp) n List.mem_cons_self
      exact bne_iff_ne.mpr (Ne.symm hne)
    rw [hlookup]
    rfl

end Produces

end Fragment

/-- The code of an operand puts a value of a type on the stack. Under a strict strategy nothing else
may be there if the operand is monitored. -/
def Operand.Produces (r : Registry) (K : Env → Prop) (strict : Prop) (o : Operand) (t : Ty) : Prop :=
  o.code.Produces r K (strict ∧ o.monitored) [] [t]

namespace Fragment

open Resumable

variable {r : Registry} {K : Env → Prop} {strict : Prop} {o : Operand} {os : List Operand}
variable {ts ins : List Ty} {u : Ty}

/-- Operands that stay on the stack. -/
theorem produces_concat (h : List.Forall₂ (Operand.Produces r K strict) os ts)
    (hm : ∀ o ∈ os, ¬(strict ∧ o.monitored)) :
    Produces r K False (.concat (os.map Operand.code)) [] ts.reverse := by
  induction h with
  | nil => exact .empty
  | @cons o t os ts ho _ ih =>
    rw [List.forall_mem_cons] at hm
    rw [List.reverse_cons]
    exact Produces.append (ho.mono hm.1) ((ih hm.2).frame [t] nofun)

/-- The first operand may be on the stack already. -/
theorem produces_concat_first {listens : Prop} (ho : Produces r K listens o.code ins [u])
    (h : List.Forall₂ (Operand.Produces r K strict) os ts)
    (hm : ∀ o ∈ os, ¬(strict ∧ o.monitored)) :
    Produces r K listens (.concat ((o :: os).map Operand.code)) ins (ts.reverse ++ [u]) :=
  ho.append (((produces_concat h hm).frame [u] nofun).mono nofun)

theorem slots_concat (fs : List Fragment) : (concat fs).slots = fs.flatMap slots := by
  induction fs with
  | nil => rfl
  | cons f fs ih =>
    rw [List.flatMap_cons, ← ih]
    rfl

/-- Some pieces of code set operands aside, whatever goes on with them. -/
def SetsAside (r : Registry) (K : Env → Prop) (listens : Prop) (fs : List Fragment) (ins : List Ty)
    (slots : List Nat) (ts : List Ty) : Prop :=
  slots.length = ts.length ∧ slots ⊆ (concat fs).stored ∧
  ∀ D, ∃ A : List (Nat × Keep), A.map Prod.fst = (concat fs).slots ∧
    slots.zip (ts.map .operand) ⊆ A ∧ ∀ env, K env → env.Agrees A →
    ∀ gs Γ Δ, (listens → Γ = []) → Typed r env (D ++ (concat fs).stored) (concat gs) Γ Δ →
      Typed r env D (concat (fs ++ gs)) (ins ++ Γ) Δ

namespace SetsAside

variable {listens : Prop} {fs : List Fragment} {slots : List Nat}

theorem nil : SetsAside r K listens [] [] [] [] := by
  refine ⟨rfl, nofun, fun D ↦ ⟨[], rfl, nofun, fun env _ _ gs Γ Δ _ h ↦ ?_⟩⟩
  rw [show D ++ (concat []).stored = D from List.append_nil D] at h
  exact h

theorem cons {f : Fragment} {n : Nat} (hs : ∀ env, K env → env.stateful)
    (hf : Produces r K listens f ins [u]) (h : SetsAside r K listens fs [] slots ts) :
    SetsAside r K listens ((f ++ .op (.storeScratch n)) :: fs) ins (n :: slots) (u :: ts) := by
  obtain ⟨hlen, hsub, h⟩ := h
  have hstored : (concat ((f ++ .op (.storeScratch n)) :: fs)).stored =
      f.stored ++ [n] ++ (concat fs).stored := rfl
  refine ⟨by simpa using hlen, ?_, fun D ↦ ?_⟩
  · rw [hstored]
    refine List.cons_subset.mpr ⟨by simp, fun m hm ↦ List.mem_append_right _ (hsub hm)⟩
  · obtain ⟨A, hA, htyped⟩ := hf D
    obtain ⟨B, hB, hzip, hrest⟩ := h (D ++ (f.stored ++ [n]))
    refine ⟨A ++ [(n, .operand u)] ++ B, ?_, ?_, fun env hK hAgree gs Γ Δ hΓ hgs ↦ ?_⟩
    · rw [List.map_append, List.map_append, hA, hB]
      rfl
    · rw [List.map_cons, List.zip_cons_cons]
      exact List.cons_subset.mpr ⟨by simp, fun m hm ↦ List.mem_append_right _ (hzip hm)⟩
    · simp only [Env.agrees_append] at hAgree
      obtain ⟨⟨hAgree, hn⟩, hAgree'⟩ := hAgree
      have hstore := @Typed.store r env (D ++ f.stored) n u Γ (hs env hK)
        (hn (n, .operand u) List.mem_cons_self)
      refine .append (.append (htyped env hK hAgree Γ hΓ) hstore) ?_
      refine hrest env hK hAgree' gs Γ Δ hΓ ?_
      rwa [hstored, ← List.append_assoc] at hgs

end SetsAside

/-- Operands that are loaded again, in front of code that goes on with them. -/
theorem typed_loads {env : Env} (hs : env.stateful) {D slots : List Nat}
    (hlen : slots.length = ts.length) (hD : slots ⊆ D) (hA : env.Agrees (slots.zip (ts.map .operand)))
    {gs : List Fragment} {Γ Δ : List Ty} (h : Typed r env D (concat gs) (ts.reverse ++ Γ) Δ) :
    Typed r env D (concat (slots.map (fun n ↦ .op (.loadScratch n)) ++ gs)) Γ Δ := by
  induction slots generalizing ts Γ with
  | nil =>
    obtain rfl := List.length_eq_zero_iff.mp hlen.symm
    exact h
  | cons n slots ih =>
    obtain _ | ⟨t, ts⟩ := ts
    · cases hlen
    rw [List.cons_subset] at hD
    rw [List.map_cons, List.zip_cons_cons, Env.Agrees, List.forall_mem_cons] at hA
    rw [List.reverse_cons, List.append_assoc, List.singleton_append] at h
    have hload : Typed r env D (.op (.loadScratch n)) Γ (t :: Γ) := .push (.scratch hs hD.1 hA.1) .nil
    refine .append hload ?_
    rw [show D ++ (Fragment.op (.loadScratch n)).stored = D from List.append_nil D]
    exact ih (by simpa using hlen) hD.2 hA.2 h

theorem setsAside_stores {listens : Prop} {slots : List Nat} (hs : ∀ env, K env → env.stateful)
    (hos : List.Forall₂ (Operand.Produces r K strict) os ts) (hl : ∀ p ∈ os, strict ∧ p.monitored → listens)
    (hlen : os.length = slots.length) :
    SetsAside r K listens ((os.zip slots).map fun p ↦ p.1.code ++ .op (.storeScratch p.2)) []
      slots ts := by
  induction hos generalizing slots with
  | nil =>
    obtain rfl := List.length_eq_zero_iff.mp hlen.symm
    exact .nil
  | cons hp _ ih =>
    obtain _ | ⟨m, slots⟩ := slots
    · cases hlen
    rw [List.forall_mem_cons] at hl
    exact .cons hs (hp.mono hl.1) (ih hl.2 (by simpa using hlen))

/-- Operands of which the first ones are set aside and loaded again. -/
theorem produces_spill {listens : Prop} {rest : List Operand} {us : List Ty} (n : Nat)
    (slots : List Nat) (hs : ∀ env, K env → env.stateful)
    (ho : Produces r K listens o.code ins [u]) (hos : List.Forall₂ (Operand.Produces r K strict) os ts)
    (hl : ∀ p ∈ os, strict ∧ p.monitored → listens) (hlen : os.length = slots.length)
    (hrest : List.Forall₂ (Operand.Produces r K strict) rest us) (hm : ∀ o ∈ rest, ¬(strict ∧ o.monitored)) :
    Produces r K listens (spill (o :: os ++ rest) (n :: slots)) ins
      (us.reverse ++ (ts.reverse ++ [u])) := by
  obtain ⟨hlen', hsub, hall⟩ := SetsAside.cons (n := n) hs ho (setsAside_stores hs hos hl hlen)
  have hzip : (o :: os ++ rest).zip (n :: slots) = (o :: os).zip (n :: slots) := by
    have h := @List.zip_append _ _ (o :: os) rest (n :: slots) [] (by simpa using hlen)
    rwa [List.append_nil, List.zip_nil_right, List.append_nil] at h
  have hdrop : (o :: os ++ rest).drop (n :: slots).length = rest :=
    List.drop_left' (by simpa using hlen)
  intro D
  rw [spill, hzip, hdrop, List.append_assoc]
  rw [List.zip_cons_cons, List.map_cons]
  generalize (o.code ++ _) :: List.map _ (os.zip slots) = fs at *
  obtain ⟨A, hA, hkept, hgo⟩ := hall D
  obtain ⟨B, hB, hlast⟩ := produces_concat hrest hm (D ++ (concat fs).stored)
  refine ⟨A ++ B, ?_, fun env hK hAgree Γ hΓ ↦ ?_⟩
  · have hloads : ((n :: slots).map fun n ↦ Fragment.op (.loadScratch n)).flatMap Fragment.slots = [] := by
      simp [Fragment.op, Fragment.slots, storesOf]
    rw [List.map_append, hA, hB, slots_concat, slots_concat, slots_concat, List.flatMap_append,
      List.flatMap_append, hloads]
    rfl
  · obtain ⟨hAgree, hAgree'⟩ := Env.agrees_append.mp hAgree
    refine hgo env hK hAgree _ Γ _ hΓ (typed_loads (hs env hK) hlen'
      (fun m hm ↦ List.mem_append_right _ (hsub hm)) (fun a ha ↦ hAgree a (hkept ha)) ?_)
    rw [List.append_assoc, List.reverse_cons]
    exact hlast env hK hAgree' _ False.elim

/-- The operands of an operation end up on the stack, the first of which may be there already. -/
theorem produces_operands (hs : ∀ env, K env → env.stateful)
    (ho : Produces r K (strict ∧ o.monitored) o.code ins [u])
    (hos : List.Forall₂ (Operand.Produces r K strict) os ts) (t : Resumable) :
    Produces r K (strict ∧ (o :: os).any Operand.monitored)
      (Strategy.resumable.operands (o :: os) t).1 ins (ts.reverse ++ [u]) := by
  show Produces r K _ (spill (o :: os) (newSlots (spilled (o :: os)) t).1) ins _
  rw [Renders.newSlots_eq]
  obtain ⟨n, hn, hspilled, -, hrest⟩ := spilled_spec (o :: os)
  rw [hspilled]
  have hquiet {p : Operand} (hp : p.monitored = false) : ¬(strict ∧ p.monitored) := by
    rw [hp]
    exact nofun
  replace ho : Produces r K (strict ∧ (o :: os).any Operand.monitored) o.code ins [u] :=
    ho.mono fun h ↦ ⟨h.1, by rw [List.any_cons, h.2, Bool.true_or]⟩
  by_cases hone : n ≤ 1
  · rw [if_pos hone]
    refine produces_concat_first ho hos fun p hp ↦ hquiet (hrest p ?_)
    obtain _ | _ | n := n
    · exact List.mem_cons_of_mem _ hp
    · exact hp
    · omega
  · rw [if_neg hone]
    obtain ⟨n, rfl⟩ : ∃ m, n = m + 1 := ⟨n - 1, by omega⟩
    have hlen : n ≤ os.length := by simpa using hn
    have hsplit : o :: os = o :: os.take n ++ os.drop n := by
      rw [List.cons_append, List.take_append_drop]
    have hall := produces_spill t.storage.scratch
      (List.range' (t.storage.scratch + 1) n) hs ho (List.forall₂_take n hos)
      (fun p hp hm ↦ ⟨hm.1, List.any_eq_true.mpr
        ⟨p, List.mem_cons_of_mem _ (List.mem_of_mem_take hp), hm.2⟩⟩)
      (by rw [List.length_take, List.length_range', Nat.min_eq_left hlen]) (List.forall₂_drop n hos)
      fun p hp ↦ hquiet (hrest p hp)
    rwa [← hsplit, ← List.range'_succ, ← List.append_assoc, ← List.reverse_append,
      List.take_append_drop] at hall

end Fragment

end LiveBinding
