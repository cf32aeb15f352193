import LiveBinding.Host.Builtin
import LiveBinding.Proofs.Typing

/-!
Registries as definitions build them up. The superclasses of a class come to an end, what is
assignable is a preorder, and a look-up finds what the nearest class declares first.
-/

namespace LiveBinding.Registry

/-- A call that adds to a registry. -/
inductive Definition where
  | newClass (name : String) (superclass : Option ClassId)
  | newEnum (name : String) (constants : List String)
  | property (cls : ClassId) (name : String) (ty : Ty) (flags : MemberFlags)
  | member (owner : Ty) (name : String) (params : List Ty) (ret : Ty) (flags : MemberFlags)
      (body : Method) (held : List Value)

def Definition.superclass? : Definition → Option ClassId
  | newClass _ superclass => superclass
  | _ => none

section Definitions

variable (r : Registry)

def define : Definition → Registry
  | .newClass name superclass => (r.defineClass name superclass).2
  | .newEnum name constants => (r.defineEnum name constants).2
  | .property cls name ty flags => r.addProperty cls name ty flags
  | .member owner name params ret flags body held =>
    r.addMember owner name params ret flags body held

def defineAll (ds : List Definition) : Registry := ds.foldl define r

/-- The handle that a definition returns. -/
def handle? : Definition → Option ClassId
  | .newClass name superclass => some (r.defineClass name superclass).1
  | .newEnum name constants => some (r.defineEnum name constants).1
  | _ => none

/-- The property that a definition declares for a class, which has to be there. -/
def declaredProperty? (c : ClassId) : Definition → Option PropertyInfo
  | .property cls name ty flags =>
    if cls = c ∧ c.index < r.classes.size then some ⟨.class c, name, ty, flags⟩ else none
  | _ => none

def declaredMember? : Definition → Option MethodInfo
  | .member owner name params ret flags _ _ =>
    some ⟨⟨r.methods.size⟩, owner, name, params, ret, flags⟩
  | _ => none

end Definitions

/-- What definitions bring about one after the other. -/
def log {α : Type} (what : Registry → Definition → Option α) : Registry → List Definition → List α
  | _, [] => []
  | r, d :: ds => (what r d).toList ++ log what (r.define d) ds

/-- Every superclass is one of those that were returned before. -/
def Sequenced : Registry → List ClassId → List Definition → Prop
  | _, _, [] => True
  | r, returned, d :: ds => (∀ s ∈ d.superclass?, s ∈ returned) ∧
      Sequenced (r.define d) (returned ++ (r.handle? d).toList) ds

instance : ∀ r returned ds, Decidable (Sequenced r returned ds)
  | _, _, [] => inferInstanceAs (Decidable True)
  | r, returned, d :: ds =>
    have := instDecidableSequenced (r.define d) (returned ++ (r.handle? d).toList) ds
    inferInstanceAs (Decidable (_ ∧ _))

def members (r : Registry) : List MethodInfo := r.methods.toList.map (·.info)

def propertiesOf (r : Registry) (c : ClassId) : List PropertyInfo :=
  ((r.classes[c.index]?).map ClassDef.properties).getD []

variable {r : Registry} {c s : ClassId} {d : Definition}

theorem addStaticFields_eq (owner : Ty) (ty : Ty) (value : String → Value) (names : List String)
    (r : Registry) :
    ∃ fields, names.foldl (fun r n ↦ r.addStaticField owner n ty (value n)) r =
      { r with fields } := by
  induction names generalizing r with
  | nil => exact ⟨r.fields, rfl⟩
  | cons n names ih =>
    obtain ⟨fields, h⟩ := ih (r.addStaticField owner n ty (value n))
    exact ⟨fields, h⟩

theorem classes_defineEnum (name : String) (constants : List String) :
    (r.defineEnum name constants).2.classes = (r.classes.push { name, superclass := none }).modify
      r.classes.size ({ · with constants := some constants }) := by
  obtain ⟨fields, h⟩ := addStaticFields_eq (.class ⟨r.classes.size⟩) (.class ⟨r.classes.size⟩)
    (.enum ⟨r.classes.size⟩) constants (r.defineClass name none).2
  exact congrArg (fun r' : Registry ↦ r'.classes.modify r.classes.size
    ({ · with constants := some constants })) h

theorem getElem?_defineEnum (name : String) (constants : List String) (i : Nat) :
    (r.defineEnum name constants).2.classes[i]? = if i = r.classes.size then
      some { name, superclass := none, constants := some constants } else r.classes[i]? := by
  rw [classes_defineEnum, Array.getElem?_modify, Array.getElem?_push]
  by_cases h : i = r.classes.size
  · rw [if_pos h.symm, if_pos h, if_pos h]
    rfl
  · rw [if_neg (Ne.symm h), if_neg h, if_neg h]

theorem methods_defineEnum (name : String) (constants : List String) :
    (r.defineEnum name constants).2.methods = r.methods := by
  obtain ⟨fields, h⟩ := addStaticFields_eq (.class ⟨r.classes.size⟩) (.class ⟨r.classes.size⟩)
    (.enum ⟨r.classes.size⟩) constants (r.defineClass name none).2
  have hmethods := congrArg Registry.methods h
  exact hmethods

theorem handle?_eq (h : r.handle? d = some c) :
    c = ⟨r.classes.size⟩ ∧ (r.define d).classes.size = r.classes.size + 1 := by
  cases d with
  | newClass name superclass =>
    cases h
    exact ⟨rfl, Array.size_push _⟩
  | newEnum name constants =>
    cases h
    refine ⟨rfl, ?_⟩
    rw [define, classes_defineEnum, Array.size_modify, Array.size_push]
  | property | member => cases h

theorem size_le_define (r : Registry) (d : Definition) :
    r.classes.size ≤ (r.define d).classes.size := by
  cases d with
  | newClass name superclass =>
    rw [(handle?_eq (d := .newClass name superclass) rfl).2]
    exact Nat.le_succ _
  | newEnum name constants =>
    rw [(handle?_eq (d := .newEnum name constants) rfl).2]
    exact Nat.le_succ _
  | property => exact (Array.size_modify ..).ge
  | member => exact le_rfl

theorem superclass?_define (r : Registry) (d : Definition) (c : ClassId) :
    (r.define d).superclass? c =
      if c.index = r.classes.size then d.superclass? else r.superclass? c := by
  have hbeyond (h : c.index = r.classes.size) : r.superclass? c = none := by
    rw [superclass?, Array.getElem?_eq_none h.ge]
    rfl
  cases d with
  | newClass name superclass =>
    simp only [superclass?, define, defineClass, Array.getElem?_push]
    split <;> rfl
  | newEnum name constants =>
    simp only [superclass?, define, getElem?_defineEnum]
    split <;> rfl
  | property cls name ty flags =>
    have hsame : (r.addProperty cls name ty flags).superclass? c = r.superclass? c := by
      simp only [superclass?, addProperty, Array.getElem?_modify]
      split
      · cases r.classes[c.index]? <;> rfl
      · rfl
    rw [define, hsame]
    split
    · next h => exact hbeyond h
    · rfl
  | member =>
    split
    · next h => exact hbeyond h
    · rfl

theorem propertiesOf_define (r : Registry) (d : Definition) (c : ClassId) :
    (r.define d).propertiesOf c = r.propertiesOf c ++ (r.declaredProperty? c d).toList := by
  have hbeyond (h : c.index = r.classes.size) : r.propertiesOf c = [] := by
    rw [propertiesOf, Array.getElem?_eq_none h.ge]
    rfl
  cases d with
  | newClass name superclass =>
    refine Eq.trans ?_ (List.append_nil _).symm
    by_cases h : c.index = r.classes.size
    · rw [hbeyond h]
      simp [propertiesOf, define, defineClass, h]
    · simp [propertiesOf, define, defineClass, Array.getElem?_push, h]
  | newEnum name constants =>
    refine Eq.trans ?_ (List.append_nil _).symm
    by_cases h : c.index = r.classes.size
    · rw [hbeyond h]
      simp [propertiesOf, define, getElem?_defineEnum, h]
    · simp [propertiesOf, define, getElem?_defineEnum, h]
  | property cls name ty flags =>
    simp only [propertiesOf, define, addProperty, declaredProperty?, Array.getElem?_modify]
    by_cases hc : cls = c
    · subst hc
      by_cases hlt : cls.index < r.classes.size
      · simp [hlt]
      · simp [hlt]
    · have hne : cls.index ≠ c.index := fun h ↦ hc (by cases cls; cases c; cases h; rfl)
      simp [hc, hne]
  | member => exact (List.append_nil _).symm

theorem members_define (r : Registry) (d : Definition) :
    (r.define d).members = r.members ++ (r.declaredMember? d).toList := by
  cases d with
  | newClass | property => exact (List.append_nil _).symm
  | newEnum name constants =>
    rw [members, define, methods_defineEnum]
    exact (List.append_nil _).symm
  | member => simp [members, define, addMember, declaredMember?]

theorem propertiesOf_defineAll (r : Registry) (ds : List Definition) (c : ClassId) :
    (r.defineAll ds).propertiesOf c = r.propertiesOf c ++ log (declaredProperty? · c) r ds := by
  induction ds generalizing r with
  | nil => exact (List.append_nil _).symm
  | cons d ds ih =>
    rw [log, ← List.append_assoc, ← propertiesOf_define]
    exact ih (r.define d)

theorem members_defineAll (r : Registry) (ds : List Definition) :
    (r.defineAll ds).members = r.members ++ log declaredMember? r ds := by
  induction ds generalizing r with
  | nil => exact (List.append_nil _).symm
  | cons d ds ih =>
    rw [log, ← List.append_assoc, ← members_define]
    exact ih (r.define d)

/-- Superclasses are older than their subclasses. -/
def Founded (r : Registry) : Prop := ∀ c s, r.superclass? c = some s → s.index < c.index

theorem Founded.define (h : r.Founded) (hd : ∀ s ∈ d.superclass?, s.index < r.classes.size) :
    (r.define d).Founded := by
  intro c s hs
  rw [superclass?_define] at hs
  split at hs
  · next hc => exact hc ▸ hd s hs
  · exact h c s hs

theorem Founded.defineAll {returned : List ClassId} {ds : List Definition} (h : r.Founded)
    (hr : ∀ s ∈ returned, s.index < r.classes.size) (hds : Sequenced r returned ds) :
    (r.defineAll ds).Founded := by
  induction ds generalizing r returned with
  | nil => exact h
  | cons d ds ih =>
    refine ih (h.define fun s hs ↦ hr s (hds.1 s hs)) (fun s hs ↦ ?_) hds.2
    rcases List.mem_append.mp hs with hs | hs
    · exact (hr s hs).trans_le (size_le_define r d)
    · obtain ⟨rfl, hsize⟩ := handle?_eq (Option.mem_toList.mp hs)
      rw [hsize]
      exact Nat.lt_succ_self _

/-- The superclasses of a class come to an end, and these are they. -/
inductive Walk (r : Registry) : ClassId → List ClassId → Prop
  | root {c : ClassId} (h : r.superclass? c = none) : Walk r c []
  | up {c s : ClassId} {cs : List ClassId} (h : r.superclass? c = some s) (hw : Walk r s cs) :
      Walk r c (s :: cs)

namespace Walk

variable {cs : List ClassId}

theorem length_le (h : r.Walk c cs) (hr : r.Founded) : cs.length ≤ c.index := by
  induction h with
  | root => exact Nat.zero_le _
  | up hs _ ih => exact ih.trans_lt (hr _ _ hs)

theorem ancestorsWithin_eq (h : r.Walk c cs) {fuel : Nat} (hfuel : cs.length ≤ fuel) :
    r.ancestorsWithin fuel c = cs := by
  induction h generalizing fuel with
  | root hc => cases fuel <;> simp [ancestorsWithin, hc]
  | up hs _ ih =>
    obtain ⟨fuel, rfl⟩ : ∃ n, fuel = n + 1 := ⟨fuel - 1, by simp at hfuel; omega⟩
    rw [ancestorsWithin, hs]
    exact congrArg (_ :: ·) (ih (Nat.le_of_succ_le_succ hfuel))

/-- The bound on the ancestors does not cut a walk short. -/
theorem ancestors_eq (h : r.Walk c cs) (hr : r.Founded) : r.ancestors c = cs := by
  refine h.ancestorsWithin_eq ?_
  cases h with
  | root => exact Nat.zero_le _
  | @up _ _ cs hs hw =>
    have hlt := index_lt_of_superclass? (Option.isSome_of_eq_some hs)
    have hle := (Walk.up hs hw).length_le hr
    omega

end Walk

theorem Founded.exists_walk (h : r.Founded) (c : ClassId) : ∃ cs, r.Walk c cs := by
  induction hn : c.index using Nat.strong_induction_on generalizing c with
  | _ n ih =>
    cases hs : r.superclass? c with
    | none => exact ⟨[], .root hs⟩
    | some s =>
      obtain ⟨cs, hw⟩ := ih s.index (hn ▸ h c s hs) s rfl
      exact ⟨s :: cs, .up hs hw⟩

theorem isAssignable_iff {s t : Ty} : r.model.isAssignable s t ↔
    s = t ∨ (s = .null ∧ t.isReference) ∨ (s.isReference ∧ t = .object) ∨
      ∃ c d, s = .class c ∧ t = .class d ∧ r.model.isSubclass c d := by
  unfold TypeModel.isAssignable
  rw [Bool.or_eq_true, beq_iff_eq]
  refine or_congr_right ?_
  cases s <;> cases t <;> simp [Ty.isReference]

theorem isAssignable_trans {s t u : Ty} (h : r.model.isAssignable s t)
    (h' : r.model.isAssignable t u) : r.model.isAssignable s u := by
  rw [isAssignable_iff] at h h' ⊢
  rcases h with rfl | ⟨rfl, ht⟩ | ⟨hs, rfl⟩ | ⟨c, d, rfl, rfl, hcd⟩
  · exact h'
  · have hu : u.isReference := by
      rcases h' with rfl | ⟨-, hu⟩ | ⟨-, rfl⟩ | ⟨c, d, -, rfl, -⟩
      · exact ht
      · exact hu
      · rfl
      · rfl
    exact .inr (.inl ⟨rfl, hu⟩)
  · have hu : u = .object := by
      rcases h' with rfl | ⟨heq, -⟩ | ⟨-, hu⟩ | ⟨c, d, heq, -⟩
      · rfl
      · cases heq
      · exact hu
      · cases heq
    exact .inr (.inr (.inl ⟨hs, hu⟩))
  · rcases h' with rfl | ⟨heq, -⟩ | ⟨-, rfl⟩ | ⟨d, e, heq, rfl, hde⟩
    · exact .inr (.inr (.inr ⟨c, d, rfl, rfl, hcd⟩))
    · cases heq
    · exact .inr (.inr (.inl ⟨rfl, rfl⟩))
    · cases heq
      exact .inr (.inr (.inr ⟨c, e, rfl, rfl, isSubclass_trans hcd hde⟩))

section Search

variable {m q : MethodInfo} {ms found : List MethodInfo} {p : MethodInfo → Bool} {ps : List Ty}

/-- A method is taken if it is sought, unless one with its parameters is there. -/
def take (p : MethodInfo → Bool) (found : List MethodInfo) (m : MethodInfo) : List MethodInfo :=
  if p m && !found.any (·.params == m.params) then found ++ [m] else found

/-- The first method of a list with its parameters, among those that are sought. -/
def First (p : MethodInfo → Bool) (ms : List MethodInfo) (m : MethodInfo) : Prop :=
  ∃ before after, ms = before ++ m :: after ∧ p m ∧ ∀ q ∈ before, p q → q.params ≠ m.params

theorem first_concat : First p (ms ++ [q]) m ↔
    First p ms m ∨ (q = m ∧ p m ∧ ∀ q ∈ ms, p q → q.params ≠ m.params) :=
  exists_split_concat

theorem mem_take : m ∈ take p found q ↔
    m ∈ found ∨ (q = m ∧ p m ∧ ∀ f ∈ found, f.params ≠ m.params) := by
  unfold take
  split
  · next h =>
    simp only [Bool.and_eq_true, Bool.not_eq_true', List.any_eq_false, beq_iff_eq] at h
    rw [List.mem_append, List.mem_singleton]
    refine or_congr_right ⟨?_, fun hm ↦ hm.1.symm⟩
    rintro rfl
    exact ⟨rfl, h⟩
  · next h =>
    refine ⟨.inl, fun hm ↦ hm.resolve_right ?_⟩
    rintro ⟨rfl, hp, hf⟩
    simp only [Bool.and_eq_true, Bool.not_eq_true', List.any_eq_false, beq_iff_eq] at h
    exact h ⟨hp, hf⟩

theorem exists_params_take : (∃ f ∈ take p found q, f.params = ps) ↔
    (∃ f ∈ found, f.params = ps) ∨ (p q ∧ q.params = ps) := by
  constructor
  · rintro ⟨f, hf, rfl⟩
    rcases mem_take.mp hf with hf | ⟨rfl, hp, -⟩
    · exact .inl ⟨f, hf, rfl⟩
    · exact .inr ⟨hp, rfl⟩
  · rintro (⟨f, hf, rfl⟩ | ⟨hp, rfl⟩)
    · exact ⟨f, mem_take.mpr (.inl hf), rfl⟩
    · by_cases h : ∃ f ∈ found, f.params = q.params
      · obtain ⟨f, hf, heq⟩ := h
        exact ⟨f, mem_take.mpr (.inl hf), heq⟩
      · exact ⟨q, mem_take.mpr (.inr ⟨rfl, hp, fun f hf heq ↦ h ⟨f, hf, heq⟩⟩), rfl⟩

theorem pairwise_take (h : found.Pairwise (·.params ≠ ·.params)) :
    (take p found q).Pairwise (·.params ≠ ·.params) := by
  unfold take
  split
  · next hq =>
    simp only [Bool.and_eq_true, Bool.not_eq_true', List.any_eq_false, beq_iff_eq] at hq
    exact List.pairwise_append.mpr ⟨h, List.pairwise_singleton .., fun f hf m hm ↦
      List.mem_singleton.mp hm ▸ hq.2 f hf⟩
  · exact h

theorem pairwise_foldl_take (h : found.Pairwise (·.params ≠ ·.params)) :
    (ms.foldl (take p) found).Pairwise (·.params ≠ ·.params) := by
  induction ms generalizing found with
  | nil => exact h
  | cons q ms ih => exact ih (pairwise_take h)

theorem exists_params_foldl_take : (∃ f ∈ ms.foldl (take p) found, f.params = ps) ↔
    (∃ f ∈ found, f.params = ps) ∨ ∃ q ∈ ms, p q ∧ q.params = ps := by
  induction ms generalizing found with
  | nil => simp
  | cons q ms ih => rw [List.foldl_cons, ih, exists_params_take]; simp [or_assoc]

theorem mem_foldl_take : m ∈ ms.foldl (take p) found ↔
    m ∈ found ∨ (First p ms m ∧ ∀ f ∈ found, f.params ≠ m.params) := by
  induction ms using List.reverseRecOn with
  | nil => simp [First]
  | append_singleton ms q ih =>
    have hnone : (∀ f ∈ ms.foldl (take p) found, f.params ≠ m.params) ↔
        (∀ q ∈ ms, p q → q.params ≠ m.params) ∧ ∀ f ∈ found, f.params ≠ m.params := by
      have h := not_congr (@exists_params_foldl_take ms found p m.params)
      rw [or_comm] at h
      simpa only [not_exists, not_and, not_or] using h
    rw [List.foldl_append, List.foldl_cons, List.foldl_nil, mem_take, ih, hnone, first_concat,
      or_assoc, or_and_right, and_assoc, and_assoc]

end Search

def Matches (name : String) (arity : Nat) (static : Bool) (m : MethodInfo) : Bool :=
  m.name == name && m.arity == arity && m.flags.static == static

/-- What a look-up asks an owner for. -/
def Sought (owner : Ty) (name : String) (arity : Nat) (static : Bool) (m : MethodInfo) : Bool :=
  m.owner == owner && Matches name arity static m

section Find

variable {name : String} {arity : Nat} {static : Bool} {found : List MethodInfo} {m : MethodInfo}
  {owners : List Ty} {ps : List Ty}

theorem sought_iff {owner : Ty} :
    Sought owner name arity static m ↔ m.owner = owner ∧ Matches name arity static m := by
  rw [Sought, Bool.and_eq_true, beq_iff_eq]

theorem addMethodsOf_eq (owner : Ty) : r.addMethodsOf name arity static found owner =
    r.members.foldl (take (Sought owner name arity static)) found := by
  rw [members, List.foldl_map, Array.foldl_toList]
  simp only [addMethodsOf, take, Sought, Matches, Bool.and_assoc]

theorem findMethods_concat (owner : Ty) : r.findMethods (owners ++ [owner]) name arity static =
    r.members.foldl (take (Sought owner name arity static))
      (r.findMethods owners name arity static) := by
  rw [findMethods, List.foldl_append, List.foldl_cons, List.foldl_nil, addMethodsOf_eq, findMethods]

theorem pairwise_findMethods :
    (r.findMethods owners name arity static).Pairwise (·.params ≠ ·.params) := by
  induction owners using List.reverseRecOn with
  | nil => exact .nil
  | append_singleton owners owner ih => exact findMethods_concat owner ▸ pairwise_foldl_take ih

/-- The parameters that are found are those that some owner declares. -/
theorem exists_params_findMethods :
    (∃ f ∈ r.findMethods owners name arity static, f.params = ps) ↔
      ∃ q ∈ r.members, q.owner ∈ owners ∧ Matches name arity static q ∧ q.params = ps := by
  induction owners using List.reverseRecOn with
  | nil => simp [findMethods]
  | append_singleton owners owner ih =>
    rw [findMethods_concat, exists_params_foldl_take, ih, ← exists_or]
    refine exists_congr fun q ↦ ?_
    rw [sought_iff, List.mem_append, List.mem_singleton, and_assoc, ← and_or_left, ← or_and_right]

/-- The methods that are found are the first declarations of the nearest owners. -/
theorem mem_findMethods_iff : m ∈ r.findMethods owners name arity static ↔
    First (Sought m.owner name arity static) r.members m ∧ ∃ nearer farther,
      owners = nearer ++ m.owner :: farther ∧
        ∀ q ∈ r.members, Matches name arity static q → q.params = m.params → q.owner ∉ nearer := by
  induction owners using List.reverseRecOn with
  | nil => simp [findMethods]
  | append_singleton owners owner ih =>
    have hnone : (∀ f ∈ r.findMethods owners name arity static, f.params ≠ m.params) ↔
        ∀ q ∈ r.members, Matches name arity static q → q.params = m.params → q.owner ∉ owners := by
      have h := not_congr (@exists_params_findMethods r name arity static owners m.params)
      simp only [not_exists, not_and] at h
      rw [h]
      exact forall₂_congr fun q _ ↦
        ⟨fun h hmatch heq howner ↦ h howner hmatch heq,
          fun h howner hmatch heq ↦ h hmatch heq howner⟩
    have howner (hfirst : First (Sought owner name arity static) r.members m) :
        m.owner = owner := by
      obtain ⟨-, -, -, hm, -⟩ := hfirst
      exact (sought_iff.mp hm).1
    rw [findMethods_concat, mem_foldl_take, ih, hnone, exists_split_concat, and_or_left]
    refine or_congr_right ⟨?_, ?_⟩
    · rintro ⟨hfirst, h⟩
      obtain rfl := howner hfirst
      exact ⟨hfirst, rfl, h⟩
    · rintro ⟨hfirst, rfl, h⟩
      exact ⟨hfirst, h⟩

end Find

theorem propertyOf?_class (name : String) (c : ClassId) :
    r.propertyOf? name (.class c) = (r.propertiesOf c).find? (·.name == name) := by
  rw [propertyOf?, propertiesOf]
  cases r.classes[c.index]? <;> rfl

/-- The property that is found is the first declaration of the nearest class that has one. -/
theorem property_eq_some_iff {owner : Ty} {name : String} {p : PropertyInfo} :
    r.model.property owner name = some p ↔ ∃ (nearer : List Ty) (c : ClassId) (farther : List Ty),
      r.lineage owner = nearer ++ .class c :: farther ∧
      (∀ d, .class d ∈ nearer → ∀ q ∈ r.propertiesOf d, q.name ≠ name) ∧
      ∃ before after, r.propertiesOf c = before ++ p :: after ∧ p.name = name ∧
        ∀ q ∈ before, q.name ≠ name := by
  have hfind (c : ClassId) : r.propertyOf? name (.class c) = some p ↔
      ∃ before after, r.propertiesOf c = before ++ p :: after ∧ p.name = name ∧
        ∀ q ∈ before, q.name ≠ name := by
    rw [propertyOf?_class, List.find?_eq_some_iff_append]
    simp only [beq_iff_eq, Bool.not_eq_true', beq_eq_false_iff_ne]
    tauto
  have hnone (t : Ty) : r.propertyOf? name t = none ↔
      ∀ d, .class d = t → ∀ q ∈ r.propertiesOf d, q.name ≠ name := by
    cases t with
    | «class» c => simp [propertyOf?_class]
    | _ => simp [propertyOf?]
  show (r.lineage owner).findSome? (r.propertyOf? name) = some p ↔ _
  rw [List.findSome?_eq_some_iff]
  constructor
  · rintro ⟨nearer, t, farther, heq, hp, hnearer⟩
    cases t with
    | «class» c =>
      refine ⟨nearer, c, farther, heq, fun d hd ↦ ?_, (hfind c).mp hp⟩
      exact (hnone _).mp (hnearer _ hd) d rfl
    | _ => cases hp
  · rintro ⟨nearer, c, farther, heq, hnearer, hp⟩
    refine ⟨nearer, .class c, farther, heq, (hfind c).mpr hp, fun t ht ↦ (hnone t).mpr ?_⟩
    rintro d rfl
    exact hnearer d ht

/-- The properties that definitions declare for a class, in this order. -/
def declaredProperties (ds : List Definition) (c : ClassId) : List PropertyInfo :=
  log (declaredProperty? · c) standard ds

/-- The members that are built in and those that definitions declare behind them. -/
def declaredMembers (ds : List Definition) : List MethodInfo :=
  standard.members ++ log declaredMember? standard ds

/-- Look-ups follow the lineage. Let definitions add to the standard registry, whose one class is
the first, and let every superclass be one that an earlier definition returned. Then the
superclasses of every class come to an end, and the lineage and the subclass test go along all of
them; what is assignable is a preorder; the property that is found is the first declaration in the
nearest class that has one; and the instance methods that are found are, for every list of
parameters that some type of the lineage declares, the earliest declaration of the nearest such
type. -/
theorem lookup_follows_lineage (ds : List Definition) (h : Sequenced standard [⟨0⟩] ds) :
    let r := standard.defineAll ds
    (∀ c, ∃ cs, r.Walk c cs ∧ r.lineage (.class c) = (c :: cs).map .class ++ [.object] ∧
      ∀ d, r.model.isSubclass c d ↔ d ∈ c :: cs) ∧
    (∀ t, r.model.isAssignable t t) ∧
    (∀ s t u, r.model.isAssignable s t → r.model.isAssignable t u → r.model.isAssignable s u) ∧
    (∀ owner name p, r.model.property owner name = some p ↔ ∃ nearer c farther,
      r.lineage owner = nearer ++ .class c :: farther ∧
      (∀ d, .class d ∈ nearer → ∀ q ∈ declaredProperties ds d, q.name ≠ name) ∧
      ∃ before after, declaredProperties ds c = before ++ p :: after ∧ p.name = name ∧
        ∀ q ∈ before, q.name ≠ name) ∧
    ∀ owner name arity, (r.model.methods owner name arity).Pairwise (·.params ≠ ·.params) ∧
      (∀ q ∈ declaredMembers ds, q.owner ∈ r.lineage owner → Matches name arity false q →
        ∃ m ∈ r.model.methods owner name arity, m.params = q.params) ∧
      ∀ m, m ∈ r.model.methods owner name arity ↔
        First (Sought m.owner name arity false) (declaredMembers ds) m ∧ ∃ nearer farther,
          r.lineage owner = nearer ++ m.owner :: farther ∧
          ∀ q ∈ declaredMembers ds, Matches name arity false q → q.params = m.params →
            q.owner ∉ nearer := by
  intro r
  have hmembers : r.members = declaredMembers ds := members_defineAll standard ds
  have hdeclared (c : ClassId) : r.propertiesOf c = declaredProperties ds c := by
    have hnone : standard.propertiesOf c = [] := by
      obtain ⟨_ | i⟩ := c <;> rfl
    rw [propertiesOf_defineAll, hnone, List.nil_append, declaredProperties]
  have hfounded : r.Founded := by
    refine Founded.defineAll (fun c s hs ↦ ?_) (fun s hs ↦ ?_) h
    · obtain ⟨_ | i⟩ := c <;> cases hs
    · rw [List.mem_singleton.mp hs]
      exact Nat.one_pos
  refine ⟨fun c ↦ ?_, r.model.isAssignable_refl, fun s t u ↦ isAssignable_trans,
    fun owner name p ↦ ?_, fun owner name arity ↦
      ⟨pairwise_findMethods, fun q hq howner hmatch ↦ ?_, fun m ↦ ?_⟩⟩
  · obtain ⟨cs, hw⟩ := hfounded.exists_walk c
    have hcs := hw.ancestors_eq hfounded
    refine ⟨cs, hw, ?_, fun d ↦ ?_⟩
    · rw [lineage, hcs]
      rfl
    · rw [TypeModel.isSubclass, Bool.or_eq_true, beq_iff_eq, List.contains_iff_mem, List.mem_cons,
        eq_comm]
      exact or_congr_right (hcs ▸ Iff.rfl)
  · simp only [property_eq_some_iff, hdeclared]
  · exact exists_params_findMethods.mpr ⟨q, hmembers ▸ hq, howner, hmatch, rfl⟩
  · exact hmembers ▸ mem_findMethods_iff

/-- A class between two others that declares a property anew when there is a class below it. -/
def shapes : List Definition :=
  [.newClass "Shape" none, .property ⟨1⟩ "name" .str {}, .newClass "Round" (some ⟨1⟩),
    .newClass "Disc" (some ⟨2⟩), .property ⟨2⟩ "name" .object {}]

theorem lookup_follows_lineage_shapes : Sequenced standard [⟨0⟩] shapes ∧
    (standard.defineAll shapes).model.property (.class ⟨3⟩) "name" =
      some ⟨.class ⟨2⟩, "name", .object, {}⟩ := by
  have hs : Sequenced standard [⟨0⟩] shapes := by decide +kernel
  have hlineage : (standard.defineAll shapes).lineage (.class ⟨3⟩) =
      [.class ⟨3⟩] ++ .class ⟨2⟩ :: [.class ⟨1⟩, .object] := by decide +kernel
  have hdeclared : declaredProperties shapes ⟨2⟩ =
      [] ++ ⟨.class ⟨2⟩, "name", .object, {}⟩ :: [] := by decide +kernel
  have hnone : declaredProperties shapes ⟨3⟩ = [] := by decide +kernel
  have hnearer (d : ClassId) (hd : Ty.class d ∈ [Ty.class ⟨3⟩]) :
      ∀ q ∈ declaredProperties shapes d, q.name ≠ "name" := by
    rw [Ty.class.inj (List.mem_singleton.mp hd), hnone]
    exact List.forall_mem_nil _
  obtain ⟨-, -, -, hproperty, -⟩ := lookup_follows_lineage shapes hs
  exact ⟨hs, (hproperty _ _ _).mpr ⟨_, _, _, hlineage, hnearer, _, _, hdeclared, rfl,
    List.forall_mem_nil _⟩⟩

end LiveBinding.Registry
