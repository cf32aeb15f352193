import LiveBinding.Proofs.Rendering
import Mathlib.Data.List.Basic
import Mathlib.Logic.Function.Basic

namespace LiveBinding

/-- What a computation comes to: the host methods it calls, and how it ends. -/
structure Effect (α : Type) where
  calls : List Call
  result : Except Stop α

namespace Effect

variable {α β : Type}

instance : Monad Effect where
  pure a := ⟨[], .ok a⟩
  bind x f :=
    match x.result with
    | .ok a => ⟨x.calls ++ (f a).calls, (f a).result⟩
    | .error e => ⟨x.calls, .error e⟩

/-- A computation without calls. -/
def of (x : Except Stop α) : Effect α := ⟨[], x⟩

def fail (e : RuntimeError) : Effect α := ⟨[], .error (.error e)⟩

theorem bind_of_ok {x : Effect α} {a : α} (f : α → Effect β) (h : x.result = .ok a) :
    x >>= f = ⟨x.calls ++ (f a).calls, (f a).result⟩ := by
  simp only [bind, h]

theorem bind_of_error {x : Effect α} {e : Stop} (f : α → Effect β) (h : x.result = .error e) :
    x >>= f = ⟨x.calls, .error e⟩ := by
  simp only [bind, h]

instance : LawfulMonad Effect := .mk' _
  (by
    intro α x
    rcases x with ⟨calls, e | a⟩
    · rfl
    · simp only [Functor.map, Function.comp, List.append_nil, id])
  (fun _ _ ↦ rfl)
  (by
    intro α β γ x f g
    rcases x with ⟨calls, e | a⟩
    · rfl
    · cases hf : (f a).result with
      | error e => simp only [bind, hf]
      | ok b => simp only [bind, hf, List.append_assoc])

theorem map_of_ok {x : Effect α} {a : α} (f : α → β) (h : x.result = .ok a) :
    f <$> x = ⟨x.calls, .ok (f a)⟩ := by
  rw [map_eq_pure_bind, bind_of_ok _ h]
  simp only [pure, List.append_nil]

theorem map_of_error {x : Effect α} {e : Stop} (f : α → β) (h : x.result = .error e) :
    f <$> x = ⟨x.calls, .error e⟩ := by
  rw [map_eq_pure_bind, bind_of_error _ h]

theorem result_bind_eq_ok {x : Effect α} {f : α → Effect β} {b : β} :
    (x >>= f).result = .ok b ↔ ∃ a, x.result = .ok a ∧ (f a).result = .ok b := by
  cases h : x.result with
  | error e => simp [bind_of_error f h]
  | ok a => simp [bind_of_ok f h]

theorem result_map (f : α → β) (x : Effect α) : (f <$> x).result = f <$> x.result := by
  cases h : x.result with
  | error e => rw [map_of_error f h]; rfl
  | ok a => rw [map_of_ok f h]; rfl

/-- How a computation goes on depends only on how it ended. -/
theorem result_bind_congr {x y : Effect α} (f : α → Effect β) (h : x.result = y.result) :
    (x >>= f).result = (y >>= f).result := by
  cases hy : y.result with
  | error e => rw [bind_of_error f (h.trans hy), bind_of_error f hy]
  | ok a => rw [bind_of_ok f (h.trans hy), bind_of_ok f hy]

end Effect

/-- A place in the storage of a binding, its counters apart. -/
inductive Loc where
  | slot (n : Nat)
  | flag (n : Nat)
deriving DecidableEq

/-- What a binding keeps in its storage. A flag is kept as a boolean. -/
abbrev Store := Loc → Value

def SavePoint.loc (p : SavePoint) : Loc := .slot p.handle

namespace Store

def clear (ps : List SavePoint) (st : Store) : Store := fun l ↦
  if l ∈ ps.map SavePoint.loc then .null else st l

/-- One store at some places and another one elsewhere. -/
def mix (D : List Loc) (inside outside : Store) : Store := fun l ↦
  if l ∈ D then inside l else outside l

def isSet (st : Store) (flag : Nat) : Bool := st (.flag flag) == .bool true

end Store

/-- The stack and the storage. -/
structure Config where
  stack : List Value
  store : Store

/-- What code reads of the host. A strict reading takes a property only of an object that is alone
on the stack. -/
structure Reading where
  registry : Registry
  locals : List Value := []
  captures : Array Value := #[]
  text : Value → Except Stop String
  property : ObjectId → String → Except Stop Value
  cell : ObjectId → String → Except Stop CellId
  peek : CellId → Except Stop Value
  value : CellId → Value
  answer : MethodId → List Value → Except Stop Value
  strict : Bool := false

def Stop.raise {α : Type} (x : Except RuntimeError α) : Except Stop α := x.mapError .error

def Stop.fault {α : Type} (message : String) : Option α → Except Stop α
  | some a => .ok a
  | none => .error (.error (.fault message))

namespace Value

/-- The object of which a property is read. -/
def receiver (property : String) : Value → Except Stop ObjectId
  | .object o => .ok o
  | .null => .error (.error (.nullReference ("read of " ++ Problem.tick property)))
  | v => Stop.raise (v.mismatch "object")

/-- The text that an operation needs. -/
def parsed (operation : String) : Value → Except Stop String
  | .str s => .ok s
  | .null => .error (.error (.nullReference operation))
  | v => Stop.raise (v.mismatch "String")

end Value

namespace Reading

open Stop

variable (rd : Reading)

/-- What an instruction that calls no method does to the stack. -/
def simple : Op → List Value → Except Stop (List Value)
  | .pushNull, σ => .ok (.null :: σ)
  | .pushBool b, σ => .ok (.bool b :: σ)
  | .pushInt n, σ => .ok (.int n :: σ)
  | .pushLong n, σ => .ok (.long n :: σ)
  | .pushFloat x, σ => .ok (.float x :: σ)
  | .pushDouble x, σ => .ok (.double x :: σ)
  | .pushChar c, σ => .ok (.char c :: σ)
  | .pushStr s, σ => .ok (.str s :: σ)
  | .loadLocal n, σ => (· :: σ) <$> fault "local slot out of range" rd.locals[n]?
  | .loadCapture n, σ => (· :: σ) <$> fault "capture slot out of range" rd.captures[n]?
  | .dup, v :: σ => .ok (v :: v :: σ)
  | .pop, _ :: σ => .ok σ
  | .swap, b :: a :: σ => .ok (a :: b :: σ)
  | .getProperty p, v :: σ => do
    let o ← v.receiver p
    (· :: σ) <$> rd.property o p
  | .getObservable p, v :: σ => do
    let o ← v.receiver p
    (.cell · :: σ) <$> rd.cell o p
  | .observableValue, .cell c :: σ => (· :: σ) <$> rd.peek c
  | .observableValue, .null :: _ => .error (.error (.nullReference "observable read"))
  | .observableValue, v :: _ => raise (v.mismatch "observable")
  | .getStatic f, σ => (· :: σ) <$> raise (rd.registry.staticValue f)
  | .charAt, i :: σ => do
    let n ← raise i.toInt
    match σ with
    | t :: σ => do
      let s ← t.parsed "string index"
      (fun c ↦ .str (String.singleton c) :: σ) <$> raise (Builtin.charAt s n)
    | [] => .error (.error .underflow)
  | .arith op kind, b :: a :: σ => (· :: σ) <$> raise (a.arith op kind b)
  | .neg kind, a :: σ => (· :: σ) <$> raise (a.negate kind)
  | .cmp op kind, b :: a :: σ => (.bool · :: σ) <$> raise (a.compare op kind b)
  | .refEq, b :: a :: σ => .ok (.bool (a.same b) :: σ)
  | .not, a :: σ => (fun b ↦ .bool (!b) :: σ) <$> raise a.toBool
  | .concat, b :: a :: σ => do
    let s ← rd.text a
    let t ← rd.text b
    .ok (.str (s ++ t) :: σ)
  | .convert _ target, a :: σ => (· :: σ) <$> raise (a.convert target)
  | .box _, σ => .ok σ
  | .unbox kind, σ =>
    if (σ.head?.map Value.isNull).getD false then
      .error (.error (.nullReference ("unboxing to " ++ kind.name)))
    else .ok σ
  | .parseNumber kind, v :: σ => do
    let s ← v.parsed "number parse"
    (· :: σ) <$> raise (Value.parse s kind)
  | .parseBool, v :: σ =>
    (fun s ↦ .bool (Literal.equalsIgnoringCase s "true") :: σ) <$> v.parsed "boolean parse"
  | .parseChar, v :: σ => do
    let s ← v.parsed "char parse"
    match s.toList with
    | [c] => .ok (.char c :: σ)
    | _ => .error (.error (.numberFormat s Prim.char.name))
  | .toStr, a :: σ => (.str · :: σ) <$> rd.text a
  | .enumValueOf c, v :: σ => do
    let s ← v.parsed "enum lookup"
    (· :: σ) <$> raise (rd.registry.enumValueOf c s)
  | .fault message, _ => .error (.error (.fault message))
  | _, _ => .error (.error .underflow)

def call (m : MethodId) (args : List Value) : Effect Value :=
  ⟨[⟨m, args, rd.answer m args⟩], rd.answer m args⟩

/-- What an instruction that does not use the storage does to the stack. -/
def op : Op → List Value → Effect (List Value)
  | .invoke m argc, σ =>
    if σ.length < argc then .fail .underflow
    else
      match σ.drop argc with
      | [] => .fail .underflow
      | receiver :: rest =>
        if receiver.isNull then
          .fail (.nullReference ("call of " ++ Problem.tick (rd.registry.methodName m)))
        else (· :: rest) <$> rd.call m (receiver :: (σ.take argc).reverse)
  | .invokeStatic m argc, σ | .construct m argc, σ =>
    if σ.length < argc then .fail .underflow
    else (· :: σ.drop argc) <$> rd.call m (σ.take argc).reverse
  | op, σ => .of (rd.simple op σ)

def ordinary : Op → Config → Effect Config
  | .loadScratch n, c => pure ⟨c.store (.slot n) :: c.stack, c.store⟩
  | .storeScratch n, ⟨v :: σ, st⟩ => pure ⟨σ, Function.update st (.slot n) v⟩
  | .storeScratch _, ⟨[], _⟩ => .fail .underflow
  | op, c => (⟨·, c.store⟩) <$> rd.op op c.stack

def all : List Op → Config → Effect Config
  | [], c => pure c
  | op :: list, c => rd.ordinary op c >>= all list

/-- Listens to a property of the object on top and reads it. -/
def observe (property : String) (p : SavePoint) : Config → Effect Config
  | ⟨[], _⟩ => .fail .underflow
  | ⟨v :: σ, st⟩ =>
    if rd.strict && !σ.isEmpty then .of (.error .exhausted)
    else
      .of do
        let o ← v.receiver property
        let c ← rd.cell o property
        .ok ⟨rd.value c :: σ, Function.update st p.loc (.cell c)⟩

/-- Reads the cell that a point listens to. -/
def reread (p : SavePoint) (c : Config) : Effect Config :=
  match c.store p.loc with
  | .cell d => pure ⟨rd.value d :: c.stack, c.store⟩
  | .null => .fail (.nullReference "observable read")
  | v => .of (raise (v.mismatch "observable"))

end Reading

/-- The left operand of `&&` or `||` decides. -/
def BinaryOp.skips (op : BinaryOp) (left : Bool) : Bool := if op = .and then !left else left

namespace Config

def fork (op : BinaryOp) (decided undecided : Config → Effect Config) : Config → Effect Config
  | ⟨[], _⟩ => .fail .underflow
  | ⟨v :: σ, st⟩ => do
    let b ← Effect.of (Stop.raise v.toBool)
    if op.skips b then decided ⟨v :: σ, st⟩ else undecided ⟨σ, st⟩

def setFlag (flag : Nat) (value : Bool) (c : Config) : Config :=
  ⟨c.stack, Function.update c.store (.flag flag) (.bool value)⟩

/-- Skips a right operand. -/
def skip (flag : Nat) (ps : List SavePoint) (c : Config) : Config :=
  ⟨c.stack, ((c.setFlag flag false).store).clear ps⟩

end Config

namespace Fragment

open Config

variable (rd : Reading)

/-- The meaning of a fragment. -/
def den : Fragment → Config → Effect Config
  | ops list, c => rd.all list c
  | append f g, c => den f c >>= den g
  | nullGuard _ _, ⟨[], _⟩ => .fail .underflow
  | nullGuard f g, ⟨v :: σ, st⟩ => if v.isNull then den g ⟨σ, st⟩ else den f ⟨v :: σ, st⟩
  | shortCircuit op f g, c => den f c >>= fork op pure (den g)
  | flagTest flag, c => pure ⟨c.store (.flag flag) :: c.stack, c.store⟩
  | flagAssign flag value, c => pure (c.setFlag flag value)
  | observe property p, c => rd.observe property p c
  | branch op f g flag _ ps, c =>
    den f c >>= fork op (fun c ↦ pure (c.skip flag ps)) (fun c ↦ den g (c.setFlag flag true))

/-- The meaning of what is left of a fragment from the point of a step on. -/
def denFrom (k : Nat) : Fragment → Config → Effect Config
  | ops _, c | flagTest _, c | flagAssign .., c => pure c
  | append f g, c => if k ∈ f.steps then denFrom k f c >>= den rd g else denFrom k g c
  | nullGuard f g, c => if k ∈ f.steps then denFrom k f c else denFrom k g c
  | shortCircuit op f g, c =>
    if k ∈ f.steps then denFrom k f c >>= fork op pure (den rd g) else denFrom k g c
  | observe _ p, c => rd.reread p c
  | branch op f g flag _ ps, c =>
    if k ∈ f.steps then
      denFrom k f c >>=
        fork op (fun c ↦ pure (c.skip flag ps)) (fun c ↦ den rd g (c.setFlag flag true))
    else denFrom k g c

/-- The slots that some instructions load. -/
def loadsOf (list : List Op) : List Nat := list.filterMap fun
  | .loadScratch n => some n
  | _ => none

/-- The places of a fragment, of which an instruction has those that `of` gives. -/
def locs (of : List Op → List Nat) : Fragment → List Loc
  | ops list => (of list).map .slot
  | append f g | nullGuard f g | shortCircuit _ f g => locs of f ++ locs of g
  | flagTest flag | flagAssign flag _ => [.flag flag]
  | observe _ p => [p.loc]
  | branch _ f g flag _ ps => locs of f ++ (.flag flag :: ps.map SavePoint.loc ++ locs of g)

/-- The places that a fragment writes to. -/
def writes : Fragment → List Loc := locs storesOf

/-- The places that a fragment reads or writes to. -/
def touched : Fragment → List Loc := locs fun list ↦ storesOf list ++ loadsOf list

/-- The places that a fragment writes to from the point of a step on. -/
def writesFrom (k : Nat) : Fragment → List Loc
  | ops _ | flagTest _ | flagAssign .. | observe .. => []
  | append f g | shortCircuit _ f g =>
    if k ∈ f.steps then writesFrom k f ++ writes g else writesFrom k g
  | nullGuard f g => if k ∈ f.steps then writesFrom k f else writesFrom k g
  | branch _ f g flag _ ps =>
    if k ∈ f.steps then writesFrom k f ++ (.flag flag :: ps.map SavePoint.loc ++ writes g)
    else writesFrom k g

end Fragment

namespace Store

variable {D : List Loc} {x st : Store}

theorem mix_update {l : Loc} (h : l ∉ D) (v : Value) :
    x.mix D (Function.update st l v) = Function.update (x.mix D st) l v := by
  funext k
  by_cases hk : k = l
  · subst hk
    simp [mix, h]
  · simp [mix, hk]

theorem mix_clear {ps : List SavePoint} (h : ∀ p ∈ ps, p.loc ∉ D) :
    x.mix D (st.clear ps) = (x.mix D st).clear ps := by
  funext k
  simp only [mix, clear]
  by_cases hk : k ∈ ps.map SavePoint.loc
  · obtain ⟨p, hp, rfl⟩ := List.mem_map.mp hk
    simp [h p hp, hk]
  · simp [hk]

/-- A store that is another one apart from some places. -/
theorem mix_of_agree {st' : Store} (h : ∀ l ∉ D, st' l = st l) : st'.mix D st = st' := by
  funext k
  simp only [mix]
  split
  · rfl
  · next hk => exact (h k hk).symm

theorem clear_of_not_mem {ps : List SavePoint} {l : Loc} (h : l ∉ ps.map SavePoint.loc) :
    st.clear ps l = st l := if_neg h

end Store

/-- Another store at some places. -/
def Config.mix (D : List Loc) (x : Store) (c : Config) : Config := ⟨c.stack, x.mix D c.store⟩

namespace Reading

variable {rd : Reading}

theorem ordinary_eq {op : Op} (hl : ∀ n, op ≠ .loadScratch n) (hs : ∀ n, op ≠ .storeScratch n)
    (c : Config) : rd.ordinary op c = (⟨·, c.store⟩) <$> rd.op op c.stack := by
  cases op with
  | loadScratch n => exact absurd rfl (hl n)
  | storeScratch n => exact absurd rfl (hs n)
  | _ => rfl

theorem ordinary_store {op : Op} {c c' : Config} (h : (rd.ordinary op c).result = .ok c') {l : Loc}
    (hl : ∀ n, op = .storeScratch n → l ≠ .slot n) : c'.store l = c.store l := by
  by_cases hload : ∃ n, op = .loadScratch n
  · obtain ⟨n, rfl⟩ := hload
    cases h
    rfl
  by_cases hstore : ∃ n, op = .storeScratch n
  · obtain ⟨n, rfl⟩ := hstore
    obtain ⟨_ | ⟨v, σ⟩, st⟩ := c
    · cases h
    · cases h
      exact Function.update_of_ne (hl n rfl) _ _
  · rw [ordinary_eq (not_exists.mp hload) (not_exists.mp hstore), Effect.result_map] at h
    cases hr : (rd.op op c.stack).result with
    | error e => rw [hr] at h; cases h
    | ok σ => rw [hr] at h; cases h; rfl

theorem ordinary_mix {op : Op} {D : List Loc} (hl : ∀ n, op = .loadScratch n → .slot n ∉ D)
    (hs : ∀ n, op = .storeScratch n → .slot n ∉ D) (x : Store) (c : Config) :
    rd.ordinary op (c.mix D x) = Config.mix D x <$> rd.ordinary op c := by
  by_cases hload : ∃ n, op = .loadScratch n
  · obtain ⟨n, rfl⟩ := hload
    have hn : x.mix D c.store (.slot n) = c.store (.slot n) := if_neg (hl n rfl)
    simp only [ordinary, Config.mix, map_pure, hn]
  by_cases hstore : ∃ n, op = .storeScratch n
  · obtain ⟨n, rfl⟩ := hstore
    obtain ⟨_ | ⟨v, σ⟩, st⟩ := c
    · rfl
    · simp only [ordinary, Config.mix, map_pure, Store.mix_update (hs n rfl)]
  · rw [ordinary_eq (not_exists.mp hload) (not_exists.mp hstore),
      ordinary_eq (not_exists.mp hload) (not_exists.mp hstore), Functor.map_map]
    rfl

theorem all_store {list : List Op} {c c' : Config} (h : (rd.all list c).result = .ok c') {l : Loc}
    (hl : l ∉ (Fragment.storesOf list).map .slot) : c'.store l = c.store l := by
  induction list generalizing c with
  | nil => cases h; rfl
  | cons op list ih =>
    obtain ⟨c₁, h₁, h⟩ := Effect.result_bind_eq_ok.mp h
    rw [ih h fun hmem ↦ hl ?_]
    · refine ordinary_store h₁ ?_
      rintro n rfl rfl
      exact hl (by simp [Fragment.storesOf])
    · obtain ⟨n, hn, rfl⟩ := List.mem_map.mp hmem
      refine List.mem_map_of_mem ?_
      simp only [Fragment.storesOf, List.mem_filterMap] at hn ⊢
      obtain ⟨o, ho, hn⟩ := hn
      exact ⟨o, List.mem_cons_of_mem _ ho, hn⟩

theorem all_mix {list : List Op} {D : List Loc}
    (h : ∀ n ∈ Fragment.storesOf list ++ Fragment.loadsOf list, .slot n ∉ D) (x : Store)
    (c : Config) : rd.all list (c.mix D x) = Config.mix D x <$> rd.all list c := by
  induction list generalizing c with
  | nil => exact (map_pure _ _).symm
  | cons op list ih =>
    simp only [Fragment.storesOf, Fragment.loadsOf, List.mem_append, List.mem_filterMap] at h ih
    rw [all, all, ordinary_mix, bind_map_left, map_bind]
    · refine bind_congr fun c' ↦ ih (fun n hn ↦ h n ?_) c'
      rcases hn with ⟨o, ho, hn⟩ | ⟨o, ho, hn⟩
      · exact .inl ⟨o, List.mem_cons_of_mem _ ho, hn⟩
      · exact .inr ⟨o, List.mem_cons_of_mem _ ho, hn⟩
    · rintro n rfl
      exact h n (.inr ⟨_, List.mem_cons_self, rfl⟩)
    · rintro n rfl
      exact h n (.inl ⟨_, List.mem_cons_self, rfl⟩)

theorem observe_eq_ok {property : String} {p : SavePoint} {c c' : Config} :
    (rd.observe property p c).result = .ok c' ↔ ∃ v σ o d, c.stack = v :: σ ∧
      (rd.strict → σ = []) ∧ v.receiver property = .ok o ∧ rd.cell o property = .ok d ∧
      c' = ⟨rd.value d :: σ, Function.update c.store p.loc (.cell d)⟩ := by
  obtain ⟨_ | ⟨v, σ⟩, st⟩ := c
  · simp [observe, Effect.fail]
  · simp only [observe, List.cons.injEq]
    by_cases hs : rd.strict && !σ.isEmpty
    · simp only [hs, if_true, Effect.of, reduceCtorEq, false_iff, not_exists, not_and]
      rintro _ _ o d ⟨rfl, rfl⟩ hσ
      simp_all
    · have hσ : rd.strict → σ = [] := by simpa using hs
      simp only [hs]
      cases ho : v.receiver property with
      | error e => simp [Effect.of, bind, Except.bind, ho]
      | ok o =>
        cases hc : rd.cell o property with
        | error e => simp [Effect.of, bind, Except.bind, ho, hc]
        | ok d =>
          simp only [Effect.of, bind, Except.bind, hc, Bool.false_eq_true, if_false, Except.ok.injEq]
          refine ⟨fun h ↦ ⟨v, σ, o, d, ⟨rfl, rfl⟩, hσ, ho, hc, h.symm⟩, ?_⟩
          rintro ⟨_, _, o', d', ⟨rfl, rfl⟩, -, ho', hc', rfl⟩
          rw [ho] at ho'
          cases ho'
          rw [hc] at hc'
          cases hc'
          rfl

theorem observe_store {property : String} {p : SavePoint} {c c' : Config}
    (h : (rd.observe property p c).result = .ok c') {l : Loc} (hl : l ≠ p.loc) :
    c'.store l = c.store l := by
  obtain ⟨v, σ, o, d, -, -, -, -, rfl⟩ := observe_eq_ok.mp h
  exact Function.update_of_ne hl _ _

theorem observe_mix {property : String} {p : SavePoint} {D : List Loc} (h : p.loc ∉ D) (x : Store)
    (c : Config) :
    rd.observe property p (c.mix D x) = Config.mix D x <$> rd.observe property p c := by
  obtain ⟨_ | ⟨v, σ⟩, st⟩ := c
  · rfl
  · simp only [observe, Config.mix]
    split
    · rfl
    · cases ho : v.receiver property with
      | error e => rfl
      | ok o =>
        cases hc : rd.cell o property with
        | error e => simp only [bind, Except.bind, hc]; rfl
        | ok d =>
          simp only [bind, Except.bind, hc, ← Store.mix_update h]
          rfl

end Reading

namespace Config

theorem fork_eq_ok {op : BinaryOp} {a b : Config → Effect Config} {c c' : Config}
    (h : (fork op a b c).result = .ok c') : ∃ v σ t, c.stack = v :: σ ∧ v.toBool = .ok t ∧
      if op.skips t then (a c).result = .ok c' else (b ⟨σ, c.store⟩).result = .ok c' := by
  obtain ⟨_ | ⟨v, σ⟩, st⟩ := c
  · cases h
  · obtain ⟨t, ht, h⟩ := Effect.result_bind_eq_ok.mp h
    refine ⟨v, σ, t, rfl, ?_, ?_⟩
    · cases hv : v.toBool with
      | error e => rw [hv] at ht; cases ht
      | ok t' => rw [hv] at ht; cases ht; rfl
    · split at h <;> simp_all

theorem fork_of_toBool {op : BinaryOp} {a b : Config → Effect Config} {v : Value} {σ : List Value}
    {st : Store} {t : Bool} (h : v.toBool = .ok t) :
    fork op a b ⟨v :: σ, st⟩ = if op.skips t then a ⟨v :: σ, st⟩ else b ⟨σ, st⟩ := by
  simp only [fork, h]
  rfl

theorem fork_mix {op : BinaryOp} {a b : Config → Effect Config} {D : List Loc} {x : Store}
    (ha : ∀ c, a (c.mix D x) = Config.mix D x <$> a c)
    (hb : ∀ c, b (c.mix D x) = Config.mix D x <$> b c) (c : Config) :
    fork op a b (c.mix D x) = Config.mix D x <$> fork op a b c := by
  obtain ⟨_ | ⟨v, σ⟩, st⟩ := c
  · rfl
  · simp only [fork, mix, map_bind]
    refine bind_congr fun t ↦ ?_
    split
    · exact ha ⟨v :: σ, st⟩
    · exact hb ⟨σ, st⟩

end Config

namespace Fragment

open Config

variable {rd : Reading} {f : Fragment}

/-- A fragment changes only the places that it writes to. -/
theorem den_store {c c' : Config} (h : (f.den rd c).result = .ok c') {l : Loc}
    (hl : l ∉ f.writes) : c'.store l = c.store l := by
  induction f generalizing c c' with
  | ops list => exact Reading.all_store h hl
  | append f g ih ih' =>
    simp only [writes, locs, List.mem_append, not_or] at hl
    obtain ⟨c₁, h₁, h⟩ := Effect.result_bind_eq_ok.mp h
    rw [ih' h hl.2, ih h₁ hl.1]
  | nullGuard f g ih ih' =>
    simp only [writes, locs, List.mem_append, not_or] at hl
    obtain ⟨_ | ⟨v, σ⟩, st⟩ := c
    · cases h
    · simp only [den] at h
      split at h
      · exact (ih' h hl.2 :)
      · exact ih h hl.1
  | shortCircuit op f g ih ih' =>
    simp only [writes, locs, List.mem_append, not_or] at hl
    obtain ⟨c₁, h₁, h⟩ := Effect.result_bind_eq_ok.mp h
    obtain ⟨v, σ, t, -, -, h⟩ := fork_eq_ok h
    rw [← ih h₁ hl.1]
    split at h
    · cases h; rfl
    · exact (ih' h hl.2 :)
  | flagTest flag => cases h; rfl
  | flagAssign flag value =>
    cases h
    exact Function.update_of_ne (by simpa [writes, locs] using hl) _ _
  | observe property p => exact Reading.observe_store h (by simpa [writes, locs] using hl)
  | branch op f g flag counter ps ih ih' =>
    simp only [writes, locs, List.mem_append, List.mem_cons, not_or] at hl
    obtain ⟨hf, ⟨hflag, hps⟩, hg⟩ := hl
    obtain ⟨c₁, h₁, h⟩ := Effect.result_bind_eq_ok.mp h
    obtain ⟨v, σ, t, -, -, h⟩ := fork_eq_ok h
    rw [← ih h₁ hf]
    split at h
    · cases h
      exact (Store.clear_of_not_mem hps).trans (Function.update_of_ne hflag _ _)
    · exact (ih' h hg).trans (Function.update_of_ne hflag _ _)

/-- What stands at places that a fragment does not touch does not matter to it. -/
theorem den_mix {D : List Loc} (h : ∀ l ∈ f.touched, l ∉ D) (x : Store) (c : Config) :
    f.den rd (c.mix D x) = Config.mix D x <$> f.den rd c := by
  induction f generalizing c with
  | ops list => exact Reading.all_mix (fun n hn ↦ h _ (List.mem_map_of_mem hn)) x c
  | append f g ih ih' =>
    simp only [touched, locs, List.mem_append] at h ih ih'
    rw [den, den, ih (fun l hl ↦ h l (.inl hl)), bind_map_left, map_bind]
    exact bind_congr fun c' ↦ ih' (fun l hl ↦ h l (.inr hl)) c'
  | nullGuard f g ih ih' =>
    simp only [touched, locs, List.mem_append] at h ih ih'
    obtain ⟨_ | ⟨v, σ⟩, st⟩ := c
    · rfl
    · simp only [den, Config.mix]
      split
      · exact ih' (fun l hl ↦ h l (.inr hl)) ⟨σ, st⟩
      · exact ih (fun l hl ↦ h l (.inl hl)) ⟨v :: σ, st⟩
  | shortCircuit op f g ih ih' =>
    simp only [touched, locs, List.mem_append] at h ih ih'
    rw [den, den, ih (fun l hl ↦ h l (.inl hl)), bind_map_left, map_bind]
    exact bind_congr <| fork_mix (fun c ↦ (map_pure _ _).symm) (ih' fun l hl ↦ h l (.inr hl))
  | flagTest flag =>
    have hf : x.mix D c.store (.flag flag) = c.store (.flag flag) := if_neg (h _ (by simp [touched, locs]))
    simp only [den, Config.mix, map_pure, hf]
  | flagAssign flag value =>
    have hflag : .flag flag ∉ D := h _ (by simp [touched, locs])
    simp only [den, Config.mix, setFlag, map_pure, Store.mix_update hflag]
  | observe property p => exact Reading.observe_mix (h _ (by simp [touched, locs])) x c
  | branch op f g flag counter ps ih ih' =>
    simp only [touched, locs, List.mem_append, List.mem_cons] at h ih ih'
    have hflag : .flag flag ∉ D := h _ (.inr (.inl (.inl rfl)))
    have hps : ∀ p ∈ ps, p.loc ∉ D := fun p hp ↦
      h _ (.inr (.inl (.inr (List.mem_map_of_mem hp))))
    have hset (value : Bool) (c : Config) :
        (c.mix D x).setFlag flag value = (c.setFlag flag value).mix D x := by
      simp only [setFlag, Config.mix, Store.mix_update hflag]
    rw [den, den, ih (fun l hl ↦ h l (.inl hl)), bind_map_left, map_bind]
    refine bind_congr <| fork_mix (fun c ↦ ?_) fun c ↦ ?_
    · rw [map_pure, skip, hset]
      simp only [Config.mix, skip, Store.mix_clear hps]
    · rw [hset]
      exact ih' (fun l hl ↦ h l (.inr (.inr hl))) _

end Fragment

namespace Value

def isCell : Value → Bool
  | .cell _ => true
  | _ => false

end Value

/-- Reads nothing that a change of a cell could change, other than at points, where it is strict. What
it does not read it leaves open. -/
def Reading.guarded (rd : Reading) : Reading :=
  { rd with
    text := fun v ↦ if v.isCell then .error .exhausted else rd.text v
    property := fun o p ↦ if (rd.cell o p).isOk then .error .exhausted else rd.property o p
    peek := fun _ ↦ .error .exhausted
    answer := fun m args ↦ if args.any Value.isCell then .error .exhausted else rd.answer m args
    strict := true }

namespace Effect

variable {α β : Type}

/-- A computation is left open, or is another one. -/
def Within (x y : Effect α) : Prop := x.result = .error .exhausted ∨ x = y

namespace Within

theorem refl (x : Effect α) : Within x x := .inr rfl

theorem bind {x y : Effect α} {f g : α → Effect β} (h : Within x y) (h' : ∀ a, Within (f a) (g a)) :
    Within (x >>= f) (y >>= g) := by
  obtain h | rfl := h
  · exact .inl (by rw [bind_of_error f h])
  · cases hx : x.result with
    | error e =>
      rw [bind_of_error f hx, bind_of_error g hx]
      exact .refl _
    | ok a =>
      rw [bind_of_ok f hx, bind_of_ok g hx]
      obtain h | h := h' a
      · exact .inl h
      · rw [h]
        exact .refl _

theorem map {x y : Effect α} (f : α → β) (h : Within x y) : Within (f <$> x) (f <$> y) := by
  rw [map_eq_pure_bind, map_eq_pure_bind]
  exact h.bind fun _ ↦ .refl _

theorem of {x y : Except Stop α} (h : x = .error .exhausted ∨ x = y) : Within (of x) (of y) :=
  h.imp id (congrArg _)

/-- What is not left open is the same. -/
theorem eq_of_ne {x y : Effect α} (h : Within x y) (hx : x.result ≠ .error .exhausted) : x = y :=
  h.resolve_left hx

end Within

end Effect

namespace Reading

open Effect

variable {rd : Reading}

theorem bind_exhausted {α β : Type} {x y : Except Stop α} (f : α → Except Stop β)
    (h : x = .error .exhausted ∨ x = y) :
    (x >>= f) = .error .exhausted ∨ (x >>= f) = (y >>= f) := by
  rcases h with rfl | rfl
  · exact .inl rfl
  · exact .inr rfl

theorem simple_guarded (op : Op) (σ : List Value) :
    rd.guarded.simple op σ = .error .exhausted ∨ rd.guarded.simple op σ = rd.simple op σ := by
  have htext (v : Value) : rd.guarded.text v = .error .exhausted ∨ rd.guarded.text v = rd.text v := by
    simp only [guarded]
    split <;> simp
  by_cases hop : (∃ p, op = .getProperty p) ∨ op = .observableValue ∨ op = .concat ∨ op = .toStr
  · rcases hop with ⟨p, rfl⟩ | rfl | rfl | rfl
    · rcases σ with _ | ⟨v, σ⟩
      · exact .inr rfl
      · cases ho : v.receiver p with
        | error e => right; simp only [simple, ho]; rfl
        | ok o =>
          simp only [simple, ho, bind, Except.bind, guarded]
          split
          · exact .inl rfl
          · exact .inr rfl
    · rcases σ with _ | ⟨v, σ⟩
      · exact .inr rfl
      · cases v with
        | cell => exact .inl rfl
        | _ => exact .inr rfl
    · rcases σ with _ | ⟨b, _ | ⟨a, σ⟩⟩
      · exact .inr rfl
      · exact .inr rfl
      · simp only [simple]
        rcases htext a with ha | ha
        · rw [ha]
          exact .inl rfl
        · rw [ha]
          cases rd.text a with
          | error e => exact .inr rfl
          | ok s => exact bind_exhausted _ (htext b)
    · rcases σ with _ | ⟨a, σ⟩
      · exact .inr rfl
      · simp only [simple, map_eq_pure_bind]
        exact bind_exhausted _ (htext a)
  · simp only [not_or, not_exists] at hop
    obtain ⟨h₁, h₂, h₃, h₄⟩ := hop
    right
    cases op with
    | getProperty p => exact absurd rfl (h₁ p)
    | observableValue => exact absurd rfl h₂
    | concat => exact absurd rfl h₃
    | toStr => exact absurd rfl h₄
    | _ => rcases σ with _ | ⟨a, _ | ⟨b, σ⟩⟩ <;> rfl

theorem call_guarded (m : MethodId) (args : List Value) :
    Within (rd.guarded.call m args) (rd.call m args) := by
  unfold call
  simp only [guarded]
  split
  · exact .inl rfl
  · exact .refl _

theorem op_guarded (op : Op) (σ : List Value) : Within (rd.guarded.op op σ) (rd.op op σ) := by
  cases op with
  | invoke m argc =>
    simp only [Reading.op]
    split
    · exact .refl _
    · split
      · exact .refl _
      · split
        · exact .refl _
        · exact (call_guarded m _).map _
  | invokeStatic m argc | construct m argc =>
    simp only [Reading.op]
    split
    · exact .refl _
    · exact (call_guarded m _).map _
  | _ => exact .of (simple_guarded _ σ)

theorem ordinary_guarded (op : Op) (c : Config) :
    Within (rd.guarded.ordinary op c) (rd.ordinary op c) := by
  by_cases hload : ∃ n, op = .loadScratch n
  · obtain ⟨n, rfl⟩ := hload
    exact .refl _
  by_cases hstore : ∃ n, op = .storeScratch n
  · obtain ⟨n, rfl⟩ := hstore
    obtain ⟨_ | ⟨v, σ⟩, st⟩ := c <;> exact .refl _
  · rw [ordinary_eq (not_exists.mp hload) (not_exists.mp hstore),
      ordinary_eq (not_exists.mp hload) (not_exists.mp hstore)]
    exact (op_guarded op c.stack).map _

theorem all_guarded (list : List Op) (c : Config) : Within (rd.guarded.all list c) (rd.all list c) := by
  induction list generalizing c with
  | nil => exact .refl _
  | cons op list ih => exact (ordinary_guarded op c).bind ih

theorem observe_guarded (property : String) (p : SavePoint) (c : Config)
    (h : rd.strict = false) : Within (rd.guarded.observe property p c) (rd.observe property p c) := by
  obtain ⟨_ | ⟨v, σ⟩, st⟩ := c
  · exact .refl _
  · simp only [observe, h, Bool.false_and, Bool.false_eq_true, if_false]
    split
    · exact .inl rfl
    · exact .refl _

end Reading

namespace Config

open Effect

theorem fork_within {op : BinaryOp} {a a' b b' : Config → Effect Config}
    (ha : ∀ c, Within (a c) (a' c)) (hb : ∀ c, Within (b c) (b' c)) (c : Config) :
    Within (fork op a b c) (fork op a' b' c) := by
  obtain ⟨_ | ⟨v, σ⟩, st⟩ := c
  · exact .refl _
  · refine (Within.refl _).bind fun t ↦ ?_
    split
    · exact ha _
    · exact hb _

end Config

namespace Fragment

open Config Effect

variable {rd : Reading}

/-- What the guarded reading does not leave open is right. -/
theorem den_guarded (h : rd.strict = false) (f : Fragment) (c : Config) :
    Within (f.den rd.guarded c) (f.den rd c) := by
  induction f generalizing c with
  | ops list => exact Reading.all_guarded list c
  | append f g ih ih' => exact (ih c).bind ih'
  | nullGuard f g ih ih' =>
    obtain ⟨_ | ⟨v, σ⟩, st⟩ := c
    · exact .refl _
    · simp only [den]
      split
      · exact ih' _
      · exact ih _
  | shortCircuit op f g ih ih' => exact (ih c).bind (fork_within (fun _ ↦ .refl _) ih')
  | flagTest | flagAssign => exact .refl _
  | observe property p => exact Reading.observe_guarded property p c h
  | branch op f g flag counter ps ih ih' =>
    exact (ih c).bind (fork_within (fun _ ↦ .refl _) fun c ↦ ih' _)

theorem denFrom_guarded (h : rd.strict = false) (k : Nat) (f : Fragment) (c : Config) :
    Within (f.denFrom rd.guarded k c) (f.denFrom rd k c) := by
  induction f generalizing c with
  | ops | flagTest | flagAssign | observe => exact .refl _
  | append f g ih ih' =>
    simp only [denFrom]
    split
    · exact (ih c).bind (den_guarded h g)
    · exact ih' c
  | nullGuard f g ih ih' =>
    simp only [denFrom]
    split
    · exact ih c
    · exact ih' c
  | shortCircuit op f g ih ih' =>
    simp only [denFrom]
    split
    · exact (ih c).bind (fork_within (fun _ ↦ .refl _) (den_guarded h g))
    · exact ih' c
  | branch op f g flag counter ps ih ih' =>
    simp only [denFrom]
    split
    · exact (ih c).bind (fork_within (fun _ ↦ .refl _) fun c ↦ den_guarded h g _)
    · exact ih' c

end Fragment

end LiveBinding
