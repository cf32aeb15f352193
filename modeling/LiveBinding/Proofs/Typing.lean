import LiveBinding.Proofs.Denotation
import LiveBinding.Proofs.Resolution
import Mathlib.Data.Fintype.Pigeonhole
import Mathlib.Logic.Function.Iterate

namespace LiveBinding

namespace Registry

variable (r : Registry)

/-- The class that is `n` superclasses up. -/
def climb (n : Nat) (c : ClassId) : Option ClassId := (·.bind r.superclass?)^[n] (some c)

variable {r} {a b c : ClassId} {m n : Nat}

theorem climb_add (h : r.climb m a = some b) : r.climb (n + m) a = r.climb n b := by
  rw [climb, Function.iterate_add_apply, ← climb, h, climb]

theorem climb_succ : r.climb (n + 1) a = (r.climb n a).bind r.superclass? :=
  Function.iterate_succ_apply' ..

theorem climb_succ' {s : ClassId} (h : r.superclass? a = some s) :
    r.climb (n + 1) a = r.climb n s := climb_add (m := 1) h

theorem mem_ancestorsWithin {fuel : Nat} :
    b ∈ r.ancestorsWithin fuel a ↔ ∃ n < fuel, r.climb (n + 1) a = some b := by
  induction fuel generalizing a with
  | zero => simp [ancestorsWithin]
  | succ fuel ih =>
    unfold ancestorsWithin
    cases hs : r.superclass? a with
    | none =>
      have hnone (n : Nat) : r.climb (n + 1) a = none := by
        induction n with
        | zero => exact hs
        | succ n ih => rw [climb_succ, ih]; rfl
      simp [hnone]
    | some s =>
      rw [List.mem_cons, ih]
      constructor
      · rintro (rfl | ⟨n, hn, h⟩)
        · exact ⟨0, by omega, hs⟩
        · exact ⟨n + 1, by omega, (climb_succ' hs).trans h⟩
      · rintro ⟨_ | n, hn, h⟩
        · exact .inl (Option.some.inj (h.symm.trans hs))
        · exact .inr ⟨n, by omega, (climb_succ' hs).symm.trans h⟩

/-- A class that has a superclass is one of the registry. -/
theorem index_lt_of_superclass? (h : (r.superclass? a).isSome) : a.index < r.classes.size := by
  unfold superclass? at h
  cases hc : r.classes[a.index]? with
  | none => rw [hc] at h; cases h
  | some d => exact (Array.getElem?_eq_some_iff.mp hc).1

/-- No way up is longer than the number of classes, if it is not longer than needed. -/
theorem exists_climb_le (h : r.climb n a = some b) : ∃ k ≤ r.classes.size, r.climb k a = some b := by
  induction n using Nat.strong_induction_on with
  | _ n ih =>
    by_cases hn : n ≤ r.classes.size
    · exact ⟨n, hn, h⟩
    have hstep (i : Fin n) : ∃ c, r.climb i a = some c ∧ c.index < r.classes.size := by
      have hsome : ((r.climb i a).bind r.superclass?).isSome := by
        rw [← climb_succ]
        obtain ⟨j, hj⟩ : ∃ j, n = j + (i + 1) := ⟨n - (i + 1), by omega⟩
        cases hc : r.climb (i + 1) a with
        | some c => rfl
        | none =>
          rw [hj, climb, Function.iterate_add_apply, ← climb, hc] at h
          have hnone (j : Nat) : (fun x : Option ClassId ↦ x.bind r.superclass?)^[j] none = none := by
            induction j with
            | zero => rfl
            | succ j ih => rw [Function.iterate_succ_apply', ih]; rfl
          rw [hnone] at h
          cases h
      cases hc : r.climb i a with
      | none => rw [hc] at hsome; cases hsome
      | some c =>
        rw [hc] at hsome
        exact ⟨c, rfl, index_lt_of_superclass? hsome⟩
    choose f hf hlt using hstep
    -- two of the classes on the way are the same, and what lies between them can be left out
    obtain ⟨i, j, hij, hne⟩ : ∃ i j : Fin n, f i = f j ∧ i < j := by
      obtain ⟨i, j, hne, he⟩ := Fintype.exists_ne_map_eq_of_card_lt
        (fun i ↦ (⟨(f i).index, hlt i⟩ : Fin r.classes.size)) (by simpa using Nat.not_le.mp hn)
      have he : f i = f j := by
        cases hi : f i
        cases hj : f j
        simpa [hi, hj] using he
      rcases lt_or_gt_of_ne hne with h | h
      · exact ⟨i, j, he, h⟩
      · exact ⟨j, i, he.symm, h⟩
    refine ih (n - j + i) (by omega) ?_
    rw [climb_add ((hf i).trans (congrArg some hij)), ← climb_add (hf j), Nat.sub_add_cancel j.2.le]
    exact h

theorem isSubclass_iff : r.model.isSubclass a b ↔ ∃ n, r.climb n a = some b := by
  simp only [TypeModel.isSubclass, model, ancestors, Bool.or_eq_true, beq_iff_eq, List.contains_iff_mem,
    mem_ancestorsWithin]
  constructor
  · rintro (rfl | ⟨n, -, h⟩)
    · exact ⟨0, rfl⟩
    · exact ⟨n + 1, h⟩
  · rintro ⟨n, h⟩
    obtain ⟨k, hk, h⟩ := exists_climb_le h
    cases k with
    | zero => exact .inl (Option.some.inj h)
    | succ k => exact .inr ⟨k, by omega, h⟩

theorem isSubclass_refl (a : ClassId) : r.model.isSubclass a a := isSubclass_iff.mpr ⟨0, rfl⟩

theorem isSubclass_trans (h : r.model.isSubclass a b) (h' : r.model.isSubclass b c) :
    r.model.isSubclass a c := by
  rw [isSubclass_iff] at h h' ⊢
  obtain ⟨m, hm⟩ := h
  obtain ⟨n, hn⟩ := h'
  exact ⟨n + m, (climb_add hm).trans hn⟩

end Registry


namespace Value

/-- The primitive kind of a value. -/
def prim? : Value → Option Prim
  | bool _ => some .boolean
  | char _ => some .char
  | byte _ => some .byte
  | short _ => some .short
  | int _ => some .int
  | long _ => some .long
  | float _ => some .float
  | double _ => some .double
  | _ => none

theorem isCell_of_prim? {v : Value} {p : Prim} (h : v.prim? = some p) : v.isCell = false := by
  cases v <;> first | rfl | cases h

theorem isNull_eq_false {v : Value} (h : v ≠ .null) : v.isNull = false := by
  cases v <;> first | rfl | exact absurd rfl h

end Value

/-- A value is one of a type. No type has a cell as its value. -/
def Registry.HasTy (r : Registry) (classes : ObjectId → Option ClassId) : Ty → Value → Prop
  | .void, v | .object, v => v.isCell = false
  | .null, v => v = .null
  | .prim p, v => v.prim? = some p
  | .boxed p, v => v = .null ∨ v.prim? = some p
  | .str, v => v = .null ∨ ∃ s, v = .str s
  | .class c, v => v = .null ∨
      (∃ o d, v = .object o ∧ classes o = some d ∧ r.model.isSubclass d c) ∨
      ∃ d name, v = .enum d name ∧ (r.model.enumConstants (.class d)).isSome ∧
        r.model.isSubclass d c

namespace Registry.HasTy

variable {r : Registry} {classes : ObjectId → Option ClassId} {s t : Ty} {v : Value}

theorem isCell (h : r.HasTy classes t v) : v.isCell = false := by
  cases t with
  | void | object => exact h
  | null => rw [show v = .null from h]; rfl
  | prim p => exact Value.isCell_of_prim? h
  | boxed p =>
    rcases h with rfl | h
    · rfl
    · exact Value.isCell_of_prim? h
  | str => rcases h with rfl | ⟨s, rfl⟩ <;> rfl
  | «class» c => rcases h with rfl | ⟨o, d, rfl, -⟩ | ⟨d, name, rfl, -⟩ <;> rfl

theorem null (ht : t.isReference) : r.HasTy classes t .null := by
  cases t with
  | void | prim => cases ht
  | object | null => rfl
  | boxed | str | «class» => exact .inl rfl

/-- A value can be used at every type that takes it without conversion. -/
theorem assign (ha : r.model.isAssignable s t) (h : r.HasTy classes s v) : r.HasTy classes t v := by
  unfold TypeModel.isAssignable at ha
  rw [Bool.or_eq_true, beq_iff_eq] at ha
  rcases ha with rfl | ha
  · exact h
  cases s with
  | void => cases t <;> cases ha
  | prim => cases t <;> cases ha
  | null =>
    rw [show v = .null from h]
    exact null (by cases t <;> exact ha)
  | boxed | str | object =>
    cases t with
    | object => exact h.isCell
    | _ => cases ha
  | «class» c =>
    cases t with
    | object => exact h.isCell
    | «class» d =>
      rcases h with rfl | ⟨o, e, rfl, he, hc⟩ | ⟨e, name, rfl, he, hc⟩
      · exact .inl rfl
      · exact .inr (.inl ⟨o, e, rfl, he, isSubclass_trans hc ha⟩)
      · exact .inr (.inr ⟨e, name, rfl, he, isSubclass_trans hc ha⟩)
    | _ => cases ha

theorem ofLiteral (l : Literal) : r.HasTy classes (.ofLiteral l) (.ofLiteral l) := by
  cases l with
  | null => rfl
  | string text => exact .inr ⟨text, rfl⟩
  | _ => rfl

end Registry.HasTy

/-- An error that a program can run into, other than one of the compiled code. -/
def RuntimeError.isBenign : RuntimeError → Bool
  | nullReference _ | arithmeticFault | numberFormat .. | noSuchConstant .. | indexOutOfBounds .. =>
    true
  | typeMismatch .. | noSuchMember _ | missingInstance | fault _ => false

/-- The arguments that a method is declared for. -/
def MethodInfo.Takes (m : MethodInfo) (has : Ty → Value → Prop) (args : List Value) : Prop :=
  if m.flags.static then List.Forall₂ has m.params args
  else ∃ receiver rest, args = receiver :: rest ∧ receiver ≠ .null ∧ has m.owner receiver ∧
    List.Forall₂ has m.params rest

/-- A result with a property, or an error that is allowed. -/
def Yields {α : Type} (P : α → Prop) (allowed : Stop → Prop) (x : Except Stop α) : Prop :=
  (∀ v, x = .ok v → P v) ∧ ∀ e, x = .error e → allowed e

/-- What is read of the host is of its declared types, and what fails is allowed to. -/
structure Reading.Conforms (rd : Reading) (classes : ObjectId → Option ClassId)
    (allowed : Stop → Prop) : Prop where
  benign : ∀ e : RuntimeError, e.isBenign → allowed (.error e)
  text : ∀ v, v.isCell = false → ∃ s, rd.text v = .ok s
  observed : ∀ o d c name p, classes o = some d → rd.registry.model.isSubclass d c →
    rd.registry.model.property (.class c) name = some p → p.flags.observable →
    ∃ x, rd.cell o p.name = .ok x ∧ rd.registry.HasTy classes p.ty (rd.value x)
  plain : ∀ o d c name p, classes o = some d → rd.registry.model.isSubclass d c →
    rd.registry.model.property (.class c) name = some p → p.flags.observable = false →
    Yields (rd.registry.HasTy classes p.ty) allowed (rd.property o p.name)
  enums : ∀ d c name p, (rd.registry.model.enumConstants (.class d)).isSome →
    rd.registry.model.isSubclass d c → rd.registry.model.property (.class c) name = some p →
    allowed (.error (.typeMismatch "object" "enum"))
  statics : ∀ f ∈ rd.registry.fields, ∃ v, rd.registry.staticValue f.info.id = .ok v ∧
    rd.registry.HasTy classes f.info.ty v
  answers : ∀ d ∈ rd.registry.methods, ∀ args,
    d.info.Takes (rd.registry.HasTy classes) args →
    Yields (rd.registry.HasTy classes d.info.ret) allowed (rd.answer d.info.id args)

/-- The types of the operands of an instruction, the top first, and of its result. -/
inductive Op.Typed (r : Registry) : Op → List Ty → Ty → Prop
  | pushNull : Typed r .pushNull [] .null
  | pushBool (b : Bool) : Typed r (.pushBool b) [] .boolean
  | pushInt (n : Int32) : Typed r (.pushInt n) [] .int
  | pushLong (n : Int64) : Typed r (.pushLong n) [] .long
  | pushFloat (x : Single) : Typed r (.pushFloat x) [] .float
  | pushDouble (x : Double) : Typed r (.pushDouble x) [] .double
  | pushChar (c : Char) : Typed r (.pushChar c) [] (.prim .char)
  | pushStr (s : String) : Typed r (.pushStr s) [] .str
  | toStr (t : Ty) : Typed r .toStr [t] .str
  | parse (p : Prim) : Typed r (Coercion.parse p) [.str] (.prim p)
  | enumValueOf {c : ClassId} : (r.model.enumConstants (.class c)).isSome →
    Typed r (.enumValueOf c) [.str] (.class c)
  | convert {p q : Prim} : p.isNumeric → q.isNumeric → Typed r (.convert p q) [.prim p] (.prim q)
  | box (p : Prim) : Typed r (.box p) [.prim p] (.boxed p)
  | unbox (p : Prim) : Typed r (.unbox p) [.boxed p] (.prim p)
  | arith {op : BinaryOp} {k : Prim} : op.category = .arithmetic → k.isRanked → k.isNumeric →
    Typed r (.arith op k) [.prim k, .prim k] (.prim k)
  | neg {k : Prim} : k.isRanked → k.isNumeric → Typed r (.neg k) [.prim k] (.prim k)
  | cmp {op : BinaryOp} {k : Prim} :
    op.category = .comparison ∧ k.isNumeric ∨ op.category = .equality →
    Typed r (.cmp op k) [.prim k, .prim k] .boolean
  | refEq (s t : Ty) : Typed r .refEq [s, t] .boolean
  | not : Typed r .not [.boolean] .boolean
  | concat (s t : Ty) : Typed r .concat [s, t] .str
  | charAt : Typed r .charAt [.int, .str] .str
  | getStatic {owner : Ty} {name : String} {f : FieldInfo} :
    r.model.staticField owner name = some f → Typed r (.getStatic f.id) [] f.ty

namespace Yields

variable {α β : Type} {P : α → Prop} {Q : β → Prop} {allowed : Stop → Prop}

theorem ok {a : α} (h : P a) : Yields P allowed (.ok a) :=
  ⟨fun _ hv ↦ Except.ok.inj hv ▸ h, fun _ he ↦ nomatch he⟩

theorem error {e : Stop} (h : allowed e) : Yields P allowed (.error e : Except Stop α) :=
  ⟨fun _ hv ↦ (nomatch hv), fun _ he ↦ Except.error.inj he ▸ h⟩

theorem bind {x : Except Stop α} {f : α → Except Stop β} (hx : Yields P allowed x)
    (hf : ∀ a, P a → Yields Q allowed (f a)) : Yields Q allowed (x >>= f) := by
  cases x with
  | ok a => exact hf a (hx.1 a rfl)
  | error e => exact error (hx.2 e rfl)

end Yields

namespace Value

variable {v : Value} {p : Prim}

theorem bool_of_prim? (h : v.prim? = some .boolean) : ∃ b, v = bool b := by
  cases v <;> first | exact ⟨_, rfl⟩ | cases h

theorem int_of_prim? (h : v.prim? = some .int) : ∃ n, v = int n := by
  cases v <;> first | exact ⟨_, rfl⟩ | cases h

/-- A number can be read at every numeric kind. -/
theorem numeric_of_prim? (h : v.prim? = some p) (hp : p.isNumeric) :
    (∃ n, v.narrowInt = .ok n) ∧ (∃ n, v.widenLong = .ok n) ∧ (∃ x, v.toSingle = .ok x) ∧
      ∃ x, v.toDouble = .ok x := by
  cases v <;> cases h <;> first | exact ⟨⟨_, rfl⟩, ⟨_, rfl⟩, ⟨_, rfl⟩, ⟨_, rfl⟩⟩ | cases hp

end Value

section

open Stop Value

variable {allowed : Stop → Prop} (hb : ∀ e : RuntimeError, e.isBenign → allowed (.error e))
include hb

theorem yields_wholeArith {α : Type} [Add α] [Sub α] [Mul α] [Div α] [Mod α] [OfNat α 0]
    [DecidableEq α] {op : BinaryOp} (h : op.category = .arithmetic) (a b : α) (f : α → Value)
    {P : Value → Prop} (hf : ∀ a, P (f a)) :
    Yields P allowed (raise (f <$> wholeArith op a b)) := by
  cases op with
  | add | sub | mul => exact .ok (hf _)
  | div | rem =>
    simp only [wholeArith]
    split
    · exact .error (hb _ rfl)
    · exact .ok (hf _)
  | _ => cases h

omit hb in
theorem yields_floatArith {w : Width} {op : BinaryOp} (h : op.category = .arithmetic)
    (a b : Floating w) (f : Floating w → Value) {P : Value → Prop} (hf : ∀ a, P (f a)) :
    Yields P allowed (raise (f <$> floatArith op a b)) := by
  cases op with
  | add | sub | mul | div | rem => exact .ok (hf _)
  | _ => cases h

theorem yields_arith {op : BinaryOp} {k : Prim} {a b : Value} (h : op.category = .arithmetic)
    (hr : k.isRanked) (hk : k.isNumeric) (ha : a.prim? = some k) (hb' : b.prim? = some k) :
    Yields (·.prim? = some k) allowed (raise (a.arith op k b)) := by
  obtain ⟨⟨n, hn⟩, ⟨l, hl⟩, ⟨x, hx⟩, ⟨y, hy⟩⟩ := numeric_of_prim? ha hk
  obtain ⟨⟨n', hn'⟩, ⟨l', hl'⟩, ⟨x', hx'⟩, ⟨y', hy'⟩⟩ := numeric_of_prim? hb' hk
  cases k with
  | boolean => cases hk
  | char | byte | short => cases hr
  | int =>
    simp only [arith, hn, hn', bind, Except.bind]
    exact yields_wholeArith hb h n n' int fun _ ↦ rfl
  | long =>
    simp only [arith, hl, hl', bind, Except.bind]
    exact yields_wholeArith hb h l l' long fun _ ↦ rfl
  | float =>
    simp only [arith, hx, hx', bind, Except.bind]
    exact yields_floatArith h x x' float fun _ ↦ rfl
  | double =>
    simp only [arith, hy, hy', bind, Except.bind]
    exact yields_floatArith h y y' double fun _ ↦ rfl

omit hb

theorem negate_eq_ok {k : Prim} {a : Value} (hr : k.isRanked) (hk : k.isNumeric)
    (ha : a.prim? = some k) : ∃ v, a.negate k = .ok v ∧ v.prim? = some k := by
  obtain ⟨⟨n, hn⟩, ⟨l, hl⟩, ⟨x, hx⟩, ⟨y, hy⟩⟩ := numeric_of_prim? ha hk
  cases k with
  | boolean => cases hk
  | char | byte | short => cases hr
  | int => exact ⟨_, by simp only [negate, hn]; rfl, rfl⟩
  | long => exact ⟨_, by simp only [negate, hl]; rfl, rfl⟩
  | float => exact ⟨_, by simp only [negate, hx]; rfl, rfl⟩
  | double => exact ⟨_, by simp only [negate, hy]; rfl, rfl⟩

theorem ordered?_isSome {op : BinaryOp} (h : op.category = .comparison ∨ op.category = .equality)
    (lt le gt ge eq : Bool) : ∃ b, Fold.ordered? op lt le gt ge eq = some b := by
  cases op <;> first | exact ⟨_, rfl⟩ | (rcases h with h | h <;> cases h)

theorem compare_eq_ok {op : BinaryOp} {k : Prim} {a b : Value}
    (h : op.category = .comparison ∧ k.isNumeric ∨ op.category = .equality)
    (ha : a.prim? = some k) (hb : b.prim? = some k) : ∃ t, a.compare op k b = .ok t := by
  have hop : op.category = .comparison ∨ op.category = .equality := h.imp_left And.left
  by_cases hk : k.isNumeric
  · obtain ⟨⟨n, hn⟩, ⟨l, hl⟩, ⟨x, hx⟩, ⟨y, hy⟩⟩ := numeric_of_prim? ha hk
    obtain ⟨⟨n', hn'⟩, ⟨l', hl'⟩, ⟨x', hx'⟩, ⟨y', hy'⟩⟩ := numeric_of_prim? hb hk
    cases k with
    | boolean => cases hk
    | int | char | byte | short =>
      obtain ⟨t, ht⟩ := ordered?_isSome hop (n.toInt < n'.toInt) (n.toInt ≤ n'.toInt)
        (n'.toInt < n.toInt) (n'.toInt ≤ n.toInt) (n.toInt == n'.toInt)
      refine ⟨t, ?_⟩
      simp only [Value.compare, hn, hn', bind, Except.bind, Fold.orderedInt?, ht]
      rfl
    | long =>
      obtain ⟨t, ht⟩ := ordered?_isSome hop (l.toInt < l'.toInt) (l.toInt ≤ l'.toInt)
        (l'.toInt < l.toInt) (l'.toInt ≤ l.toInt) (l.toInt == l'.toInt)
      refine ⟨t, ?_⟩
      simp only [Value.compare, hl, hl', bind, Except.bind, Fold.orderedInt?, ht]
      rfl
    | float =>
      obtain ⟨t, ht⟩ := ordered?_isSome hop (x.lt x') (x.le x') (x'.lt x) (x'.le x) (x.eq x')
      refine ⟨t, ?_⟩
      simp only [Value.compare, hx, hx', bind, Except.bind, Fold.orderedFloat?, ht]
      rfl
    | double =>
      obtain ⟨t, ht⟩ := ordered?_isSome hop (y.lt y') (y.le y') (y'.lt y) (y'.le y) (y.eq y')
      refine ⟨t, ?_⟩
      simp only [Value.compare, hy, hy', bind, Except.bind, Fold.orderedFloat?, ht]
      rfl
  · obtain rfl : k = .boolean := by cases k <;> first | rfl | exact absurd rfl hk
    obtain ⟨x, rfl⟩ := bool_of_prim? ha
    obtain ⟨y, rfl⟩ := bool_of_prim? hb
    have heq := h.resolve_left fun h ↦ hk h.2
    cases op <;> first | exact ⟨_, rfl⟩ | cases heq

theorem convert_eq_ok {p q : Prim} {a : Value} (hp : p.isNumeric) (hq : q.isNumeric)
    (ha : a.prim? = some p) : ∃ v, a.convert q = .ok v ∧ v.prim? = some q := by
  obtain ⟨⟨n, hn⟩, ⟨l, hl⟩, ⟨x, hx⟩, ⟨y, hy⟩⟩ := numeric_of_prim? ha hp
  cases q with
  | boolean => cases hq
  | int | byte | short | char => exact ⟨_, by simp only [Value.convert, hn]; rfl, rfl⟩
  | long => exact ⟨_, by simp only [Value.convert, hl]; rfl, rfl⟩
  | float => exact ⟨_, by simp only [Value.convert, hx]; rfl, rfl⟩
  | double => exact ⟨_, by simp only [Value.convert, hy]; rfl, rfl⟩

include hb

theorem yields_parsed {v : Value} {P : String → Prop} (operation : String)
    (h : v = .null ∨ ∃ s, v = .str s) (hP : ∀ s, P s) : Yields P allowed (v.parsed operation) := by
  rcases h with rfl | ⟨s, rfl⟩
  · exact .error (hb _ rfl)
  · exact .ok (hP s)

theorem yields_parse (s : String) (k : Prim) :
    Yields (·.prim? = some k) allowed (raise (Value.parse s k)) := by
  unfold Value.parse
  dsimp only
  split
  · next v hv =>
    refine .ok ?_
    cases k <;> simp only [Option.map_eq_some_iff, reduceCtorEq] at hv <;>
      obtain ⟨_, -, rfl⟩ := hv <;> rfl
  · exact .error (hb _ rfl)

end

namespace Op.Typed

open Stop

variable {rd : Reading} {classes : ObjectId → Option ClassId} {allowed : Stop → Prop}
variable {op : Op} {ins : List Ty} {out : Ty} {vs : List Value}

theorem forall₂_one {α β : Type} {R : α → β → Prop} {a : α} {bs : List β}
    (h : List.Forall₂ R [a] bs) : ∃ b, bs = [b] ∧ R a b := by
  obtain ⟨b, rest, hb, hnil, rfl⟩ := List.forall₂_cons_left_iff.mp h
  cases hnil
  exact ⟨b, rfl, hb⟩

theorem forall₂_two {α β : Type} {R : α → β → Prop} {a a' : α} {bs : List β}
    (h : List.Forall₂ R [a, a'] bs) : ∃ b b', bs = [b, b'] ∧ R a b ∧ R a' b' := by
  obtain ⟨b, rest, hb, hrest, rfl⟩ := List.forall₂_cons_left_iff.mp h
  obtain ⟨b', rfl, hb'⟩ := forall₂_one hrest
  exact ⟨b, b', rfl, hb, hb'⟩

theorem raise_ok {α : Type} {x : Except RuntimeError α} {a : α} (h : x = .ok a) :
    raise x = .ok a := by rw [h]; rfl

/-- The character that a text consists of. -/
def onlyChar (s : String) : Except Stop Value :=
  match s.toList with
  | [c] => .ok (.char c)
  | _ => .error (.error (.numberFormat s Prim.char.name))

/-- An instruction on operands of its types takes them off and leaves a result of its type, or stops
with an error that is allowed. -/
theorem sound (hrd : rd.Conforms classes allowed) (h : Op.Typed rd.registry op ins out)
    (hvs : List.Forall₂ (rd.registry.HasTy classes) ins vs) :
    ∃ x, (∀ σ, rd.simple op (vs ++ σ) = (· :: σ) <$> x) ∧
      Yields (rd.registry.HasTy classes out) allowed x := by
  have hb := hrd.benign
  cases h with
  | pushNull | pushBool | pushInt | pushLong | pushFloat | pushDouble | pushChar =>
    cases hvs
    exact ⟨.ok _, fun _ ↦ rfl, .ok rfl⟩
  | pushStr s =>
    cases hvs
    exact ⟨.ok _, fun _ ↦ rfl, .ok (.inr ⟨s, rfl⟩)⟩
  | toStr t =>
    obtain ⟨v, rfl, hv⟩ := forall₂_one hvs
    obtain ⟨s, hs⟩ := hrd.text v hv.isCell
    refine ⟨.ok (.str s), fun σ ↦ ?_, .ok (.inr ⟨s, rfl⟩)⟩
    simp only [List.cons_append, List.nil_append, Reading.simple, hs]
    rfl
  | parse p =>
    obtain ⟨v, rfl, hv⟩ := forall₂_one hvs
    cases p with
    | boolean =>
      refine ⟨(fun s ↦ .bool (Literal.equalsIgnoringCase s "true")) <$> v.parsed "boolean parse",
        fun σ ↦ ?_, (yields_parsed hb _ hv fun _ ↦ trivial).bind (P := fun _ ↦ True) fun s _ ↦ .ok rfl⟩
      simp only [List.cons_append, List.nil_append, Coercion.parse, Reading.simple, Functor.map_map]
    | char =>
      refine ⟨v.parsed "char parse" >>= onlyChar, fun σ ↦ ?_,
        (yields_parsed hb _ hv fun _ ↦ trivial).bind (P := fun _ ↦ True) fun s _ ↦ ?_⟩
      · simp only [List.cons_append, List.nil_append, Coercion.parse, Reading.simple, map_bind]
        refine bind_congr fun s ↦ ?_
        simp only [onlyChar]
        rcases s.toList with _ | ⟨c, _ | _⟩ <;> rfl
      · unfold onlyChar
        split
        · exact .ok rfl
        · exact .error (hb _ rfl)
    | _ =>
      refine ⟨v.parsed "number parse" >>= fun s ↦ raise (Value.parse s _), fun σ ↦ ?_,
        (yields_parsed hb _ hv fun _ ↦ trivial).bind (P := fun _ ↦ True) fun s _ ↦
          yields_parse hb s _⟩
      simp only [List.cons_append, List.nil_append, Coercion.parse, Reading.simple, map_bind]
  | @enumValueOf c hc =>
    obtain ⟨v, rfl, hv⟩ := forall₂_one hvs
    refine ⟨v.parsed "enum lookup" >>= fun s ↦ raise (rd.registry.enumValueOf c s), fun σ ↦ ?_,
        (yields_parsed hb _ hv fun _ ↦ trivial).bind (P := fun _ ↦ True) fun s _ ↦ ?_⟩
    · simp only [List.cons_append, List.nil_append, Reading.simple, map_bind]
    · unfold Registry.enumValueOf
      split
      · next hnone => simp [Registry.model, hnone] at hc
      · split
        · next name _ => exact .ok (.inr (.inr ⟨c, name, rfl, hc, Registry.isSubclass_refl c⟩))
        · exact .error (hb _ rfl)
  | convert hp hq =>
    obtain ⟨v, rfl, hv⟩ := forall₂_one hvs
    obtain ⟨v', hv', ht⟩ := convert_eq_ok hp hq hv
    refine ⟨.ok v', fun σ ↦ ?_, .ok ht⟩
    simp only [List.cons_append, List.nil_append, Reading.simple, raise_ok hv']
  | box p =>
    obtain ⟨v, rfl, hv⟩ := forall₂_one hvs
    exact ⟨.ok v, fun _ ↦ rfl, .ok (.inr hv)⟩
  | unbox p =>
    obtain ⟨v, rfl, hv⟩ := forall₂_one hvs
    rcases hv with rfl | hv
    · exact ⟨.error (.error (.nullReference ("unboxing to " ++ p.name))), fun _ ↦ rfl,
        .error (hb _ rfl)⟩
    · refine ⟨.ok v, fun σ ↦ ?_, .ok hv⟩
      cases v <;> first | rfl | cases hv
  | arith hop hr hk =>
    obtain ⟨b, a, rfl, hv', hv⟩ := forall₂_two hvs
    exact ⟨_, fun _ ↦ rfl, yields_arith hb hop hr hk hv hv'⟩
  | neg hr hk =>
    obtain ⟨v, rfl, hv⟩ := forall₂_one hvs
    obtain ⟨v', hv', ht⟩ := negate_eq_ok hr hk hv
    refine ⟨.ok v', fun σ ↦ ?_, .ok ht⟩
    simp only [List.cons_append, List.nil_append, Reading.simple, raise_ok hv']
  | cmp hop =>
    obtain ⟨b, a, rfl, hv', hv⟩ := forall₂_two hvs
    obtain ⟨t, ht⟩ := compare_eq_ok hop hv hv'
    refine ⟨.ok (.bool t), fun σ ↦ ?_, .ok rfl⟩
    simp only [List.cons_append, List.nil_append, Reading.simple, raise_ok ht]
    rfl
  | refEq s t =>
    obtain ⟨b, a, rfl, -, -⟩ := forall₂_two hvs
    exact ⟨.ok _, fun _ ↦ rfl, .ok rfl⟩
  | not =>
    obtain ⟨v, rfl, hv⟩ := forall₂_one hvs
    obtain ⟨b, rfl⟩ := Value.bool_of_prim? hv
    exact ⟨.ok _, fun _ ↦ rfl, .ok rfl⟩
  | concat s t =>
    obtain ⟨b, a, rfl, hv', hv⟩ := forall₂_two hvs
    obtain ⟨x, hx⟩ := hrd.text a hv.isCell
    obtain ⟨y, hy⟩ := hrd.text b hv'.isCell
    refine ⟨.ok (.str (x ++ y)), fun σ ↦ ?_, .ok (.inr ⟨_, rfl⟩)⟩
    simp only [List.cons_append, List.nil_append, Reading.simple, hx, hy]
    rfl
  | charAt =>
    obtain ⟨i, t, rfl, hi, ht⟩ := forall₂_two hvs
    obtain ⟨n, rfl⟩ := Value.int_of_prim? hi
    refine ⟨t.parsed "string index" >>= fun s ↦
      (fun c ↦ .str (String.singleton c)) <$> raise (Builtin.charAt s n), fun σ ↦ ?_,
      (yields_parsed hb _ ht fun _ ↦ trivial).bind (P := fun _ ↦ True) fun s _ ↦ ?_⟩
    · simp only [List.cons_append, List.nil_append, Reading.simple, map_bind, Functor.map_map]
      rfl
    · unfold Builtin.charAt
      split
      · exact .ok (.inr ⟨_, rfl⟩)
      · exact .error (hb _ rfl)
  | getStatic hf =>
    cases hvs
    simp only [Registry.model, Option.map_eq_some_iff] at hf
    obtain ⟨d, hd, rfl⟩ := hf
    obtain ⟨v, hv, ht⟩ := hrd.statics d (Array.mem_of_find?_eq_some hd)
    refine ⟨.ok v, fun σ ↦ ?_, .ok ht⟩
    simp only [List.nil_append, Reading.simple, raise_ok hv]

end Op.Typed

end LiveBinding
