import LiveBinding.Proofs.Meaning

namespace LiveBinding

theorem Int32.toInt_ofInt64 (n : Int32) : (Int64.ofInt n.toInt).toInt = n.toInt :=
  Int64.toInt_ofInt_of_le (by have := n.le_toInt; omega) (by have := n.toInt_lt; omega)

theorem narrowLong?_eq {n : Int64} {m : Int32} (h : narrowLong? n = some m) :
    m = Int32.ofInt n.toInt := by
  unfold narrowLong? at h
  split at h
  · exact (Option.some.inj h).symm
  · cases h

@[simp] theorem Value.narrowInt_int (n : Int32) : narrowInt (.int n) = .ok n := by
  show Except.ok (Int32.ofInt (Int64.ofInt n.toInt).toInt) = _
  rw [Int32.toInt_ofInt64, Int32.ofInt_toInt]

namespace Literal

/-- Text can be read as a number or a boolean. -/
def isText : Literal → Bool
  | string _ => true
  | _ => false

variable {l : Literal}

theorem numericView?_eq (h : l.isText = false) : l.numericView? = some l := by
  cases l with
  | string => cases h
  | _ => rfl

theorem rank?_eq : l.rank? = (Ty.ofLiteral l).rank? := by cases l <;> rfl

/-- How a whole literal is read as an operand. -/
theorem toInt64?_eq {n : Int64} (h : l.toInt64? = some n) :
    (Value.ofLiteral l).narrowInt = .ok (Int32.ofInt n.toInt) ∧
      (Value.ofLiteral l).widenLong = .ok n ∧
      (Value.ofLiteral l).toSingle = .ok (.ofInt .single n.toInt) := by
  cases l <;> cases h <;> exact ⟨rfl, rfl, rfl⟩

theorem toDouble?_eq {x : Double} (h : l.toDouble? = some x) :
    (Value.ofLiteral l).toDouble = .ok x := by
  cases l with
  | int n =>
    cases h
    show Except.ok (Floating.ofInt .double (Int64.ofInt n.toInt).toInt) = _
    rw [Int32.toInt_ofInt64]
  | long | float | double => cases h; rfl
  | _ => cases h

end Literal

namespace Fold

variable {kind : Prim} {l l' r r' : Literal} {op : BinaryOp}

/-- The operand at a kind is what a cast makes of the value of the literal. -/
theorem operand?_eq (hl : l.isText = false) (h : operand? kind l = some l') :
    (Value.ofLiteral l).convert kind = .ok (.ofLiteral l') ∧ Ty.ofLiteral l' = .prim kind := by
  unfold operand? at h
  simp only [Literal.numericView?_eq hl, Option.bind_some] at h
  cases kind with
  | boolean => cases l <;> cases h; exact ⟨rfl, rfl⟩
  | char | byte | short => cases h
  | int =>
    obtain ⟨m, hm, rfl⟩ := Option.map_eq_some_iff.mp h
    obtain ⟨n, hn, hm⟩ := Option.bind_eq_some_iff.mp hm
    obtain rfl := narrowLong?_eq hm
    exact ⟨congrArg (Value.int <$> ·) (Literal.toInt64?_eq hn).1, rfl⟩
  | long =>
    obtain ⟨n, hn, rfl⟩ := Option.map_eq_some_iff.mp h
    exact ⟨congrArg (Value.long <$> ·) (Literal.toInt64?_eq hn).2.1, rfl⟩
  | float =>
    cases l with
    | float x => cases h; exact ⟨rfl, rfl⟩
    | string => cases hl
    | _ =>
      simp only [Bool.false_eq_true, if_false] at h
      obtain ⟨n, hn, rfl⟩ := Option.map_eq_some_iff.mp h
      exact ⟨congrArg (Value.float <$> ·) (Literal.toInt64?_eq hn).2.2, rfl⟩
  | double =>
    obtain ⟨x, hx, rfl⟩ := Option.map_eq_some_iff.mp h
    exact ⟨congrArg (Value.double <$> ·) (Literal.toDouble?_eq hx), rfl⟩

theorem integral?_eq {α : Type} [Add α] [Sub α] [Mul α] [Div α] [Mod α] [OfNat α 0] [DecidableEq α]
    {a b c : α} (h : integral? op a b = some c) : Value.wholeArith op a b = .ok c := by
  cases op with
  | div | rem =>
    simp only [integral?, Option.ite_none_left_eq_some] at h
    simp only [Value.wholeArith, if_neg h.1, Option.some.inj h.2]
  | _ => cases h <;> rfl

theorem floating?_eq {w : Width} {a b c : Floating w} (h : floating? op a b = some c) :
    Value.floatArith op a b = .ok c := by
  cases op <;> cases h <;> rfl

variable {v : Literal}

theorem arithmetic?_operands (h : arithmetic? op kind l r = some v) :
    ∃ l' r', operand? kind l = some l' ∧ operand? kind r = some r' := by
  unfold arithmetic? at h
  split at h
  · next hl hr => exact ⟨_, _, hl, hr⟩
  · next hl hr => exact ⟨_, _, hl, hr⟩
  · next hl hr => exact ⟨_, _, hl, hr⟩
  · next hl hr => exact ⟨_, _, hl, hr⟩
  · cases h

theorem compare?_operands (h : compare? op kind l r = some v) :
    ∃ l' r', operand? kind l = some l' ∧ operand? kind r = some r' := by
  obtain ⟨b, h, -⟩ := Option.map_eq_some_iff.mp h
  split at h
  · next hl hr => exact ⟨_, _, hl, hr⟩
  · next hl hr => exact ⟨_, _, hl, hr⟩
  · next hl hr => exact ⟨_, _, hl, hr⟩
  · next hl hr => exact ⟨_, _, hl, hr⟩
  · next hl hr => exact ⟨_, _, hl, hr⟩
  · cases h

theorem negate?_operand (h : negate? kind l = some v) : ∃ l', operand? kind l = some l' := by
  cases hl : operand? kind l with
  | some l' => exact ⟨l', rfl⟩
  | none => simp [negate?, hl] at h

/-- Arithmetic that is done while compiling comes to what it comes to when it is run. -/
theorem arithmetic?_eq (hl : operand? kind l = some l') (hr : operand? kind r = some r')
    (hty : Ty.ofLiteral l' = .prim kind) (h : arithmetic? op kind l r = some v) :
    (Value.ofLiteral l').arith op kind (.ofLiteral r') = .ok (.ofLiteral v) ∧
      Ty.ofLiteral v = .prim kind := by
  unfold arithmetic? at h
  rw [hl, hr] at h
  split at h
  · next ha hb =>
    cases ha; cases hb; cases hty
    obtain ⟨c, hc, rfl⟩ := Option.map_eq_some_iff.mp h
    refine ⟨?_, rfl⟩
    simp only [Value.arith, Value.ofLiteral, Value.narrowInt_int]
    exact congrArg (Value.int <$> ·) (integral?_eq hc)
  · next ha hb =>
    cases ha; cases hb; cases hty
    obtain ⟨c, hc, rfl⟩ := Option.map_eq_some_iff.mp h
    exact ⟨congrArg (Value.long <$> ·) (integral?_eq hc), rfl⟩
  · next ha hb =>
    cases ha; cases hb; cases hty
    obtain ⟨c, hc, rfl⟩ := Option.map_eq_some_iff.mp h
    exact ⟨congrArg (Value.float <$> ·) (floating?_eq hc), rfl⟩
  · next ha hb =>
    cases ha; cases hb; cases hty
    obtain ⟨c, hc, rfl⟩ := Option.map_eq_some_iff.mp h
    exact ⟨congrArg (Value.double <$> ·) (floating?_eq hc), rfl⟩
  · cases h

theorem comparison_eq {answer : Option Bool} {b : Bool} (h : answer = some b) :
    Value.comparison op answer = .ok b := by
  rw [h]
  rfl

/-- So does a comparison. -/
theorem compare?_eq (hl : operand? kind l = some l') (hr : operand? kind r = some r')
    (hty : Ty.ofLiteral l' = .prim kind) (h : compare? op kind l r = some v) :
    ∃ b, (Value.ofLiteral l').compare op kind (.ofLiteral r') = .ok b ∧ v = .boolean b := by
  obtain ⟨b, hb, rfl⟩ := Option.map_eq_some_iff.mp h
  refine ⟨b, ?_, rfl⟩
  rw [hl, hr] at hb
  split at hb
  · next ha hb' =>
    cases ha; cases hb'; cases hty
    simp only [Value.compare, Value.ofLiteral, Value.toBool, bind, Except.bind, hb]
  · next ha hb' =>
    cases ha; cases hb'; cases hty
    simp only [Value.compare, Value.ofLiteral, Value.narrowInt_int]
    exact comparison_eq hb
  · next ha hb' =>
    cases ha; cases hb'; cases hty
    exact comparison_eq hb
  · next ha hb' =>
    cases ha; cases hb'; cases hty
    exact comparison_eq hb
  · next ha hb' =>
    cases ha; cases hb'; cases hty
    exact comparison_eq hb
  · cases hb

theorem negate?_eq (hl : operand? kind l = some l') (hty : Ty.ofLiteral l' = .prim kind)
    (h : negate? kind l = some v) :
    (Value.ofLiteral l').negate kind = .ok (.ofLiteral v) ∧ Ty.ofLiteral v = .prim kind := by
  unfold negate? at h
  rw [hl] at h
  split at h
  · next ha =>
    cases ha; cases hty; cases h
    simp only [Value.negate, Value.ofLiteral, Value.narrowInt_int]
    exact ⟨rfl, rfl⟩
  · next ha => cases ha; cases hty; cases h; exact ⟨rfl, rfl⟩
  · next ha => cases ha; cases hty; cases h; exact ⟨rfl, rfl⟩
  · next ha => cases ha; cases hty; cases h; exact ⟨rfl, rfl⟩
  · cases h

end Fold

namespace Reading

variable (rd : Reading) {op : BinaryOp} {kind : Prim} {a b v : Value}

theorem result_arith (h : a.arith op kind b = .ok v) : rd.result [.arith op kind] [b, a] = pure v := by
  simp only [result, all, ordinary, Reading.op, simple, h]
  rfl

theorem result_compare {x : Bool} (h : a.compare op kind b = .ok x) :
    rd.result [.cmp op kind] [b, a] = pure (.bool x) := by
  simp only [result, all, ordinary, Reading.op, simple, h]
  rfl

theorem result_negate (h : a.negate kind = .ok v) : rd.result [.neg kind] [a] = pure v := by
  simp only [result, all, ordinary, Reading.op, simple, h]
  rfl

theorem result_convert {source : Prim} (h : a.convert kind = .ok v) :
    rd.result [.convert source kind] [a] = pure v := by
  simp only [result, all, ordinary, Reading.op, simple, h]
  rfl

end Reading

/-- Between primitives a conversion is a cast. -/
theorem Coercion.coerce?_prim {model : TypeModel} {p q : Prim} {c : Fragment}
    (h : coerce? model (.prim p) (.prim q) = some c) :
    ∃ ops, cast? p q = some ops ∧ c = .ops ops := by
  unfold coerce? at h
  split at h
  · next ha =>
    cases h
    have hkind : p = q := by simpa [TypeModel.isAssignable, Ty.isReference] using ha
    exact ⟨[], if_pos hkind, rfl⟩
  · rw [if_neg (by rintro ⟨⟩)] at h
    split at h
    · cases h
    · next ops hops => exact ⟨ops, hops, (Option.some.inj h).symm⟩

namespace Fold

variable {kind : Prim} {l l' : Literal} {model : TypeModel} {c : Fragment}

/-- A value that has the kind already is left as it is by a cast. -/
theorem convert_self (h : Ty.ofLiteral l = .prim kind) :
    (Value.ofLiteral l).convert kind = .ok (.ofLiteral l) := by
  cases l with
  | int n => cases h; exact congrArg (Value.int <$> ·) (Value.narrowInt_int n)
  | null | string => cases h
  | _ => cases h; rfl

/-- The conversion of an operand turns the literal into what is computed with. -/
theorem apply_operand? (rd : Reading) (hc : Coercion.coerce? model (.ofLiteral l) (.prim kind) = some c)
    (hl : l.isText = false) (h : operand? kind l = some l') :
    c.apply rd (.ofLiteral l) = pure (.ofLiteral l') := by
  obtain ⟨hconvert, -⟩ := operand?_eq hl h
  obtain ⟨p, hp⟩ : ∃ p, Ty.ofLiteral l = .prim p := by
    cases l with
    | null => cases kind <;> cases h
    | string => cases hl
    | _ => exact ⟨_, rfl⟩
  rw [hp] at hc
  obtain ⟨ops, hcast, rfl⟩ := Coercion.coerce?_prim hc
  unfold Coercion.cast? at hcast
  split at hcast
  · next hkind =>
    cases hcast
    rw [convert_self (hp.trans (congrArg Ty.prim hkind))] at hconvert
    exact congrArg pure (Except.ok.inj hconvert)
  · split at hcast
    · cases hcast
      exact rd.result_convert hconvert
    · cases hcast

/-- Instructions compute of the operands at a kind what a fold computes of the literals. -/
def Computes (list : List Op) (kind : Prim) (ty : Ty) (f : Literal → Literal → Option Literal) : Prop :=
  ∀ l r v, f l r = some v → l.isText = false → r.isText = false →
    v.isText = false ∧ Ty.ofLiteral v = ty ∧
      ∃ l' r', operand? kind l = some l' ∧ operand? kind r = some r' ∧
        ∀ rd : Reading, rd.result list [.ofLiteral r', .ofLiteral l'] = pure (.ofLiteral v)

theorem isText_of_prim {v : Literal} (h : Ty.ofLiteral v = .prim kind) : v.isText = false := by
  cases v with
  | string => cases h
  | _ => rfl

theorem computes_arithmetic (op : BinaryOp) (kind : Prim) :
    Computes [.arith op kind] kind (.prim kind) (arithmetic? op kind) := by
  intro l r v h hl hr
  obtain ⟨l', r', hl', hr'⟩ := arithmetic?_operands h
  obtain ⟨harith, hty⟩ := arithmetic?_eq hl' hr' (operand?_eq hl hl').2 h
  exact ⟨isText_of_prim hty, hty, l', r', hl', hr', fun rd ↦ rd.result_arith harith⟩

theorem computes_compare (op : BinaryOp) (kind : Prim) :
    Computes [.cmp op kind] kind .boolean (compare? op kind) := by
  intro l r v h hl hr
  obtain ⟨l', r', hl', hr'⟩ := compare?_operands h
  obtain ⟨b, hcompare, rfl⟩ := compare?_eq hl' hr' (operand?_eq hl hl').2 h
  exact ⟨rfl, rfl, l', r', hl', hr', fun rd ↦ rd.result_compare hcompare⟩

theorem computes_negate {l v : Literal} (h : negate? kind l = some v) (hl : l.isText = false) :
    Ty.ofLiteral v = .prim kind ∧ ∃ l', operand? kind l = some l' ∧
      ∀ rd : Reading, rd.result [.neg kind] [.ofLiteral l'] = pure (.ofLiteral v) := by
  obtain ⟨l', hl'⟩ := negate?_operand h
  obtain ⟨hnegate, hty⟩ := negate?_eq hl' (operand?_eq hl hl').2 h
  exact ⟨hty, l', hl', fun rd ↦ rd.result_negate hnegate⟩

theorem references?_eq {op : BinaryOp} {l r v : Literal} (h : references? op l r = some v)
    (hl : l.isText = false) (hop : op.category = .equality) :
    v.isText = false ∧ Ty.ofLiteral v = .boolean ∧ ∀ rd : Reading,
      rd.result (Plan.refEquality.ops op) [.ofLiteral r, .ofLiteral l] = pure (.ofLiteral v) := by
  obtain ⟨b, hb, rfl⟩ := Option.map_eq_some_iff.mp h
  refine ⟨rfl, rfl, fun rd ↦ ?_⟩
  split at hb
  · cases hb
    cases op with
    | eq | notEq => rfl
    | _ => cases hop
  · cases hl
  · cases hb
    cases op with
    | eq | notEq => rfl
    | _ => cases hop
  · cases hl
  · cases hb

end Fold

theorem Fragment.apply_empty (rd : Reading) (v : Value) : Fragment.empty.apply rd v = pure v := rfl

theorem Coercion.coerce?_self (model : TypeModel) (t : Ty) : coerce? model t t = some .empty :=
  if_pos (TypeModel.isAssignable_refl model t)

end LiveBinding
