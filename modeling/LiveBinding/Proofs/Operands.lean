import LiveBinding.Proofs.Folding

namespace LiveBinding

/-- Text that is read as a whole number has only digits and signs. -/
theorem parseInt?_chars {lo hi n : Int} {text : String} (h : parseInt? lo hi text = some n) :
    text.toList ≠ [] ∧ ∀ c ∈ text.toList, c.isDigit ∨ c = '-' ∨ c = '+' := by
  unfold parseInt? at h
  dsimp only at h
  split at h
  · next hdigits =>
    rw [isDigits, Bool.and_eq_true, Bool.not_eq_true', List.isEmpty_eq_false_iff,
      List.all_eq_true] at hdigits
    obtain ⟨hne, hall⟩ := hdigits
    unfold splitSign at hne hall
    split at hne
    · next htext =>
      rw [htext]
      refine ⟨by simp, List.forall_mem_cons.mpr ⟨.inr (.inl rfl), fun c hc ↦ .inl (hall c ?_)⟩⟩
      simpa [htext] using hc
    · next htext =>
      rw [htext]
      refine ⟨by simp, List.forall_mem_cons.mpr ⟨.inr (.inr rfl), fun c hc ↦ .inl (hall c ?_)⟩⟩
      simpa [htext] using hc
    · next hminus hplus =>
      refine ⟨hne, fun c hc ↦ .inl (hall c ?_)⟩
      split
      · next htext => exact absurd htext (hminus _)
      · next htext => exact absurd htext (hplus _)
      · exact hc
  · cases h

theorem narrowLong?_ofInt (n : Int32) : narrowLong? (Int64.ofInt n.toInt) = some n := by
  have hlo := n.le_toInt
  have hhi := n.toInt_lt
  rw [narrowLong?, Int32.toInt_ofInt64, if_pos, Int32.ofInt_toInt]
  rw [Bool.and_eq_true, decide_eq_true_eq, decide_eq_true_eq, minInt, maxInt]
  omega

/-- The bounds only decide whether there is a number. -/
theorem parseInt?_of_bounds {lo hi : Int} (hlo : minLong ≤ lo) (hhi : hi ≤ maxLong) (text : String) :
    parseInt? lo hi text = (parseInt64? text).bind fun n ↦
      if lo ≤ n.toInt && n.toInt ≤ hi then some n.toInt else none := by
  unfold parseInt64? parseInt?
  dsimp only
  split
  · generalize (if (splitSign text.toList).1 then _ else _ : Int) = n
    by_cases hlong : minLong ≤ n ∧ n ≤ maxLong
    · have hn : (Int64.ofInt n).toInt = n :=
        Int64.toInt_ofInt_of_le (by simpa [minLong] using hlong.1) (by
          have := hlong.2
          simp only [maxLong] at this
          omega)
      simp [hlong, hn]
    · have hnot : ¬(lo ≤ n ∧ n ≤ hi) := by omega
      simp [hlong, hnot]
  · rfl

theorem parseInt32?_eq (text : String) : parseInt32? text = (parseInt64? text).bind narrowLong? := by
  rw [parseInt32?, parseInt?_of_bounds (by decide) (by decide), Option.map_bind]
  congr 1
  funext n
  dsimp only [Function.comp, narrowLong?]
  split <;> rfl

namespace Text

theorem trim_of_all {text : String} (h : ∀ c ∈ text.toList, isBlank c = false) : trim text = text := by
  have hdrop {cs : List Char} (h : ∀ c ∈ cs, isBlank c = false) : cs.dropWhile isBlank = cs := by
    cases cs with
    | nil => rfl
    | cons c cs => simp [h c List.mem_cons_self]
  rw [trim, trimStart, hdrop h, trimEnd, hdrop fun c hc ↦ h c (List.mem_reverse.mp hc),
    List.reverse_reverse, String.ofList_toList]

end Text

namespace Literal

variable {text : String} {n : Int64} {l v : Literal}

/-- The whole number that a literal is or spells. -/
def whole? (l : Literal) : Option Int64 := l.numericView?.bind toInt64?

@[simp] theorem toInt64?_ofInt64 (n : Int64) : (ofInt64 n).toInt64? = some n := by
  unfold ofInt64
  cases h : narrowLong? n with
  | none => rfl
  | some m =>
    obtain rfl := narrowLong?_eq h
    unfold narrowLong? at h
    split at h
    · next hn =>
      have hm : (Int32.ofInt n.toInt).toInt = n.toInt := by
        rw [Bool.and_eq_true, decide_eq_true_eq, decide_eq_true_eq, minInt, maxInt] at hn
        exact Int32.toInt_ofInt_of_le (by omega) (by omega)
      simp only [toInt64?, hm, Int64.ofInt_toInt]
    · cases h

theorem parseNumeric?_of_parseInt64? (h : parseInt64? text = some n) :
    parseNumeric? text = some (ofInt64 n) := by
  obtain ⟨z, hz, -⟩ := Option.map_eq_some_iff.mp h
  obtain ⟨hne, hchars⟩ := parseInt?_chars hz
  have htrim : Text.trim text = text := Text.trim_of_all fun c hc ↦ by
    rcases hchars c hc with hd | rfl | rfl
    · simp only [Char.isDigit, Bool.and_eq_true, decide_eq_true_eq, ge_iff_le, UInt32.le_iff_toNat_le] at hd
      simp only [Text.isBlank, Char.toNat]
      simp
      simp at hd
      omega
    · rfl
    · rfl
  have hother {other : String} (c : Char) (hc : c ∈ other.toList)
      (hcs : ¬(c.isDigit ∨ c = '-' ∨ c = '+')) : (text == other) = false :=
    beq_eq_false_iff_ne.mpr fun heq ↦ hcs (hchars c (heq ▸ hc))
  have hfloating : isFloatingText text = false := by
    rw [isFloatingText, hother 'N' (by decide) (by decide), hother 'I' (by decide) (by decide),
      hother 'I' (by decide) (by decide), Bool.or_false, Bool.or_false, Bool.or_false,
      List.any_eq_false]
    intro c hc hmark
    simp only [Bool.or_eq_true, beq_iff_eq, or_assoc] at hmark
    rcases hmark with rfl | rfl | rfl <;> exact absurd (hchars _ hc) (by decide)
  have hempty : text.isEmpty = false := by
    simpa [String.isEmpty_iff, ← String.toList_eq_nil_iff] using hne
  simp [parseNumeric?, hempty, htrim, hfloating, h]

theorem parseNumeric?_cases (h : parseNumeric? text = some v) :
    (∃ x, v = double x) ∨ ∃ n, parseInt64? text = some n ∧ v = ofInt64 n := by
  unfold parseNumeric? at h
  split at h
  · cases h
  · split at h
    · split at h
      · split at h <;> cases h
        exact .inl ⟨_, rfl⟩
      · cases h
    · obtain ⟨n, hn, rfl⟩ := Option.map_eq_some_iff.mp h
      exact .inr ⟨n, hn, rfl⟩

/-- Text spells a whole number if the host can read it as one. -/
theorem whole?_string (text : String) : (string text).whole? = parseInt64? text := by
  show ((parseNumeric? text).or ((parseBoolean? text).map boolean)).bind toInt64? = _
  cases hn : parseInt64? text with
  | some n => simp [parseNumeric?_of_parseInt64? hn]
  | none =>
    cases hp : parseNumeric? text with
    | none => cases parseBoolean? text <;> rfl
    | some v =>
      obtain ⟨x, rfl⟩ | ⟨n, hn', -⟩ := parseNumeric?_cases hp
      · rfl
      · cases hn.symm.trans hn'

theorem parseBoolean?_true {b : Bool} (h : parseBoolean? text = some b) :
    equalsIgnoringCase text "true" = b := by
  unfold parseBoolean? at h
  split at h
  · next htrue => exact (Option.some.inj h) ▸ htrue
  · next htrue =>
    split at h <;> cases h
    simpa using htrue

/-- Text spells a boolean only if it spells no number. -/
theorem numericView?_boolean {b : Bool} (h : (string text).numericView? = some (boolean b)) :
    equalsIgnoringCase text "true" = b := by
  change (parseNumeric? text).or ((parseBoolean? text).map boolean) = _ at h
  cases hp : parseNumeric? text with
  | some v =>
    rw [hp] at h
    cases h
    obtain ⟨x, hx⟩ | ⟨n, -, hn⟩ := parseNumeric?_cases hp
    · cases hx
    · unfold ofInt64 at hn
      split at hn <;> cases hn
  | none =>
    rw [hp] at h
    obtain ⟨b', hb, hv⟩ := Option.map_eq_some_iff.mp h
    cases hv
    exact parseBoolean?_true hb

end Literal

/-- The kinds at which an operation is exact. -/
def Prim.isExact : Prim → Bool
  | boolean | int | long => true
  | _ => false

/-- What the host makes of a literal that is to be an operand of a kind. -/
def Literal.readAs (kind : Prim) : Literal → Except RuntimeError Value
  | string text =>
    if kind = .boolean then .ok (.bool (equalsIgnoringCase text "true")) else Value.parse text kind
  | l => (Value.ofLiteral l).convert kind

namespace Fold

open Literal

variable {kind : Prim} {l l' : Literal}

theorem operand?_int (l : Literal) : operand? .int l = (l.whole?.bind narrowLong?).map .int := by
  unfold operand? whole?
  cases l.numericView? <;> rfl

theorem operand?_long (l : Literal) : operand? .long l = l.whole?.map .long := by
  unfold operand? whole?
  cases l.numericView? <;> rfl

theorem operand?_boolean (h : operand? .boolean l = some l') :
    ∃ b, l' = boolean b ∧ l.numericView? = some (boolean b) := by
  unfold operand? at h
  obtain ⟨v, hv, h⟩ := Option.bind_eq_some_iff.mp h
  cases v with
  | boolean b =>
    cases h
    exact ⟨b, rfl, hv⟩
  | _ => cases h

/-- Text is read as a number while compiling if it is one in the host. -/
theorem readAs_string (text : String) (hk : kind = .int ∨ kind = .long) :
    (string text).readAs kind = match operand? kind (string text) with
      | some l => .ok (.ofLiteral l)
      | none => .error (.numberFormat text kind.name) := by
  rcases hk with rfl | rfl
  · rw [operand?_int, whole?_string, ← parseInt32?_eq]
    show Value.parse text .int = _
    unfold Value.parse
    cases parseInt32? text <;> rfl
  · rw [operand?_long, whole?_string]
    show Value.parse text .long = _
    unfold Value.parse
    cases parseInt64? text <;> rfl

/-- The operand at a kind is what the host reads. -/
theorem readAs_operand? (hk : kind.isExact) (h : operand? kind l = some l') :
    l.readAs kind = .ok (.ofLiteral l') ∧ Ty.ofLiteral l' = .prim kind := by
  cases htext : l.isText with
  | false =>
    have hread : l.readAs kind = (Value.ofLiteral l).convert kind := by
      cases l with
      | string => cases htext
      | _ => rfl
    rw [hread]
    exact operand?_eq htext h
  | true =>
    obtain ⟨text, rfl⟩ : ∃ text, l = string text := by
      cases l with
      | string text => exact ⟨text, rfl⟩
      | _ => cases htext
    cases kind with
    | boolean =>
      obtain ⟨b, rfl, hb⟩ := operand?_boolean h
      exact ⟨congrArg (fun b ↦ Except.ok (Value.bool b)) (numericView?_boolean hb), rfl⟩
    | int =>
      rw [readAs_string text (.inl rfl), h]
      rw [operand?_int] at h
      obtain ⟨m, -, rfl⟩ := Option.map_eq_some_iff.mp h
      exact ⟨rfl, rfl⟩
    | long =>
      rw [readAs_string text (.inr rfl), h]
      rw [operand?_long] at h
      obtain ⟨m, -, rfl⟩ := Option.map_eq_some_iff.mp h
      exact ⟨rfl, rfl⟩
    | _ => cases hk

/-- A whole number that has a part in the choice of a kind is an operand of it. -/
theorem operand?_of_whole? {n : Int64} {s : Option Rank} (hk : kind = .int ∨ kind = .long)
    (hrank : kind = .ofRank (.promote (l.numericView?.bind rank?) s)) (h : l.whole? = some n) :
    ∃ l', operand? kind l = some l' := by
  rcases hk with rfl | rfl
  · obtain ⟨v, hv, hn⟩ := Option.bind_eq_some_iff.mp h
    rw [operand?_int, h]
    cases v with
    | int m =>
      cases hn
      exact ⟨.int m, by rw [Option.bind_some, narrowLong?_ofInt]; rfl⟩
    | long m =>
      rw [hv] at hrank
      obtain _ | s := s
      · cases hrank
      · cases s <;> cases hrank
    | _ => cases hn
  · rw [operand?_long, h]
    exact ⟨_, rfl⟩

/-- What the host computes of two literals at a kind. -/
def operate (kind : Prim) (f : Value → Value → Except RuntimeError Value) (l r : Literal) :
    Except RuntimeError Value := do
  let a ← l.readAs kind
  let b ← r.readAs kind
  f a b

variable {op : BinaryOp} {r v : Literal}

theorem operate_arithmetic? (hk : kind.isExact) (h : arithmetic? op kind l r = some v) :
    operate kind (·.arith op kind ·) l r = .ok (.ofLiteral v) := by
  obtain ⟨l', r', hl, hr⟩ := arithmetic?_operands h
  obtain ⟨hla, hty⟩ := readAs_operand? hk hl
  rw [operate, hla, (readAs_operand? hk hr).1]
  exact (arithmetic?_eq hl hr hty h).1

theorem operate_compare? (hk : kind.isExact) (h : compare? op kind l r = some v) :
    operate kind (fun a b ↦ .bool <$> a.compare op kind b) l r = .ok (.ofLiteral v) := by
  obtain ⟨l', r', hl, hr⟩ := compare?_operands h
  obtain ⟨hla, hty⟩ := readAs_operand? hk hl
  obtain ⟨b, hb, rfl⟩ := compare?_eq hl hr hty h
  rw [operate, hla, (readAs_operand? hk hr).1]
  exact congrArg (Value.bool <$> ·) hb

theorem readAs_negate? (hk : kind.isExact) (h : negate? kind l = some v) :
    (l.readAs kind >>= (·.negate kind)) = .ok (.ofLiteral v) := by
  obtain ⟨l', hl⟩ := negate?_operand h
  obtain ⟨hla, hty⟩ := readAs_operand? hk hl
  rw [hla]
  exact (negate?_eq hl hty h).1

theorem references?_same (h : references? op l r = some v) :
    v = .boolean ((Value.ofLiteral l).same (.ofLiteral r) == decide (op = .eq)) := by
  obtain ⟨b, hb, rfl⟩ := Option.map_eq_some_iff.mp h
  have hsame : b = (Value.ofLiteral l).same (.ofLiteral r) := by
    split at hb
    · cases hb
      rfl
    · next a b' =>
      cases hb
      show decide (a = b') = decide (Value.str a = Value.str b')
      exact decide_eq_decide.mpr (by rw [Value.str.injEq])
    · cases hb
      rfl
    · cases hb
      rfl
    · cases hb
  rw [hsame]

theorem readAs_boolean {b : Bool} (h : l.numericView? = some (boolean b)) :
    l.readAs .boolean = .ok (.bool b) := by
  cases l with
  | string text => exact congrArg (fun b ↦ Except.ok (Value.bool b)) (numericView?_boolean h)
  | _ => cases h <;> rfl

/-- A division by zero is not computed, and the host fails to divide whatever it reads. -/
theorem operate_zero (hk : kind = .int ∨ kind = .long) (hop : op = .div ∨ op = .rem)
    (hr : r.whole? = some 0) : arithmetic? op kind l r = none ∧
      ∀ l', operand? kind l = some l' →
        operate kind (·.arith op kind ·) l r = .error .arithmeticFault := by
  have hzero : operand? kind r = some (if kind = .int then .int 0 else .long 0) := by
    rcases hk with rfl | rfl
    · rw [operand?_int, hr]
      rfl
    · rw [operand?_long, hr]
      rfl
  have hexact : kind.isExact := by rcases hk with rfl | rfl <;> rfl
  constructor
  · cases hv : arithmetic? op kind l r with
    | none => rfl
    | some v =>
      unfold arithmetic? at hv
      rw [hzero] at hv
      split at hv
      · next hb =>
        rcases hk with rfl | rfl <;> cases hb
        rcases hop with rfl | rfl <;> cases hv
      · next hb =>
        rcases hk with rfl | rfl <;> cases hb
        rcases hop with rfl | rfl <;> cases hv
      · next hb => rcases hk with rfl | rfl <;> cases hb
      · next hb => rcases hk with rfl | rfl <;> cases hb
      · cases hv
  · intro l' hl
    obtain ⟨hla, hty⟩ := readAs_operand? hexact hl
    rw [operate, hla, (readAs_operand? hexact hzero).1]
    rcases hk with rfl | rfl
    · cases l' <;> cases hty
      rcases hop with rfl | rfl <;> rfl
    · cases l' <;> cases hty
      rcases hop with rfl | rfl <;> rfl

end Fold

end LiveBinding
