import LiveBinding.Proofs.FoldedBinding
import LiveBinding.Proofs.Operands

namespace LiveBinding

/-- The host shows literals as they are written while compiling. -/
def Reading.Shows (rd : Reading) : Prop := ∀ l : Literal, rd.text (.ofLiteral l) = .ok l.render

theorem World.still_shows (r : Registry) (w : World) : (w.still r).Shows := by
  intro l
  cases l <;> rfl

/-- In every host, code takes some values off the stack and comes to `x`, and it calls nothing. -/
structure Fragment.ComesTo (f : Fragment) (vs : List Value) (x : Except RuntimeError Value) : Prop where
  silent : f.isSilent
  turns : ∀ rd : Reading, rd.Shows → ∀ σ, f.Turns True rd (vs ++ σ) (· :: σ) (.of (Stop.raise x))

namespace Fragment.ComesTo

variable {f g c : Fragment} {vs : List Value} {x y : Except RuntimeError Value} {v : Value}

theorem ops {list : List Op} (hs : (Fragment.ops list).isSilent) (h : ∀ rd : Reading, rd.Shows → ∀ σ st,
    rd.all list ⟨vs ++ σ, st⟩ = (⟨· :: σ, st⟩) <$> Effect.of (Stop.raise x)) :
    (Fragment.ops list).ComesTo vs x := by
  refine ⟨hs, fun rd hrd σ st ↦ ?_⟩
  show Effect.Rel _ _ (rd.all list ⟨vs ++ σ, st⟩) _
  rw [h rd hrd σ st]
  exact (Effect.Rel.map_left _ _).mono fun c v _ _ hc ↦ hc ▸ rfl

theorem op {op : Op} (hs : (Fragment.op op).isSilent) (h : ∀ rd : Reading, rd.Shows → ∀ σ,
    rd.simple op (vs ++ σ) = (· :: σ) <$> Stop.raise x) : (Fragment.op op).ComesTo vs x := by
  refine .ops hs fun rd hrd σ st ↦ ?_
  have hop : op.isPlain && !op.isCall := by simpa [isSilent, Fragment.op] using hs
  have hordinary : rd.ordinary op ⟨vs ++ σ, st⟩ =
      (⟨·, st⟩) <$> Effect.of (rd.simple op (vs ++ σ)) := by
    cases op with
    | loadScratch | storeScratch | invoke | invokeStatic | construct => cases hop
    | _ => rfl
  show rd.ordinary op ⟨vs ++ σ, st⟩ >>= pure = _
  rw [bind_pure, hordinary, h rd hrd σ]
  cases x <;> rfl

theorem empty : Fragment.empty.ComesTo [v] (.ok v) := ⟨rfl, fun _ _ _ ↦ .empty v rfl⟩

theorem push (l : Literal) : (Fragment.op l.push).ComesTo [] (.ok (.ofLiteral l)) := by
  cases l <;> exact .op rfl fun _ _ _ ↦ rfl

theorem raise_eq_ok {z : Except RuntimeError Value} (h : Stop.raise z = .ok v) : z = .ok v := by
  cases z <;> cases h
  rfl

/-- Code that goes on with what other code came to. -/
theorem bind {h : Value → Except RuntimeError Value} (hf : f.ComesTo vs x) (hs : g.isSilent)
    (hg : ∀ a, x = .ok a → g.ComesTo [a] (h a)) : (f ++ g).ComesTo vs (x >>= h) := by
  refine ⟨Bool.and_eq_true _ _ ▸ ⟨hf.silent, hs⟩, fun rd hrd σ ↦ ?_⟩
  have hthen : Effect.of (Stop.raise (x >>= h)) =
      Effect.of (Stop.raise x) >>= fun a ↦ .of (Stop.raise (h a)) := by
    cases x <;> rfl
  rw [hthen]
  exact (hf.turns rd hrd σ).append fun a ha ↦ (hg a (raise_eq_ok ha)).turns rd hrd σ

theorem convert (hf : f.ComesTo vs (.ok v)) (hc : c.ComesTo [v] x) : (f ++ c).ComesTo vs x :=
  hf.bind (h := fun _ ↦ x) hc.silent fun a ha ↦ by cases ha; exact hc

theorem binary {list : List Op} {h : Value → Value → Except RuntimeError Value} (hf : f.ComesTo [] x)
    (hg : g.ComesTo [] y) (hs : (Fragment.ops list).isSilent)
    (hlist : ∀ a b, x = .ok a → y = .ok b → (Fragment.ops list).ComesTo [b, a] (h a b)) :
    (Fragment.concat [f, g] ++ .ops list).ComesTo [] (do let a ← x; let b ← y; h a b) := by
  have hsilent : (f.isSilent && (g.isSilent && true) && (Fragment.ops list).isSilent) = true := by
    rw [hf.silent, hg.silent, hs]
    rfl
  refine ⟨hsilent, fun rd hrd σ ↦ ?_⟩
  have hpair : Effect.of (Stop.raise (do let a ← x; let b ← y; h a b)) =
      Effect.each [.of (Stop.raise x), .of (Stop.raise y)] >>= fun vs ↦
        .of (Stop.raise (h (vs.getD 0 .null) (vs.getD 1 .null))) := by
    cases x with
    | error => rfl
    | ok a =>
      cases y with
      | error => rfl
      | ok b => rfl
  have hcode : List.Forall₂ (Operand.Comes True rd) [⟨f, false⟩, ⟨g, false⟩]
      [.of (Stop.raise x), .of (Stop.raise y)] :=
    .cons (fun σ _ ↦ hf.turns rd hrd σ) (.cons (fun σ _ ↦ hg.turns rd hrd σ) .nil)
  rw [hpair]
  refine (turns_concat hcode (fun _ ↦ by simp) σ).append fun vs hvs ↦ ?_
  obtain ⟨a, b, ha, hb, rfl⟩ := Effect.each_two_eq_ok hvs
  exact (hlist a b (raise_eq_ok ha) (raise_eq_ok hb)).turns rd hrd σ

theorem shortCircuit {op : BinaryOp} {a : Bool} (hf : f.ComesTo [] (.ok (.bool a)))
    (hg : g.ComesTo [] y) :
    (Fragment.shortCircuit op f g).ComesTo [] (if op.skips a then .ok (.bool a) else y) := by
  refine ⟨Bool.and_eq_true _ _ ▸ ⟨hf.silent, hg.silent⟩, fun rd hrd σ st ↦ ?_⟩
  have hbind := (hf.turns rd hrd σ st).bind (f := Config.fork op pure (g.den rd))
    (g := fun _ ↦ .of (Stop.raise (if op.skips a then .ok (.bool a) else y)))
    (Q := fun c v ↦ c.stack = v :: σ) fun c v _ hv hc ↦ ?_
  · exact hbind
  · cases hv
    obtain ⟨ρ, st'⟩ := c
    obtain rfl : ρ = .bool a :: σ := hc
    rw [Config.fork_of_toBool rfl]
    split
    · exact .pure rfl
    · exact hg.turns rd hrd σ st'

theorem nullGuard (hf : f.ComesTo [v] x) (hg : g.isSilent) (hv : v.isNull = false) :
    (Fragment.nullGuard f g).ComesTo [v] x := by
  refine ⟨Bool.and_eq_true _ _ ▸ ⟨hf.silent, hg⟩, fun rd hrd σ st ↦ ?_⟩
  show Effect.Rel _ _ (if v.isNull then g.den rd ⟨σ, st⟩ else f.den rd ⟨v :: σ, st⟩) _
  rw [if_neg (by simp [hv])]
  exact hf.turns rd hrd σ st

end Fragment.ComesTo

namespace Coercion

variable {model : TypeModel} {kind : Prim} {l : Literal} {c : Fragment}

theorem comesTo_parseNumber (text : String) (kind : Prim) :
    (Fragment.op (.parseNumber kind)).ComesTo [.str text] (Value.parse text kind) :=
  .op rfl fun _ _ _ ↦ rfl

theorem comesTo_parse (text : String) (hk : kind ≠ .char) :
    (Fragment.op (parse kind)).ComesTo [.str text] ((Literal.string text).readAs kind) := by
  by_cases hb : kind = .boolean
  · subst hb
    exact .op rfl fun _ _ _ ↦ rfl
  · have hparse : parse kind = .parseNumber kind := by
      cases kind <;> first | rfl | exact absurd rfl hk | exact absurd rfl hb
    rw [hparse, Literal.readAs, if_neg hb]
    exact comesTo_parseNumber text kind

theorem isSilent_default {ops : List Op} (h : defaultValue? (.prim kind) = some ops) :
    (Fragment.ops ops).isSilent := by
  cases kind <;> cases h <;> rfl

/-- A cast between primitives. -/
theorem comesTo_cast? {p : Prim} {ops : List Op} (hp : Ty.ofLiteral l = .prim p)
    (h : cast? p kind = some ops) :
    (Fragment.ops ops).ComesTo [.ofLiteral l] ((Value.ofLiteral l).convert kind) := by
  unfold cast? at h
  split at h
  · next hkind =>
    cases h
    rw [Fold.convert_self (hp.trans (congrArg Ty.prim hkind))]
    exact .empty
  · split at h
    · cases h
      exact .op rfl fun _ _ _ ↦ rfl
    · cases h

/-- The conversion of a literal reads it as an operand. -/
theorem comesTo_coerce? (h : coerce? model (.ofLiteral l) (.prim kind) = some c) (hnull : l ≠ .null)
    (hk : kind ≠ .char) : c.ComesTo [.ofLiteral l] (l.readAs kind) := by
  by_cases htext : ∃ text, l = .string text
  · obtain ⟨text, rfl⟩ := htext
    have h : (defaultValue? (.prim kind)).map (fun default ↦
        Fragment.nullGuard (.op (parse kind)) (.ops default)) = some c := h
    obtain ⟨default, hdefault, rfl⟩ := Option.map_eq_some_iff.mp h
    exact (comesTo_parse text hk).nullGuard (isSilent_default hdefault) rfl
  · obtain ⟨p, hp⟩ : ∃ p, Ty.ofLiteral l = .prim p := by
      cases l with
      | null => exact absurd rfl hnull
      | string text => exact absurd ⟨text, rfl⟩ htext
      | _ => exact ⟨_, rfl⟩
    have hread : l.readAs kind = (Value.ofLiteral l).convert kind := by
      cases l with
      | string text => exact absurd ⟨text, rfl⟩ htext
      | _ => rfl
    rw [hp] at h
    obtain ⟨ops, hops, rfl⟩ := coerce?_prim h
    exact hread ▸ comesTo_cast? hp hops

end Coercion

theorem Prim.ofRank_ne_char (rank : Rank) : ofRank rank ≠ .char := by cases rank <;> rintro ⟨⟩

namespace Node

/-- The node of an operation that does not round. -/
def isExact : Node → Bool
  | binary _ _ _ _ (.arithmetic kind) | binary _ _ _ _ (.compare kind) | unary _ _ _ kind => kind.isExact
  | binary .. => true
  | _ => false

def IsLiteral (l : Literal) (n : Node) : Prop :=
  ∃ info, n = .literal info l ∧ info.facts = .fixed (.ofLiteral l)

theorem IsLiteral.ty {l : Literal} {n : Node} (h : n.IsLiteral l) : n.ty = .ofLiteral l := by
  obtain ⟨info, rfl, hi⟩ := h
  exact congrArg Facts.ty hi

/-- What the host comes to for `m`, and `n` knows of it. -/
structure Foresees (n m : Node) (x : Except RuntimeError Value) : Prop where
  code : m.renderDirect.ComesTo [] x
  monitoring : m.monitoring = 0
  evaluable : m.info.evaluable
  literal : ∀ v, n.literal? = some v → x = .ok (.ofLiteral v)

variable {info i j : NodeInfo} {op : BinaryOp} {l r : Literal} {c c' : Fragment} {plan : Plan}
variable {x y : Except RuntimeError Value}

theorem comesTo_binary {h : Value → Value → Except RuntimeError Value} (hp : plan ≠ .shortCircuit)
    (hc : c.ComesTo [.ofLiteral l] x) (hc' : c'.ComesTo [.ofLiteral r] y)
    (hs : (Fragment.ops (plan.ops op)).isSilent)
    (hlist : ∀ a b, x = .ok a → y = .ok b → (Fragment.ops (plan.ops op)).ComesTo [b, a] (h a b)) :
    (binary info op (.mk (.literal i l) c) (.mk (.literal j r) c') plan).renderDirect.ComesTo []
      (do let a ← x; let b ← y; h a b) := by
  have hrender : (binary info op (.mk (.literal i l) c) (.mk (.literal j r) c') plan).renderDirect =
      .concat [.op l.push ++ c, .op r.push ++ c'] ++ .ops (plan.ops op) :=
    congrArg Prod.fst (render_binary .direct () info op (literal i l) (literal j r) c c' hp)
  rw [hrender]
  exact ((Fragment.ComesTo.push l).convert hc).binary ((Fragment.ComesTo.push r).convert hc') hs hlist

theorem comesTo_unary {op : UnaryOp} {kind : Prim} {h : Value → Except RuntimeError Value}
    (hc : c.ComesTo [.ofLiteral l] x) (hs : (Fragment.op (op.op kind)).isSilent)
    (hop : ∀ a, x = .ok a → (Fragment.op (op.op kind)).ComesTo [a] (h a)) :
    (unary info op (.mk (.literal i l) c) kind).renderDirect.ComesTo [] (x >>= h) :=
  ((Fragment.ComesTo.push l).convert hc).bind hs hop

section

variable {model : TypeModel} {kind : Prim} (hk : kind ≠ .char)
variable (hl : l ≠ .null) (hc : Coercion.coerce? model (.ofLiteral l) (.prim kind) = some c)
variable (hr : r ≠ .null) (hc' : Coercion.coerce? model (.ofLiteral r) (.prim kind) = some c')
include hk hl hc

theorem comesTo_neg :
    (unary info .neg (.mk (.literal i l) c) kind).renderDirect.ComesTo []
      (l.readAs kind >>= (·.negate kind)) :=
  comesTo_unary (Coercion.comesTo_coerce? hc hl hk) rfl fun _ _ ↦ .op rfl fun _ _ _ ↦ rfl

include hr hc'

theorem comesTo_arithmetic :
    (binary info op (.mk (.literal i l) c) (.mk (.literal j r) c') (.arithmetic kind)).renderDirect.ComesTo []
      (Fold.operate kind (·.arith op kind ·) l r) :=
  comesTo_binary (by rintro ⟨⟩) (Coercion.comesTo_coerce? hc hl hk) (Coercion.comesTo_coerce? hc' hr hk) rfl
    fun _ _ _ _ ↦ .op rfl fun _ _ _ ↦ rfl

theorem comesTo_compare :
    (binary info op (.mk (.literal i l) c) (.mk (.literal j r) c') (.compare kind)).renderDirect.ComesTo []
      (Fold.operate kind (fun a b ↦ .bool <$> a.compare op kind b) l r) :=
  comesTo_binary (by rintro ⟨⟩) (Coercion.comesTo_coerce? hc hl hk) (Coercion.comesTo_coerce? hc' hr hk) rfl
    fun a b _ _ ↦ .op rfl fun rd _ σ ↦ by
      simp only [List.cons_append, List.nil_append, Reading.simple]
      cases a.compare op kind b <;> rfl

end

theorem comesTo_concat :
    (binary info .add (.mk (.literal i l) .empty) (.mk (.literal j r) .empty) .concat).renderDirect.ComesTo []
      (.ok (.str (l.render ++ r.render))) :=
  comesTo_binary (h := fun _ _ ↦ .ok (.str (l.render ++ r.render))) (by rintro ⟨⟩) .empty .empty rfl
    fun a b ha hb ↦ by
      cases ha; cases hb
      refine .op rfl fun rd hrd σ ↦ ?_
      simp only [List.cons_append, List.nil_append, Reading.simple, hrd l, hrd r]
      rfl

theorem comesTo_refEquality (hop : op.category = .equality) :
    (binary info op (.mk (.literal i l) .empty) (.mk (.literal j r) .empty) .refEquality).renderDirect.ComesTo []
      (.ok (.bool ((Value.ofLiteral l).same (.ofLiteral r) == decide (op = .eq)))) :=
  comesTo_binary (h := fun a b ↦ .ok (.bool (a.same b == decide (op = .eq)))) (by rintro ⟨⟩) .empty .empty
    (by cases op <;> rfl) fun a b _ _ ↦ by
      cases op with
      | eq =>
        refine .ops rfl fun rd _ σ st ↦ ?_
        show pure _ = pure (⟨.bool (a.same b == true) :: σ, st⟩ : Config)
        rw [beq_true]
        rfl
      | notEq =>
        refine .ops rfl fun rd _ σ st ↦ ?_
        show pure _ = pure (⟨.bool (a.same b == false) :: σ, st⟩ : Config)
        rw [beq_false]
        rfl
      | _ => cases hop

theorem readAs_boolean_eq_ok {model : TypeModel} (hl : l ≠ .null)
    (hc : Coercion.coerce? model (.ofLiteral l) .boolean = some c) :
    ∃ b, l.readAs .boolean = .ok (.bool b) := by
  cases l with
  | null => exact absurd rfl hl
  | string | boolean => exact ⟨_, rfl⟩
  | _ =>
    obtain ⟨ops, hops, -⟩ := Coercion.coerce?_prim hc
    cases hops

section

variable {model : TypeModel} (hl : l ≠ .null)
variable (hc : Coercion.coerce? model (.ofLiteral l) .boolean = some c)
include hl hc

theorem comesTo_not :
    (unary info .not (.mk (.literal i l) c) .boolean).renderDirect.ComesTo []
      (l.readAs .boolean >>= fun v ↦ (fun b ↦ .bool !b) <$> v.toBool) :=
  comesTo_unary (Coercion.comesTo_coerce? hc hl (by rintro ⟨⟩)) rfl fun a _ ↦ .op rfl fun rd _ σ ↦ by
    simp only [UnaryOp.op, List.cons_append, List.nil_append, Reading.simple]
    cases a.toBool <;> rfl

theorem comesTo_shortCircuit {a : Bool} (ha : l.readAs .boolean = .ok (.bool a)) (hr : r ≠ .null)
    (hc' : Coercion.coerce? model (.ofLiteral r) .boolean = some c') :
    (binary info op (.mk (.literal i l) c) (.mk (.literal j r) c') .shortCircuit).renderDirect.ComesTo []
      (if op.skips a then .ok (.bool a) else r.readAs .boolean) :=
  ((Fragment.ComesTo.push l).convert (ha ▸ Coercion.comesTo_coerce? hc hl (by rintro ⟨⟩))).shortCircuit
    ((Fragment.ComesTo.push r).convert (Coercion.comesTo_coerce? hc' hr (by rintro ⟨⟩)))

end

/-- A division by zero fails, unless the dividend is text that spells no whole number. Then reading the
dividend fails before. -/
structure Faults (l : Literal) (ty : Ty) (x : Except RuntimeError Value) : Prop where
  whole : l.whole?.isSome → x = .error .arithmeticFault
  text : l.whole? = none →
    ∃ text kind, l = .string text ∧ ty = .prim kind ∧ x = .error (.numberFormat text kind.name)

theorem faults_zero {model : TypeModel} {kind : Prim} {s : Option Rank} (hk : kind = .int ∨ kind = .long)
    (hrank : kind = .ofRank (.promote (l.numericView?.bind Literal.rank?) s)) (hl : l ≠ .null)
    (hc : Coercion.coerce? model (.ofLiteral l) (.prim kind) = some c) (hop : op = .div ∨ op = .rem)
    (hr : r.whole? = some 0) : Faults l (.prim kind) (Fold.operate kind (·.arith op kind ·) l r) := by
  constructor
  · intro hwhole
    obtain ⟨n, hn⟩ := Option.isSome_iff_exists.mp hwhole
    obtain ⟨l', hl'⟩ := Fold.operand?_of_whole? hk hrank hn
    exact (Fold.operate_zero hk hop hr).2 l' hl'
  · intro hwhole
    cases l with
    | null => exact absurd rfl hl
    | int | long => cases hwhole
    | boolean =>
      obtain ⟨ops, hops, -⟩ := Coercion.coerce?_prim hc
      rcases hk with rfl | rfl <;> cases hops
    | float | double =>
      rcases hk with rfl | rfl <;> rcases s with _ | _ | _ | _ | _ | _ <;> cases hrank
    | string text =>
      have hnone : Fold.operand? kind (.string text) = none := by
        rcases hk with rfl | rfl
        · rw [Fold.operand?_int, hwhole]
          rfl
        · rw [Fold.operand?_long, hwhole]
          rfl
      refine ⟨text, kind, rfl, rfl, ?_⟩
      rw [Fold.operate, Fold.readAs_string text hk, hnone]
      rfl

/-- An operation over two literals is known in advance, if it does not round. A division by zero is
not computed. -/
def Operates (op : BinaryOp) (l r : Literal) (n m : Node) : Prop :=
  m.isExact → ∃ x, n.Foresees m x ∧
    ((op = .div ∨ op = .rem) → r.whole? = some 0 → n.literal? = none ∧ Faults l m.ty x)

/-- What is known in advance of an operation over two literals that are converted to a kind. -/
def Known (model : TypeModel) (op : BinaryOp) (l r : Literal) (kind : Prim) (plan : Plan) (ty : Ty)
    (value : Option Literal) : Prop :=
  ∀ info i j c c', l ≠ .null → Coercion.coerce? model (.ofLiteral l) (.prim kind) = some c →
    r ≠ .null → Coercion.coerce? model (.ofLiteral r) (.prim kind) = some c' →
    (binary info op (.mk (.literal i l) c) (.mk (.literal j r) c') plan).isExact →
    ∃ x, (binary info op (.mk (.literal i l) c) (.mk (.literal j r) c') plan).renderDirect.ComesTo [] x ∧
      (∀ v, value = some v → x = .ok (.ofLiteral v)) ∧
      ((op = .div ∨ op = .rem) → r.whole? = some 0 → value = none ∧ Faults l ty x)

/-- Only arithmetic divides. -/
theorem not_divides (h : op.category ≠ .arithmetic) : ¬(op = .div ∨ op = .rem) := by
  rintro (rfl | rfl) <;> exact h rfl

theorem known_compare {model : TypeModel} {kind : Prim} (hk : kind ≠ .char)
    (hop : op.category ≠ .arithmetic) :
    Known model op l r kind (.compare kind) .boolean (Fold.compare? op kind l r) := by
  intro info i j c c' hl hc hr hc' hexact
  exact ⟨_, comesTo_compare hk hl hc hr hc', fun v ↦ Fold.operate_compare? hexact,
    fun h ↦ absurd h (not_divides hop)⟩

theorem known_arithmetic {model : TypeModel} {kind : Prim} {s : Option Rank} 
    (hrank : .ofRank (.promote (l.numericView?.bind Literal.rank?) s) = kind) (hk : kind ≠ .boolean) :
    Known model op l r kind (.arithmetic kind) (.prim kind) (Fold.arithmetic? op kind l r) := by
  intro info i j c c' hl hc hr hc' hexact
  have hk : kind = .int ∨ kind = .long := by
    cases kind <;> first | exact .inl rfl | exact .inr rfl | exact absurd rfl hk | cases hexact
  refine ⟨_, comesTo_arithmetic (by rintro rfl; cases hexact) hl hc hr hc',
    fun v ↦ Fold.operate_arithmetic? hexact, fun hop hzero ↦ ⟨(Fold.operate_zero hk hop hzero).1, ?_⟩⟩
  exact faults_zero hk hrank.symm hl hc hop hzero

end Node

end LiveBinding
