import LiveBinding.Proofs.Operations

namespace LiveBinding

namespace Build

variable {cx : BuildContext} {site : Site} {op : BinaryOp} {l r : Literal} {L R L' R' : Node}

theorem gives_operand (s : Span) (l : Literal) :
    Gives (expr cx none (.literal s l)) (Node.IsLiteral l) := by
  rw [expr]
  exact gives_push fun info hi ↦ ⟨info, rfl, hi⟩

theorem promoted_literal {kind : Prim} {a : Arg} (h : promoted cx op L R L' kind = .ok a)
    (hn : L'.IsLiteral l) :
    l ≠ .null ∧ ∃ c, a = .mk L' c ∧ Coercion.coerce? cx.model (.ofLiteral l) (.prim kind) = some c := by
  obtain ⟨info, rfl, hi⟩ := hn
  have hty : info.ty = .ofLiteral l := congrArg Facts.ty hi
  refine ⟨?_, hty ▸ promoted_mk h rfl⟩
  rintro rfl
  unfold promoted at h
  rw [show (Node.literal info .null).ty = .null from hty] at h
  cases h

theorem condition_literal {symbol : String} {a : Arg} (h : condition cx symbol L = .ok a)
    (hn : L.IsLiteral l) :
    l ≠ .null ∧ ∃ c, a = .mk L c ∧ Coercion.coerce? cx.model (.ofLiteral l) .boolean = some c := by
  obtain ⟨info, rfl, hi⟩ := hn
  have hty : info.ty = .ofLiteral l := congrArg Facts.ty hi
  refine ⟨?_, hty ▸ condition_mk h rfl⟩
  rintro rfl
  unfold condition at h
  rw [show (Node.literal info .null).ty = .null from hty] at h
  cases h

theorem Agrees.skip {α β γ : Type} {x : Build α} {y : Build β} {g : β → Build γ} {R : α → γ → Prop}
    {Q : β → Prop} (hy : Gives y Q) (h : ∀ b, Q b → Agrees x (g b) R) : Agrees x (y >>= g) R := by
  intro n a n' k c k' ha hc
  simp only [Bind.bind, StateT.bind, Except.bind] at hc
  split at hc
  · cases hc
  · next p hp => exact h p.1 (hy k p.1 p.2 hp) n a n' p.2 c k' ha hc

/-- A node is made for an operation whose value is not known in advance. -/
theorem agrees_operates {value : Option Literal} {a b : Arg} {c c' : Fragment} {plan : Plan} {ty : Ty}
    (hL : L.IsLiteral l) (hR : R.IsLiteral r)
    (hx : ∀ info i j, (Node.binary info op (.mk (.literal i l) c) (.mk (.literal j r) c') plan).isExact →
      ∃ x, (Node.binary info op (.mk (.literal i l) c) (.mk (.literal j r) c') plan).renderDirect.ComesTo [] x ∧
        (∀ v, value = some v → x = .ok (.ofLiteral v)) ∧
        ((op = .div ∨ op = .rem) → r.whole? = some 0 → value = none ∧ Node.Faults l ty x)) :
    Agrees
      (match value with
        | some v => literal site v
        | none => binaryNode site op a b plan ty)
      (binaryNode site op (.mk L c) (.mk R c') plan ty) (Node.Operates op l r) := by
  obtain ⟨i, rfl, hi⟩ := hL
  obtain ⟨j, rfl, hj⟩ := hR
  have hfolded : Gives (match value with
      | some v => literal site v
      | none => binaryNode site op a b plan ty) fun n ↦ n.literal? = value := by
    cases value with
    | some v => exact gives_push fun _ _ ↦ rfl
    | none => exact gives_push fun _ _ ↦ rfl
  have hfacts : (Facts.of (.literal i l)).join (.of (.literal j r)) ty = .fixed ty := by
    show (⟨ty, i.facts.monitoring + j.facts.monitoring, i.facts.evaluable && j.facts.evaluable⟩ : Facts) = _
    rw [hi, hj]
    rfl
  refine Agrees.of_gives hfolded (gives_push (P := fun m ↦ ∃ info : NodeInfo, m = .binary info op _ _ plan ∧
    info.facts = .fixed ty) fun info hinfo ↦ ⟨info, rfl, hinfo.trans hfacts⟩) ?_
  rintro n m rfl ⟨info, rfl, hinfo⟩ hexact
  obtain ⟨x, hcode, hvalue, hzero⟩ := hx info i j hexact
  obtain rfl : info.ty = ty := congrArg Facts.ty hinfo
  exact ⟨x, ⟨hcode, congrArg Facts.monitoring hinfo, congrArg Facts.evaluable hinfo, hvalue⟩, hzero⟩

theorem concatenates_literal (h : L.IsLiteral l) (h' : L'.IsLiteral l) :
    concatenates L = concatenates L' := by
  unfold concatenates
  rw [h.ty, h'.ty]
  obtain ⟨i, rfl, -⟩ := h
  obtain ⟨i', rfl, -⟩ := h'
  rfl

section

variable (hL : L.IsLiteral l) (hR : R.IsLiteral r) (hL' : L'.IsLiteral l) (hR' : R'.IsLiteral r)
include hL hR

theorem promote_literal : promote L R =
    .ofRank (.promote (l.numericView?.bind Literal.rank?) (r.numericView?.bind Literal.rank?)) := by
  obtain ⟨i, rfl, -⟩ := hL
  obtain ⟨j, rfl, -⟩ := hR
  rfl

theorem foldPair?_literal (cx : BuildContext) (f : Literal → Literal → Option Literal) :
    foldPair? (cx.folding true) L R f = f l r ∧ foldPair? (cx.folding false) L R f = none := by
  obtain ⟨i, rfl, -⟩ := hL
  obtain ⟨j, rfl, -⟩ := hR
  exact ⟨rfl, rfl⟩

include hL' hR'

theorem operates_concat (hop : op = .add) :
    Agrees (concat (cx.folding true) site L R) (concat (cx.folding false) site L' R')
      (Node.Operates op l r) := by
  subst hop
  obtain ⟨i, rfl, hi⟩ := hL
  obtain ⟨j, rfl, hj⟩ := hR
  obtain ⟨i', rfl, hi'⟩ := hL'
  obtain ⟨j', rfl, hj'⟩ := hR'
  exact @agrees_operates site .add l r _ _ (some (.string (l.render ++ r.render))) (.mk (.literal i l) .empty)
    (.mk (.literal j r) .empty) .empty .empty .concat .str ⟨i', rfl, hi'⟩ ⟨j', rfl, hj'⟩ fun info i j _ ↦
    ⟨_, Node.comesTo_concat, by rintro v ⟨⟩; rfl, by rintro (h | h) <;> cases h⟩

/-- Operands that are converted to a common kind. -/
theorem operates_promoted {kind : Prim} {plan : Plan} {ty : Ty} {f : Literal → Literal → Option Literal}
    (hx : Node.Known cx.model op l r kind plan ty (f l r)) :
    Agrees
      (do
        let a ← promoted (cx.folding true) op L R L kind
        let b ← promoted (cx.folding true) op L R R kind
        match foldPair? (cx.folding true) L R f with
        | some value => literal site value
        | none => binaryNode site op a b plan ty)
      (do
        let a ← promoted (cx.folding false) op L' R' L' kind
        let b ← promoted (cx.folding false) op L' R' R' kind
        match foldPair? (cx.folding false) L' R' f with
        | some value => literal site value
        | none => binaryNode site op a b plan ty) (Node.Operates op l r) := by
  rw [(foldPair?_literal hL hR cx f).1, (foldPair?_literal hL' hR' cx f).2]
  refine Agrees.bind (Agrees.lift fun _ _ _ ha ↦ promoted_literal ha hL') ?_
  rintro a _ ⟨hl, c, rfl, hc⟩
  refine Agrees.bind (Agrees.lift fun _ _ _ hb ↦ promoted_literal hb hR') ?_
  rintro b _ ⟨hr, c', rfl, hc'⟩
  exact agrees_operates hL' hR' fun info i j ↦ hx info i j c c' hl hc hr hc'

theorem operates_numeric :
    Agrees (numeric (cx.folding true) site op L R) (numeric (cx.folding false) site op L' R')
      (Node.Operates op l r) := by
  unfold numeric
  rw [concatenates_literal hL' hL, concatenates_literal hR' hR, promote_literal hL hR,
    promote_literal hL' hR']
  by_cases hs : op = .add && (concatenates L || concatenates R)
  · rw [if_pos hs, if_pos hs]
    exact operates_concat hL hR hL' hR' (of_decide_eq_true (Bool.and_eq_true _ _ ▸ hs).1)
  · rw [if_neg hs, if_neg hs]
    generalize hkind : Prim.ofRank (.promote _ _) = kind
    dsimp only
    by_cases hk : kind = .boolean
    · rw [if_pos hk, if_pos hk]
      exact Agrees.bind (R := fun _ _ ↦ False) (.fail_left _) fun _ _ h ↦ h.elim
    · rw [if_neg hk, if_neg hk]
      by_cases hc : op.category = .comparison
      · simp only [if_pos hc]
        exact operates_promoted hL hR hL' hR' (Node.known_compare (hkind ▸ Prim.ofRank_ne_char _)
          (by rw [hc]; rintro ⟨⟩))
      · simp only [if_neg hc]
        exact operates_promoted hL hR hL' hR' (Node.known_arithmetic hkind hk)

theorem operates_equality (hop : op.category = .equality) :
    Agrees (equality (cx.folding true) site op L R) (equality (cx.folding false) site op L' R')
      (Node.Operates op l r) := by
  have hcat : op.category ≠ .arithmetic := by rw [hop]; rintro ⟨⟩
  unfold equality
  rw [hL.ty, hR.ty, hL'.ty, hR'.ty, promote_literal hL hR, promote_literal hL' hR']
  dsimp only
  split
  · exact .fail_left _
  · split
    · exact operates_promoted hL hR hL' hR' (Node.known_compare (Prim.ofRank_ne_char _) hcat)
    · split
      · exact .fail_left _
      · rw [(foldPair?_literal hL hR cx _).1, (foldPair?_literal hL' hR' cx _).2]
        exact agrees_operates hL' hR' fun info i j _ ↦
          ⟨_, Node.comesTo_refEquality hop, fun v hv ↦ by rw [Fold.references?_same hv]; rfl,
            fun h ↦ absurd h (Node.not_divides hcat)⟩

end

theorem constantBool?_literal {b : Bool} (h : L.IsLiteral l)
    (hb : constantBool? (cx.folding true) L = some b) : l.numericView? = some (.boolean b) := by
  obtain ⟨i, rfl, -⟩ := h
  unfold constantBool? at hb
  split at hb
  · next hv =>
    cases hb
    exact hv
  · cases hb

section

variable {c c' : Fragment} (hop : op.category = .shortCircuit) (hL : L.IsLiteral l) (hR : R.IsLiteral r)
variable (hl : l ≠ .null) (hc : Coercion.coerce? cx.model (.ofLiteral l) .boolean = some c)
variable (hr : r ≠ .null) (hc' : Coercion.coerce? cx.model (.ofLiteral r) .boolean = some c')
include hop hL hR hl hc hr hc'

/-- Both operands of `&&` or `||` are converted. -/
theorem operates_conditions (value : Option Literal) (a b : Arg)
    (hvalue : ∀ v, value = some v → ∃ t, l.readAs .boolean = .ok (.bool t) ∧
      (if op.skips t then .ok (.bool t) else r.readAs .boolean) = .ok (.ofLiteral v)) :
    Agrees
      (match value with
        | some v => literal site v
        | none => binaryNode site op a b .shortCircuit .boolean)
      (binaryNode site op (.mk L c) (.mk R c') .shortCircuit .boolean) (Node.Operates op l r) := by
  obtain ⟨t, ht⟩ := Node.readAs_boolean_eq_ok hl hc
  refine agrees_operates hL hR fun info i j _ ↦
    ⟨_, Node.comesTo_shortCircuit hl hc ht hr hc', fun v hv ↦ ?_, fun h ↦
      absurd h (Node.not_divides (by rw [hop]; rintro ⟨⟩))⟩
  obtain ⟨t', ht', hv⟩ := hvalue v hv
  cases ht.symm.trans ht'
  exact hv

end

/-- The right operand of `&&` or `||` is a literal too, even where it is not built. -/
theorem operates_shortCircuit {x y : Build Node} (hop : op.category = .shortCircuit)
    (hL : L.IsLiteral l) (hL' : L'.IsLiteral l) (hx : Gives x (Node.IsLiteral r))
    (hy : Gives y (Node.IsLiteral r)) :
    Agrees (shortCircuit (cx.folding true) site op L x) (shortCircuit (cx.folding false) site op L' y)
      (Node.Operates op l r) := by
  unfold shortCircuit
  refine Agrees.bind (Agrees.lift fun _ _ _ ha ↦ condition_literal ha hL') ?_
  rintro a _ ⟨hl, c, rfl, hc⟩
  have hoff (n : Node) : constantBool? (cx.folding false) n = none := rfl
  simp only [hoff, Option.isSome_none, Bool.false_and, Bool.false_eq_true, if_false]
  split
  · next hdecided =>
    obtain ⟨t, ht⟩ := Option.isSome_iff_exists.mp (Bool.and_eq_true _ _ ▸ hdecided).1
    have hskips : op.skips t := by
      have hd : some t = op.decidedBy := ht ▸ of_decide_eq_true (Bool.and_eq_true _ _ ▸ hdecided).2
      cases op <;> cases hd <;> rfl
    rw [ht, show decide (some t = some true) = t by cases t <;> rfl]
    refine .skip hy fun R hR ↦ .skip (gives_requireValue R) fun _ _ ↦
      .skip (Gives.lift fun _ hb ↦ condition_literal hb hR) ?_
    rintro b ⟨hr, c', rfl, hc'⟩
    refine operates_conditions hop hL' hR hl hc hr hc' (some (.boolean t)) a (.mk R c') ?_
    rintro v ⟨⟩
    exact ⟨t, Fold.readAs_boolean (constantBool?_literal hL ht), if_pos hskips⟩
  · refine (Agrees.of_gives hx hy fun _ _ ↦ And.intro).bind fun R R' hR ↦
      (agrees_requireValue R R').bind fun _ _ _ ↦ ?_
    refine Agrees.bind (Agrees.lift fun _ _ _ hb ↦ condition_literal hb hR.2) ?_
    rintro b _ ⟨hr, c', rfl, hc'⟩
    split
    · next t u ht hu =>
      refine operates_conditions hop hL' hR.2 hl hc hr hc' (some (.boolean _)) a b ?_
      rintro v ⟨⟩
      refine ⟨t, Fold.readAs_boolean (constantBool?_literal hL ht), ?_⟩
      rw [Fold.readAs_boolean (constantBool?_literal hR.1 hu)]
      cases op with
      | and | or => cases t <;> rfl
      | _ => cases hop
    · exact operates_conditions hop hL' hR.2 hl hc hr hc' none a b (by rintro v ⟨⟩)

section

variable {uop : UnaryOp} {kind : Prim} {ty : Ty} {c : Fragment}

theorem agrees_foresees (value : Option Literal) (hL : L.IsLiteral l) (hL' : L'.IsLiteral l)
    (hx : ∀ info i, kind.isExact → ∃ x,
      (Node.unary info uop (.mk (.literal i l) c) kind).renderDirect.ComesTo [] x ∧
        ∀ v, value = some v → x = .ok (.ofLiteral v)) :
    Agrees
      (match value with
        | some v => literal site v
        | none => push site { Facts.of L with ty } (.unary · uop (.mk L c) kind))
      (push site { Facts.of L' with ty } (.unary · uop (.mk L' c) kind))
      (fun n m ↦ m.isExact → ∃ x, n.Foresees m x) := by
  obtain ⟨i, rfl, -⟩ := hL
  obtain ⟨i', rfl, hi'⟩ := hL'
  have hfolded : Gives (match value with
      | some v => literal site v
      | none => push site { Facts.of (.literal i l) with ty } (.unary · uop (.mk (.literal i l) c) kind))
      fun n ↦ n.literal? = value := by
    cases value with
    | some v => exact gives_push fun _ _ ↦ rfl
    | none => exact gives_push fun _ _ ↦ rfl
  refine Agrees.of_gives hfolded (gives_push (P := fun m ↦ ∃ info : NodeInfo, m = .unary info uop _ kind ∧
    info.monitoring = 0 ∧ info.evaluable) fun info hinfo ↦ ⟨info, rfl, ?_, ?_⟩) ?_
  · exact (congrArg Facts.monitoring hinfo).trans (congrArg Facts.monitoring hi')
  · exact (congrArg Facts.evaluable hinfo).trans (congrArg Facts.evaluable hi')
  · rintro n m rfl ⟨info, rfl, hmonitoring, hevaluable⟩ hexact
    obtain ⟨x, hcode, hvalue⟩ := hx info i' hexact
    exact ⟨x, ⟨hcode, hmonitoring, hevaluable, hvalue⟩⟩

end

theorem foresees_unary {uop : UnaryOp} (hL : L.IsLiteral l) (hL' : L'.IsLiteral l) :
    Agrees (unary (cx.folding true) site uop L) (unary (cx.folding false) site uop L')
      (fun n m ↦ m.isExact → ∃ x, n.Foresees m x) := by
  cases uop with
  | not =>
    unfold unary
    refine Agrees.bind (Agrees.lift fun _ _ ha hb ↦ And.intro (condition_literal ha hL)
      (condition_literal hb hL')) ?_
    rintro _ _ ⟨⟨hl, c, rfl, hc⟩, ⟨-, c', rfl, hc'⟩⟩
    obtain rfl : c = c' := Option.some.inj (hc.symm.trans hc')
    have hoff : constantBool? (cx.folding false) L' = none := rfl
    rw [hoff]
    have hcode (info i : NodeInfo) := @Node.comesTo_not info i l c _ hl hc
    cases hb : constantBool? (cx.folding true) L with
    | none =>
      exact agrees_foresees none hL hL' fun info i _ ↦ ⟨_, hcode info i, by rintro v ⟨⟩⟩
    | some b =>
      refine agrees_foresees (some (.boolean !b)) hL hL' fun info i _ ↦ ⟨_, hcode info i, ?_⟩
      rintro v ⟨⟩
      rw [Fold.readAs_boolean (constantBool?_literal hL hb)]
      rfl
  | neg =>
    have hrank {n : Node} (h : n.IsLiteral l) : rank? n = l.numericView?.bind Literal.rank? := by
      obtain ⟨i, rfl, -⟩ := h
      rfl
    have hoff : constant? (cx.folding false) L' = none := rfl
    have hmodel (fold : Bool) : (cx.folding fold).model = cx.model := rfl
    have hconstant : constant? (cx.folding true) L = some l := by
      obtain ⟨i, rfl, -⟩ := hL
      rfl
    simp only [unary, hoff, hmodel, hconstant, Option.bind_none, Option.bind_some, hL.ty, hL'.ty, hrank hL,
      hrank hL']
    generalize hkind : Prim.ofRank (.promote _ none) = kind
    split
    · exact .fail_left _
    · next c hc =>
      have hl : l ≠ .null := by
        rintro rfl
        cases hc
      have hcoerce : Coercion.coerce? cx.model (.ofLiteral l) (.prim kind) = some c := by
        split at hc
        · cases hc
        · cases hc
        · exact (Option.ite_none_left_eq_some.mp hc).2
      exact agrees_foresees (Fold.negate? kind l) hL hL' fun info i hexact ↦
        ⟨_, Node.comesTo_neg (hkind ▸ Prim.ofRank_ne_char _) hl hcoerce, fun v hv ↦
          Fold.readAs_negate? hexact hv⟩

/-- An operation over two literals. -/
theorem operates_binary (cx : BuildContext) (outer : Option Span) (s s₁ s₂ : Span) (op : BinaryOp) (l r : Literal) :
    Agrees (expr (cx.folding true) outer (.binary s op (.literal s₁ l) (.literal s₂ r)))
      (expr (cx.folding false) outer (.binary s op (.literal s₁ l) (.literal s₂ r)))
      (Node.Operates op l r) := by
  have hoperand (s : Span) (l : Literal) : Agrees (expr (cx.folding true) none (.literal s l))
      (expr (cx.folding false) none (.literal s l)) fun n m ↦ n.IsLiteral l ∧ m.IsLiteral l :=
    .of_gives (gives_operand s l) (gives_operand s l) fun _ _ ↦ And.intro
  rw [expr, expr]
  refine .orSpan _ _ <| (hoperand s₁ l).bind fun L L' hL ↦ (agrees_requireValue L L').bind fun _ _ _ ↦ ?_
  by_cases hs : op.category = .shortCircuit
  · rw [if_pos hs, if_pos hs]
    exact operates_shortCircuit hs hL.1 hL.2 (gives_operand s₂ r) (gives_operand s₂ r)
  · rw [if_neg hs, if_neg hs]
    refine (hoperand s₂ r).bind fun R R' hR ↦ (agrees_requireValue R R').bind fun _ _ _ ↦ ?_
    by_cases he : op.category = .equality
    · rw [if_pos he, if_pos he]
      exact operates_equality hL.1 hR.1 hL.2 hR.2 he
    · rw [if_neg he, if_neg he]
      exact operates_numeric hL.1 hR.1 hL.2 hR.2

/-- An operation over one literal. -/
theorem foresees_expr (cx : BuildContext) (outer : Option Span) (s s₁ : Span) (uop : UnaryOp) (l : Literal) :
    Agrees (expr (cx.folding true) outer (.unary s uop (.literal s₁ l)))
      (expr (cx.folding false) outer (.unary s uop (.literal s₁ l)))
      (fun n m ↦ m.isExact → ∃ x, n.Foresees m x) := by
  rw [expr, expr]
  refine .orSpan _ _ <| (Agrees.of_gives (gives_operand s₁ l) (gives_operand s₁ l) fun _ _ ↦ And.intro).bind
    fun L L' hL ↦ (agrees_requireValue L L').bind fun _ _ _ ↦ foresees_unary hL.1 hL.2

end Build

/-- An operator over literals. -/
def Expr.isOperation : Expr → Bool
  | binary _ _ (literal _ _) (literal _ _) | unary _ _ (literal _ _) => true
  | _ => false

theorem Tree.build_foresees {cx : BuildContext} {folded plain : Tree} (hop : cx.parsed.root.isOperation)
    (hfolded : Tree.build (cx.folding true) = .ok folded)
    (hplain : Tree.build (cx.folding false) = .ok plain) (hexact : plain.root.isExact) :
    ∃ x, folded.root.Foresees plain.root x ∧
      ∀ s op s₁ l s₂ r, cx.parsed.root = .binary s op (.literal s₁ l) (.literal s₂ r) →
        op = .div ∨ op = .rem → r.whole? = some 0 →
        folded.root.literal? = none ∧ Node.Faults l plain.ty x := by
  unfold Expr.isOperation at hop
  split at hop
  · next s op s₁ l s₂ r hroot =>
    have hagrees := Build.operates_binary cx none s s₁ s₂ op l r
    rw [← hroot] at hagrees
    obtain ⟨x, hx, hzero⟩ := Tree.build_agrees hagrees hfolded hplain hexact
    refine ⟨x, hx, fun s' op' s₁' l' s₂' r' heq ↦ ?_⟩
    cases hroot.symm.trans heq
    exact hzero
  · next s uop s₁ l hroot =>
    have hagrees := Build.foresees_expr cx none s s₁ uop l
    rw [← hroot] at hagrees
    obtain ⟨x, hx⟩ := Tree.build_agrees hagrees hfolded hplain hexact
    exact ⟨x, hx, fun s' op' s₁' l' s₂' r' heq ↦ nomatch hroot.symm.trans heq⟩
  · cases hop

namespace CompileContext

variable {cx : CompileContext} {scope : Scope} {parsed : ParsedExpr} {folded plain : Tree}

/-- What an operator over literals is folded to is what the host comes to where it is not folded, in
every host. A division of whole numbers by zero is not folded, and the host fails. -/
theorem operation_folds (hop : parsed.root.isOperation)
    (hfolded : { cx with fold := true }.buildTree scope parsed = .ok folded)
    (hplain : { cx with fold := false }.buildTree scope parsed = .ok plain)
    (hexact : plain.root.isExact) :
    ∃ b R outcome, { cx with fold := false }.compileTree plain none = .ok (.static b) ∧
      b.routine = .ok R ∧
      (∀ (r : Registry) (fuel : Nat) (w : World), R.size ≤ fuel →
        (evaluate r fuel R w).1 = Stop.raise outcome) ∧
      (∀ v, folded.root.literal? = some v → outcome = .ok (.ofLiteral v)) ∧
      ∀ s op s₁ l s₂ r, parsed.root = .binary s op (.literal s₁ l) (.literal s₂ r) →
        op = .div ∨ op = .rem → r.whole? = some 0 →
        folded.root.literal? = none ∧ Node.Faults l plain.ty outcome := by
  let context : BuildContext := ⟨cx.model, scope, parsed, cx.fold⟩
  obtain ⟨x, hx, hzero⟩ := @Tree.build_foresees context folded plain hop hfolded hplain hexact
  have hsealed := (Fragment.composable_isInert.plain _
    (Fragment.isPlain_of_isSilent hx.code.silent)).isSealed none
  refine ⟨⟨plain.ty, plain.root.renderDirect⟩, _, x, ?_, assemble_of_sealed hsealed, fun r fuel w hfuel ↦ ?_,
    hx.literal, hzero⟩
  · have hstatic : plain.isStatic = true := beq_iff_eq.mpr hx.monitoring
    rw [compileTree, hx.evaluable, hstatic]
    rfl
  · exact evaluate_silent ⟨hsealed.finish⟩ hx.code.silent (hx.code.turns _ (w.still_shows r) []) hfuel

end CompileContext

namespace Sample

def quotient : ParsedExpr where
  source := "'-2147483648' / '-1'"
  root := .binary ⟨0, 20⟩ .div (.literal ⟨0, 13⟩ (.string "-2147483648")) (.literal ⟨16, 20⟩ (.string "-1"))
  base := 0

def unread : ParsedExpr where
  source := "'abc' / 0"
  root := .binary ⟨0, 9⟩ .div (.literal ⟨0, 5⟩ (.string "abc")) (.literal ⟨8, 9⟩ (.int 0))
  base := 0

end Sample

open Sample in
/-- Text is read as a number, and the least number over minus one is the least number again. -/
theorem operation_folds_quotient :
    let folded := treeOf { context with fold := true } .empty quotient
    let plain := treeOf { context with fold := false } .empty quotient
    folded.root.literal? = some (.int (-2147483648)) ∧
      ∃ b R, { context with fold := false }.compileTree plain none = .ok (.static b) ∧
        b.routine = .ok R ∧ ∀ (r : Registry) (fuel : Nat) (w : World), R.size ≤ fuel →
          (evaluate r fuel R w).1 = .ok (.int (-2147483648)) := by
  intro folded plain
  have hliteral : folded.root.literal? = some (.int (-2147483648)) := by decide +kernel
  obtain ⟨b, R, outcome, hb, hR, hevaluate, hvalue, -⟩ := @CompileContext.operation_folds context .empty
    quotient folded plain rfl (treeOf_eq (by decide +kernel)) (treeOf_eq (by decide +kernel))
    (by decide +kernel)
  refine ⟨hliteral, b, R, hb, hR, fun r fuel w hfuel ↦ ?_⟩
  rw [hevaluate r fuel w hfuel, hvalue _ hliteral]
  rfl

open Sample in
/-- The host reads both operands of a division before it divides, and not every text can be read. -/
theorem operation_fails_unread :
    let folded := treeOf { context with fold := true } .empty unread
    let plain := treeOf { context with fold := false } .empty unread
    { context with fold := true }.buildTree .empty unread = .ok folded ∧
      { context with fold := false }.buildTree .empty unread = .ok plain ∧
      plain.ty = .int ∧ plain.root.isExact ∧
      (StaticBinding.mk plain.ty plain.root.renderDirect).routine = .ok (routineOf plain) ∧
      (evaluate registry 50 (routineOf plain) (world false false)).1 =
        .error (.error (.numberFormat "abc" "int")) :=
  ⟨treeOf_eq (by decide +kernel), treeOf_eq (by decide +kernel), by decide +kernel,
    by decide +kernel, routineOf_eq (by decide +kernel), by decide +kernel⟩

end LiveBinding
