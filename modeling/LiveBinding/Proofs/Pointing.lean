import LiveBinding.Proofs.Bookkeeping
import LiveBinding.Proofs.Places

/-!
Every error of the front end has a place in its attribute: that of some characters between the marks of
the expression, and where names and types do not fit, that of a node of the expression.
-/

namespace LiveBinding

namespace Token

theorem Spelled.marks {pos : Nat} {cs : List Char} {ts : List Token} (h : Spelled pos cs ts) {t : Token}
    (ht : t ∈ ts) : t.span.Marks pos cs := by
  obtain ⟨before, after, rfl⟩ := List.append_of_mem ht
  have hspans : Spans [t] t.span := ⟨t, t, rfl, rfl, rfl⟩
  obtain ⟨front, marked, back, hcs, -, hspan, -⟩ := h.cutOut hspans
  exact ⟨front, marked, back, hcs, hspan⟩

theorem final_marks (pos : Nat) (cs : List Char) :
    (final (pos + Text.byteSize cs)).span.Marks pos cs :=
  ⟨cs, [], [], by simp, rfl⟩

theorem scanFrom_error {fuel pos : Nat} {cs : List Char} {e : CompileError}
    (h : scanFrom fuel pos cs = .error e) : ∃ s, e.span = some s ∧ s.Marks pos cs := by
  induction fuel generalizing pos cs with
  | zero => cases h
  | succ fuel ih =>
    have hsplit : cs.takeWhile Lexeme.isSpace ++ cs.dropWhile Lexeme.isSpace = cs :=
      List.takeWhile_append_dropWhile
    unfold scanFrom at h
    dsimp only at h
    generalize cs.takeWhile Lexeme.isSpace = blanks at *
    generalize cs.dropWhile Lexeme.isSpace = rest at *
    subst hsplit
    split at h
    · cases h
    · next c rest =>
      split at h
      · next e' he' =>
        cases h
        obtain ⟨more, hmore⟩ := Lexeme.text_of_first_error he'
        exact ⟨_, rfl, blanks, e'.text, more, by rw [hmore], rfl⟩
      · next l hl =>
        split at h
        · next e' he' =>
          cases h
          obtain ⟨s, hs, before, marked, after, hrest, hspan⟩ := ih he'
          obtain ⟨more, htext, hcs, -⟩ := Lexeme.cuts_first hl
          refine ⟨s, hs, blanks ++ l.text ++ before, marked, after, ?_, ?_⟩
          · rw [hcs, hrest, htext]
            simp
          · rw [hspan]
            simp only [Text.byteSize_append, Nat.add_assoc]
        · cases h

end Token

namespace Parser

/-- The last token is the end of the expression. -/
def Ended (ts : List Token) : Prop := ∃ body span, ts = body ++ [⟨.eof, span⟩]

/-- What is read off the front of some tokens leaves their end; an error is at one of them. -/
def Leaves {α : Type} (ts : List Token) (x : Except CompileError (α × List Token)) : Prop :=
  (∀ a rest, x = .ok (a, rest) → Ended rest ∧ ∀ t ∈ rest, t ∈ ts) ∧
    ∀ e, x = .error e → ∃ t ∈ ts, e.span = some t.span

variable {α β : Type} {t : Token} {ts rest : List Token} {x : Except CompileError (α × List Token)}

theorem Ended.tail (h : Ended (t :: ts)) (ht : t.kind ≠ .eof) : Ended ts := by
  obtain ⟨body, span, heq⟩ := h
  rcases body with _ | ⟨u, body⟩
  · cases heq
    exact (ht rfl).elim
  · exact ⟨body, span, (List.cons.inj heq).2⟩

theorem Leaves.ok (a : α) (h : Ended ts) : Leaves ts (.ok (a, ts)) := by
  refine ⟨?_, nofun⟩
  rintro a rest ⟨⟩
  exact ⟨h, fun t ht ↦ ht⟩

theorem leaves_unexpected (expected : String) (h : Ended ts) :
    Leaves ts (.error (unexpected ts expected) : Except CompileError (α × List Token)) := by
  refine ⟨nofun, ?_⟩
  rintro e ⟨⟩
  obtain ⟨body, span, rfl⟩ := h
  rcases body with _ | ⟨t, body⟩
  · exact ⟨_, List.mem_cons_self, rfl⟩
  · exact ⟨t, List.mem_cons_self, rfl⟩

theorem Leaves.cons (h : Leaves ts x) (t : Token) : Leaves (t :: ts) x := by
  refine ⟨fun a rest hx ↦ ?_, fun e hx ↦ ?_⟩
  · exact ⟨(h.1 a rest hx).1, fun u hu ↦ List.mem_cons_of_mem t ((h.1 a rest hx).2 u hu)⟩
  · obtain ⟨u, hu, he⟩ := h.2 e hx
    exact ⟨u, List.mem_cons_of_mem t hu, he⟩

theorem Leaves.bind {f : α × List Token → Except CompileError (β × List Token)} (h : Leaves ts x)
    (hf : ∀ a rest, Ended rest → Leaves rest (f (a, rest))) : Leaves ts (x >>= f) := by
  rcases x with e | ⟨a, rest⟩
  · refine ⟨nofun, ?_⟩
    rintro e ⟨⟩
    exact h.2 e rfl
  · obtain ⟨hended, hmem⟩ := h.1 a rest rfl
    obtain ⟨hok, herror⟩ := hf a rest hended
    refine ⟨fun b rest' hx ↦ ?_, fun e hx ↦ ?_⟩
    · exact ⟨(hok b rest' hx).1, fun u hu ↦ hmem u ((hok b rest' hx).2 u hu)⟩
    · obtain ⟨u, hu, he⟩ := herror e hx
      exact ⟨u, hmem u hu, he⟩

theorem leaves_expect (kind : TokenKind) (expected : String) (hkind : kind ≠ .eof) (h : Ended ts) :
    Leaves ts (expect kind expected ts) := by
  unfold expect
  split
  · next t rest =>
    split
    · next ht =>
      exact (Leaves.ok _ (h.tail (ht ▸ hkind))).cons t
    · exact leaves_unexpected _ h
  · exact leaves_unexpected _ h

mutual

theorem leaves_binary : ∀ (fuel power : Nat) {ts : List Token}, Ended ts →
    Leaves ts (binary fuel power ts)
  | 0, _, _, h => leaves_unexpected _ h
  | fuel + 1, power, ts, h => by
    unfold binary
    exact (leaves_unary fuel h).bind fun left rest hrest ↦ leaves_operators fuel power left hrest

theorem leaves_operators : ∀ (fuel power : Nat) (left : Expr) {ts : List Token}, Ended ts →
    Leaves ts (operators fuel power left ts)
  | 0, _, _, _, h => leaves_unexpected _ h
  | fuel + 1, power, left, ts, h => by
    unfold operators
    split
    · split
      · exact .ok _ h
      · refine Leaves.cons ?_ _
        exact (leaves_binary fuel _ (h.tail nofun)).bind fun right rest hrest ↦
          leaves_operators fuel power _ hrest
    · exact .ok _ h

theorem leaves_unary : ∀ (fuel : Nat) {ts : List Token}, Ended ts → Leaves ts (unary fuel ts)
  | 0, _, h => leaves_unexpected _ h
  | fuel + 1, ts, h => by
    unfold unary
    split
    · refine Leaves.cons ?_ _
      exact (leaves_unary fuel (h.tail nofun)).bind fun _ _ hrest ↦ .ok _ hrest
    · refine Leaves.cons ?_ _
      exact (leaves_unary fuel (h.tail nofun)).bind fun _ _ hrest ↦ .ok _ hrest
    · exact (leaves_primary fuel h).bind fun receiver _ hrest ↦ leaves_suffixes fuel receiver hrest

theorem leaves_suffixes : ∀ (fuel : Nat) (receiver : Expr) {ts : List Token}, Ended ts →
    Leaves ts (suffixes fuel receiver ts)
  | 0, _, _, h => leaves_unexpected _ h
  | fuel + 1, receiver, ts, h => by
    unfold suffixes
    split
    · have hargs := leaves_arguments fuel (((h.tail nofun).tail nofun).tail nofun)
      refine ((Leaves.cons ?_ _).cons _).cons _
      exact hargs.bind fun _ _ hrest ↦ leaves_suffixes fuel _ hrest
    · exact ((leaves_suffixes fuel _ ((h.tail nofun).tail nofun)).cons _).cons _
    · exact (leaves_unexpected _ (h.tail nofun)).cons _
    · refine Leaves.cons ?_ _
      refine (leaves_binary fuel 0 (h.tail nofun)).bind fun index rest hrest ↦ ?_
      exact (leaves_expect .closeBracket _ nofun hrest).bind fun _ _ hrest' ↦
        leaves_suffixes fuel _ hrest'
    · exact .ok _ h

theorem leaves_arguments : ∀ (fuel : Nat) {ts : List Token}, Ended ts →
    Leaves ts (arguments fuel ts)
  | 0, _, h => leaves_unexpected _ h
  | fuel + 1, ts, h => by
    unfold arguments
    split
    · exact (Leaves.ok _ (h.tail nofun)).cons _
    · exact leaves_moreArguments fuel h

theorem leaves_moreArguments : ∀ (fuel : Nat) {ts : List Token}, Ended ts →
    Leaves ts (moreArguments fuel ts)
  | 0, _, h => leaves_unexpected _ h
  | fuel + 1, ts, h => by
    unfold moreArguments
    refine (leaves_binary fuel 0 h).bind fun arg rest hrest ↦ ?_
    dsimp only
    split
    · refine Leaves.cons ?_ _
      exact (leaves_moreArguments fuel (hrest.tail nofun)).bind fun _ _ h' ↦ .ok _ h'
    · exact (leaves_expect .closeParen _ nofun hrest).bind fun _ _ h' ↦ .ok _ h'

theorem leaves_primary : ∀ (fuel : Nat) {ts : List Token}, Ended ts → Leaves ts (primary fuel ts)
  | 0, _, h => leaves_unexpected _ h
  | fuel + 1, ts, h => by
    unfold primary
    split
    · exact (Leaves.ok _ (h.tail nofun)).cons _
    · have hargs := leaves_arguments fuel ((h.tail nofun).tail nofun)
      refine (Leaves.cons ?_ _).cons _
      exact hargs.bind fun _ _ hrest ↦ .ok _ hrest
    · exact (Leaves.ok _ (h.tail nofun)).cons _
    · refine Leaves.cons ?_ _
      refine (leaves_binary fuel 0 (h.tail nofun)).bind fun inner rest hrest ↦ ?_
      exact (leaves_expect .closeParen _ nofun hrest).bind fun _ _ hrest' ↦ .ok _ hrest'
    · exact leaves_unexpected _ h

end

theorem expression_error {e : CompileError} (hts : Ended ts) (h : expression ts = .error e) :
    ∃ t ∈ ts, e.span = some t.span := by
  have hbinary := leaves_binary (8 * ts.length + 8) 0 hts
  unfold expression at h
  rcases hx : binary (8 * ts.length + 8) 0 ts with e' | ⟨root, rest⟩
  · rw [hx] at h
    cases h
    exact hbinary.2 e hx
  · rw [hx] at h
    obtain ⟨hrest, hmem⟩ := hbinary.1 root rest hx
    have hunexpected := (leaves_unexpected (α := Unit) "an operator or the end of the expression" hrest).2
    simp only [bind, Except.bind] at h
    split at h
    · cases h
    · cases h
      obtain ⟨t, ht, hspan⟩ := hunexpected _ rfl
      exact ⟨t, hmem t ht, hspan⟩

end Parser

/-- An error of the text of an expression is at some of its characters. -/
theorem parseExpression_error {source : String} {base : Nat} {e : CompileError}
    (h : parseExpression source base = .error e) :
    ∃ s : Span, e.span = some (s.shift base) ∧ s.Marks 0 source.toList := by
  unfold parseExpression at h
  rcases hscan : Token.scan source with e' | ts
  · rw [hscan] at h
    cases h
    obtain ⟨s, hs, hmarks⟩ := Token.scanFrom_error hscan
    exact ⟨s, by simp [CompileError.relocate, hs], hmarks⟩
  · rw [hscan] at h
    simp only [Except.bind] at h
    split at h
    · cases h
    · next e' he' =>
      cases h
      obtain ⟨body, rfl, hspelled⟩ := Token.spelled_of_scanFrom (Nat.lt_succ_self _) hscan
      obtain ⟨t, ht, hspan⟩ := Parser.expression_error ⟨body, _, rfl⟩ he'
      refine ⟨t.span, by simp [CompileError.relocate, hspan], ?_⟩
      rcases List.mem_append.mp ht with ht | ht
      · exact hspelled.marks ht
      · rw [List.mem_singleton.mp ht]
        exact Token.final_marks 0 _

/-- What fails, does so without a place. -/
def Placeless {α : Type} (x : Except CompileError α) : Prop := ∀ e, x = .error e → e.span = none

section

variable {α β : Type} {x : Except CompileError α} {e : CompileError}

theorem placeless_ok (a : α) : Placeless (.ok a) := nofun

theorem placeless_error (h : e.span = none) : Placeless (.error e : Except CompileError α) := by
  rintro _ ⟨⟩
  exact h

theorem Placeless.bind {f : α → Except CompileError β} (hx : Placeless x)
    (hf : ∀ a, Placeless (f a)) : Placeless (x >>= f) := by
  cases x with
  | error e => exact placeless_error (hx e rfl)
  | ok a => exact hf a

end

theorem Coercion.require_placeless (model : TypeModel) (source target : Ty) :
    Placeless (require model source target) := by
  unfold require
  split
  · exact placeless_ok _
  · exact placeless_error rfl

theorem Overload.select_placeless (model : TypeModel) (kind : MemberKind) (name : String)
    (owner : Ty) (candidates : List MethodInfo) (args : List Ty) :
    Placeless (select model kind name owner candidates args) := by
  unfold select
  dsimp only
  split
  · exact placeless_error rfl
  split
  · exact placeless_error rfl
  · exact placeless_ok _
  · exact placeless_error rfl

namespace Build

variable (cx : BuildContext)

theorem arguments_placeless (method : MethodInfo) (facts : Facts) (nodes : List Node)
    (params : List Ty) : Placeless (arguments cx method facts nodes params) := by
  induction nodes generalizing facts params with
  | nil => exact placeless_ok _
  | cons node nodes ih =>
    cases params with
    | nil => exact placeless_ok _
    | cons param params =>
      exact (Coercion.require_placeless _ _ _).bind fun _ ↦
        (ih _ params).bind fun _ ↦ placeless_ok _

theorem select_placeless (kind : MemberKind) (name : String) (owner : Ty)
    (candidates : List MethodInfo) (receiver : Facts) (args : List Node) :
    Placeless (select cx kind name owner candidates receiver args) :=
  (Overload.select_placeless _ _ _ _ _ _).bind fun method ↦
    (arguments_placeless cx method _ args method.params).bind fun _ ↦ placeless_ok _

theorem promoted_placeless (op : BinaryOp) (left right node : Node) (kind : Prim) :
    Placeless (promoted cx op left right node kind) := by
  unfold promoted
  dsimp only
  split
  · exact placeless_ok _
  · exact placeless_error rfl

theorem condition_placeless (symbol : String) (n : Node) :
    Placeless (condition cx symbol n) := by
  unfold condition
  dsimp only
  split
  · exact placeless_ok _
  · exact placeless_error rfl

/-- What is built satisfies `Q`; an error that has a place has one of `P`. -/
structure Hints {α : Type} (P : Span → Prop) (Q : α → Prop) (build : Build α) : Prop where
  error : ∀ n e s, build n = .error e → e.span = some s → P s
  result : ∀ n a n', build n = .ok (a, n') → Q a

/-- The same, and every error has a place. -/
structure Points {α : Type} (P : Span → Prop) (Q : α → Prop) (build : Build α) : Prop where
  error : ∀ n e, build n = .error e → ∃ s, e.span = some s ∧ P s
  result : ∀ n a n', build n = .ok (a, n') → Q a

/-- The place of a node is one of `P`. -/
def At (P : Span → Prop) (n : Node) : Prop := P n.info.span

section

variable {α β : Type} {P : Span → Prop} {Q : α → Prop} {R : β → Prop} {build : Build α}

theorem Points.hints (h : Points P Q build) : Hints P Q build := by
  refine ⟨fun n e s he hs ↦ ?_, h.result⟩
  obtain ⟨s', hs', hP⟩ := h.error n e he
  obtain rfl := Option.some.inj (hs.symm.trans hs')
  exact hP

theorem points_pure {a : α} (h : Q a) : Points P Q (pure a : Build α) := by
  refine ⟨nofun, ?_⟩
  rintro n _ _ ⟨⟩
  exact h

theorem hints_fail (problem : Problem) : Hints P Q (fail problem : Build α) := by
  refine ⟨?_, nofun⟩
  rintro n _ s ⟨⟩ hs
  cases hs

theorem points_fail (problem : Problem) {s : Span} (h : P s) :
    Points P Q (fail ⟨problem, some s, none⟩ : Build α) := by
  refine ⟨?_, nofun⟩
  rintro n _ ⟨⟩
  exact ⟨s, rfl, h⟩

theorem Hints.bind {f : α → Build β} (h : Hints P Q build) (hf : ∀ a, Q a → Hints P R (f a)) :
    Hints P R (build >>= f) := by
  constructor
  · intro n e s he hs
    simp only [Bind.bind, StateT.bind, Except.bind] at he
    split at he
    · next hx =>
      cases he
      exact h.error n _ s hx hs
    · next p hx => exact (hf p.1 (h.result n p.1 p.2 hx)).error p.2 e s he hs
  · intro n b n' hb
    simp only [Bind.bind, StateT.bind, Except.bind] at hb
    split at hb
    · cases hb
    · next p hx => exact (hf p.1 (h.result n p.1 p.2 hx)).result p.2 b n' hb

theorem Points.bind {f : α → Build β} (h : Points P Q build) (hf : ∀ a, Q a → Points P R (f a)) :
    Points P R (build >>= f) := by
  refine ⟨fun n e he ↦ ?_, (h.hints.bind fun a ha ↦ (hf a ha).hints).result⟩
  simp only [Bind.bind, StateT.bind, Except.bind] at he
  split at he
  · next hx =>
    cases he
    exact h.error n _ hx
  · next p hx => exact (hf p.1 (h.result n p.1 p.2 hx)).error p.2 e he

theorem hints_lift {x : Except CompileError α} (hx : Placeless x) :
    Hints P (fun _ ↦ True) (liftM x : Build α) := by
  refine ⟨fun n e s he hs ↦ ?_, fun _ _ _ _ ↦ trivial⟩
  cases x with
  | error e' =>
    cases he
    rw [hx _ rfl] at hs
    cases hs
  | ok a => cases he

/-- The place of a node is that of its errors that have none of their own. -/
theorem Hints.orSpan {s : Span} (h : Hints P Q build) (hs : P s) : Points P Q (orSpan s build) := by
  constructor
  · intro n e he
    unfold Build.orSpan at he
    split at he
    · cases he
    · next e' hx =>
      cases he
      cases hspan : e'.span with
      | none => exact ⟨s, by simp [CompileError.orSpan, hspan], hs⟩
      | some t => exact ⟨t, by simp [CompileError.orSpan, hspan], h.error n e' t hx hspan⟩
  · intro n a n' ha
    unfold Build.orSpan at ha
    split at ha
    · next hx =>
      cases ha
      exact h.result n a n' hx
    · cases ha

end

section

variable {P : Span → Prop} {site : Site} (hs : P site.span)
include hs

theorem points_push (facts : Facts) (make : NodeInfo → Node) (hmake : ∀ i, (make i).info = i) :
    Points P (At P) (push site facts make) := by
  refine ⟨nofun, ?_⟩
  rintro n _ _ ⟨⟩
  rw [At, hmake]
  exact hs

theorem points_literal (value : Literal) : Points P (At P) (literal site value) :=
  points_push hs _ _ fun _ ↦ rfl

theorem points_access (receiver : Node) (member : Member) (facts : Facts) :
    Points P (At P) (access site receiver member facts) := by
  refine ⟨nofun, ?_⟩
  rintro n _ _ ⟨⟩
  exact hs

theorem hints_ident (name : String) : Hints P (At P) (ident cx site name) := by
  unfold ident
  split
  · exact (points_push hs _ _ fun _ ↦ rfl).hints
  split
  · exact (points_push hs _ _ fun _ ↦ rfl).hints
  · exact hints_fail _

theorem hints_field (receiver : Node) (name : String) :
    Hints P (At P) (field cx site receiver name) := by
  unfold field
  dsimp only
  split
  · split
    · exact (points_access hs _ _ _).hints
    · exact hints_fail _
  · split
    · exact (points_access hs _ _ _).hints
    · exact hints_fail _

theorem hints_call (receiver : Node) (name : String) (args : List Node) :
    Hints P (At P) (call cx site receiver name args) := by
  unfold call
  dsimp only
  split
  all_goals
    refine (hints_lift (select_placeless cx _ _ _ _ _ _)).bind fun _ _ ↦ ?_
    exact (points_access hs _ _ _).hints

theorem hints_construct (typeName : String) (args : List Node) :
    Hints P (At P) (construct cx site typeName args) := by
  unfold construct
  split
  · exact hints_fail _
  · exact (hints_lift (select_placeless cx _ _ _ _ _ _)).bind fun _ _ ↦
      (points_push hs _ _ fun _ ↦ rfl).hints

theorem hints_indexByMethod (receiver index : Node) :
    Hints P (At P) (indexByMethod cx site receiver index) := by
  refine (hints_lift (select_placeless cx _ _ _ _ _ _)).bind fun _ _ ↦ ?_
  dsimp only
  split
  · exact (points_access hs _ _ _).hints
  · exact hints_fail _

theorem hints_indexChars (receiver : Node) {index : Node} (hi : At P index) :
    Hints P (At P) (indexChars cx site receiver index) := by
  unfold indexChars
  split
  · exact (points_fail _ hi).hints
  split
  · split
    · exact (points_literal hs _).hints
    · exact hints_fail _
  · exact (points_access hs _ _ _).hints

theorem hints_index (receiver : Node) {index : Node} (hi : At P index) :
    Hints P (At P) (Build.index cx site receiver index) := by
  have hrest : Hints P (At P) (if receiver.ty = .str then indexChars cx site receiver index
      else indexByMethod cx site receiver index) := by
    split
    · exact hints_indexChars cx hs receiver hi
    · exact hints_indexByMethod cx hs receiver index
  unfold Build.index
  dsimp only
  split
  · split
    · exact (points_fail (Q := fun _ ↦ True) _ hi).hints.bind fun _ _ ↦ hrest
    · exact hrest
  · exact hrest

theorem hints_concat (left right : Node) : Hints P (At P) (concat cx site left right) := by
  unfold concat
  split
  · exact (points_literal hs _).hints
  · exact (points_push hs _ _ fun _ ↦ rfl).hints

theorem hints_folded {value? : Option Literal} {build : Build Node} (h : Hints P (At P) build) :
    Hints P (At P) (match value? with
      | some value => literal site value
      | none => build) := by
  split
  · exact (points_literal hs _).hints
  · exact h

theorem hints_numeric (op : BinaryOp) (left right : Node) :
    Hints P (At P) (numeric cx site op left right) := by
  have hnode (l r : Arg) (plan : Plan) (ty : Ty) :
      Hints P (At P) (binaryNode site op l r plan ty) := (points_push hs _ _ fun _ ↦ rfl).hints
  unfold numeric
  split
  · exact hints_concat cx hs _ _
  dsimp only
  have hrest : Hints P (At P) (do
      let kind := promote left right
      let l ← promoted cx op left right left kind
      let r ← promoted cx op left right right kind
      if op.category = .comparison then
        match foldPair? cx left right (Fold.compare? op kind) with
        | some value => literal site value
        | none => binaryNode site op l r (.compare kind) .boolean
      else
        match foldPair? cx left right (Fold.arithmetic? op kind) with
        | some value => literal site value
        | none => binaryNode site op l r (.arithmetic kind) (.prim kind)) := by
    refine (hints_lift (promoted_placeless cx _ _ _ _ _)).bind fun l _ ↦ ?_
    refine (hints_lift (promoted_placeless cx _ _ _ _ _)).bind fun r _ ↦ ?_
    split
    · exact hints_folded hs (hnode l r _ _)
    · exact hints_folded hs (hnode l r _ _)
  split
  · exact (hints_fail (Q := fun _ ↦ True) _).bind fun _ _ ↦ hrest
  · exact hrest

theorem hints_equality (op : BinaryOp) (left right : Node) :
    Hints P (At P) (equality cx site op left right) := by
  have hnode (l r : Arg) (plan : Plan) (ty : Ty) :
      Hints P (At P) (binaryNode site op l r plan ty) := (points_push hs _ _ fun _ ↦ rfl).hints
  unfold equality
  dsimp only
  split
  · exact hints_fail _
  split
  · refine (hints_lift (promoted_placeless cx _ _ _ _ _)).bind fun l _ ↦ ?_
    refine (hints_lift (promoted_placeless cx _ _ _ _ _)).bind fun r _ ↦ ?_
    exact hints_folded hs (hnode l r _ _)
  split
  · exact hints_fail _
  · exact hints_folded hs (hnode _ _ _ _)

end

theorem points_requireValue {P : Span → Prop} {n : Node} (h : At P n) :
    Points P (fun _ ↦ True) (requireValue n) := by
  unfold requireValue
  split
  · exact points_fail _ h
  · exact points_pure trivial

section

variable {P : Span → Prop} {site : Site} (hs : P site.span)
include hs

theorem hints_shortCircuit (op : BinaryOp) (left : Node) {right : Build Node}
    (hright : Points P (At P) right) : Hints P (At P) (shortCircuit cx site op left right) := by
  refine (hints_lift (condition_placeless cx _ _)).bind fun l _ ↦ ?_
  dsimp only
  split
  · exact (points_literal hs _).hints
  refine hright.hints.bind fun r hr ↦ (points_requireValue hr).hints.bind fun _ _ ↦ ?_
  refine (hints_lift (condition_placeless cx _ _)).bind fun _ _ ↦ ?_
  split
  · exact (points_literal hs _).hints
  · exact (points_push hs _ _ fun _ ↦ rfl).hints

theorem hints_unary (op : UnaryOp) (operand : Node) :
    Hints P (At P) (unary cx site op operand) := by
  unfold unary
  dsimp only
  split
  · refine (hints_lift (condition_placeless cx _ _)).bind fun arg _ ↦ ?_
    split
    · exact (points_literal hs _).hints
    · exact (points_push hs _ _ fun _ ↦ rfl).hints
  · split
    · exact hints_fail _
    · exact hints_folded hs (points_push hs _ _ fun _ ↦ rfl).hints

end

end Build

/-- The spans of an expression and of all expressions in it that become nodes. -/
inductive Expr.Everywhere (P : Span → Prop) : Expr → Prop
  | mk {e : Expr} : P e.span → (∀ c ∈ e.children, Everywhere P c) → Everywhere P e

namespace Build

variable (cx : BuildContext) {P : Span → Prop}

/-- An expression that stands at a place of `P`, with operands that do. -/
def Placed (P : Span → Prop) (e : Expr) : Prop :=
  e.Everywhere fun s ↦ P (cx.parsed.attributeSpan s)

theorem points_values {es : List Expr} (h : ∀ e ∈ es, Points P (At P) (expr cx none e)) :
    Points P (fun _ ↦ True) (values cx es) := by
  induction es with
  | nil => exact points_pure trivial
  | cons e rest ih =>
    rw [List.forall_mem_cons] at h
    refine h.1.bind fun n hn ↦ (points_requireValue hn).bind fun _ _ ↦ ?_
    exact (ih h.2).bind fun ns _ ↦ points_pure trivial

/-- An error of a node is at its place or at that of an operand. -/
theorem points_node : ∀ (outer : Option Span) (e : Expr),
    P (cx.parsed.attributeSpan (outer.getD e.span)) →
    (∀ c ∈ e.children, Points P (At P) (expr cx none c)) → Points P (At P) (expr cx outer e)
  | _, .literal _ value, hs, _ => points_literal hs value
  | _, .ident _ name, hs, _ => (hints_ident cx hs name).orSpan hs
  | _, .field _ receiver name, hs, hc => by
    refine Hints.orSpan ?_ hs
    exact (hc _ List.mem_cons_self).hints.bind fun r _ ↦ hints_field cx hs r name
  | _, .call _ receiver name args, hs, hc => by
    obtain ⟨hreceiver, hargs⟩ := List.forall_mem_cons.mp hc
    refine Hints.orSpan ?_ hs
    refine hreceiver.hints.bind fun r _ ↦ ?_
    exact (points_values cx hargs).hints.bind fun rs _ ↦ hints_call cx hs r name rs
  | _, .construct _ typeName args, hs, hc =>
    ((points_values cx hc).hints.bind fun rs _ ↦ hints_construct cx hs typeName rs).orSpan hs
  | _, .index _ receiver position, hs, hc => by
    have hposition := hc position (by simp [Expr.children])
    refine Hints.orSpan ?_ hs
    refine (hc receiver List.mem_cons_self).hints.bind fun r hr ↦ (points_requireValue hr).hints.bind fun _ _ ↦ ?_
    refine hposition.hints.bind fun i hi ↦ ?_
    exact (points_requireValue hi).hints.bind fun _ _ ↦ hints_index cx hs r hi
  | _, .binary _ op left right, hs, hc => by
    have hright := hc right (by simp [Expr.children])
    unfold expr
    refine Hints.orSpan ?_ hs
    refine (hc left List.mem_cons_self).hints.bind fun l hl ↦ (points_requireValue hl).hints.bind fun _ _ ↦ ?_
    split
    · exact hints_shortCircuit cx hs op l hright
    refine hright.hints.bind fun r hr ↦ (points_requireValue hr).hints.bind fun _ _ ↦ ?_
    split
    · exact hints_equality cx hs op l r
    · exact hints_numeric cx hs op l r
  | _, .unary _ op operand, hs, hc => by
    refine Hints.orSpan ?_ hs
    refine (hc _ List.mem_cons_self).hints.bind fun o ho ↦ ?_
    exact (points_requireValue ho).hints.bind fun _ _ ↦ hints_unary cx hs op o
  | outer, .paren s inner, hs, hc => by
    refine points_node (outer.or (some s)) inner ?_ hc
    cases outer with
    | none => exact hs
    | some _ => exact hs

/-- Every error is at the place of the innermost node around it that has one. -/
theorem points_expr {e : Expr} (h : Placed cx P e) : Points P (At P) (expr cx none e) := by
  induction h with
  | mk hs _ ih => exact points_node cx none _ hs ih

end Build

theorem Tree.build_points {cx : BuildContext} {P : Span → Prop} (h : Build.Placed cx P cx.parsed.root)
    {e : CompileError} (he : Tree.build cx = .error e) : ∃ s, e.span = some s ∧ P s := by
  have hroot : Build.Points P (fun _ ↦ True) (do
      let root ← Build.expr cx none cx.parsed.root
      Build.requireValue root
      return root) :=
    (Build.points_expr cx h).bind fun root hr ↦
      (Build.points_requireValue hr).bind fun _ _ ↦ Build.points_pure trivial
  cases hrun : (do
      let root ← Build.expr cx none cx.parsed.root
      Build.requireValue root
      return root : Build Node) 0 with
  | error e' =>
    obtain rfl : e' = e := by
      unfold Tree.build at he
      simp only [StateT.run, hrun] at he
      exact Except.error.inj he
    exact hroot.error 0 e' hrun
  | ok result =>
    unfold Tree.build at he
    simp only [StateT.run, hrun] at he
    cases he

/-- The span of some characters between the marks of the expression that an attribute is. -/
def Span.InExpression (text : String) (s : Span) : Prop :=
  ∃ lead inner trail front marked back, Encloses text lead inner trail ∧
    inner = front ++ (marked ++ back) ∧
    s.start = Text.byteSize lead + 2 + Text.byteSize front ∧
    s.stop = s.start + Text.byteSize marked

theorem Span.Marks.inExpression {text : String} {lead inner trail : List Char} {s : Span}
    (h : s.Marks 0 inner) (htext : Encloses text lead inner trail)
    (hsize : Text.byteSize text.toList ≤ maxOffset) :
    (s.shift (Text.byteSize lead + 2)).InExpression text := by
  obtain ⟨front, marked, back, hinner, rfl⟩ := h
  rw [Nat.zero_add, htext.shift_marked hinner hsize]
  rw [htext.byteSize_eq, hinner, Text.byteSize_append, Text.byteSize_append] at hsize
  refine ⟨lead, inner, trail, front, marked, back, htext, hinner, ?_, ?_⟩
  · rw [ofRange, Nat.min_eq_left (by omega)]
  · rw [ofRange, Nat.min_eq_left (by omega), Nat.min_eq_left (by omega)]

namespace ParsedExpr

variable {p : ParsedExpr} {n : Nat} {e : Expr}

theorem Reachable.marks {ts : List Token} (hn : p.Reachable n) (hroot : p.root.Written ts)
    (hspelled : Token.Spelled 0 p.source.toList ts) {entry : Expr.Entry}
    (hentry : p.entries[n]? = some entry) : entry.span.Marks 0 p.source.toList := by
  obtain ⟨e, before, used, after, hlies, rfl, hused⟩ := hn.written hroot
  obtain ⟨front, marked, back, hsource, -, hmarked, -⟩ :=
    hspelled.cutOut (hused.spans hspelled.inOrder.right.left)
  rw [(hlies.found hentry).1]
  exact ⟨front, marked, back, hsource, hmarked⟩

/-- What holds of the span of every node of the tree holds of the spans of the expression in it. -/
theorem everywhere_of_lies {P : Span → Prop} (h : Expr.Lies p.entries n e) (hn : p.Reachable n)
    (hP : ∀ m entry, p.Reachable m → p.entries[m]? = some entry → P entry.span) :
    e.Everywhere P := by
  induction h with
  | @mk n e entry hentry hspan hstands hlength hchildren ih =>
    refine .mk (hspan ▸ hP n entry hn hentry) fun c hc ↦ ?_
    obtain ⟨i, hi, rfl⟩ := List.mem_iff_getElem.mp hc
    have hi' : i < entry.shape.children.length := hlength ▸ hi
    exact ih i _ _ (List.getElem?_eq_getElem hi') (List.getElem?_eq_getElem hi)
      (.tail hn ⟨entry, hentry, List.getElem_mem hi'⟩)

end ParsedExpr

/-- Every error of the front end is at some characters between the marks of the expression, and where
names, types and members do not fit, at a node of it. Offsets reach as far as 32 bits do. -/
theorem error_points_into_expression {text : String}
    (hsize : Text.byteSize text.toList ≤ Span.maxOffset) :
    (∀ e, parseAttribute text = .error e → ∃ s : Span, e.span = some s ∧ s.InExpression text) ∧
    ∀ p, parseAttribute text = .ok (.expression p) → ∀ cx : BuildContext, cx.parsed = p → ∀ e,
      Tree.build cx = .error e → ∃ s : Span, e.span = some s ∧ s.InExpression text ∧
        ∃ n entry, p.Reachable n ∧ p.entries[n]? = some entry ∧ s = p.attributeSpan entry.span := by
  refine ⟨fun e he ↦ ?_, ?_⟩
  · rcases parseAttribute_cases text with ⟨plain, hplain⟩ | ⟨lead, inner, trail, htext, hparse⟩
    · rw [he] at hplain
      cases hplain
    · rw [he] at hparse
      cases hexpression : parseExpression (String.ofList inner) (Text.byteSize lead + 2) with
      | ok p =>
        rw [hexpression] at hparse
        cases hparse
      | error e' =>
        rw [hexpression] at hparse
        cases hparse
        obtain ⟨s, hs, hmarks⟩ := parseExpression_error hexpression
        rw [String.toList_ofList] at hmarks
        exact ⟨_, hs, hmarks.inExpression htext hsize⟩
  · rintro p hp cx rfl e he
    obtain ⟨lead, trail, body, last, htext, hbase, -, hspelled, hwritten⟩ :=
      parseAttribute_eq_expression hp
    refine Tree.build_points ?_ he
    refine ParsedExpr.everywhere_of_lies cx.parsed.lies_root .refl fun n entry hn hentry ↦ ?_
    refine ⟨?_, n, entry, hn, hentry, rfl⟩
    rw [ParsedExpr.attributeSpan, hbase]
    exact (hn.marks hwritten hspelled hentry).inExpression htext hsize

namespace Sample

/-- Nothing is in scope. -/
def emptyContext (p : ParsedExpr) : BuildContext := ⟨registry.model, .empty, p, true⟩

theorem parsed_emptyContext (p : ParsedExpr) : (emptyContext p).parsed = p := rfl

theorem exists_groupedError : ∃ e, Tree.build (emptyContext grouped) = .error e := by
  have herror : (Tree.build (emptyContext grouped)).isOk = false := by decide +kernel
  generalize Tree.build (emptyContext grouped) = built at herror ⊢
  cases built with
  | error e => exact ⟨e, rfl⟩
  | ok tree => cases herror

end Sample

open Sample in
theorem error_points_into_expression_grouped :
    Text.byteSize groupedText.toList ≤ Span.maxOffset ∧
    parseAttribute groupedText = .ok (.expression grouped) ∧
    ∃ e, Tree.build (emptyContext grouped) = .error e ∧ ∃ s : Span, e.span = some s ∧
      s.InExpression groupedText ∧ ∃ n entry, grouped.Reachable n ∧
        grouped.entries[n]? = some entry ∧ s = grouped.attributeSpan entry.span := by
  have hsize : Text.byteSize groupedText.toList ≤ Span.maxOffset := by decide
  obtain ⟨e, he⟩ := exists_groupedError
  exact ⟨hsize, parseAttribute_grouped, e, he, (error_points_into_expression hsize).2 grouped
    parseAttribute_grouped (emptyContext grouped) (parsed_emptyContext grouped) e he⟩

/-- All blanks in front of an expression stand in front of its marks. -/
theorem Encloses.lead_eq {text : String} {lead inner trail blanks rest : List Char}
    (h : Encloses text lead inner trail) (hblanks : ∀ c ∈ blanks, Text.isBlank c)
    (htext : text.toList = blanks ++ '$' :: rest) : lead = blanks := by
  have hmark {rest : List Char} : Lexeme.Stops Text.isBlank ('$' :: rest) := by
    rintro _ ⟨⟩
    rfl
  rw [← Lexeme.takeWhile_append_of_stops h.lead hmark, ← h.split, htext,
    Lexeme.takeWhile_append_of_stops hblanks hmark]

open Sample in
/-- An error is not between the marks of the expression if it is farther from the start than offsets
reach. -/
theorem error_misses_far : ∃ e s, parseAttribute (farText "a b") = .error e ∧ e.span = some s ∧
    ¬s.InExpression (farText "a b") := by
  have hparse (base : Nat) : ∃ problem, parseExpression "a b" base =
      .error ⟨problem, some (Span.shift ⟨2, 3⟩ base), none⟩ := ⟨_, rfl⟩
  obtain ⟨problem, hproblem⟩ := hparse (Span.maxOffset + 2)
  have hfar := parseAttribute_far "a b"
  rw [hproblem] at hfar
  refine ⟨_, ⟨4294967295, 4294967295⟩, hfar, rfl, ?_⟩
  rintro ⟨lead, inner, trail, front, marked, back, htext, -, hstart, -⟩
  obtain rfl := htext.lead_eq isBlank_far (String.toList_ofList ..)
  rw [byteSize_far] at hstart
  have hlarge : 4294967295 = Span.maxOffset + 2 + Text.byteSize front := hstart
  rw [Span.maxOffset] at hlarge
  omega

end LiveBinding
