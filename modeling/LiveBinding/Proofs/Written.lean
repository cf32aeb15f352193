import LiveBinding.Proofs.Grammar

/-!
Expressions with the tokens that they are written with: every node has tokens of its own in a row, and
those of its operands are some of them, one operand behind the other.
-/

namespace LiveBinding

namespace Grammar

variable {ts : List TokenKind} {p : Phrase}

theorem Level.sentence {k : Nat} (h : Level k ts p) : Sentence ts p := h.mono (Nat.zero_le k)

theorem Unary.sentence (h : Unary ts p) : Sentence ts p := (Level.operand h).sentence

theorem Suffixed.sentence (h : Suffixed ts p) : Sentence ts p := (Unary.suffixed h).sentence

theorem Primary.sentence (h : Primary ts p) : Sentence ts p := (Suffixed.primary h).sentence

end Grammar

/-- The span of some tokens in a row, merged from that of the first and that of the last. -/
inductive Token.Hull : List Token → Span → Prop
  | one (t : Token) : Hull [t] t.span
  | merge {ts us : List Token} {s t : Span} (between : List Token) :
    Hull ts s → Hull us t → Hull (ts ++ (between ++ us)) (s.merge t)

namespace Expr

/-- The operands of a node. Parentheses have those of what they enclose. -/
def children : Expr → List Expr
  | literal _ _ | ident _ _ => []
  | field _ receiver _ => [receiver]
  | call _ receiver _ args => receiver :: args
  | construct _ _ args => args
  | index _ receiver position => [receiver, position]
  | binary _ _ left right => [left, right]
  | unary _ _ operand => [operand]
  | paren _ inner => inner.children

mutual

/-- The tokens of an expression. -/
inductive Written : List Token → Expr → Prop
  | mk {ts : List Token} {e : Expr} : Grammar.Sentence (ts.map Token.kind) e.phrase →
    Token.Hull ts e.span → Parts ts e.children → Written ts e

/-- Expressions that are written one behind the other, with other tokens around them. -/
inductive Parts : List Token → List Expr → Prop
  | nil (ts : List Token) : Parts ts []
  | cons {used ts : List Token} {e : Expr} {es : List Expr} (before : List Token) :
    Written used e → Parts ts es → Parts (before ++ (used ++ ts)) (e :: es)

end

variable {ts us : List Token} {e : Expr} {es : List Expr}

theorem Written.sentence (h : Written ts e) : Grammar.Sentence (ts.map Token.kind) e.phrase := by
  cases h with
  | mk h _ _ => exact h

theorem Written.hull (h : Written ts e) : Token.Hull ts e.span := by
  cases h with
  | mk _ h _ => exact h

theorem Written.parts (h : Written ts e) : Parts ts e.children := by
  cases h with
  | mk _ _ h => exact h

theorem Parts.behind (before : List Token) (h : Parts ts es) : Parts (before ++ ts) es := by
  cases h with
  | nil => exact .nil _
  | cons before' h hs =>
    rw [← List.append_assoc]
    exact .cons _ h hs

theorem Parts.before (h : Parts ts es) (after : List Token) : Parts (ts ++ after) es := by
  induction es generalizing ts with
  | nil => exact .nil _
  | cons e es ih =>
    cases h with
    | cons before h hs =>
      rw [List.append_assoc, List.append_assoc]
      exact .cons before h (ih hs)

theorem Parts.single (h : Written ts e) : Parts ts [e] := by
  simpa using Parts.cons [] h (.nil [])

end Expr

end LiveBinding
