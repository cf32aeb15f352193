import LiveBinding.Expr.Parser

namespace LiveBinding

/-- An expression as it is meant: without places, and without the parentheses that group it. -/
inductive Phrase where
  | literal (value : Literal)
  | ident (name : String)
  | field (receiver : Phrase) (name : String)
  | call (receiver : Phrase) (name : String) (args : List Phrase)
  | construct (typeName : String) (args : List Phrase)
  | index (receiver index : Phrase)
  | binary (op : BinaryOp) (left right : Phrase)
  | unary (op : UnaryOp) (operand : Phrase)

namespace Expr

mutual

def phrase : Expr → Phrase
  | literal _ value => .literal value
  | ident _ name => .ident name
  | field _ receiver name => .field receiver.phrase name
  | call _ receiver name args => .call receiver.phrase name (phrases args)
  | construct _ typeName args => .construct typeName (phrases args)
  | index _ receiver position => .index receiver.phrase position.phrase
  | binary _ op left right => .binary op left.phrase right.phrase
  | unary _ op operand => .unary op operand.phrase
  | paren _ inner => inner.phrase

def phrases : List Expr → List Phrase
  | [] => []
  | e :: rest => e.phrase :: phrases rest

end

end Expr

namespace Grammar

/-- The binary operators of each level, from the loosest to the tightest. -/
def operators : Nat → List BinaryOp
  | 0 => [.or]
  | 1 => [.and]
  | 2 => [.eq, .notEq]
  | 3 => [.lt, .ltEq, .gt, .gtEq]
  | 4 => [.add, .sub]
  | 5 => [.mul, .div, .rem]
  | _ => []

mutual

/-- The levels 0 to 5 are repetitions of the next level with operators of their own between them,
grouped from the left. Level 6 is a single operand. -/
inductive Level : Nat → List TokenKind → Phrase → Prop
  | operand {ts : List TokenKind} {p : Phrase} : Unary ts p → Level 6 ts p
  | single {k : Nat} {ts : List TokenKind} {p : Phrase} : k < 6 → Level (k + 1) ts p → Level k ts p
  | repeated {k : Nat} {op : BinaryOp} {ts us : List TokenKind} {l r : Phrase} :
    op ∈ operators k → Level k ts l → Level (k + 1) us r →
      Level k (ts ++ .operator op :: us) (.binary op l r)

inductive Unary : List TokenKind → Phrase → Prop
  | neg {ts : List TokenKind} {p : Phrase} : Unary ts p → Unary (.operator .sub :: ts) (.unary .neg p)
  | not {ts : List TokenKind} {p : Phrase} : Unary ts p → Unary (.bang :: ts) (.unary .not p)
  | suffixed {ts : List TokenKind} {p : Phrase} : Suffixed ts p → Unary ts p

/-- A primary expression with any number of member accesses, calls and indexes after it. -/
inductive Suffixed : List TokenKind → Phrase → Prop
  | primary {ts : List TokenKind} {p : Phrase} : Primary ts p → Suffixed ts p
  | field {ts : List TokenKind} {p : Phrase} {name : String} :
    Suffixed ts p → Suffixed (ts ++ [.dot, .ident name]) (.field p name)
  | call {ts us : List TokenKind} {p : Phrase} {name : String} {ps : List Phrase} :
    Suffixed ts p → Arguments us ps → Suffixed (ts ++ .dot :: .ident name :: us) (.call p name ps)
  | index {ts us : List TokenKind} {p q : Phrase} :
    Suffixed ts p → Level 0 us q →
      Suffixed (ts ++ .openBracket :: (us ++ [.closeBracket])) (.index p q)

inductive Primary : List TokenKind → Phrase → Prop
  | literal {value : Literal} : Primary [.literal value] (.literal value)
  | ident {name : String} : Primary [.ident name] (.ident name)
  | construct {us : List TokenKind} {name : String} {ps : List Phrase} :
    Arguments us ps → Primary (.ident name :: us) (.construct name ps)
  | paren {us : List TokenKind} {p : Phrase} :
    Level 0 us p → Primary (.openParen :: (us ++ [.closeParen])) p

/-- Arguments in parentheses. -/
inductive Arguments : List TokenKind → List Phrase → Prop
  | none : Arguments [.openParen, .closeParen] []
  | some {us : List TokenKind} {ps : List Phrase} :
    Items us ps → Arguments (.openParen :: (us ++ [.closeParen])) ps

/-- One or more expressions with commas between them. -/
inductive Items : List TokenKind → List Phrase → Prop
  | last {us : List TokenKind} {p : Phrase} : Level 0 us p → Items us [p]
  | more {ts us : List TokenKind} {p : Phrase} {ps : List Phrase} :
    Level 0 ts p → Items us ps → Items (ts ++ .comma :: us) (p :: ps)

end

/-- The tokens of an expression. -/
abbrev Sentence (ts : List TokenKind) (p : Phrase) : Prop := Level 0 ts p

theorem mem_operators {op : BinaryOp} {k : Nat} : op ∈ operators k ↔ op.power = k := by
  match k with
  | 0 | 1 | 2 | 3 | 4 | 5 => cases op <;> decide
  | k + 6 =>
    constructor
    · nofun
    · intro h
      cases op <;> simp only [BinaryOp.power] at h <;> omega

theorem Level.le_six {k : Nat} {ts : List TokenKind} {p : Phrase} : Level k ts p → k ≤ 6
  | .operand _ => Nat.le_refl 6
  | .single hk _ => Nat.le_of_lt hk
  | .repeated _ hl _ => hl.le_six

/-- What is on one level is on every looser level too. -/
theorem Level.mono {j k : Nat} {ts : List TokenKind} {p : Phrase} (h : Level k ts p)
    (hj : j ≤ k) : Level j ts p := by
  have hk := h.le_six
  induction hn : k - j generalizing j with
  | zero => exact (show k = j by omega) ▸ h
  | succ n ih => exact .single (by omega) (ih (by omega) (by omega))

/-- A token that a primary expression starts with. -/
def startsPrimary : TokenKind → Bool
  | .literal _ | .ident _ | .openParen => true
  | _ => false

theorem Primary.starts {ts : List TokenKind} {p : Phrase} (h : Primary ts p) :
    ∃ t more, ts = t :: more ∧ startsPrimary t := by
  cases h with
  | literal | ident | construct _ | paren _ => exact ⟨_, _, rfl, rfl⟩

theorem Suffixed.starts {ts : List TokenKind} {p : Phrase} :
    Suffixed ts p → ∃ t more, ts = t :: more ∧ startsPrimary t
  | .primary h => h.starts
  | .field h | .call h _ | .index h _ => by
    obtain ⟨t, more, rfl, ht⟩ := h.starts
    exact ⟨t, _, rfl, ht⟩

theorem Unary.starts {ts : List TokenKind} {p : Phrase} :
    Unary ts p → ∃ t more, ts = t :: more ∧ t ≠ .closeParen
  | .neg _ => ⟨_, _, rfl, nofun⟩
  | .not _ => ⟨_, _, rfl, nofun⟩
  | .suffixed h => by
    obtain ⟨t, more, rfl, ht⟩ := h.starts
    refine ⟨t, more, rfl, ?_⟩
    rintro rfl
    cases ht

theorem Level.starts {k : Nat} {ts : List TokenKind} {p : Phrase} :
    Level k ts p → ∃ t more, ts = t :: more ∧ t ≠ .closeParen
  | .operand h => h.starts
  | .single _ h => h.starts
  | .repeated _ h _ => by
    obtain ⟨t, more, rfl, ht⟩ := h.starts
    exact ⟨t, _, rfl, ht⟩

theorem Items.starts {ts : List TokenKind} {ps : List Phrase} (h : Items ts ps) :
    ∃ t more, ts = t :: more ∧ t ≠ .closeParen := by
  cases h with
  | last h => exact h.starts
  | more h _ =>
    obtain ⟨t, more, rfl, ht⟩ := h.starts
    exact ⟨t, _, rfl, ht⟩

end Grammar

end LiveBinding
