import LiveBinding.Expr.Basic
import LiveBinding.Expr.Token
import LiveBinding.Text.Blank

namespace LiveBinding

namespace Parser

/-- The token in front is not what the grammar wants. -/
def unexpected (tokens : List Token) (expected : String) : CompileError :=
  let token := tokens.headD ⟨.eof, ⟨0, 0⟩⟩
  ⟨.unexpectedToken token.kind.describe expected, some token.span, none⟩

/-- Takes a token of the given kind off the front. -/
def expect (kind : TokenKind) (expected : String) (tokens : List Token) :
    Except CompileError (Span × List Token) :=
  match tokens with
  | token :: rest =>
    if token.kind = kind then .ok (token.span, rest) else .error (unexpected tokens expected)
  | [] => .error (unexpected tokens expected)

mutual

/-- Operators that bind at least as tightly as `power`, each level from the left. -/
def binary : Nat → Nat → List Token → Except CompileError (Expr × List Token)
  | 0, _, tokens => .error (unexpected tokens "an expression")
  | fuel + 1, power, tokens => do
    let (left, tokens) ← unary fuel tokens
    operators fuel power left tokens

def operators : Nat → Nat → Expr → List Token → Except CompileError (Expr × List Token)
  | 0, _, _, tokens => .error (unexpected tokens "an expression")
  | fuel + 1, power, left, tokens =>
    match tokens with
    | ⟨.operator op, _⟩ :: rest =>
      if op.power < power then .ok (left, tokens)
      else do
        let (right, tokens) ← binary fuel (op.power + 1) rest
        operators fuel power (.binary (left.span.merge right.span) op left right) tokens
    | _ => .ok (left, tokens)

def unary : Nat → List Token → Except CompileError (Expr × List Token)
  | 0, tokens => .error (unexpected tokens "an expression")
  | fuel + 1, tokens =>
    match tokens with
    | ⟨.operator .sub, start⟩ :: rest => do
      let (operand, tokens) ← unary fuel rest
      .ok (.unary (start.merge operand.span) .neg operand, tokens)
    | ⟨.bang, start⟩ :: rest => do
      let (operand, tokens) ← unary fuel rest
      .ok (.unary (start.merge operand.span) .not operand, tokens)
    | _ => do
      let (receiver, tokens) ← primary fuel tokens
      suffixes fuel receiver tokens

/-- Member accesses, calls and indexes after an expression. -/
def suffixes : Nat → Expr → List Token → Except CompileError (Expr × List Token)
  | 0, _, tokens => .error (unexpected tokens "an expression")
  | fuel + 1, receiver, tokens =>
    match tokens with
    | ⟨.dot, _⟩ :: ⟨.ident name, _⟩ :: ⟨.openParen, _⟩ :: rest => do
      let ((args, stop), tokens) ← arguments fuel rest
      suffixes fuel (.call (receiver.span.merge stop) receiver name args) tokens
    | ⟨.dot, _⟩ :: ⟨.ident name, span⟩ :: rest =>
      suffixes fuel (.field (receiver.span.merge span) receiver name) rest
    | ⟨.dot, _⟩ :: rest => .error (unexpected rest "a member name")
    | ⟨.openBracket, _⟩ :: rest => do
      let (index, tokens) ← binary fuel 0 rest
      let (stop, tokens) ← expect .closeBracket "`]`" tokens
      suffixes fuel (.index (receiver.span.merge stop) receiver index) tokens
    | _ => .ok (receiver, tokens)

/-- The arguments after an opening parenthesis, and the span of the closing one. -/
def arguments : Nat → List Token → Except CompileError ((List Expr × Span) × List Token)
  | 0, tokens => .error (unexpected tokens "an expression")
  | fuel + 1, tokens =>
    match tokens with
    | ⟨.closeParen, stop⟩ :: rest => .ok (([], stop), rest)
    | _ => moreArguments fuel tokens

def moreArguments : Nat → List Token → Except CompileError ((List Expr × Span) × List Token)
  | 0, tokens => .error (unexpected tokens "an expression")
  | fuel + 1, tokens => do
    let (arg, tokens) ← binary fuel 0 tokens
    match tokens with
    | ⟨.comma, _⟩ :: rest =>
      let ((args, stop), tokens) ← moreArguments fuel rest
      .ok ((arg :: args, stop), tokens)
    | _ =>
      let (stop, tokens) ← expect .closeParen "`,` or `)`" tokens
      .ok (([arg], stop), tokens)

def primary : Nat → List Token → Except CompileError (Expr × List Token)
  | 0, tokens => .error (unexpected tokens "an expression")
  | fuel + 1, tokens =>
    match tokens with
    | ⟨.literal value, span⟩ :: rest => .ok (.literal span value, rest)
    | ⟨.ident name, span⟩ :: ⟨.openParen, _⟩ :: rest => do
      let ((args, stop), tokens) ← arguments fuel rest
      .ok (.construct (span.merge stop) name args, tokens)
    | ⟨.ident name, span⟩ :: rest => .ok (.ident span name, rest)
    | ⟨.openParen, start⟩ :: rest => do
      let (inner, tokens) ← binary fuel 0 rest
      let (stop, tokens) ← expect .closeParen "`)`" tokens
      .ok (.paren (start.merge stop) inner, tokens)
    | _ => .error (unexpected tokens "an expression")

end

/-- A whole expression. Between two tokens that are taken at most five rules follow each other. -/
def expression (tokens : List Token) : Except CompileError Expr := do
  let (root, rest) ← binary (8 * tokens.length + 8) 0 tokens
  match rest with
  | ⟨.eof, _⟩ :: _ => .ok root
  | _ => .error (unexpected rest "an operator or the end of the expression")

end Parser

/-- Moves the span of an error from the expression to the attribute. -/
def CompileError.relocate (base : Nat) (e : CompileError) : CompileError :=
  { e with span := e.span.map (·.shift base) }

/-- Parses the text of an expression that starts at byte `base` of the attribute. -/
def parseExpression (source : String) (base : Nat) : Except CompileError ParsedExpr :=
  match (Token.scan source).bind Parser.expression with
  | .ok root => .ok ⟨source, root, base⟩
  | .error e => .error (e.relocate base)

/-- What an attribute holds: plain text, or an expression between `$` and braces. -/
inductive AttributeValue where
  | literal (text : String)
  | expression (parsed : ParsedExpr)

/-- The text between the marks, if `cs` starts and ends with them. -/
def unwrapExpression? : List Char → Option (List Char)
  | '$' :: '\x7b' :: body => if body.getLast? = some '\x7d' then some body.dropLast else none
  | _ => none

/-- An expression takes up the whole attribute, up to blanks around it. A backslash before the
dollar sign makes the attribute plain text and is dropped. -/
def parseAttribute (text : String) : Except CompileError AttributeValue :=
  match text.toList with
  | '\\' :: '$' :: rest => .ok (.literal (String.ofList ('$' :: rest)))
  | cs =>
    let start := Text.trimStart cs
    match unwrapExpression? (Text.trimEnd start) with
    | none => .ok (.literal text)
    | some inner =>
      let leading := Text.byteSize cs - Text.byteSize start
      (parseExpression (String.ofList inner) (leading + 2)).map .expression

end LiveBinding
