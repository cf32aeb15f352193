import LiveBinding.Diagnostic
import LiveBinding.Literal
import LiveBinding.Operator
import LiveBinding.Text.Letter
import LiveBinding.Text.Quoted

namespace LiveBinding

inductive TokenKind where
  | literal (value : Literal)
  | ident (name : String)
  | dot
  | comma
  | openParen
  | closeParen
  | openBracket
  | closeBracket
  | operator (op : BinaryOp)
  | bang
  | eof
deriving DecidableEq

namespace TokenKind

/-- How a message about the token names it. -/
def describe : TokenKind → String
  | literal (.string text) => "string " ++ Text.quoted text
  | literal value => Problem.tick value.render
  | ident name => "identifier " ++ Problem.tick name
  | dot => Problem.tick "."
  | comma => Problem.tick ","
  | openParen => Problem.tick "("
  | closeParen => Problem.tick ")"
  | openBracket => Problem.tick "["
  | closeBracket => Problem.tick "]"
  | operator op => Problem.tick op.symbol
  | bang => Problem.tick "!"
  | eof => "end of expression"

end TokenKind

structure Token where
  kind : TokenKind
  span : Span
deriving DecidableEq

/-- A token cut off the front of some characters: its own characters and what follows them. -/
structure Lexeme where
  kind : TokenKind
  text : List Char
  rest : List Char

/-- Why no token could be cut off, and the characters at fault. -/
structure LexError where
  problem : Problem
  text : List Char

namespace Lexeme

def isSpace (c : Char) : Bool :=
  c == ' ' || c == '\t' || c == '\n' || c == '\x0c' || c == '\r'

def startsWord (c : Char) : Bool := c == '_' || c == '$' || Text.isAlphabetic c

def continuesWord (c : Char) : Bool := c == '_' || c == '$' || Text.isAlphanumeric c

/-- Characters that must not follow a number directly. -/
def clings (c : Char) : Bool := c == '_' || c.isAlphanum

def wordKind (text : List Char) : TokenKind :=
  match String.ofList text with
  | "true" => .literal (.boolean true)
  | "false" => .literal (.boolean false)
  | "null" => .literal .null
  | name => .ident name

def word (cs : List Char) : Lexeme :=
  let text := cs.takeWhile continuesWord
  ⟨wordKind text, text, cs.dropWhile continuesWord⟩

/-- A point with digits after it, or nothing. -/
def splitFraction (cs : List Char) : List Char × List Char :=
  match cs with
  | '.' :: rest =>
    let digits := rest.takeWhile Char.isDigit
    if digits.isEmpty then ([], cs) else ('.' :: digits, rest.dropWhile Char.isDigit)
  | _ => ([], cs)

/-- An exponent mark with an optional sign and digits after it, or nothing. -/
def splitExponent (cs : List Char) : List Char × List Char :=
  match cs with
  | mark :: rest =>
    if mark == 'e' || mark == 'E' then
      let (sign, rest) := match rest with
        | '+' :: after => (['+'], after)
        | '-' :: after => (['-'], after)
        | _ => ([], rest)
      let digits := rest.takeWhile Char.isDigit
      if digits.isEmpty then ([], cs)
      else (mark :: sign ++ digits, rest.dropWhile Char.isDigit)
    else ([], cs)
  | [] => ([], cs)

def finite? {w : Width} (x : Option (Floating w)) : Option (Floating w) := x.filter (·.isFinite)

/-- The literal that the digits and an optional suffix spell, if it is in range. -/
def numberValue (body : String) (floating : Bool) (suffix : Option Char) : Option Literal :=
  match suffix with
  | some 'L' | some 'l' => (parseInt64? body).map .long
  | some 'f' | some 'F' => (finite? (Floating.parse? .single body)).map .float
  | some 'd' | some 'D' => (finite? (Floating.parse? .double body)).map .double
  | _ =>
    if floating then (finite? (Floating.parse? .double body)).map .double
    else (parseInt64? body).map Literal.ofInt64

/-- A suffix `L`, `f` or `d` in either case; only whole numbers take `L`. -/
def splitSuffix (floating : Bool) : List Char → Option Char × List Char
  | [] => (none, [])
  | c :: rest =>
    if c == 'f' || c == 'F' || c == 'd' || c == 'D' || (!floating && (c == 'L' || c == 'l')) then
      (some c, rest)
    else (none, c :: rest)

/-- A number such as `42`, `42L`, `1.5`, `1.5f`, `2d` or `1e3`. -/
def number (cs : List Char) : Except LexError Lexeme :=
  let whole := cs.takeWhile Char.isDigit
  let (fraction, rest) := splitFraction (cs.dropWhile Char.isDigit)
  let (exponent, rest) := splitExponent rest
  let body := whole ++ fraction ++ exponent
  let floating := !fraction.isEmpty || !exponent.isEmpty
  let (suffix, rest) := splitSuffix floating rest
  let text := body ++ suffix.toList
  match rest.head?.filter clings, numberValue (String.ofList body) floating suffix with
  | none, some value => .ok ⟨.literal value, text, rest⟩
  | none, none => .error ⟨.invalidNumber (String.ofList text), text⟩
  | some _, _ =>
    let text := text ++ rest.takeWhile continuesWord
    .error ⟨.invalidNumber (String.ofList text), text⟩

def unescape : Char → Char
  | 'n' => '\n'
  | 't' => '\t'
  | 'r' => '\r'
  | '0' => '\x00'
  | c => c

/-- The characters up to the closing mark: their meaning, themselves with the mark, and the rest. -/
def splitString (mark : Char) : List Char → Option (List Char × List Char × List Char)
  | [] => none
  | c :: rest =>
    if c == mark then some ([], [c], rest)
    else if c == '\\' then
      match rest with
      | [] => none
      | escaped :: rest =>
        (splitString mark rest).map fun (value, text, rest) ↦
          (unescape escaped :: value, c :: escaped :: text, rest)
    else (splitString mark rest).map fun (value, text, rest) ↦ (c :: value, c :: text, rest)

def string (mark : Char) (cs : List Char) : Except LexError Lexeme :=
  match splitString mark cs with
  | some (value, text, rest) =>
    .ok ⟨.literal (.string (String.ofList value)), mark :: text, rest⟩
  | none => .error ⟨.unterminatedString, mark :: cs⟩

def punctuation (c : Char) (rest : List Char) : Except LexError Lexeme :=
  let pair (op : BinaryOp) : Except LexError Lexeme :=
    .ok ⟨.operator op, c :: rest.take 1, rest.drop 1⟩
  let one (kind : TokenKind) : Except LexError Lexeme := .ok ⟨kind, [c], rest⟩
  match c, rest.head? with
  | '=', some '=' => pair .eq
  | '!', some '=' => pair .notEq
  | '<', some '=' => pair .ltEq
  | '>', some '=' => pair .gtEq
  | '&', some '&' => pair .and
  | '|', some '|' => pair .or
  | '.', _ => one .dot
  | ',', _ => one .comma
  | '(', _ => one .openParen
  | ')', _ => one .closeParen
  | '[', _ => one .openBracket
  | ']', _ => one .closeBracket
  | '+', _ => one (.operator .add)
  | '-', _ => one (.operator .sub)
  | '*', _ => one (.operator .mul)
  | '/', _ => one (.operator .div)
  | '%', _ => one (.operator .rem)
  | '<', _ => one (.operator .lt)
  | '>', _ => one (.operator .gt)
  | '!', _ => one .bang
  | _, _ =>
    .error ⟨.unexpectedToken (Problem.tick (String.singleton c)) "an expression", [c]⟩

/-- The token that starts with the character `c`. -/
def first (c : Char) (rest : List Char) : Except LexError Lexeme :=
  if c.isDigit then number (c :: rest)
  else if c == '\'' || c == '"' then string c rest
  else if startsWord c then .ok (word (c :: rest))
  else punctuation c rest

end Lexeme

namespace Token

/-- The tokens of the characters that stand at byte `pos`. Every token takes at least one
character, so that `fuel` only has to pass their number. -/
def scanFrom : Nat → Nat → List Char → Except CompileError (List Token)
  | 0, pos, _ => .ok [⟨.eof, .ofRange pos pos⟩]
  | fuel + 1, pos, cs =>
    let start := pos + Text.byteSize (cs.takeWhile Lexeme.isSpace)
    match cs.dropWhile Lexeme.isSpace with
    | [] => .ok [⟨.eof, .ofRange start start⟩]
    | c :: rest =>
      match Lexeme.first c rest with
      | .error e =>
        .error ⟨e.problem, some (.ofRange start (start + Text.byteSize e.text)), none⟩
      | .ok lexeme =>
        let stop := start + Text.byteSize lexeme.text
        match scanFrom fuel stop lexeme.rest with
        | .error e => .error e
        | .ok tokens => .ok (⟨lexeme.kind, .ofRange start stop⟩ :: tokens)

/-- The tokens of a text; the last one is `eof`. -/
def scan (source : String) : Except CompileError (List Token) :=
  scanFrom (source.toList.length + 1) 0 source.toList

end Token

end LiveBinding
