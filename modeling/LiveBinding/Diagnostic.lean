import LiveBinding.Span

namespace LiveBinding

/-- What a failed look-up was looking for. -/
inductive MemberKind where
  | method
  | staticMethod
  | property
  | staticField
  | constructor
  | indexer
deriving DecidableEq

def MemberKind.all : List MemberKind :=
  [.method, .staticMethod, .property, .staticField, .constructor, .indexer]

def MemberKind.describe : MemberKind → String
  | method => "method"
  | staticMethod => "static method"
  | property => "property"
  | staticField => "static field"
  | constructor => "constructor"
  | indexer => "indexer"

/-- Why an attribute or a unit does not compile. Types are carried by their names. -/
inductive Problem where
  | unexpectedToken (found expected : String)
  | unterminatedString
  | invalidNumber (text : String)
  | unknownIdentifier (name : String)
  | typeNotFound (name : String)
  | incompatibleOperands (op left right : String)
  | ambiguousCall (name owner : String) (candidates : List String)
  | noApplicableMember (kind : MemberKind) (name owner : String)
  | illegalIndex (index : String)
  | indexOutOfRange (index : Int) (length : Nat)
  | unconvertible (source target : String)
  | readOnlyTarget (property : String)
  | assembly (message : String)
  | includeCycle (chain : List String)
  | unitNotFound (location : String)
deriving DecidableEq

namespace Problem

def name : Problem → String
  | unexpectedToken .. => "UnexpectedToken"
  | unterminatedString => "UnterminatedString"
  | invalidNumber _ => "InvalidNumber"
  | unknownIdentifier _ => "UnknownIdentifier"
  | typeNotFound _ => "TypeNotFound"
  | incompatibleOperands .. => "IncompatibleOperands"
  | ambiguousCall .. => "AmbiguousCall"
  | noApplicableMember .. => "NoApplicableMember"
  | illegalIndex _ => "IllegalIndex"
  | indexOutOfRange .. => "IndexOutOfRange"
  | unconvertible .. => "Unconvertible"
  | readOnlyTarget _ => "ReadOnlyTarget"
  | assembly _ => "Assembly"
  | includeCycle _ => "IncludeCycle"
  | unitNotFound _ => "UnitNotFound"

/-- The first digit tells the phase: syntax, resolution, binding targets, units. -/
def code : Problem → String
  | unexpectedToken .. => "E1001"
  | unterminatedString => "E1002"
  | invalidNumber _ => "E1003"
  | unknownIdentifier _ => "E2001"
  | typeNotFound _ => "E2002"
  | incompatibleOperands .. => "E2003"
  | ambiguousCall .. => "E2004"
  | noApplicableMember .. => "E2005"
  | illegalIndex _ => "E2006"
  | indexOutOfRange .. => "E2007"
  | unconvertible .. => "E2008"
  | readOnlyTarget _ => "E3001"
  | assembly _ => "E3002"
  | includeCycle _ => "E4001"
  | unitNotFound _ => "E4002"

def isSyntax : Problem → Bool
  | unexpectedToken .. | unterminatedString | invalidNumber _ => true
  | _ => false

def tick (s : String) : String := "`" ++ s ++ "`"

def message : Problem → String
  | unexpectedToken found expected => "unexpected " ++ found ++ ", expected " ++ expected
  | unterminatedString => "unterminated string literal"
  | invalidNumber text => "invalid number literal " ++ tick text
  | unknownIdentifier name => "unknown identifier " ++ tick name
  | typeNotFound name => "type " ++ tick name ++ " not found"
  | incompatibleOperands op left right =>
    "operator " ++ tick op ++ " cannot be applied to " ++ tick left ++ " and " ++ tick right
  | ambiguousCall name owner candidates =>
    "ambiguous call to " ++ tick (owner ++ "." ++ name) ++ ": candidates are " ++
      ", ".intercalate candidates
  | noApplicableMember kind name owner =>
    "no applicable " ++ kind.describe ++ " " ++ tick name ++ " on " ++ tick owner
  | illegalIndex index => "illegal index " ++ tick index
  | indexOutOfRange index length =>
    "index " ++ toString index ++ " is out of range for length " ++ toString length
  | unconvertible source target => "cannot convert " ++ tick source ++ " to " ++ tick target
  | readOnlyTarget property =>
    "property " ++ tick property ++ " is read-only and cannot be bound"
  | assembly message => "binding routine failed to assemble: " ++ message
  | includeCycle chain => "include cycle detected: " ++ " -> ".intercalate chain
  | unitNotFound location => "compilation unit " ++ tick location ++ " not found"

end Problem

/-- A problem with the place it was found at: a span of the attribute and the markup element. -/
structure CompileError where
  problem : Problem
  span : Option Span := none
  element : Option String := none
deriving DecidableEq

namespace CompileError

instance : Coe Problem CompileError := ⟨fun p ↦ ⟨p, none, none⟩⟩

def withSpan (e : CompileError) (span : Span) : CompileError := { e with span := some span }

/-- Keeps a span that was recorded before. -/
def orSpan (e : CompileError) (span : Span) : CompileError :=
  { e with span := e.span.or (some span) }

def withElement (e : CompileError) (element : String) : CompileError :=
  { e with element := some element }

def message (e : CompileError) : String := e.problem.message

/-- The message with the element it belongs to. -/
def located (e : CompileError) : String :=
  match e.element with
  | some element => e.message ++ " (in <" ++ element ++ ">)"
  | none => e.message

def render (e : CompileError) : String := "error[" ++ e.problem.code ++ "]: " ++ e.located

end CompileError

/-- When a report is coloured; `auto` follows whether the output is a terminal. -/
inductive ColorMode where
  | auto
  | always
  | never
deriving DecidableEq

def ColorMode.useColors (isTerminal : Bool) : ColorMode → Bool
  | auto => isTerminal
  | always => true
  | never => false

namespace Report

def alarm : String := "\x1b[1;31m"
def bold : String := "\x1b[1m"
def reset : String := "\x1b[0m"

def header (e : CompileError) (colors : Bool) : String :=
  (if colors then alarm ++ "error" ++ reset ++ bold ++ "[" ++ e.problem.code ++ "]" ++ reset
    else "error[" ++ e.problem.code ++ "]") ++ ": " ++ e.located ++ "\n"

/-- The text and under it a mark below the span. Columns count characters. -/
def excerpt (text : String) (span : Span) (colors : Bool) : String :=
  let size := text.utf8ByteSize
  let start := min span.start size
  let stop := min (max span.stop start) size
  let pad := ((Text.slice? text 0 start).map String.length).getD start
  let width := ((Text.slice? text start stop).map fun s ↦ max s.length 1).getD 1
  let carets := "".pushn '^' width
  let carets := if colors then alarm ++ carets ++ reset else carets
  "  | " ++ text ++ "\n  | " ++ "".pushn ' ' pad ++ carets ++ "\n"

/-- The message, and where the error has a span also the attribute it points into. -/
def render (e : CompileError) (source : Option String) (colors : Bool) : String :=
  match source, e.span with
  | some text, some span => header e colors ++ excerpt text span colors
  | _, _ => header e colors

end Report

end LiveBinding
