import LiveBinding.Image.Site
import LiveBinding.Unit.Options

namespace LiveBinding

inductive UnitOutput where
  | artifacts (sites : List CompiledSite)
  | listing (text : String)
  | image (bytes : List UInt8)

/-- A unit compiled together with the units it includes. -/
inductive CompiledUnit where
  | mk (location : String) (encoding : Encoding) (includes : List CompiledUnit)
    (output : UnitOutput)

/-- What is compiled: a location and what for. -/
structure UnitKey where
  location : String
  encoding : Encoding
deriving DecidableEq

/-- The units that are compiled already, the latest first. -/
abbrev Memo := List (UnitKey × CompiledUnit)

/-- What a session keeps: the units that wait for one they include, the outermost first, and those
that are finished. -/
structure Progress where
  stack : List UnitKey := []
  done : Memo := []

namespace Progress

def push (p : Progress) (key : UnitKey) : Progress := { p with stack := p.stack ++ [key] }

def pop (p : Progress) : Progress := { p with stack := p.stack.dropLast }

def remember (p : Progress) (key : UnitKey) (unit : CompiledUnit) : Progress :=
  { p with done := (key, unit) :: p.done }

/-- The locations from the one that is asked for again up to the one that asks for it. -/
def cycleTo (p : Progress) (key : UnitKey) : List String :=
  (p.stack.dropWhile (· != key)).map UnitKey.location ++ [key.location]

end Progress

/-- What a session does not change: the types, where units come from, and the settings. -/
structure UnitCompiler where
  model : TypeModel
  load? : String → Option MarkupUnit
  options : CompileOptions := {}

namespace UnitCompiler

variable (c : UnitCompiler)

def compileSites (unit : MarkupUnit) : Except CompileError (List CompiledSite) :=
  unit.sites.mapM fun site ↦
    ((c.options.context c.model).compileBinding site.source unit.scope site.target).map
      (CompiledSite.mk site)

def output (encoding : Encoding) (sites : List CompiledSite) : Except CompileError UnitOutput :=
  match encoding with
  | .artifact => .ok (.artifacts sites)
  | .listing => (sites.mapM (CompiledSite.listing c.model)).map fun texts ↦
    .listing (String.join texts)
  | .image => (encodeSites sites).map .image

/-- What a unit becomes once the units it includes are there. -/
def link (key : UnitKey) (unit : MarkupUnit) (includes : List CompiledUnit) :
    Except CompileError CompiledUnit := do
  let sites ← c.compileSites unit
  let output ← c.output key.encoding sites
  return .mk key.location key.encoding includes output

/-- What a call ends with: its result and the state it leaves. -/
abbrev Outcome (α : Type) := Except CompileError α × Progress

/-- Compiles locations one after the other up to the first error. -/
def compileAll (compile : UnitKey → Progress → Option (Outcome CompiledUnit))
    (encoding : Encoding) : List String → Progress → Option (Outcome (List CompiledUnit))
  | [], p => some (.ok [], p)
  | location :: rest, p => do
    let (result, q) ← compile ⟨location, encoding⟩ p
    match result with
    | .error e => some (.error e, q)
    | .ok unit =>
      let (units, r) ← compileAll compile encoding rest q
      some (units.map (unit :: ·), r)

def run (compile : UnitKey → Progress → Option (Outcome CompiledUnit)) (key : UnitKey)
    (p : Progress) : Option (Outcome CompiledUnit) :=
  match c.load? key.location with
  | none => some (.error (Problem.unitNotFound key.location), p)
  | some unit => do
    let (includes, q) ← compileAll compile key.encoding unit.includes p
    some (includes.bind (c.link key unit), q)

/-- Compiles a unit, its includes first. What was finished before an error stays finished. There is
no outcome if units include each other more than `depth` deep. -/
def compileAs : Nat → UnitKey → Progress → Option (Outcome CompiledUnit)
  | 0, _, _ => none
  | depth + 1, key, p =>
    match p.done.lookup key with
    | some unit => some (.ok unit, p)
    | none =>
      if key ∈ p.stack then some (.error (Problem.includeCycle (p.cycleTo key)), p)
      else do
        let (result, q) ← c.run (compileAs depth) key (p.push key)
        match result with
        | .error e => some (.error e, q.pop)
        | .ok unit => some (.ok unit, q.pop.remember key unit)

end UnitCompiler

/-- A compiler of units that are held in memory. -/
structure Session where
  model : TypeModel
  library : UnitLibrary
  options : CompileOptions := {}

namespace Session

def compiler (s : Session) : UnitCompiler := ⟨s.model, s.library.load?, s.options⟩

/-- Compiles a unit with what is finished already. The units that wait are different, so that there
are never more of them than units in memory. -/
def compile (s : Session) (key : UnitKey) (done : Memo) :
    Except CompileError CompiledUnit × Memo :=
  match s.compiler.compileAs (s.library.units.length + 1) key ⟨[], done⟩ with
  | some (result, p) => (result, p.done)
  | none => (.error (Problem.unitNotFound key.location), done)

end Session

end LiveBinding
