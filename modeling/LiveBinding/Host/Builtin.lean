import LiveBinding.Host.Registry
import LiveBinding.Number.Integer
import LiveBinding.Text.Blank

namespace LiveBinding.Builtin

def arg (args : List Value) (i : Nat) : Except RuntimeError Value :=
  match args[i]? with
  | some v => .ok v
  | none => .error (.typeMismatch "argument" (toString args.length ++ " arguments"))

def textArg (args : List Value) (i : Nat) : Except RuntimeError String :=
  (arg args i).bind Value.toText

def intArg (args : List Value) (i : Nat) : Except RuntimeError Int32 :=
  (arg args i).bind Value.toInt

/-- A method without effects. -/
def pureMethod (f : List Value → Except RuntimeError Value) : Method := fun args ↦ .ofExcept (f args)

/-- The host's text of the first argument. -/
def textOf : Method := fun args ↦
  match arg args 0 with
  | .ok v => .text v fun s ↦ .done (.str s)
  | .error e => .fail e

/-- A count as an `int`, which stays at the largest one. -/
def countInt (n : Nat) : Int32 := Int32.ofInt (min n maxInt)

def charAt (s : String) (index : Int32) : Except RuntimeError Char :=
  match if 0 ≤ index.toInt then s.toList[index.toInt.toNat]? else none with
  | some c => .ok c
  | none => .error (.indexOutOfBounds index.toInt s.length)

/-- The characters from `start` up to but not including `stop`. -/
def substring (s : String) (start stop : Int) : Except RuntimeError Value :=
  if start < 0 || stop < 0 then .error (.indexOutOfBounds (min start stop) s.length)
  else if stop < start || s.length < stop then .error (.indexOutOfBounds stop s.length)
  else .ok (.str (String.ofList ((s.toList.drop start.toNat).take (stop - start).toNat)))

def occursIn (needle : List Char) : List Char → Bool
  | [] => needle.isEmpty
  | c :: rest => needle.isPrefixOf (c :: rest) || occursIn needle rest

def wrappingAbs (n : Int32) : Int32 := if n < 0 then -n else n

def visible : MemberFlags := { accessible := true }

def visibleStatic : MemberFlags := { accessible := true, static := true }

def addMethod (owner : Ty) (name : String) (params : List Ty) (ret : Ty) (body : Method)
    (r : Registry) : Registry :=
  r.addMember owner name params ret visible body []

def addStaticMethod (owner : Ty) (name : String) (params : List Ty) (ret : Ty) (body : Method)
    (r : Registry) : Registry :=
  r.addMember owner name params ret visibleStatic body []

def addObject (r : Registry) : Registry :=
  r |> addMethod .object "toString" [] .str textOf
    |> addMethod .object "equals" [.object] .boolean (pureMethod fun args ↦ do
      return .bool ((← arg args 0).same (← arg args 1)))
    |> addStaticMethod .str "valueOf" [.object] .str textOf

def addString (r : Registry) : Registry :=
  r |> addMethod .str "length" [] .int (pureMethod fun args ↦ do
      return .int (countInt (← textArg args 0).length))
    |> addMethod .str "isEmpty" [] .boolean (pureMethod fun args ↦ do
      return .bool (← textArg args 0).isEmpty)
    |> addMethod .str "charAt" [.int] (.prim .char) (pureMethod fun args ↦ do
      return .char (← charAt (← textArg args 0) (← intArg args 1)))
    |> addMethod .str "substring" [.int] .str (pureMethod fun args ↦ do
      let s ← textArg args 0
      substring s (← intArg args 1).toInt (countInt s.length).toInt)
    |> addMethod .str "substring" [.int, .int] .str (pureMethod fun args ↦ do
      substring (← textArg args 0) (← intArg args 1).toInt (← intArg args 2).toInt)
    |> addMethod .str "toUpperCase" [] .str (pureMethod fun args ↦ do
      return .str (Text.toUpper (← textArg args 0)))
    |> addMethod .str "toLowerCase" [] .str (pureMethod fun args ↦ do
      return .str (Text.toLower (← textArg args 0)))
    |> addMethod .str "trim" [] .str (pureMethod fun args ↦ do
      return .str (Text.trim (← textArg args 0)))
    |> addMethod .str "contains" [.str] .boolean (pureMethod fun args ↦ do
      let s ← textArg args 0
      return .bool (occursIn (← textArg args 1).toList s.toList))
    |> addMethod .str "startsWith" [.str] .boolean (pureMethod fun args ↦ do
      let s ← textArg args 0
      return .bool ((← textArg args 1).toList.isPrefixOf s.toList))
    |> addMethod .str "concat" [.str] .str (pureMethod fun args ↦ do
      return .str ((← textArg args 0) ++ (← textArg args 1)))

def addBoxed (r : Registry) : Registry :=
  let r := r |> addStaticMethod (.boxed .int) "parseInt" [.str] .int (pureMethod fun args ↦ do
    let s ← textArg args 0
    match parseInt32? s with
    | some n => return .int n
    | none => .error (.numberFormat s "int"))
  let r := r.addStaticField (.boxed .int) "MAX_VALUE" .int (.int (Int32.ofInt maxInt))
  let r := r.addStaticField (.boxed .int) "MIN_VALUE" .int (.int (Int32.ofInt minInt))
  r.addStaticField (.boxed .long) "MAX_VALUE" .long (.long (Int64.ofInt maxLong))

/-- The double nearest to the circle number. -/
def pi : Double := ⟨0x400921fb54442d18#64⟩

def addMath (r : Registry) : Registry :=
  let (cls, r) := r.defineClass "Math" none
  let math : Ty := .class cls
  let r := r |> addStaticMethod math "max" [.int, .int] .int (pureMethod fun args ↦ do
      let a ← intArg args 0
      let b ← intArg args 1
      return .int (if a < b then b else a))
    |> addStaticMethod math "max" [.long, .long] .long (pureMethod fun args ↦ do
      let a ← (arg args 0).bind Value.toInt64
      let b ← (arg args 1).bind Value.toInt64
      return .long (if a < b then b else a))
    |> addStaticMethod math "max" [.double, .double] .double (pureMethod fun args ↦ do
      let a ← (arg args 0).bind Value.toDouble
      let b ← (arg args 1).bind Value.toDouble
      return .double (a.max b))
    |> addStaticMethod math "min" [.int, .int] .int (pureMethod fun args ↦ do
      let a ← intArg args 0
      let b ← intArg args 1
      return .int (if b < a then b else a))
    |> addStaticMethod math "abs" [.int] .int (pureMethod fun args ↦ do
      return .int (wrappingAbs (← intArg args 0)))
    |> addStaticMethod math "abs" [.double] .double (pureMethod fun args ↦ do
      return .double (← (arg args 0).bind Value.toDouble).abs)
  r.addStaticField math "PI" .double (.double pi)

end LiveBinding.Builtin

namespace LiveBinding.Registry

/-- `String`, `Object`, the boxed primitives and `Math` with their members. -/
def standard : Registry :=
  let names := [("String", Ty.str), ("Object", .object)] ++
    Prim.all.map fun p ↦ (p.boxedName, .boxed p)
  ({ names } : Registry) |> Builtin.addObject |> Builtin.addString |> Builtin.addBoxed
    |> Builtin.addMath

end LiveBinding.Registry
