import LiveBinding.Operator
import LiveBinding.Text.Quoted
import LiveBinding.Types.Member

namespace LiveBinding

/-- A place in a routine that instructions can jump to. -/
structure Label where
  index : Nat
deriving DecidableEq, Inhabited

def Label.render (l : Label) : String := "L" ++ toString l.index

/-- The instructions of the stack machine. Of several operands the last one is on top. -/
inductive Op where
  | pushNull
  | pushBool (value : Bool)
  | pushInt (value : Int32)
  | pushLong (value : Int64)
  | pushFloat (value : Single)
  | pushDouble (value : Double)
  | pushChar (value : Char)
  | pushStr (value : String)
  /-- The value of a local of the host frame. -/
  | loadLocal (slot : Nat)
  | loadCapture (slot : Nat)
  | storeCapture (slot : Nat)
  | loadScratch (slot : Nat)
  | storeScratch (slot : Nat)
  /-- The step that the update was asked for. -/
  | loadStep
  | dup
  | pop
  | swap
  /-- Reads a property of the object on top, through its cell if it has one. -/
  | getProperty (name : String)
  /-- Replaces the object on top by the cell of a property. -/
  | getObservable (name : String)
  /-- Replaces the cell on top by its value. -/
  | observableValue
  | getStatic (field : FieldId)
  | invoke (method : MethodId) (argc : Nat)
  | invokeStatic (method : MethodId) (argc : Nat)
  | construct (method : MethodId) (argc : Nat)
  /-- The character of a string at an index, as a string. -/
  | charAt
  | arith (op : BinaryOp) (kind : Prim)
  | neg (kind : Prim)
  | cmp (op : BinaryOp) (kind : Prim)
  /-- Equality of two references. -/
  | refEq
  | not
  | concat
  | convert (source target : Prim)
  | box (kind : Prim)
  /-- Fails on null. -/
  | unbox (kind : Prim)
  | parseNumber (kind : Prim)
  | parseBool
  | parseChar
  /-- The host's text of any value. -/
  | toStr
  | enumValueOf (cls : ClassId)
  | jump (target : Label)
  | jumpIfFalse (target : Label)
  | jumpIfTrue (target : Label)
  | jumpIfNull (target : Label)
  | jumpIfNonNull (target : Label)
  /-- Jumps when the two values on top are the same. -/
  | jumpIfSame (target : Label)
  | jumpIfZero (target : Label)
  /-- Jumps by an `int`, whose values count from `low`. -/
  | tableSwitch (low : Nat) (targets : List Label) (otherwise : Label)
  /-- Flags kept in one word. -/
  | flagTest (mask : UInt64)
  | flagAssign (mask : UInt64) (value : Bool)
  /-- Flags kept in several words. -/
  | bitTest (bit : Nat)
  | bitAssign (bit : Nat) (value : Bool)
  | counterLoad (counter : Nat)
  | counterAdd (counter : Nat) (delta : Int32)
  /-- Attaches the listener of this binding for a step to the cell on top. -/
  | subscribe (step : Nat)
  | unsubscribe (step : Nat)
  /-- Makes the value on top the result of the binding. -/
  | publish
  | lockAcquire
  | lockRelease
  | fault (message : String)
  | return

namespace Op

/-- The labels that control may pass to, other than to the next instruction. -/
def targets : Op → List Label
  | jump l | jumpIfFalse l | jumpIfTrue l | jumpIfNull l | jumpIfNonNull l | jumpIfSame l
  | jumpIfZero l => [l]
  | tableSwitch _ ls l => ls ++ [l]
  | _ => []

/-- Control never passes to the next instruction. -/
def isTerminator : Op → Bool
  | jump _ | tableSwitch .. | fault _ | .return => true
  | _ => false

def wrap (name arg : String) : String := name ++ "(" ++ arg ++ ")"

def braced (name : String) (fields : List (String × String)) : String :=
  name ++ " \x7b " ++ ", ".intercalate (fields.map fun (k, v) ↦ k ++ ": " ++ v) ++ " \x7d"

def hex (n : UInt64) : String := "0x" ++ String.ofList (Nat.toDigits 16 n.toNat)

def renderCall (name : String) (method : MethodId) (argc : Nat) : String :=
  braced name [("method", method.render), ("argc", toString argc)]

/-- An instruction as listings show it. -/
def render : Op → String
  | pushNull => "PushNull"
  | pushBool b => wrap "PushBool" (toString b)
  | pushInt n => wrap "PushInt" (toString n.toInt)
  | pushLong n => wrap "PushLong" (toString n.toInt)
  | pushFloat x => wrap "PushFloat" (listingStyle.render x)
  | pushDouble x => wrap "PushDouble" (listingStyle.render x)
  | pushChar c => wrap "PushChar" (Text.quotedChar c)
  | pushStr s => "PushStr " ++ Text.quoted s
  | loadLocal n => wrap "LoadLocal" (toString n)
  | loadCapture n => wrap "LoadCapture" (toString n)
  | storeCapture n => wrap "StoreCapture" (toString n)
  | loadScratch n => wrap "LoadScratch" (toString n)
  | storeScratch n => wrap "StoreScratch" (toString n)
  | loadStep => "LoadStep"
  | dup => "Dup"
  | pop => "Pop"
  | swap => "Swap"
  | getProperty name => "GetProperty " ++ name
  | getObservable name => "GetObservable " ++ name
  | observableValue => "ObservableValue"
  | getStatic f => wrap "GetStatic" f.render
  | invoke m argc => renderCall "Invoke" m argc
  | invokeStatic m argc => renderCall "InvokeStatic" m argc
  | construct m argc => renderCall "Construct" m argc
  | charAt => "CharAt"
  | arith op kind => "Arith " ++ op.symbol ++ " " ++ kind.name
  | neg kind => wrap "Neg" kind.title
  | cmp op kind => "Cmp " ++ op.symbol ++ " " ++ kind.name
  | refEq => "RefEq"
  | not => "Not"
  | concat => "Concat"
  | convert source target => "Convert " ++ source.name ++ " -> " ++ target.name
  | box kind => wrap "Box" kind.title
  | unbox kind => wrap "Unbox" kind.title
  | parseNumber kind => wrap "ParseNumber" kind.title
  | parseBool => "ParseBool"
  | parseChar => "ParseChar"
  | toStr => "ToStr"
  | enumValueOf c => wrap "EnumValueOf" c.render
  | jump l => wrap "Jump" l.render
  | jumpIfFalse l => wrap "JumpIfFalse" l.render
  | jumpIfTrue l => wrap "JumpIfTrue" l.render
  | jumpIfNull l => wrap "JumpIfNull" l.render
  | jumpIfNonNull l => wrap "JumpIfNonNull" l.render
  | jumpIfSame l => wrap "JumpIfSame" l.render
  | jumpIfZero l => wrap "JumpIfZero" l.render
  | tableSwitch low ls l =>
    "TableSwitch " ++ toString low ++ ": [" ++ ", ".intercalate (ls.map Label.render) ++
      "] else " ++ l.render
  | flagTest mask => "FlagTest " ++ hex mask
  | flagAssign mask value => "FlagAssign " ++ hex mask ++ " = " ++ toString value
  | bitTest bit => wrap "BitTest" (toString bit)
  | bitAssign bit value => braced "BitAssign" [("bit", toString bit), ("value", toString value)]
  | counterLoad c => wrap "CounterLoad" (toString c)
  | counterAdd c delta =>
    braced "CounterAdd" [("counter", toString c), ("delta", toString delta.toInt)]
  | subscribe step => wrap "Subscribe" (toString step)
  | unsubscribe step => wrap "Unsubscribe" (toString step)
  | publish => "Publish"
  | lockAcquire => "LockAcquire"
  | lockRelease => "LockRelease"
  | fault message => wrap "Fault" (Text.quoted message)
  | .return => "Return"

end Op

end LiveBinding
