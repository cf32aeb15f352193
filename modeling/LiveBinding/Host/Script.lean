import LiveBinding.Host.Action

namespace LiveBinding

/-- The code of a method, described by what it does with its arguments. -/
inductive Script where
  | const (value : Value)
  | arg (i : Nat)
  /-- Reads a property of the receiver. -/
  | get (property : String)
  /-- Writes an argument to a property of the receiver. -/
  | set (property : String) (i : Nat)
  /-- Counts a property of a named object on from an `int` below `max`. -/
  | upto (object property : String) (max : Int)
  /-- The texts of all arguments with commas between them. -/
  | join
  | fail (message : String)
  /-- Makes an object whose properties are arguments, each observable or not. -/
  | new (cls : ClassId) (slots : List (String × Nat × Bool))

namespace Script

def argument (args : List Value) (i : Nat) : Except RuntimeError Value :=
  match args[i]? with
  | some v => .ok v
  | none => .error (.noSuchMember ("arg " ++ toString i))

def receiver (args : List Value) : Except RuntimeError ObjectId :=
  (argument args 0).bind fun
    | .object o => .ok o
    | v => v.mismatch "object"

def slots (args : List Value) :
    List (String × Nat × Bool) → Except RuntimeError (List (String × Value × Bool))
  | [] => .ok []
  | (property, i, observable) :: rest => do
    let v ← argument args i
    let rest ← slots args rest
    return (property, v, observable) :: rest

/-- Continues with a result, if there is one. -/
def andThen {α : Type} (r : Except RuntimeError α) (next : α → Action Value) : Action Value :=
  match r with
  | .ok a => next a
  | .error e => .fail e

def action (s : Script) (args : List Value) : Action Value :=
  match s with
  | const v => .done v
  | arg i => .ofExcept (argument args i)
  | get property =>
    andThen (receiver args) fun o ↦ .get o property fun
      | some v => .done v
      | none => .fail (.noSuchMember property)
  | set property i =>
    andThen (argument args i) fun v ↦
      andThen (receiver args) fun o ↦ .set o property v (.done v)
  | upto object property max =>
    andThen (argument args 0) fun v ↦
      match v with
      | .int n =>
        if n.toInt < max then
          .find object fun
            | some o => .set o property (.int (n + 1)) (.done v)
            | none => .done v
        else .done v
      | _ => .done v
  | join => .texts args fun texts ↦ .done (.str (",".intercalate texts))
  | fail message => .fail (.fault message)
  | new cls props =>
    andThen (slots args props) fun slots ↦ .make cls slots fun o ↦ .done (.object o)

/-- The method records each of its calls. -/
def method (name : String) (s : Script) : Method := fun args ↦ .logCall name args (s.action args)

/-- The values that the script keeps. -/
def held : Script → List Value
  | const v => [v]
  | _ => []

end Script

end LiveBinding
