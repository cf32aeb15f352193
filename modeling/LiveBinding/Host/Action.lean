import LiveBinding.Host.Value

namespace LiveBinding

/-- What host code does, one effect after the other, until it is done or fails. -/
inductive Action (α : Type) where
  | done (result : α)
  | fail (e : RuntimeError)
  /-- Reads a property. -/
  | get (object : ObjectId) (property : String) (next : Option Value → Action α)
  /-- Writes a property; if that fails, so does the action. -/
  | set (object : ObjectId) (property : String) (value : Value) (next : Action α)
  /-- Asks for the host's text of a value. -/
  | text (value : Value) (next : String → Action α)
  /-- Looks up an object that the host keeps by name. -/
  | find (name : String) (next : Option ObjectId → Action α)
  /-- Makes an object; each property is given with its value and whether it is observable. -/
  | make (cls : ClassId) (slots : List (String × Value × Bool)) (next : ObjectId → Action α)
  /-- Acts only while something else refers to the object, and keeps it as long as it acts. -/
  | ifLive (object : ObjectId) (live dead : Action α)
  /-- Records a call of a method. -/
  | logCall (method : String) (args : List Value) (next : Action α)
  /-- Records a value that a listener was given. -/
  | logWatch (tag : String) (value : Value) (next : Action α)

namespace Action

variable {α : Type}

def ofExcept : Except RuntimeError α → Action α
  | .ok a => .done a
  | .error e => .fail e

/-- The host's text of several values. -/
def texts : List Value → (List String → Action α) → Action α
  | [], next => next []
  | v :: rest, next => .text v fun s ↦ texts rest fun ss ↦ next (s :: ss)

end Action

/-- The code of a method. An instance method gets the receiver as its first argument. -/
abbrev Method := List Value → Action Value

end LiveBinding
