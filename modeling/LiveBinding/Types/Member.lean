import LiveBinding.Types.Ty

namespace LiveBinding

structure MemberFlags where
  /-- Visible to binding expressions. -/
  accessible : Bool := false
  /-- Belongs to the type and not to an instance. -/
  static : Bool := false
  /-- The property lives in a cell that listeners can attach to. -/
  observable : Bool := false
  /-- The property cannot be the target of a dynamic binding. -/
  readOnly : Bool := false
deriving DecidableEq

/-- One letter per flag that is set. -/
def MemberFlags.letters (f : MemberFlags) : String :=
  (if f.accessible then "a" else "") ++ (if f.static then "s" else "") ++
    (if f.observable then "o" else "") ++ (if f.readOnly then "r" else "")

def MemberFlags.ofLetters (letters : String) : MemberFlags :=
  let has := letters.toList.contains
  ⟨has 'a', has 's', has 'o', has 'r'⟩

structure MethodId where
  index : Nat
deriving DecidableEq

def MethodId.render (m : MethodId) : String := "MethodId(" ++ toString m.index ++ ")"

structure FieldId where
  index : Nat
deriving DecidableEq

def FieldId.render (f : FieldId) : String := "FieldId(" ++ toString f.index ++ ")"

/-- A method, static method or constructor. A constructor returns its owner. -/
structure MethodInfo where
  id : MethodId
  owner : Ty
  name : String
  params : List Ty
  ret : Ty
  flags : MemberFlags
deriving DecidableEq

def MethodInfo.arity (m : MethodInfo) : Nat := m.params.length

/-- A property of instances; `ty` is the type of its value, not of its cell. -/
structure PropertyInfo where
  owner : Ty
  name : String
  ty : Ty
  flags : MemberFlags
deriving DecidableEq

/-- A static field, enum constants included. -/
structure FieldInfo where
  id : FieldId
  owner : Ty
  name : String
  ty : Ty
deriving DecidableEq

end LiveBinding
