import LiveBinding.Code.Fragment

namespace LiveBinding

structure LoadableId where
  index : Nat
deriving DecidableEq

/-- A value that the host frame can load. Loadables with the same id load the same value. -/
structure Loadable where
  id : LoadableId
  name : String
  ty : Ty
  load : Fragment

def Loadable.local (id : LoadableId) (name : String) (ty : Ty) (slot : Nat) : Loadable :=
  ⟨id, name, ty, .op (.loadLocal slot)⟩

/-- What a name in scope stands for; a pending one has a type but no value yet. -/
inductive ScopeEntry where
  | bound (loadable : Loadable)
  | pending (ty : Ty)

namespace ScopeEntry

def ty : ScopeEntry → Ty
  | bound l => l.ty
  | pending t => t

def isBound : ScopeEntry → Bool
  | bound _ => true
  | pending _ => false

end ScopeEntry

/-- The names that an expression can use, the latest first. -/
structure Scope where
  entries : List (String × ScopeEntry) := []

namespace Scope

def empty : Scope := {}

def bind (s : Scope) (l : Loadable) : Scope := ⟨(l.name, .bound l) :: s.entries⟩

def declarePending (s : Scope) (name : String) (ty : Ty) : Scope :=
  ⟨(name, .pending ty) :: s.entries⟩

def lookup? (s : Scope) (name : String) : Option ScopeEntry := s.entries.lookup name

end Scope

end LiveBinding
