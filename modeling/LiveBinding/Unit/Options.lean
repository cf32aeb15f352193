import LiveBinding.Compile
import LiveBinding.Number.Integer

namespace LiveBinding

/-- What a unit is compiled to: bindings to run, a listing to read, or bytes to store. -/
inductive Encoding where
  | artifact
  | listing
  | image
deriving DecidableEq

def Encoding.all : List Encoding := [.artifact, .listing, .image]

def Encoding.name : Encoding → String
  | artifact => "artifact"
  | listing => "listing"
  | image => "image"

structure CompileOptions where
  encoding : Encoding := .artifact
  fold : Bool := true
  flagCapacity : Nat := FlagLayout.wordSize
deriving DecidableEq

namespace CompileOptions

/-- Settings given as text. Any text but the empty one turns folding off, and a capacity that is no
number from 1 to the size of a word is passed over. -/
def override (o : CompileOptions) (noFold capacity : Option String) : CompileOptions :=
  let fold := o.fold && !(noFold.any fun s ↦ !s.isEmpty)
  let flagCapacity := match (capacity.map Text.trim).bind parseNat? with
    | some n => if 1 ≤ n && n ≤ FlagLayout.wordSize then n else o.flagCapacity
    | none => o.flagCapacity
  { o with fold, flagCapacity }

def context (o : CompileOptions) (model : TypeModel) : CompileContext :=
  ⟨model, o.fold, o.flagCapacity⟩

end CompileOptions

end LiveBinding
