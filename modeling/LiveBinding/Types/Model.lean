import LiveBinding.Types.Member

namespace LiveBinding

/-- What the compiler may ask about the types of the host. -/
structure TypeModel where
  resolveType : String → Option Ty
  className : ClassId → String
  /-- The superclasses of a class, nearest first. -/
  ancestors : ClassId → List ClassId
  property : Ty → String → Option PropertyInfo
  /-- Instance methods by owner, name and number of arguments. -/
  methods : Ty → String → Nat → List MethodInfo
  staticMethods : Ty → String → Nat → List MethodInfo
  constructors : Ty → Nat → List MethodInfo
  staticField : Ty → String → Option FieldInfo
  /-- The constants in the order of their declaration, for an enum. -/
  enumConstants : Ty → Option (List String)

namespace TypeModel

def isSubclass (model : TypeModel) (sub sup : ClassId) : Bool :=
  sub == sup || (model.ancestors sub).contains sup

/-- A value of type `source` can be used as `target` without any conversion. -/
def isAssignable (model : TypeModel) (source target : Ty) : Bool :=
  source == target || match source, target with
    | .null, target => target.isReference
    | source, .object => source.isReference
    | .class sub, .class sup => model.isSubclass sub sup
    | _, _ => false

theorem isAssignable_refl (model : TypeModel) (t : Ty) : model.isAssignable t t := by
  simp [isAssignable]

def display (model : TypeModel) : Ty → String
  | .void => "void"
  | .null => "null"
  | .prim p => p.name
  | .boxed p => p.boxedName
  | .str => "String"
  | .object => "Object"
  | .class c => model.className c

/-- Writes a method as `name(int, String)`. -/
def signature (model : TypeModel) (method : MethodInfo) : String :=
  method.name ++ "(" ++ ", ".intercalate (method.params.map model.display) ++ ")"

end TypeModel

end LiveBinding
