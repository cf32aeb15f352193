import LiveBinding.Host.Action
import LiveBinding.Types.Model
import LiveBinding.Types.Naming

namespace LiveBinding

structure ClassDef where
  name : String
  superclass : Option ClassId
  properties : List PropertyInfo := []
  /-- The constants of an enum. -/
  constants : Option (List String) := none

structure MethodDef where
  info : MethodInfo
  body : Method
  /-- Values that the code of the method keeps. -/
  held : List Value := []

structure FieldDef where
  info : FieldInfo
  value : Value

/-- The classes of the host and their members. -/
structure Registry where
  classes : Array ClassDef := #[]
  /-- Type names, the latest first. -/
  names : List (String × Ty) := []
  methods : Array MethodDef := #[]
  fields : Array FieldDef := #[]

namespace Registry

variable (r : Registry)

def defineClass (name : String) (superclass : Option ClassId) : ClassId × Registry :=
  let id : ClassId := ⟨r.classes.size⟩
  (id, { r with classes := r.classes.push { name, superclass }
                names := (name, .class id) :: r.names })

def addStaticField (owner : Ty) (name : String) (ty : Ty) (value : Value) : Registry :=
  { r with fields := r.fields.push ⟨⟨⟨r.fields.size⟩, owner, name, ty⟩, value⟩ }

/-- Every constant of an enum is a static field as well. -/
def defineEnum (name : String) (constants : List String) : ClassId × Registry :=
  let (id, r) := r.defineClass name none
  let r := constants.foldl
    (fun r c ↦ r.addStaticField (.class id) c (.class id) (.enum id c)) r
  (id, { r with
    classes := r.classes.modify id.index ({ · with constants := some constants }) })

def addProperty (cls : ClassId) (name : String) (ty : Ty) (flags : MemberFlags) : Registry :=
  { r with classes := r.classes.modify cls.index fun c ↦
      { c with properties := c.properties ++ [⟨.class cls, name, ty, flags⟩] } }

def addMember (owner : Ty) (name : String) (params : List Ty) (ret : Ty) (flags : MemberFlags)
    (body : Method) (held : List Value) : Registry :=
  { r with methods := r.methods.push ⟨⟨⟨r.methods.size⟩, owner, name, params, ret, flags⟩,
      body, held⟩ }

def className (c : ClassId) : String := ((r.classes[c.index]?).map ClassDef.name).getD c.render

def superclass? (c : ClassId) : Option ClassId := (r.classes[c.index]?).bind ClassDef.superclass

/-- Follows the superclasses. A chain without repetition is no longer than the number of classes. -/
def ancestorsWithin : Nat → ClassId → List ClassId
  | 0, _ => []
  | fuel + 1, c =>
    match r.superclass? c with
    | some s => s :: ancestorsWithin fuel s
    | none => []

def ancestors (c : ClassId) : List ClassId := r.ancestorsWithin (r.classes.size + 1) c

/-- A type and its supertypes, nearest first. -/
def lineage : Ty → List Ty
  | .class c => .class c :: (r.ancestors c).map .class ++ [.object]
  | .str => [.str, .object]
  | .boxed p => [.boxed p, .object]
  | .object => [.object]
  | .null | .void | .prim _ => []

/-- Appends the methods of an owner whose parameters are not there yet. -/
def addMethodsOf (name : String) (arity : Nat) (static : Bool) (found : List MethodInfo)
    (owner : Ty) : List MethodInfo :=
  r.methods.foldl (fun found def_ ↦
    let m := def_.info
    if m.owner == owner && m.name == name && m.arity == arity && m.flags.static == static &&
        !found.any (·.params == m.params) then
      found ++ [m]
    else found) found

/-- The methods of some owners, where the first declaration with some parameters hides the others. -/
def findMethods (owners : List Ty) (name : String) (arity : Nat) (static : Bool) :
    List MethodInfo :=
  owners.foldl (r.addMethodsOf name arity static) []

def propertyOf? (name : String) : Ty → Option PropertyInfo
  | .class c => (r.classes[c.index]?).bind fun d ↦ d.properties.find? (·.name == name)
  | _ => none

def constructorName : String := "<init>"

def model : TypeModel where
  resolveType name := r.names.lookup name
  className := r.className
  ancestors := r.ancestors
  property owner name := (r.lineage owner).findSome? (r.propertyOf? name)
  methods owner name arity := r.findMethods (r.lineage owner) name arity false
  staticMethods owner name arity :=
    (r.findMethods [owner] name arity true).filter (·.name != constructorName)
  constructors owner arity := r.findMethods [owner] constructorName arity true
  staticField owner name :=
    (r.fields.find? fun f ↦ f.info.owner == owner && f.info.name == name).map FieldDef.info
  enumConstants
    | .class c => (r.classes[c.index]?).bind ClassDef.constants
    | _ => none

def method? (m : MethodId) : Except RuntimeError MethodDef :=
  match r.methods[m.index]? with
  | some d => .ok d
  | none => .error (.noSuchMember m.render)

def methodName (m : MethodId) : String :=
  ((r.methods[m.index]?).map (·.info.name)).getD "method"

def staticValue (f : FieldId) : Except RuntimeError Value :=
  match r.fields[f.index]? with
  | some d => .ok d.value
  | none => .error (.noSuchMember f.render)

/-- The constant of an enum that a text names. -/
def enumValueOf (c : ClassId) (text : String) : Except RuntimeError Value :=
  match r.classes[c.index]? with
  | none => .error (.noSuchMember c.render)
  | some d =>
    match matchConstant? (d.constants.getD []) text with
    | some name => .ok (.enum c name)
    | none => .error (.noSuchConstant text d.name)

end Registry

end LiveBinding
