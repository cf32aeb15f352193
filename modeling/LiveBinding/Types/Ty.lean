import LiveBinding.Literal

namespace LiveBinding

structure ClassId where
  index : Nat
deriving DecidableEq

def ClassId.render (c : ClassId) : String := "ClassId(" ++ toString c.index ++ ")"

/-- The primitive kinds of the host. -/
inductive Prim where
  | boolean
  | char
  | byte
  | short
  | int
  | long
  | float
  | double
deriving DecidableEq

namespace Prim

def all : List Prim := [boolean, char, byte, short, int, long, float, double]

/-- `char`, `byte` and `short` have no rank and promote as strings and objects do. -/
def rank? : Prim → Option Rank
  | boolean => some .boolean
  | int => some .int
  | long => some .long
  | float => some .float
  | double => some .double
  | char | byte | short => none

def ofRank : Rank → Prim
  | .boolean => boolean
  | .int => int
  | .long => long
  | .float => float
  | .double => double

def isNumeric (p : Prim) : Bool := p != boolean

def isIntegral : Prim → Bool
  | char | byte | short | int | long => true
  | boolean | float | double => false

def name : Prim → String
  | boolean => "boolean"
  | char => "char"
  | byte => "byte"
  | short => "short"
  | int => "int"
  | long => "long"
  | float => "float"
  | double => "double"

def boxedName : Prim → String
  | boolean => "Boolean"
  | char => "Character"
  | byte => "Byte"
  | short => "Short"
  | int => "Integer"
  | long => "Long"
  | float => "Float"
  | double => "Double"

/-- The name under which listings show the kind. -/
def title : Prim → String
  | boolean => "Boolean"
  | char => "Char"
  | byte => "Byte"
  | short => "Short"
  | int => "Int"
  | long => "Long"
  | float => "Float"
  | double => "Double"

end Prim

/-- A type of the host. -/
inductive Ty where
  | void
  | null
  | prim (kind : Prim)
  | boxed (kind : Prim)
  | str
  | object
  | class (id : ClassId)
deriving DecidableEq

namespace Ty

abbrev boolean : Ty := prim .boolean
abbrev int : Ty := prim .int
abbrev long : Ty := prim .long
abbrev float : Ty := prim .float
abbrev double : Ty := prim .double

/-- Values of these types may be null. -/
def isReference : Ty → Bool
  | null | boxed _ | str | object | .class _ => true
  | void | prim _ => false

def isPrimitive : Ty → Bool
  | prim _ => true
  | _ => false

/-- The primitive behind a primitive or boxed type. -/
def primitive? : Ty → Option Prim
  | prim p | boxed p => some p
  | _ => none

def rank? (t : Ty) : Option Rank := t.primitive?.bind Prim.rank?

def isBoolean (t : Ty) : Bool := t.primitive? == some .boolean

def isNumeric (t : Ty) : Bool := (t.primitive?.map Prim.isNumeric).getD false

/-- The primitive or boxed type of a name. -/
def ofPrimName? (name : String) : Option Ty :=
  Prim.all.findSome? fun p ↦
    if p.name == name then some (prim p)
    else if p.boxedName == name then some (boxed p)
    else none

/-- The type of a name that means the same in every host. -/
def ofBuiltinName? : String → Option Ty
  | "void" => some void
  | "null" => some null
  | "String" => some str
  | "Object" => some object
  | name => ofPrimName? name

def ofLiteral : Literal → Ty
  | .null => null
  | .string _ => str
  | .int _ => int
  | .long _ => long
  | .float _ => float
  | .double _ => double
  | .boolean _ => boolean

/-- The structure of the type, as listings show it. -/
def render : Ty → String
  | void => "Void"
  | null => "Null"
  | prim p => "Prim(" ++ p.title ++ ")"
  | boxed p => "Boxed(" ++ p.title ++ ")"
  | str => "Str"
  | object => "Object"
  | .class c => "Class(" ++ c.render ++ ")"

end Ty

end LiveBinding
