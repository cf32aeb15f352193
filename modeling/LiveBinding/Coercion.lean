import LiveBinding.Code.Fragment
import LiveBinding.Diagnostic
import LiveBinding.Types.Model
import LiveBinding.Types.Naming

namespace LiveBinding.Coercion

/-- Pushes what null turns into; there is no value of type `void`. -/
def defaultValue? : Ty → Option (List Op)
  | .void => none
  | .null | .boxed _ | .str | .object | .class _ => some [.pushNull]
  | .prim .boolean => some [.pushBool false]
  | .prim .char => some [.pushChar '\x00']
  | .prim .byte => some [.pushInt 0, .convert .int .byte]
  | .prim .short => some [.pushInt 0, .convert .int .short]
  | .prim .int => some [.pushInt 0]
  | .prim .long => some [.pushLong 0]
  | .prim .float => some [.pushFloat (.zero false)]
  | .prim .double => some [.pushDouble (.zero false)]

/-- Between primitives. A boolean converts only to itself. -/
def cast? (source target : Prim) : Option (List Op) :=
  if source = target then some []
  else if source.isNumeric && target.isNumeric then some [.convert source target]
  else none

/-- Reads a string as a primitive. -/
def parse : Prim → Op
  | .boolean => .parseBool
  | .char => .parseChar
  | kind => .parseNumber kind

/-- A visible static `valueOf(String)` that gives a value of the type. -/
def valueOf? (model : TypeModel) (target : Ty) : Option MethodInfo :=
  (model.staticMethods target "valueOf" 1).find? fun m ↦
    m.flags.accessible && m.params.head? == some .str && model.isAssignable m.ret target

/-- The conversion of a value that is not null between types that are not assignable. -/
def conversion? (model : TypeModel) (source target : Ty) : Option (List Op) :=
  match source, target with
  | .void, _ | _, .void | _, .null => none
  | _, .str => some [.toStr]
  | .str, .prim p => some [parse p]
  | .str, .boxed p => some [parse p, .box p]
  | .str, .class c =>
    if (model.enumConstants target).isSome then some [.enumValueOf c]
    else (valueOf? model target).map fun m ↦ [.invokeStatic m.id 1]
  | .prim p, .prim q => cast? p q
  | .boxed p, .prim q => (cast? p q).map (.unbox p :: ·)
  | .prim p, .boxed q => (cast? p q).map (· ++ [.box q])
  | .boxed p, .boxed q => (cast? p q).map fun ops ↦ .unbox p :: ops ++ [.box q]
  | .prim p, target => if model.isAssignable (.boxed p) target then some [.box p] else none
  | _, _ => none

/-- Turns the value on top of the stack into one of another type. A reference is converted only if
it is not null, and null becomes the default of the other type. -/
def coerce? (model : TypeModel) (source target : Ty) : Option Fragment :=
  if model.isAssignable source target then some .empty
  else if source = .null then (defaultValue? target).map fun ops ↦ .ops (.pop :: ops)
  else
    match conversion? model source target with
    | none => none
    | some convert =>
      if source.isReference then
        (defaultValue? target).map fun default ↦ .nullGuard (.ops convert) (.ops default)
      else some (.ops convert)

def wholeText? (text : String) : Option Int64 := (Literal.parseNumeric? text).bind fun
  | .int n => some (Int64.ofInt n.toInt)
  | .long n => some n
  | _ => none

/-- A whole number between `lo` and `hi`. -/
def wholeBetween? (lo hi : Int) (text : String) : Option Int32 :=
  (wholeText? text).bind fun n ↦
    if lo ≤ n.toInt && n.toInt ≤ hi then some (Int32.ofInt n.toInt) else none

/-- Text as a constant of a primitive kind. Whole kinds take neither a point nor an exponent. -/
def constant? (text : String) : Prim → Option (List Op)
  | .boolean => (Literal.parseBoolean? text).map fun b ↦ [.pushBool b]
  | .char =>
    match text.toList with
    | [c] => some [.pushChar c]
    | _ => none
  | .byte =>
    (wholeBetween? minByte maxByte text).map fun n ↦ [.pushInt n, .convert .int .byte]
  | .short =>
    (wholeBetween? minShort maxShort text).map fun n ↦ [.pushInt n, .convert .int .short]
  | .int => (wholeBetween? minInt maxInt text).map fun n ↦ [.pushInt n]
  | .long => (wholeText? text).map fun n ↦ [.pushLong n]
  | .float =>
    ((Literal.parseNumeric? text).bind Literal.toDouble?).bind fun x ↦
      let x : Single := x.convert .single
      if x.isFinite then some [.pushFloat x] else none
  | .double => ((Literal.parseNumeric? text).bind Literal.toDouble?).map fun x ↦ [.pushDouble x]

/-- Pushes what the text of an attribute means for a type. -/
def ofText? (model : TypeModel) (text : String) (target : Ty) : Option Fragment :=
  match target with
  | .str | .object => some (.op (.pushStr text))
  | .prim p => (constant? text p).map .ops
  | .boxed p => (constant? text p).map fun ops ↦ .ops (ops ++ [.box p])
  | .class _ =>
    match model.enumConstants target with
    | some constants =>
      ((matchConstant? constants text).bind (model.staticField target)).map fun f ↦
        .op (.getStatic f.id)
    | none =>
      (valueOf? model target).map fun m ↦ .ops [.pushStr text, .invokeStatic m.id 1]
  | .void | .null => none

def require (model : TypeModel) (source target : Ty) : Except CompileError Fragment :=
  match coerce? model source target with
  | some code => .ok code
  | none => .error (Problem.unconvertible (model.display source) (model.display target))

def requireText (model : TypeModel) (text : String) (target : Ty) : Except CompileError Fragment :=
  match ofText? model text target with
  | some code => .ok code
  | none => .error (Problem.unconvertible ("\"" ++ text ++ "\"") (model.display target))

end LiveBinding.Coercion
