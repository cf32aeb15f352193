import LiveBinding.Coercion

namespace LiveBinding.Overload

/-- A call passes at most this many arguments. -/
def maxArgs : Nat := 255

/-- Every argument has a value and converts to its parameter. -/
def isApplicable (model : TypeModel) (params args : List Ty) : Bool :=
  (args.zip params).all fun (arg, param) ↦
    arg != .void && (Coercion.coerce? model arg param).isSome

/-- How many parameters at or after the place of each argument take it without conversion. -/
def score (model : TypeModel) : List Ty → List Ty → Nat
  | param :: params, arg :: args =>
    (param :: params).countP (model.isAssignable arg) + score model params args
  | _, _ => 0

/-- The score of a method that can be called with the arguments. -/
def viable? (model : TypeModel) (args : List Ty) (method : MethodInfo) : Option Nat :=
  if method.flags.accessible && method.arity == args.length &&
      isApplicable model method.params args then
    some (score model method.params args)
  else none

/-- Keeps the methods with the highest score met so far. -/
def keepBest (best : List MethodInfo × Nat) (method : MethodInfo) (score : Nat) :
    List MethodInfo × Nat :=
  if best.1.isEmpty || best.2 < score then ([method], score)
  else if score == best.2 then (best.1 ++ [method], score)
  else best

def best (model : TypeModel) (args : List Ty) (candidates : List MethodInfo) : List MethodInfo :=
  (candidates.foldl (fun best method ↦
    match viable? model args method with
    | some score => keepBest best method score
    | none => best) ([], 0)).1

/-- The method with the single highest score. -/
def select (model : TypeModel) (kind : MemberKind) (name : String) (owner : Ty)
    (candidates : List MethodInfo) (args : List Ty) : Except CompileError MethodInfo :=
  let missing : CompileError := Problem.noApplicableMember kind name (model.display owner)
  if maxArgs < args.length then .error missing
  else
    match best model args candidates with
    | [] => .error missing
    | [method] => .ok method
    | methods =>
      .error (Problem.ambiguousCall name (model.display owner) (methods.map model.signature))

end LiveBinding.Overload
