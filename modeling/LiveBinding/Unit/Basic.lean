import LiveBinding.Compile

namespace LiveBinding

/-- An attribute to compile and the property it is for. -/
structure BindingSite where
  source : String
  target : Option BindingTarget := none

/-- The element and property of a site, or its text if it has no target. -/
def BindingSite.describe (s : BindingSite) : String :=
  match s.target with
  | some t =>
    match t.element with
    | some element => element ++ "." ++ t.property
    | none => t.property
  | none => s.source

/-- A markup file: its names, the files it includes, and its attributes. -/
structure MarkupUnit where
  scope : Scope := .empty
  includes : List String := []
  sites : List BindingSite := []

/-- Units by their locations, the latest first. -/
structure UnitLibrary where
  units : List (String × MarkupUnit) := []

def UnitLibrary.insert (l : UnitLibrary) (location : String) (u : MarkupUnit) : UnitLibrary :=
  ⟨(location, u) :: l.units⟩

def UnitLibrary.load? (l : UnitLibrary) (location : String) : Option MarkupUnit :=
  l.units.lookup location

structure CompiledSite where
  site : BindingSite
  binding : CompiledBinding

namespace CompiledSite

/-- What a listing shows of a dynamic binding in front of its routines. -/
def storageLine (a : Artifact) : String :=
  "captures " ++ toString a.captures ++ " scratch " ++ toString a.scratch ++ " counters " ++
    toString a.counters ++ " flags " ++ a.flags.render ++ " steps [" ++
    ", ".intercalate (a.steps.map toString) ++ "]\n"

def listing (model : TypeModel) (s : CompiledSite) : Except CompileError String := do
  let title (mode : String) (ty : Ty) : String :=
    "# " ++ s.site.describe ++ ": " ++ mode ++ " " ++ model.display ty ++ "\n"
  match s.binding with
  | .static b =>
    let routine ← b.routine
    return title "static" b.ty ++ routine.listing
  | .dynamic b =>
    return title "dynamic" b.ty ++ storageLine b.artifact ++ "init:\n" ++
      b.artifact.init.listing ++ "update:\n" ++ b.artifact.update.listing
  | .deferred ty => return title "deferred" ty

end CompiledSite

end LiveBinding
