import LiveBinding.Code.FlagLayout
import LiveBinding.Code.Routine

namespace LiveBinding

/-- A dynamic binding ready to be instantiated: how much storage it needs, the routine that fills
the captures in the host frame, and the one that runs on every change. -/
structure Artifact where
  captures : Nat
  scratch : Nat
  flags : FlagLayout
  counters : Nat
  init : Routine
  update : Routine
  /-- Every step, from zero on. -/
  steps : List Nat

end LiveBinding
