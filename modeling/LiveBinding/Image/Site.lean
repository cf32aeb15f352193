import LiveBinding.Image.Op
import LiveBinding.Unit.Basic

namespace LiveBinding

/-- The stored form of a compiled attribute. -/
inductive SiteImage where
  | static (name : String) (routine : Routine)
  | dynamic (name : String) (artifact : Artifact)
  /-- To be compiled again once its pending name has a value. -/
  | deferred (name source : String)

namespace SiteImage

def of (s : CompiledSite) : Except CompileError SiteImage :=
  match s.binding with
  | .static b => b.routine.map (.static s.site.describe)
  | .dynamic b => .ok (.dynamic s.site.describe b.artifact)
  | .deferred _ => .ok (.deferred s.site.describe s.site.source)

end SiteImage

namespace Codec

def routine : Codec Routine :=
  (pair (list op) (list u64)).imap (fun r ↦ (r.ops.toList, r.positions.toList))
    fun (ops, positions) ↦ some ⟨ops.toArray, positions.toArray⟩

def flagLayout : Codec FlagLayout where
  encode
    | .word bits => u32.encode 0 ++ u32.encode bits
    | .words bits count => u32.encode 1 ++ (pair u32 u32).encode (bits, count)
  decode bytes := (u32.decode bytes).bind fun
    | (0, rest) => (u32.decode rest).map fun (bits, rest) ↦ (.word bits, rest)
    | (1, rest) => ((pair u32 u32).decode rest).map fun ((bits, count), rest) ↦
      (.words bits count, rest)
    | _ => none

def artifact : Codec Artifact :=
  (pair u32 (pair u32 (pair flagLayout (pair u32 (pair routine (pair routine (list u32))))))).imap
    (fun a ↦ (a.captures, a.scratch, a.flags, a.counters, a.init, a.update, a.steps))
    fun (captures, scratch, flags, counters, init, update, steps) ↦
      some ⟨captures, scratch, flags, counters, init, update, steps⟩

def siteImage : Codec SiteImage where
  encode
    | .static name r => u32.encode 0 ++ (pair string routine).encode (name, r)
    | .dynamic name a => u32.encode 1 ++ (pair string artifact).encode (name, a)
    | .deferred name source => u32.encode 2 ++ (pair string string).encode (name, source)
  decode bytes := (u32.decode bytes).bind fun
    | (0, rest) => ((pair string routine).decode rest).map fun ((name, r), rest) ↦
      (.static name r, rest)
    | (1, rest) => ((pair string artifact).decode rest).map fun ((name, a), rest) ↦
      (.dynamic name a, rest)
    | (2, rest) => ((pair string string).decode rest).map fun ((name, source), rest) ↦
      (.deferred name source, rest)
    | _ => none

end Codec

/-- The stored form of the attributes of a unit. -/
def encodeSites (sites : List CompiledSite) : Except CompileError (List UInt8) :=
  (sites.mapM SiteImage.of).map (Codec.list Codec.siteImage).encode

/-- Reads stored attributes. Bytes after them are passed over. -/
def decodeSites? (bytes : List UInt8) : Option (List SiteImage) :=
  ((Codec.list Codec.siteImage).decode bytes).map (·.1)

end LiveBinding
