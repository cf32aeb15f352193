import LiveBinding.Image.Site
import LiveBinding.Proofs.Codec
import LiveBinding.Proofs.Outcome

namespace LiveBinding

def MethodId.Fits (m : MethodId) : Prop := m.index < 2 ^ 32

def Label.Fits (l : Label) : Prop := l.index < 2 ^ 32

/-- The bytes of a text can be counted in 64 bits. -/
def TextFits (s : String) : Prop := s.utf8ByteSize < 2 ^ 64

/-- Every operand is of the width that an instruction has for it. Values have their width in their
type; what is left are numbers of slots, steps and the like, labels, and the sizes of texts. -/
def Op.Fits : Op → Prop
  | .pushStr s | .getProperty s | .getObservable s | .fault s => TextFits s
  | .loadLocal n | .loadCapture n | .storeCapture n | .loadScratch n | .storeScratch n
  | .bitTest n | .bitAssign n _ | .counterLoad n | .counterAdd n _ | .subscribe n
  | .unsubscribe n => n < 2 ^ 32
  | .getStatic f => f.index < 2 ^ 32
  | .enumValueOf c => c.index < 2 ^ 32
  | .invoke m argc | .invokeStatic m argc | .construct m argc => m.Fits ∧ argc < 2 ^ 8
  | .jump l | .jumpIfFalse l | .jumpIfTrue l | .jumpIfNull l | .jumpIfNonNull l | .jumpIfSame l
  | .jumpIfZero l => l.Fits
  | .tableSwitch low ls l =>
    low < 2 ^ 32 ∧ (ls.length < 2 ^ 64 ∧ ∀ l ∈ ls, l.Fits) ∧ l.Fits
  | .pushNull | .pushBool _ | .pushInt _ | .pushLong _ | .pushFloat _ | .pushDouble _
  | .pushChar _ | .loadStep | .dup | .pop | .swap | .observableValue | .charAt | .arith ..
  | .neg _ | .cmp .. | .refEq | .not | .concat | .convert .. | .box _ | .unbox _
  | .parseNumber _ | .parseBool | .parseChar | .toStr | .flagTest _ | .flagAssign .. | .publish
  | .lockAcquire | .lockRelease | .return => True

structure Routine.Fits (r : Routine) : Prop where
  ops : ∀ op ∈ r.ops.toList, op.Fits
  positions : ∀ pc ∈ r.positions.toList, pc < 2 ^ 64
  opCount : r.ops.toList.length < 2 ^ 64
  labelCount : r.positions.toList.length < 2 ^ 64

def FlagLayout.Fits : FlagLayout → Prop
  | .word bits => bits < 2 ^ 32
  | .words bits count => bits < 2 ^ 32 ∧ count < 2 ^ 32

structure Artifact.Fits (a : Artifact) : Prop where
  captures : a.captures < 2 ^ 32
  scratch : a.scratch < 2 ^ 32
  flags : a.flags.Fits
  counters : a.counters < 2 ^ 32
  init : a.init.Fits
  update : a.update.Fits
  steps : ∀ k ∈ a.steps, k < 2 ^ 32
  stepCount : a.steps.length < 2 ^ 64

def SiteImage.Fits : SiteImage → Prop
  | .static name r => TextFits name ∧ r.Fits
  | .dynamic name a => TextFits name ∧ a.Fits
  | .deferred name source => TextFits name ∧ TextFits source

namespace Codec

theorem reads_label {l : Label} (hl : l.Fits) : label.Reads l := (reads_u32 hl).imap rfl

theorem reads_prim (p : Prim) : prim.Reads p :=
  reads_choice (by cases p <;> decide) (by decide)

theorem reads_binaryOp (op : BinaryOp) : binaryOp.Reads op :=
  reads_choice (by cases op <;> decide) (by decide)

theorem reads_single (x : Single) : single.Reads x := by
  apply Reads.imap
  · exact reads_u32 x.bits.isLt
  · simp

theorem reads_double (x : Double) : double.Reads x := by
  apply Reads.imap
  · exact reads_u64 x.bits.isLt
  · simp

theorem reads_int32 (n : Int32) : int32.Reads n := by
  have hlow := n.le_toInt
  have hhigh := n.toInt_lt
  refine (reads_int ?_ ?_).imap ?_
  · omega
  · omega
  · simp

theorem reads_int64 (n : Int64) : int64.Reads n := by
  have hlow := n.le_toInt
  have hhigh := n.toInt_lt
  refine (reads_int ?_ ?_).imap ?_
  · omega
  · omega
  · simp

theorem reads_word (n : UInt64) : word.Reads n := by
  refine (reads_u64 n.toNat_lt).imap ?_
  simp

theorem reads_call {m : MethodId} {argc : Nat} (h : m.Fits ∧ argc < 2 ^ 8) :
    callCodec.Reads (m.index, argc) :=
  (reads_u32 h.1).pair (reads_u8 h.2)

theorem reads_switch {low : Nat} {ls : List Label} {l : Label}
    (h : low < 2 ^ 32 ∧ (ls.length < 2 ^ 64 ∧ ∀ l ∈ ls, l.Fits) ∧ l.Fits) :
    switchCodec.Reads (low, ls, l) := by
  obtain ⟨hlow, ⟨hlen, hls⟩, hl⟩ := h
  exact (reads_u32 hlow).pair <|
    (reads_list hlen fun l hl ↦ reads_label (hls l hl)).pair (reads_label hl)

/-- An instruction without operands is known by its number. -/
theorem reads_bare {o : Op} {n : Nat} (hn : n < 2 ^ 32) (hencode : encodeOp o = u32.encode n)
    (hdecode : ∀ rest, decodeOperands rest n = some (o, rest)) : op.Reads o := by
  intro rest
  simp only [op, hencode]
  rw [reads_u32 hn, Option.bind_some, hdecode]

theorem operand_append {α : Type} {c : Codec α} {a : α} (h : c.Reads a) (make : α → Op)
    (rest : List UInt8) : operand c make (c.encode a ++ rest) = some (make a, rest) := by
  rw [operand, h]
  rfl

/-- An instruction with operands is known by its number, and its operands by their codec. -/
theorem reads_operand {o : Op} {n : Nat} {operands : List UInt8} (hn : n < 2 ^ 32)
    (hencode : encodeOp o = u32.encode n ++ operands)
    (hdecode : ∀ rest, decodeOperands (operands ++ rest) n = some (o, rest)) : op.Reads o := by
  intro rest
  simp only [op, hencode, List.append_assoc]
  rw [reads_u32 hn, Option.bind_some, hdecode]

theorem reads_op {o : Op} (h : o.Fits) : op.Reads o := by
  cases o with
  | pushNull | loadStep | dup | pop | swap | observableValue | charAt | refEq | not | concat
  | parseBool | parseChar | toStr | publish | lockAcquire | lockRelease | «return» =>
    exact reads_bare (by decide) rfl fun _ ↦ rfl
  | pushBool b => exact reads_operand (by decide) rfl (operand_append (reads_bool b) _)
  | pushInt n => exact reads_operand (by decide) rfl (operand_append (reads_int32 n) _)
  | pushLong n => exact reads_operand (by decide) rfl (operand_append (reads_int64 n) _)
  | pushFloat x => exact reads_operand (by decide) rfl (operand_append (reads_single x) _)
  | pushDouble x => exact reads_operand (by decide) rfl (operand_append (reads_double x) _)
  | pushChar c => exact reads_operand (by decide) rfl (operand_append (reads_char c) _)
  | pushStr s | getProperty s | getObservable s | fault s =>
    exact reads_operand (by decide) rfl (operand_append (reads_string h) _)
  | loadLocal n | loadCapture n | storeCapture n | loadScratch n | storeScratch n | bitTest n
  | counterLoad n | subscribe n | unsubscribe n =>
    exact reads_operand (by decide) rfl (operand_append (reads_u32 h) _)
  | getStatic f =>
    exact reads_operand (by decide) rfl (operand_append (reads_u32 h) fun n ↦ .getStatic ⟨n⟩)
  | enumValueOf c =>
    exact reads_operand (by decide) rfl (operand_append (reads_u32 h) fun n ↦ .enumValueOf ⟨n⟩)
  | invoke m argc =>
    exact reads_operand (by decide) rfl
      (operand_append (reads_call h) fun x ↦ .invoke ⟨x.1⟩ x.2)
  | invokeStatic m argc =>
    exact reads_operand (by decide) rfl
      (operand_append (reads_call h) fun x ↦ .invokeStatic ⟨x.1⟩ x.2)
  | construct m argc =>
    exact reads_operand (by decide) rfl
      (operand_append (reads_call h) fun x ↦ .construct ⟨x.1⟩ x.2)
  | arith o kind =>
    have hpair := (reads_binaryOp o).pair (reads_prim kind)
    exact reads_operand (by decide) rfl (operand_append hpair fun x ↦ .arith x.1 x.2)
  | cmp o kind =>
    have hpair := (reads_binaryOp o).pair (reads_prim kind)
    exact reads_operand (by decide) rfl (operand_append hpair fun x ↦ .cmp x.1 x.2)
  | neg kind | box kind | unbox kind | parseNumber kind =>
    exact reads_operand (by decide) rfl (operand_append (reads_prim kind) _)
  | convert source target =>
    have hpair := (reads_prim source).pair (reads_prim target)
    exact reads_operand (by decide) rfl (operand_append hpair fun x ↦ .convert x.1 x.2)
  | jump l | jumpIfFalse l | jumpIfTrue l | jumpIfNull l | jumpIfNonNull l | jumpIfSame l
  | jumpIfZero l => exact reads_operand (by decide) rfl (operand_append (reads_label h) _)
  | tableSwitch low ls l =>
    exact reads_operand (by decide) rfl
      (operand_append (reads_switch h) fun x ↦ .tableSwitch x.1 x.2.1 x.2.2)
  | flagTest mask => exact reads_operand (by decide) rfl (operand_append (reads_word mask) _)
  | flagAssign mask value =>
    have hpair := (reads_word mask).pair (reads_bool value)
    exact reads_operand (by decide) rfl
      (operand_append hpair fun x ↦ .flagAssign x.1 x.2)
  | bitAssign bit value =>
    have hpair := (reads_u32 h).pair (reads_bool value)
    exact reads_operand (by decide) rfl (operand_append hpair fun x ↦ .bitAssign x.1 x.2)
  | counterAdd c delta =>
    have hpair := (reads_u32 h).pair (reads_int32 delta)
    exact reads_operand (by decide) rfl (operand_append hpair fun x ↦ .counterAdd x.1 x.2)

theorem reads_routine {r : Routine} (h : r.Fits) : routine.Reads r := by
  have hops := reads_list h.opCount fun o ho ↦ reads_op (h.ops o ho)
  have hpositions := reads_list h.labelCount fun pc hpc ↦ reads_u64 (h.positions pc hpc)
  apply Reads.imap
  · exact hops.pair hpositions
  · simp

theorem reads_flagLayout {layout : FlagLayout} (h : layout.Fits) : flagLayout.Reads layout := by
  intro rest
  cases layout with
  | word bits =>
    simp only [flagLayout, List.append_assoc]
    rw [reads_u32 (by decide), Option.bind_some]
    simp only [reads_u32 h rest, Option.map_some]
  | words bits count =>
    simp only [flagLayout, List.append_assoc]
    rw [reads_u32 (by decide), Option.bind_some]
    simp only [(reads_u32 h.1).pair (reads_u32 h.2) rest, Option.map_some]

theorem reads_artifact {a : Artifact} (h : a.Fits) : artifact.Reads a := by
  have hsteps := reads_list h.stepCount fun k hk ↦ reads_u32 (h.steps k hk)
  have hcode := (reads_routine h.init).pair ((reads_routine h.update).pair hsteps)
  have hstorage := (reads_flagLayout h.flags).pair ((reads_u32 h.counters).pair hcode)
  apply Reads.imap
  · exact (reads_u32 h.captures).pair ((reads_u32 h.scratch).pair hstorage)
  · rfl

theorem reads_siteImage {i : SiteImage} (h : i.Fits) : siteImage.Reads i := by
  intro rest
  cases i with
  | static name r =>
    simp only [siteImage, List.append_assoc]
    rw [reads_u32 (by decide), Option.bind_some]
    simp only [(reads_string h.1).pair (reads_routine h.2) rest, Option.map_some]
  | dynamic name a =>
    simp only [siteImage, List.append_assoc]
    rw [reads_u32 (by decide), Option.bind_some]
    simp only [(reads_string h.1).pair (reads_artifact h.2) rest, Option.map_some]
  | deferred name source =>
    simp only [siteImage, List.append_assoc]
    rw [reads_u32 (by decide), Option.bind_some]
    simp only [(reads_string h.1).pair (reads_string h.2) rest, Option.map_some]

end Codec

/-- What is stored for the attributes of a unit is read back, one stored form for each attribute and
in their order, whatever bytes follow. -/
theorem decodeSites?_encodeSites {sites : List CompiledSite} {bytes : List UInt8}
    (hencode : encodeSites sites = .ok bytes) (hcount : sites.length < 2 ^ 64)
    (hfits : ∀ s ∈ sites, ∀ i, SiteImage.of s = .ok i → i.Fits) :
    ∃ images, List.Forall₂ (fun s i ↦ SiteImage.of s = .ok i) sites images ∧
      ∀ rest, decodeSites? (bytes ++ rest) = some images := by
  cases himages : sites.mapM SiteImage.of with
  | error e => simp [encodeSites, himages, Except.map] at hencode
  | ok images =>
    have hof := forall₂_of_mapM himages
    have hbytes : (Codec.list Codec.siteImage).encode images = bytes := by
      simpa [encodeSites, himages, Except.map] using hencode
    have hreads : ∀ i ∈ images, Codec.siteImage.Reads i := by
      intro i hi
      obtain ⟨s, hs, hsi⟩ := exists_of_mem_right hof hi
      exact Codec.reads_siteImage (hfits s hs i hsi)
    refine ⟨images, hof, fun rest ↦ ?_⟩
    rw [decodeSites?, ← hbytes, Codec.reads_list (hof.length_eq ▸ hcount) hreads]
    rfl

namespace Sample

/-- A dynamic binding that uses operands of every width. -/
def storedArtifact : Artifact where
  captures := 1
  scratch := 2
  flags := .words 65 2
  counters := 1
  init := ⟨#[.loadLocal 0, .storeCapture 0, .return], #[]⟩
  update := ⟨#[.loadStep, .tableSwitch 1 [⟨0⟩] ⟨1⟩, .pushFloat ⟨0x7fc00001#32⟩, .pushInt (-7),
    .pushLong (-1), .pushChar '\u00e9', .invokeStatic ⟨20⟩ 2, .flagAssign 4 true,
    .counterAdd 0 (-1), .publish, .return], #[2, 9]⟩
  steps := [0, 1]

def storedSites : List CompiledSite :=
  [⟨⟨"${a.n}", some ⟨"text", .str, none, false⟩⟩, .dynamic ⟨.str, storedArtifact⟩⟩,
    ⟨⟨"plain", none⟩, .static ⟨.str, .op (.pushStr "plain")⟩⟩,
    ⟨⟨"${later}", none⟩, .deferred .object⟩]

def storedImages : List SiteImage :=
  [.dynamic "text" storedArtifact,
    .static "plain" ⟨#[.pushStr "plain", .return], #[]⟩, .deferred "${later}" "${later}"]

theorem of_plain : SiteImage.of ⟨⟨"plain", none⟩, .static ⟨.str, .op (.pushStr "plain")⟩⟩ =
    .ok (.static "plain" ⟨#[.pushStr "plain", .return], #[]⟩) := by
  have hroutine : (StaticBinding.mk .str (.op (.pushStr "plain"))).routine =
      .ok ⟨#[.pushStr "plain", .return], #[]⟩ := by
    simp [StaticBinding.routine, Assembler.assemble, Assembler.finish, Except.mapError,
      Assembler.emit, Assembler.emitAll, Assembler.empty, Fragment.emit, Fragment.op]
  simp only [SiteImage.of, hroutine]
  rfl

theorem fits_storedArtifact : storedArtifact.Fits where
  captures := by decide
  scratch := by decide
  flags := ⟨by decide, by decide⟩
  counters := by decide
  init := ⟨by simp [storedArtifact, Op.Fits], by simp [storedArtifact], by decide, by decide⟩
  update := by
    refine ⟨?_, by simp [storedArtifact], by decide, by decide⟩
    simp [storedArtifact, Op.Fits, Label.Fits, MethodId.Fits]
  steps := by decide
  stepCount := by decide

end Sample

open Sample in
/-- A dynamic binding, a static one and one that waits for a name. -/
theorem decodeSites?_encodeSites_stored :
    ∃ bytes, encodeSites storedSites = .ok bytes ∧
      (∀ s ∈ storedSites, ∀ i, SiteImage.of s = .ok i → i.Fits) ∧
      ∀ rest, decodeSites? (bytes ++ rest) = some storedImages := by
  have hencode : encodeSites storedSites =
      .ok ((Codec.list Codec.siteImage).encode storedImages) := by
    simp only [encodeSites, storedSites, List.mapM_cons, List.mapM_nil, of_plain]
    rfl
  have hfits : ∀ s ∈ storedSites, ∀ i, SiteImage.of s = .ok i → i.Fits := by
    intro s hs i hi
    simp only [storedSites, List.mem_cons, List.not_mem_nil, or_false] at hs
    rcases hs with rfl | rfl | rfl
    · cases hi
      exact ⟨by rw [TextFits]; decide, fits_storedArtifact⟩
    · rw [of_plain] at hi
      cases hi
      have htext : TextFits "plain" := by rw [TextFits]; decide
      exact ⟨htext, by simp [Op.Fits, htext], by simp, by decide, by decide⟩
    · cases hi
      exact ⟨by rw [TextFits]; decide, by rw [TextFits]; decide⟩
  refine ⟨_, hencode, hfits, ?_⟩
  obtain ⟨images, hof, hread⟩ := decodeSites?_encodeSites hencode (by decide) hfits
  obtain _ | ⟨hdynamic, _ | ⟨hstatic, _ | ⟨hdeferred, _ | _⟩⟩⟩ := hof
  rw [of_plain] at hstatic
  cases hdynamic
  cases hstatic
  cases hdeferred
  exact hread

end LiveBinding
