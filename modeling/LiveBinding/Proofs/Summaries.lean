import LiveBinding.Proofs.FirstValue
import LiveBinding.Proofs.Locks
import LiveBinding.Proofs.Numbering
import LiveBinding.Proofs.Order

namespace LiveBinding

namespace Node

namespace Part

/-- The part reads a property that can be listened to. -/
def isObserved : Part → Bool
  | member _ (.property p) => p.flags.observable
  | _ => false

/-- The part reads a name that has no value yet. -/
def isPending : Part → Bool
  | node (.scopeRead _ (.pending _)) => true
  | _ => false

theorem isPending_iff {p : Part} :
    p.isPending ↔ ∃ info ty, p = node (.scopeRead info (.pending ty)) := by
  constructor
  · intro h
    unfold isPending at h
    split at h
    · exact ⟨_, _, rfl⟩
    · cases h
  · rintro ⟨info, ty, rfl⟩
    rfl

end Part

/-- What is known of a node is true of its parts. -/
structure Exact (n : Node) : Prop where
  monitoring : n.monitoring = (n.parts true).countP Part.isObserved
  evaluable : n.info.evaluable = false ↔
    ∃ info ty, Part.node (.scopeRead info (.pending ty)) ∈ n.parts true

/-- What some parts come to: how many observable properties they read, and that they read no pending
name. -/
structure Sums (ps : List Part) (reads : Nat) (evaluable : Bool) : Prop where
  reads : ps.countP Part.isObserved = reads
  evaluable : ps.all (!·.isPending) = evaluable

namespace Sums

variable {ps qs : List Part} {k l : Nat} {e d : Bool}

theorem nil : Sums [] 0 true := ⟨rfl, rfl⟩

theorem append (h : Sums ps k e) (h' : Sums qs l d) : Sums (ps ++ qs) (k + l) (e && d) where
  reads := by rw [List.countP_append, h.reads, h'.reads]
  evaluable := by rw [List.all_append, h.evaluable, h'.evaluable]

/-- A part that reads nothing itself. -/
theorem own (h : Sums ps k e) {p : Part} (ho : p.isObserved = false) (hp : p.isPending = false) :
    Sums (ps ++ [p]) k e := by
  have hown : Sums [p] 0 true := ⟨by simp [ho], by simp [hp]⟩
  simpa using h.append hown

theorem exact {n : Node} (h : Sums (n.parts true) n.monitoring n.info.evaluable) : n.Exact where
  monitoring := h.reads.symm
  evaluable := by
    rw [← h.evaluable]
    simp only [List.all_eq_false, Bool.not_eq_true', Bool.not_eq_false, Part.isPending_iff]
    constructor
    · rintro ⟨p, hp, info, ty, rfl⟩
      exact ⟨info, ty, hp⟩
    · rintro ⟨info, ty, hp⟩
      exact ⟨_, hp, info, ty, rfl⟩

end Sums

variable {cx : BuildContext}

mutual

/-- The facts of a node are those of its parts put together. -/
theorem sums (whole : Bool) : (n : Node) → n.Resolved cx →
    Sums (n.parts whole) n.monitoring n.info.evaluable
  | literal info value, h => by
    have hf : info.facts = .fixed (.ofLiteral value) := h
    obtain ⟨-, hm, he⟩ := Facts.mk.inj hf
    exact ⟨hm.symm, he.symm⟩
  | scopeRead info entry, h => by
    obtain ⟨-, hm, he⟩ := Facts.mk.inj h.2
    refine ⟨hm.symm, he.symm ▸ ?_⟩
    cases entry <;> rfl
  | typeRef info owner, h => by
    have hf : info.facts = .fixed owner := h
    obtain ⟨-, hm, he⟩ := Facts.mk.inj hf
    exact ⟨hm.symm, he.symm⟩
  | access info receiver member, h => by
    obtain ⟨⟨-, hm, he⟩, hr, hmember⟩ := h
    have hboth := (sums false receiver hr).append (memberSums info member hmember)
    rw [← hm, ← he, ← List.append_assoc] at hboth
    rw [parts]
    show Sums _ info.monitoring info.evaluable
    cases whole with
    | false => simpa using hboth
    | true => exact hboth.own rfl rfl
  | construct info m args, h => by
    obtain ⟨⟨-, -, hf⟩, ha⟩ := h
    obtain ⟨-, hm, he⟩ := Facts.mk.inj hf
    rw [parts]
    show Sums _ info.monitoring info.evaluable
    rw [hm, he]
    exact (argSums args ha).own rfl rfl
  | binary info op (.mk left c) (.mk right c') plan, h => by
    obtain ⟨⟨-, hm, he⟩, hl, hr⟩ := h
    rw [parts]
    show Sums _ info.monitoring info.evaluable
    rw [hm, he]
    exact ((sums true left hl).append (sums true right hr)).own rfl rfl
  | unary info op (.mk operand c) kind, h => by
    obtain ⟨⟨hm, he, -⟩, ho⟩ := h
    rw [parts]
    show Sums _ info.monitoring info.evaluable
    rw [hm, he]
    exact (sums true operand ho).own rfl rfl

theorem memberSums (info : NodeInfo) : (m : Member) → memberForall (Fits cx) m →
    Sums (memberParts m ++ [.member info m]) (memberReads m) (memberEvaluable m)
  | .property p, _ => by
    refine ⟨?_, rfl⟩
    cases hp : p.flags.observable <;> simp [memberParts, memberReads, Part.isObserved, hp]
  | .staticField _, _ => Sums.nil.own rfl rfl
  | .method _ args, h | .staticCall _ args, h => (argSums args h).own rfl rfl
  | .index (.mk node _) _, h => (sums true node h).own rfl rfl

theorem argSums : (args : List Arg) → argsForall (Fits cx) args →
    Sums (argParts args) (argReads args) (argsEvaluable args)
  | [], _ => .nil
  | .mk node _ :: rest, h => (sums true node h.1).append (argSums rest h.2)

end

section

variable {P Q : Node → Prop}

mutual

/-- What follows for a node from a property of all its nodes follows for each of them. -/
theorem Forall.each (hpq : ∀ n, Forall P n → Q n) : (n : Node) → n.Forall P → n.Forall Q
  | literal .., h | scopeRead .., h | typeRef .., h => hpq _ h
  | access _ receiver member, h =>
    ⟨hpq _ h, Forall.each hpq receiver h.2.1, memberEach hpq member h.2.2⟩
  | construct _ _ args, h => ⟨hpq _ h, argsEach hpq args h.2⟩
  | binary _ _ (.mk left _) (.mk right _) _, h =>
    ⟨hpq _ h, Forall.each hpq left h.2.1, Forall.each hpq right h.2.2⟩
  | unary _ _ (.mk operand _) _, h => ⟨hpq _ h, Forall.each hpq operand h.2⟩

theorem memberEach (hpq : ∀ n, Forall P n → Q n) :
    (m : Member) → memberForall P m → memberForall Q m
  | .property _, _ | .staticField _, _ => trivial
  | .method _ args, h | .staticCall _ args, h => argsEach hpq args h
  | .index (.mk node _) _, h => Forall.each hpq node h

theorem argsEach (hpq : ∀ n, Forall P n → Q n) :
    (args : List Arg) → argsForall P args → argsForall Q args
  | [], _ => trivial
  | .mk node _ :: rest, h => ⟨Forall.each hpq node h.1, argsEach hpq rest h.2⟩

end

end

theorem forall_exact {n : Node} (h : n.Resolved cx) : n.Forall Exact :=
  Forall.each (fun m hm ↦ (sums true m hm).exact) n h

end Node

/-- The step whose listener an instruction attaches. -/
def Op.subscription? : Op → Option Nat
  | .subscribe step => some step
  | _ => none

/-- The steps whose listeners a routine attaches, in the order of its instructions. -/
def Routine.subscriptions (R : Routine) : List Nat := R.ops.toList.filterMap Op.subscription?

namespace Assembler

theorem ops_emitAll (a : Assembler) (ops : List Op) :
    (a.emitAll ops).ops.toList = a.ops.toList ++ ops := by
  induction ops generalizing a with
  | nil => exact (List.append_nil _).symm
  | cons op ops ih =>
    show ((a.emit op).emitAll ops).ops.toList = _
    rw [ih, emit, Array.toList_push, List.append_assoc]
    rfl

/-- The code between two assemblers attaches the listeners of some steps, in their order. -/
def Attaches (ks : List Nat) (a b : Assembler) : Prop :=
  b.ops.toList.filterMap Op.subscription? = a.ops.toList.filterMap Op.subscription? ++ ks

namespace Attaches

variable {ks ls : List Nat} {a b c : Assembler}

theorem refl (a : Assembler) : Attaches [] a a := (List.append_nil _).symm

theorem trans (h : Attaches ks a b) (h' : Attaches ls b c) : Attaches (ks ++ ls) a c := by
  unfold Attaches at *
  rw [h', h, List.append_assoc]

theorem ofEq (h : Attaches ks a b) (hc : c.ops = b.ops) : Attaches ks a c := by
  unfold Attaches
  rw [hc, h]

theorem emitAll (h : Attaches ks a b) (ops : List Op) :
    Attaches (ks ++ ops.filterMap Op.subscription?) a (b.emitAll ops) := by
  unfold Attaches at *
  rw [ops_emitAll, List.filterMap_append, h, List.append_assoc]

theorem silent (h : Attaches ks a b) (ops : List Op) (hops : ops.filterMap Op.subscription? = []) :
    Attaches ks a (b.emitAll ops) := by
  simpa [hops] using h.emitAll ops

theorem emit (h : Attaches ks a b) (op : Op) (hop : op.subscription? = none) :
    Attaches ks a (b.emit op) :=
  h.silent [op] (by simp [hop])

theorem newLabel (h : Attaches ks a b) : Attaches ks a b.newLabel.2 := h.ofEq rfl

theorem keyedLabel (h : Attaches ks a b) (key : LabelKey) : Attaches ks a (b.keyedLabel key).2 :=
  h.ofEq (ops_keyedLabel b key)

theorem place (h : Attaches ks a b) (l : Label) : Attaches ks a (b.place l) := h.ofEq (ops_place b l)

theorem placeKey (h : Attaches ks a b) (key : LabelKey) : Attaches ks a (b.placeKey key) :=
  h.ofEq (ops_placeKey b key)

end Attaches

end Assembler

namespace Fragment

open Assembler

variable {ks : List Nat} {a b : Assembler}

theorem subscriptions_adjust (counters : List Nat) (delta : Int32) :
    (adjust counters delta).filterMap Op.subscription? = [] := by
  simp [adjust, Op.subscription?]

theorem subscriptions_skipTest (op : BinaryOp) (l : Label) :
    [Op.dup, skipJump op l, .pop].filterMap Op.subscription? = [] := by
  unfold skipJump
  split <;> rfl

theorem attaches_emitDetach (h : Attaches ks a b) (p : SavePoint) : Attaches ks a (emitDetach b p) := by
  have hcode := (h.newLabel.newLabel.silent [.loadScratch p.handle, .dup,
    .jumpIfNull b.newLabel.1, .unsubscribe p.step, .pushNull, .storeScratch p.handle] rfl).silent _
    (subscriptions_adjust p.counters (-1))
  exact (((hcode.emit (.jump b.newLabel.2.newLabel.1) rfl).place b.newLabel.1).emit
    .pop rfl).place b.newLabel.2.newLabel.1

theorem attaches_emitDetaches (h : Attaches ks a b) (points : List SavePoint) :
    Attaches ks a (points.foldl emitDetach b) := by
  induction points generalizing b with
  | nil => exact h
  | cons p points ih => exact ih (attaches_emitDetach h p)

/-- A property is listened to at its point only. -/
theorem attaches_emitObserve (property : String) (p : SavePoint) (a : Assembler) :
    Attaches [p.step] a (emitObserve property p a) := by
  have hread := ((Attaches.refl a).newLabel.newLabel.newLabel.silent [.getObservable property,
    .dup, .loadScratch p.handle, .jumpIfSame a.newLabel.1, .loadScratch p.handle, .dup,
    .jumpIfNull a.newLabel.2.newLabel.1, .unsubscribe p.step] rfl).silent _
    (subscriptions_adjust p.counters (-1))
  have hmove := ((hread.emit (.jump a.newLabel.2.newLabel.2.newLabel.1) rfl).place
    a.newLabel.2.newLabel.1).emit .pop rfl
  have hattach := ((hmove.place a.newLabel.2.newLabel.2.newLabel.1).emitAll
    [.storeScratch p.handle, .loadScratch p.handle, .subscribe p.step]).silent _
    (subscriptions_adjust p.counters 1)
  have hresume (l : Label) := (((hattach.keyedLabel (.step p.step)).emit (.jump l) rfl).place
    a.newLabel.1).emit .pop rfl
  exact ((hresume _).placeKey (.step p.step)).silent [.loadScratch p.handle, .observableValue] rfl

/-- The code of a fragment attaches the listeners of its points, each once. -/
theorem attaches_emit (layout : Option FlagLayout) {f : Fragment} (hf : f.isOrdinary) (a : Assembler) :
    Attaches f.steps a (f.emit layout a) := by
  induction f generalizing a with
  | ops list =>
    have hnone : list.filterMap Op.subscription? = [] := by
      rw [List.filterMap_eq_nil_iff]
      intro op hop
      have hordinary := List.all_eq_true.mp hf op hop
      cases op <;> first | rfl | cases hordinary
    exact (Attaches.refl a).silent list hnone
  | append f g ih ih' =>
    simp only [isOrdinary, Bool.and_eq_true] at hf
    rw [steps_append]
    exact (ih hf.1 a).trans (ih' hf.2 _)
  | nullGuard f g ih ih' =>
    simp only [isOrdinary, Bool.and_eq_true] at hf
    have htest := (Attaches.refl a).newLabel.newLabel.silent [.dup, .jumpIfNull a.newLabel.1] rfl
    have hjump := (((htest.trans (ih hf.1 _)).emit (.jump a.newLabel.2.newLabel.1) rfl).place
      a.newLabel.1).emit .pop rfl
    rw [steps_nullGuard]
    exact (hjump.trans (ih' hf.2 _)).place a.newLabel.2.newLabel.1
  | shortCircuit op f g ih ih' =>
    simp only [isOrdinary, Bool.and_eq_true] at hf
    have hleft := ((Attaches.refl a).newLabel.trans (ih hf.1 _)).silent _
      (subscriptions_skipTest op a.newLabel.1)
    rw [steps_shortCircuit]
    exact (hleft.trans (ih' hf.2 _)).place a.newLabel.1
  | flagTest flag =>
    refine (Attaches.refl a).emit _ ?_
    cases layoutFor layout flag <;> rfl
  | flagAssign flag value =>
    refine (Attaches.refl a).emit _ ?_
    cases layoutFor layout flag <;> rfl
  | observe property p => exact attaches_emitObserve property p a
  | branch op f g flag counter points ih ih' =>
    simp only [isOrdinary, Bool.and_eq_true] at hf
    have hassign (value : Bool) : ((layoutFor layout flag).assign flag value).subscription? = none := by
      cases layoutFor layout flag <;> rfl
    have hleft := (((Attaches.refl a).newLabel.newLabel.trans (ih hf.1 _)).silent _
      (subscriptions_skipTest op a.newLabel.1)).emit _ (hassign true)
    have htest := (((((hleft.trans (ih' hf.2 _)).emit (.jump a.newLabel.2.newLabel.1) rfl).place
      a.newLabel.1).emit _ (hassign false)).silent
      [.counterLoad counter, .jumpIfZero a.newLabel.2.newLabel.1] rfl)
    rw [steps_branch]
    exact (attaches_emitDetaches htest points).place a.newLabel.2.newLabel.1

end Fragment

namespace Container

open Assembler

variable {ks : List Nat} {a b : Assembler}

/-- A table only jumps. -/
theorem attaches_emitTable (layout : FlagLayout) (fault : Label) (tables : List Label) (c : Container)
    (h : Attaches ks a b) : Attaches ks a (emitTable layout fault tables b c) := by
  have htargets {b : Assembler} (h : Attaches ks a b) :=
    (h.ofEq (ops_entryLabels fault tables c.entries b)).silent
      [.loadStep, .tableSwitch c.offset (entryLabels fault tables b c.entries).1 fault] rfl
  unfold emitTable
  cases c.flag with
  | none => exact htargets h
  | some flag =>
    have htest : (layout.test flag).subscription? = none := by cases layout <;> rfl
    exact htargets ((((h.place _).emit _ htest).keyedLabel .exit).emit (.jumpIfFalse _) rfl)

theorem attaches_emitDispatch (root : Container) (layout : FlagLayout) (h : Attaches ks a b) :
    Attaches ks a (root.emitDispatch layout b) := by
  have htables (fault : Label) (tables : List Label) (cs : List Container) {b : Assembler}
      (h : Attaches ks a b) : Attaches ks a (cs.foldl (emitTable layout fault tables) b) := by
    induction cs generalizing b with
    | nil => exact h
    | cons c cs ih => exact ih (attaches_emitTable layout fault tables c h)
  have hlabels := h.newLabel.ofEq (ops_newLabels (root.all.length - 1) b.newLabel.2)
  exact ((htables _ _ root.all hlabels).place _).emit _ rfl

end Container

/-- The update routine attaches the listener of every point in one place. -/
theorem Compiles.subscriptions_eq {body coercion : Fragment} {t : Resumable} {layout : FlagLayout}
    {artifact : Artifact} (h : Compiles body coercion t layout artifact) :
    artifact.update.subscriptions = body.steps := by
  have hdispatch := Container.attaches_emitDispatch t.root layout
    ((Assembler.Attaches.refl .empty).emit .lockAcquire rfl)
  have hbody := (hdispatch.placeKey (.step 0)).trans
    (Fragment.attaches_emit layout h.renders.ordinary _)
  have hcoercion := hbody.trans
    (Fragment.attaches_emit layout (Layout.plain .start h.plain).ordinary _)
  have hend := ((hcoercion.emit .publish rfl).placeKey .exit).silent [.lockRelease, .return] rfl
  rw [h.update.routine_eq, Routine.subscriptions]
  refine Eq.trans hend ?_
  simp [Fragment.steps_of_isPlain h.plain, Assembler.empty]

/-- What a tree knows of its nodes is exact: how many observable properties are read in each, every
part counted once, and whether a pending name is read. Compiled, the tree has a step for each of
these properties behind step 0, and its update routine listens to each in one place. -/
theorem CompileContext.summaries_exact {cx : CompileContext} {scope : Scope} {parsed : ParsedExpr}
    {tree : Tree} (h : cx.buildTree scope parsed = .ok tree) :
    tree.root.ids.Pairwise (· < ·) ∧ tree.root.Forall Node.Exact ∧
      ∀ (cx' : CompileContext) (target : Option BindingTarget) (b : DynamicBinding),
        cx'.compileArtifact tree target = .ok b →
          b.artifact.steps = List.range (tree.root.monitoring + 1) ∧
          b.artifact.update.subscriptions = List.range' 1 tree.root.monitoring := by
  have hroot := (Tree.build_resolved h).1
  refine ⟨(Tree.build_numbered h).ordered, Node.forall_exact hroot, fun cx' target b hb ↦ ?_⟩
  obtain ⟨coercion, -, -, hc⟩ := compileArtifact_eq hb (Node.Resolved.isPlain _ hroot)
  have hlength := Node.length_points tree.root hroot .start
  have hsteps := hc.steps_eq
  rw [hlength] at hsteps
  constructor
  · rw [hc.artifactSteps_eq, ← Fragment.steps, hsteps, List.range_eq_range', List.range'_succ]
  · rw [hc.subscriptions_eq, hsteps]

open Sample in
/-- The left operand of a conjunction has no value yet, the right one listens to a property. -/
theorem summaries_exact_pending :
    let tree := treeOf context (scope.declarePending "y" .boolean) lockingConjunction
    context.buildTree (scope.declarePending "y" .boolean) lockingConjunction = .ok tree ∧
      tree.root.ids = [0, 1, 2, 3, 4] ∧ tree.root.Forall Node.Exact ∧
      tree.root.monitoring = 1 ∧ tree.root.info.evaluable = false ∧
      (bindingOf context tree).artifact.update.subscriptions = [1] := by
  intro tree
  have htree : context.buildTree (scope.declarePending "y" .boolean) lockingConjunction = .ok tree :=
    treeOf_eq (by decide +kernel)
  obtain ⟨-, hexact, hcompiled⟩ := CompileContext.summaries_exact htree
  have hmonitoring : tree.root.monitoring = 1 := by decide +kernel
  have hb := hcompiled context none (bindingOf context tree) (bindingOf_eq (by decide +kernel))
  refine ⟨htree, by decide +kernel, hexact, hmonitoring, by decide +kernel, ?_⟩
  rw [hb.2, hmonitoring]
  rfl

end LiveBinding
