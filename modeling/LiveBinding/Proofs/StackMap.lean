import LiveBinding.Proofs.Depths
import LiveBinding.Proofs.Destination

namespace LiveBinding

open Routine

theorem Routine.shows_getD (before ds : List Nat) :
    Shows (fun pc ↦ (before ++ ds).getD pc 0) before.length ds := by
  induction ds generalizing before with
  | nil => trivial
  | cons d ds ih =>
    have h := ih (before ++ [d])
    rw [List.append_assoc, List.length_append] at h
    exact ⟨by simp, h⟩

namespace Container

open Assembler

variable {a b : Assembler} {R : Routine} {layout : FlagLayout} {fault : Label} {tables : List Label}
variable {depth : Nat → Nat}

/-- The depths in front of the instructions of a table. -/
def tableDepths (c : Container) : List Nat := if c.flag.isSome then [0, 1, 0, 1] else [0, 1]

theorem length_tableDepths (layout : FlagLayout) (fault : Label) (tables : List Label)
    (a : Assembler) (c : Container) :
    a.ops.size + c.tableDepths.length = (emitTable layout fault tables a c).ops.size := by
  rw [size_emitTable, tableDepths]
  split <;> simp_all

theorem depth_tables (h : Assembles b R) {cs : List Container}
    (hc : Continues (cs.foldl (emitTable layout fault tables) a) b)
    (hs : Shows depth a.ops.size (cs.flatMap tableDepths)) {c : Container} (hcc : c ∈ cs)
    (hf : c.flag.isSome) : depth (R.target (tables.getD (c.index - 1) fault)) = 0 := by
  induction cs generalizing a with
  | nil => cases hcc
  | cons d cs ih =>
    rw [List.flatMap_cons, shows_append, length_tableDepths layout fault tables] at hs
    rcases List.mem_cons.mp hcc with rfl | hcc
    · obtain ⟨flag, hflag⟩ := Option.isSome_iff_exists.mp hf
      have ht := tableAt_emit h c ((continues_tables ..).trans hc) (Nat.le_refl _)
      rw [(ht.guard flag hflag).1]
      rw [tableDepths, if_pos hf] at hs
      exact hs.1.1
    · exact ih hc hs.2 hcc

/-- A table is left with the empty stack. -/
theorem levels_table (h : Assembles b R) (c : Container)
    (hc : Continues (emitTable layout fault tables a c) b)
    (hs : Shows depth a.ops.size c.tableDepths) (hexit : depth (b.keyTarget R .exit) = 0)
    (hfault : depth (R.target fault) = 0)
    (hentries : ∀ e ∈ c.entries, depth (entryTarget b R fault tables e) = 0) :
    R.LevelsIn depth a.ops.size (emitTable layout fault tables a c).ops.size := by
  have ht := tableAt_emit h c hc (Nat.le_refl _)
  obtain ⟨targets, htargets, hholds⟩ := ht.body
  have hswitch (i : Nat) (h₀ : depth i = 0) (h₁ : depth (i + 1) = 1) :
      R.Follows depth i [.loadStep, .tableSwitch c.offset targets fault] := by
    refine ⟨?_, ⟨h₁.ge, nofun, fun l hl ↦ ?_, nofun⟩, trivial⟩
    · simp [levels_iff, Op.targets, Op.after, h₀, h₁]
    · have hl' : depth (R.target l) = 0 := by
        rcases List.mem_append.mp hl with hl | hl
        · obtain ⟨e, he, heq⟩ := List.mem_map.mp (htargets ▸ List.mem_map_of_mem hl)
          exact heq ▸ hentries e he
        · exact List.mem_singleton.mp hl ▸ hfault
      rw [hl', h₁]
      rfl
  cases hf : c.flag with
  | none =>
    simp only [tableDepths, hf, Option.isSome_none] at hs hholds
    refine hholds.levels (hswitch _ hs.1 hs.2.1) ?_
    rw [size_emitTable, hf]
    rfl
  | some flag =>
    simp only [tableDepths, hf, Option.isSome_some, if_true] at hs hholds
    obtain ⟨-, exit, hto, hops⟩ := ht.guard flag hf
    have hguard : R.LevelsIn depth a.ops.size (a.ops.size + 2) := by
      refine hops.levels ⟨Fragment.levels_test hs.1 hs.2.1, ?_, trivial⟩ rfl
      simp [levels_iff, Op.targets, Op.after, hs.2.1, hs.2.2.1, hto, hexit]
    refine hguard.trans (hholds.levels (hswitch _ hs.2.2.1 hs.2.2.2.1) ?_)
    rw [size_emitTable, hf]
    rfl

theorem length_tables (layout : FlagLayout) (fault : Label) (tables : List Label)
    (cs : List Container) (a : Assembler) :
    a.ops.size + (cs.flatMap tableDepths).length =
      (cs.foldl (emitTable layout fault tables) a).ops.size := by
  induction cs generalizing a with
  | nil => rfl
  | cons c cs ih =>
    rw [List.flatMap_cons, List.length_append, ← Nat.add_assoc,
      length_tableDepths layout fault tables, ih]
    rfl

theorem length_dispatch (layout : FlagLayout) (root : Container) (a : Assembler) :
    a.ops.size + (root.all.flatMap tableDepths ++ [0]).length =
      (root.emitDispatch layout a).ops.size := by
  let labels := newLabels a.newLabel.2 (root.all.length - 1)
  have htables := length_tables layout a.newLabel.1 labels.1 root.all labels.2
  have hops : labels.2.ops = a.ops := ops_newLabels _ _
  rw [hops] at htables
  show _ = (((root.all.foldl (emitTable layout a.newLabel.1 labels.1) labels.2).place
    a.newLabel.1).emit (.fault "dispatch step out of range")).ops.size
  rw [size_emit, ops_place, ← htables, List.length_append, List.length_singleton]
  omega

theorem levels_tables (h : Assembles b R) {cs : List Container}
    (hc : Continues (cs.foldl (emitTable layout fault tables) a) b)
    (hs : Shows depth a.ops.size (cs.flatMap tableDepths))
    (hexit : depth (b.keyTarget R .exit) = 0) (hfault : depth (R.target fault) = 0)
    (hentries : ∀ c ∈ cs, ∀ e ∈ c.entries, depth (entryTarget b R fault tables e) = 0) :
    R.LevelsIn depth a.ops.size (cs.foldl (emitTable layout fault tables) a).ops.size := by
  induction cs generalizing a with
  | nil => exact .refl
  | cons c cs ih =>
    rw [List.forall_mem_cons] at hentries
    rw [List.flatMap_cons, shows_append, length_tableDepths layout fault tables] at hs
    exact (levels_table h c ((continues_tables ..).trans hc) hs.1 hexit hfault hentries.1).trans
      (ih hc hs.2 hentries.2)

end Container

open Assembler Container

namespace Fragment

variable {f : Fragment} {R : Routine} {depth : Nat → Nat}

/-- Dispatch fits the depths that its tables show if the steps and the exit are at depth 0. -/
theorem levels_dispatch {a b : Assembler} {layout : FlagLayout} {stop : Nat} (h : Assembles b R)
    (hc : Continues (emitDispatch (.mk 0 none 0 stop f.own (f.containers 1 1)) layout a) b)
    (hs : Shows depth a.ops.size
      ((Container.mk 0 none 0 stop f.own (f.containers 1 1)).all.flatMap tableDepths ++ [0]))
    (hexit : depth (b.keyTarget R .exit) = 0)
    (hresume : ∀ k, k = 0 ∨ k ∈ f.steps → depth (b.keyTarget R (.step k)) = 0) :
    R.LevelsIn depth a.ops.size
      (emitDispatch (.mk 0 none 0 stop f.own (f.containers 1 1)) layout a).ops.size := by
  obtain ⟨fault, tables, a', ha, htables, hend, hfault, hsize⟩ := dispatch_parts h hc
  let root : Container := .mk 0 none 0 stop f.own (f.containers 1 1)
  have hlength := length_tables layout fault tables root.all a'
  rw [ha] at hlength
  rw [shows_append, hlength.trans hend] at hs
  have hzero : depth (R.target fault) = 0 := hs.2.1
  have hrun := levels_tables h htables (ha.symm ▸ hs.1) hexit hzero fun c hcc e he ↦ by
    cases e with
    | resume k => exact hresume k (mem_steps_of_resume hcc he)
    | gap => exact hzero
    | child n =>
      obtain ⟨d, hd, rfl⟩ := exists_child he
      rw [entryTarget]
      split
      · exact hzero
      · next hne =>
        have hmem := child_mem_all hcc hd
        refine depth_tables h htables (ha.symm ▸ hs.1) hmem <|
          (index_containers f 1 1).2 d ((List.mem_cons.mp hmem).resolve_left ?_)
        rintro rfl
        exact hne rfl
  rw [ha, hend] at hrun
  rw [hsize]
  refine hrun.trans (hfault.levels ⟨?_, trivial⟩ rfl)
  simp [levels_iff, Op.isTerminator, Op.targets]

end Fragment

namespace Compiles

variable {body coercion : Fragment} {t : Resumable} {layout : FlagLayout} {artifact : Artifact}

open CompileContext Fragment

/-- The update routine of balanced code keeps to one depth at every position. -/
theorem exists_stackMap (h : Compiles body coercion t layout artifact) {fault middle stop : Nat}
    (hp : Positions body coercion t layout (updateRoutine t layout body coercion) artifact.update
      fault middle stop)
    (hb : body.WellStacked 0) (hb' : body.leaves 0 = 1) (hc : coercion.WellStacked 1)
    (hc' : coercion.leaves 1 = 1) :
    let b := updateRoutine t layout body coercion
    let R := artifact.update
    let at_ := fun k ↦ b.keyTarget R (.step k)
    ∃ depth, R.StackMap depth ∧ (∀ k, k = 0 ∨ k ∈ body.steps → depth (at_ k) = 0) ∧
      depth (b.keyTarget R .exit) = 0 ∧ body.Meets R depth at_ (some layout) (fault + 1) middle ∧
      coercion.Meets R depth at_ (some layout) middle stop := by
  intro b R at_
  let depths := [0] ++ ((t.root.all.flatMap tableDepths ++ [0]) ++ (body.depths 0 ++
    (coercion.depths 1 ++ [1, 0, 0])))
  have hs : Shows (depths.getD · 0) 0 depths := shows_getD [] depths
  generalize (depths.getD · 0) = depth at hs
  obtain ⟨⟨hzero, -⟩, hs⟩ := shows_append.mp hs
  obtain ⟨htables, hs⟩ := shows_append.mp hs
  obtain ⟨hbody, hs⟩ := shows_append.mp hs
  obtain ⟨hcoercion, hpublish, hrelease, hreturn, -⟩ := shows_append.mp hs
  have hdispatch := (length_dispatch layout t.root (Assembler.empty.emit .lockAcquire)).trans
    hp.dispatchEnd
  simp only [List.length_singleton, Nat.zero_add] at htables hbody hcoercion hpublish hrelease hreturn
  change 1 + _ = fault + 1 at hdispatch
  rw [hdispatch] at hbody hcoercion hpublish hrelease hreturn
  rw [hp.bodyAt.length_depths] at hcoercion hpublish hrelease hreturn
  rw [hp.coercionAt.length_depths] at hpublish hrelease hreturn
  have hmiddle : depth middle = 1 :=
    depth_start hc hcoercion (by rw [hp.coercionAt.length_depths, hpublish, hc'])
  have hstart : depth (fault + 1) = 0 :=
    depth_start hb hbody (by rw [hp.bodyAt.length_depths, hmiddle, hb'])
  have hexit : depth (b.keyTarget R .exit) = 0 := by rw [hp.exitAt, hrelease]
  have hbodyMap := hp.bodyAt.mapped h.renders.ordinary hb hbody (hmiddle.trans hb'.symm)
  have hcoercionMap := hp.coercionAt.mapped (Layout.plain t h.plain).ordinary hc hcoercion
    (hpublish.trans hc'.symm)
  have hresume (k : Nat) (hk : k = 0 ∨ k ∈ body.steps) : depth (at_ k) = 0 := by
    rcases hk with rfl | hk
    · exact (congrArg depth hp.startAt).trans hstart
    · exact hbodyMap.resumes k hk
  refine ⟨depth, ⟨hzero, ?_⟩, hresume, hexit, hbodyMap.meets, hcoercionMap.meets⟩
  have hlock : R.LevelsIn depth 0 1 := by
    have hfirst : depth 1 = 0 := htables.1
    intro pc op _ hlt hop
    obtain rfl : pc = 0 := by omega
    rw [hp.lockAt] at hop
    cases hop
    simp [levels_iff, Op.targets, Op.after, hzero, hfirst]
  have htablesFit : R.LevelsIn depth 1 (fault + 1) := by
    have hat := hp.dispatchAt
    have hend := hp.dispatchEnd
    rw [h.root_eq] at hat hend htables
    have hrun := levels_dispatch h.update hat htables hexit hresume
    rwa [hend] at hrun
  have hend : R.LevelsIn depth stop (stop + 3) := hp.publishAt.levels (by
    simp [levels_iff, Op.targets, Op.after, Op.isTerminator, hpublish, hrelease, hreturn]) rfl
  have hall := hlock.trans <| htablesFit.trans <| hbodyMap.levels.trans <|
    hcoercionMap.levels.trans hend
  intro pc op hop
  refine hall pc op (Nat.zero_le pc) ?_ hop
  rw [← hp.size_eq]
  exact (Array.getElem?_eq_some_iff.mp hop).1

end Compiles

end LiveBinding
