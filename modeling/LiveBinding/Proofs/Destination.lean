import LiveBinding.Proofs.Forward

namespace LiveBinding

namespace Fragment

open Container

variable {f : Fragment} {index step k : Nat} {isSet : Nat → Bool}

theorem allOf_range {c : Container} (h : c ∈ allOf (f.containers index step)) :
    step ≤ c.offset ∧ c.stop ≤ step + f.points.length := by
  induction f generalizing index step with
  | ops | flagTest | flagAssign | observe => simp [containers, allOf] at h
  | append f g ih ih' | nullGuard f g ih ih' | shortCircuit op f g ih ih' =>
    simp only [containers, allOf_append, List.mem_append] at h
    simp only [points, List.length_append]
    rcases h with h | h
    · have := ih h; omega
    · have := ih' h; omega
  | branch op f g flag counter ps ih ih' =>
    simp only [containers, allOf_append, List.mem_append, allOf, all, List.append_nil,
      List.mem_cons] at h
    simp only [points, List.length_append]
    rcases h with h | rfl | h
    · have := ih h; omega
    · simp only [Container.offset, Container.stop]; omega
    · have := ih' h; omega

/-- The flags of all containers that a step lies in are set. -/
def Enclosed (isSet : Nat → Bool) (k : Nat) (cs : List Container) : Prop :=
  ∀ c ∈ cs, c.contains k → ∀ flag ∈ c.flag, isSet flag

theorem enclosed_append {cs ds : List Container} :
    Enclosed isSet k (cs ++ ds) ↔ Enclosed isSet k cs ∧ Enclosed isSet k ds := by
  simp [Enclosed, or_imp, forall_and]

theorem enclosed_outside (h : k < step ∨ step + f.points.length ≤ k) :
    Enclosed isSet k (allOf (f.containers index step)) := by
  intro c hc hk
  have := allOf_range hc
  rw [contains_iff] at hk
  omega

/-- A step resumes if the flags of all containers around it are set. -/
theorem route_eq_resume (hsteps : f.steps = List.range' step f.points.length) (hk : k ∈ f.steps) :
    f.route isSet k = .resume ↔ Enclosed isSet k (allOf (f.containers index step)) := by
  induction f generalizing index step with
  | ops | flagTest | flagAssign => simp [steps, points] at hk
  | observe => simp [route, Enclosed, containers, allOf]
  | append f g ih ih' | nullGuard f g ih ih' | shortCircuit op f g ih ih' =>
    simp only [steps_append, steps_nullGuard, steps_shortCircuit] at hsteps hk
    obtain ⟨hf, hg⟩ := steps_split hsteps
    simp only [containers, allOf_append, enclosed_append, route]
    by_cases hkf : k ∈ f.steps
    · have hrange := hkf
      rw [hf, List.mem_range'_1] at hrange
      rw [if_pos hkf, @ih index _ hf hkf]
      exact (and_iff_left (enclosed_outside (.inl hrange.2))).symm
    · have hkg := (List.mem_append.mp hk).resolve_left hkf
      have hrange := hkg
      rw [hg, List.mem_range'_1] at hrange
      rw [if_neg hkf, @ih' (index + f.branches.length) _ hg hkg]
      exact (and_iff_right (enclosed_outside (.inr hrange.1))).symm
  | branch op f g flag counter ps ih ih' =>
    simp only [steps_branch] at hsteps hk
    obtain ⟨hf, hg⟩ := steps_split hsteps
    simp only [containers, allOf_append, allOf, all, List.append_nil, enclosed_append, route]
    let c : Container := .mk (index + f.branches.length) (some flag) (step + f.points.length)
      (step + f.points.length + g.points.length) g.own
      (g.containers (index + f.branches.length + 1) (step + f.points.length))
    have hcons (cs : List Container) : Enclosed isSet k (c :: cs) ↔
        (c.contains k → isSet flag) ∧ Enclosed isSet k cs := by
      simp [Enclosed, c, Container.flag]
    rw [hcons]
    by_cases hkf : k ∈ f.steps
    · have hrange := hkf
      rw [hf, List.mem_range'_1] at hrange
      have hout : ¬c.contains k := by
        rw [contains_iff]
        exact fun h ↦ Nat.not_le.mpr hrange.2 h.1
      rw [if_pos hkf, @ih index _ hf hkf]
      exact (and_iff_left ⟨fun h ↦ absurd h hout, enclosed_outside (.inl hrange.2)⟩).symm
    · have hkg := (List.mem_append.mp hk).resolve_left hkf
      have hrange := hkg
      rw [hg, List.mem_range'_1] at hrange
      have hin : c.contains k := contains_iff.mpr hrange
      rw [if_neg hkf, and_iff_right (enclosed_outside (.inr hrange.1))]
      cases hset : isSet flag with
      | false => simp [hin]
      | true =>
        rw [if_pos rfl, @ih' (index + f.branches.length + 1) _ hg hkg]
        exact (and_iff_right fun _ ↦ rfl).symm

theorem perm_root (f : Fragment) (stop : Nat) :
    ((Container.mk 0 none 0 stop f.own (f.containers 1 1)).all.flatMap Container.points).Perm
      f.points := f.perm_points 1 1

/-- Every step belongs to exactly one container. -/
theorem existsUnique_container (hsteps : f.steps = List.range' 1 f.points.length) (stop : Nat)
    (hk : k ∈ f.steps) :
    ∃! c, c ∈ (Container.mk 0 none 0 stop f.own (f.containers 1 1)).all ∧
      k ∈ c.points.map SavePoint.step := by
  have hperm := (f.perm_root stop).map SavePoint.step
  rw [List.map_flatMap] at hperm
  have hnodup := hperm.nodup_iff.mpr (show f.steps.Nodup by rw [hsteps]; exact List.nodup_range')
  obtain ⟨c, hc, hkc⟩ := List.mem_flatMap.mp (hperm.mem_iff.mpr hk)
  refine ⟨c, ⟨hc, hkc⟩, fun d ⟨hd, hkd⟩ ↦ by_contra fun hne ↦ ?_⟩
  have : Std.Symm (Function.onFun List.Disjoint fun c : Container ↦ c.points.map SavePoint.step) :=
    ⟨fun _ _ h ↦ h.symm⟩
  exact (List.nodup_flatMap.mp hnodup).2.forall hd hc hne hkd hkc

end Fragment

namespace Exec

variable {r : Registry} {update : Updater} {fuel : Nat} {frame : Frame} {R : Routine} {limit : Nat}

variable (r update fuel frame R limit) in
/-- The code in front of a position is left for good in a state, without a call. -/
def Leaves (m m' : Machine) : Prop := Leads r update fuel frame R limit m m' ∧ limit ≤ m'.pc

theorem LeadsIn.unique {k l : Nat} {m m' m'' : Machine}
    (h : LeadsIn r update fuel frame R limit k m m') (hm' : limit ≤ m'.pc)
    (h' : LeadsIn r update fuel frame R limit l m m'') (hm'' : limit ≤ m''.pc) : m' = m'' := by
  induction h generalizing l with
  | zero =>
    cases h' with
    | zero => rfl
    | cons hlt => omega
  | cons hlt hop hne hcalls hstep h ih =>
    cases h' with
    | zero => omega
    | cons hlt' hop' hne' hcalls' hstep' h' =>
      obtain rfl := Option.some.inj (hop.symm.trans hop')
      obtain ⟨-, rfl⟩ := Prod.mk.inj (hstep.symm.trans hstep')
      exact ih hm' h'

theorem Leaves.unique {m m' m'' : Machine} (h : Leaves r update fuel frame R limit m m')
    (h' : Leaves r update fuel frame R limit m m'') : m' = m'' := by
  obtain ⟨⟨_, h⟩, hm'⟩ := h
  obtain ⟨⟨_, h'⟩, hm''⟩ := h'
  exact h.unique hm' h' hm''

end Exec

open Exec Fragment Container

theorem Assembler.map_target {b : Assembler} {R : Routine} {key : LabelKey} {p : Nat}
    (h : (b.keyed.lookup key).isSome) :
    (b.keyed.lookup key).map R.target = some p ↔ b.keyTarget R key = p := by
  obtain ⟨l, hl⟩ := Option.isSome_iff_exists.mp h
  rw [keyTarget_eq hl, hl, Option.map_some, Option.some.injEq]

namespace Compiles

variable {frame : Frame} {i : InstanceId} {k : Nat} {w : World} {s : Instance}
variable {body coercion : Fragment} {t : Resumable} {layout : FlagLayout} {artifact : Artifact}

theorem mem_steps (h : Compiles body coercion t layout artifact) :
    k ∈ artifact.steps ↔ k = 0 ∨ k ∈ body.steps := by
  rw [h.steps, Resumable.steps, h.renders.nextStep, h.steps_eq, List.mem_range, List.mem_range'_1]
  simp only [Resumable.start]
  omega

/-- No step is too large to be told apart where there are fewer than there are positive `int`s. -/
theorem min_mem_steps (h : Compiles body coercion t layout artifact)
    (hfew : artifact.steps.length ≤ 2147483647) : min k 2147483647 ∈ artifact.steps ↔ k ∈ artifact.steps := by
  rw [h.steps, Resumable.steps, List.length_range] at hfew
  rw [h.steps, Resumable.steps, List.mem_range, List.mem_range]
  omega

/-- Where a step of the binding goes is decided by the flags around it. -/
theorem route_eq (h : Compiles body coercion t layout artifact) (hs : w.instance? i = some s)
    (hk : k ∈ artifact.steps) [Decidable (Enclosed (layout.isSet s.flags) k t.root.all)] :
    updateRoute layout body i k w =
      if Enclosed (layout.isSet s.flags) k t.root.all then .resume else .exit := by
  have henclosed : Enclosed (layout.isSet s.flags) k t.root.all ↔
      Enclosed (layout.isSet s.flags) k (allOf (body.containers 1 1)) := by
    rw [h.root_eq]
    simp [Enclosed, all, Container.flag]
  rw [updateRoute]
  by_cases hk0 : k = 0
  · rw [if_pos hk0, if_pos (henclosed.mpr (enclosed_outside (.inl (by omega))))]
  have hmem := (h.mem_steps.mp hk).resolve_left hk0
  rw [if_neg hk0, if_pos hmem, hs]
  have hroute := @route_eq_resume body 1 1 k (layout.isSet s.flags) h.steps_eq hmem
  rw [← henclosed] at hroute
  show body.route (layout.isSet s.flags) k = _
  by_cases hon : Enclosed (layout.isSet s.flags) k t.root.all
  · rw [if_pos hon]
    exact hroute.mpr hon
  · rw [if_neg hon]
    cases hr : body.route (layout.isSet s.flags) k with
    | resume => exact absurd (hroute.mp hr) hon
    | exit => rfl
    | fault => exact absurd hr (route_ne_fault hmem)

theorem route_eq_fault (h : Compiles body coercion t layout artifact) (hk : k ∉ artifact.steps) :
    updateRoute layout body i k w = .fault := by
  rw [h.mem_steps, not_or] at hk
  rw [updateRoute, if_neg hk.1, if_neg hk.2]

/-- The resume points of all steps lie between the fault and the exit. -/
theorem Positions.resume_range {b : Assembler} {R : Routine} {fault middle stop : Nat}
    (h : Positions body coercion t layout b R fault middle stop) (hk : k = 0 ∨ k ∈ body.steps) :
    fault < b.keyTarget R (.step k) ∧ b.keyTarget R (.step k) < b.keyTarget R .exit := by
  have hbody := h.bodyAt.le
  have hcoercion := h.coercionAt.le
  rw [h.exitAt]
  rcases hk with rfl | hk
  · rw [h.startAt]
    omega
  · have hat : fault + 1 ≤ b.keyTarget R (.step k) ∧ b.keyTarget R (.step k) < middle :=
      h.bodyAt.resume_mem hk
    omega

open CompileContext in
/-- The labels of the update routine are those of its steps and of the exit. -/
theorem map_target_step (h : Compiles body coercion t layout artifact) {p : Nat} :
    ((updateRoutine t layout body coercion).keyed.lookup (.step k)).map artifact.update.target = some p ↔
      k ∈ artifact.steps ∧
        (updateRoutine t layout body coercion).keyTarget artifact.update (.step k) = p := by
  have hsealed : (updateRoutine t layout body coercion).Sealed ∧ _ :=
    updateRoutine_sealed h.renders.toLayout h.plain
  obtain ⟨-, hkeys⟩ := hsealed
  rw [h.steps]
  by_cases hmem : k ∈ t.steps
  · rw [and_iff_right hmem]
    exact Assembler.map_target ((hkeys _).mpr (.inr ⟨k, hmem, rfl⟩))
  · have hnone : (updateRoutine t layout body coercion).keyed.lookup (.step k) = none := by
      rw [← Option.not_isSome_iff_eq_none, hkeys]
      rintro (h | ⟨n, hn, h⟩)
      · cases h
      · cases h
        exact hmem hn
    simp [hnone, hmem]

open CompileContext in
theorem map_target_exit (h : Compiles body coercion t layout artifact) {p : Nat} :
    ((updateRoutine t layout body coercion).keyed.lookup .exit).map artifact.update.target = some p ↔
      (updateRoutine t layout body coercion).keyTarget artifact.update .exit = p :=
  Assembler.map_target (((updateRoutine_sealed h.renders.toLayout h.plain).2 _).mpr (.inl rfl))

variable {r : Registry} {update : Updater} {fuel : Nat}

open CompileContext in
/-- Dispatch is left where the route of the step leads, with nothing but the lock taken. -/
theorem leaves_iff (h : Compiles body coercion t layout artifact) {fault middle stop : Nat}
    (hp : Positions body coercion t layout (updateRoutine t layout body coercion) artifact.update
      fault middle stop)
    (hb : frame.binding = some i) (hs : w.instance? i = some s)
    (hf : s.flags.size = layout.storage) (hk : (Builtin.countInt frame.step).toInt = k) (m : Machine) :
    Leaves r update fuel frame artifact.update fault { world := w } m ↔ m = { locked w s with
      pc := (destination (updateRoutine t layout body coercion) artifact.update fault k
        (updateRoute layout body i k w)) } := by
  have hthere : Leaves r update fuel frame artifact.update fault { world := w } { locked w s with
      pc := (destination (updateRoutine t layout body coercion) artifact.update fault k
        (updateRoute layout body i k w)) } := by
    refine ⟨h.leads_route hp hb hs hf hk, ?_⟩
    have hzero := hp.resume_range (.inl rfl)
    cases hr : updateRoute layout body i k w with
    | resume => exact (hp.resume_range (eq_zero_or_mem_of_resume hr)).1.le
    | exit => exact (hzero.1.trans hzero.2).le
    | fault => exact Nat.le_refl _
  exact ⟨fun hm ↦ hm.unique hthere, fun hm ↦ hm ▸ hthere⟩

open CompileContext in
/-- Dispatch is left in one state, which tells whether the step is assigned and the flags around it are
set. -/
theorem arrives (h : Compiles body coercion t layout artifact) {fault middle stop : Nat}
    (hp : Positions body coercion t layout (updateRoutine t layout body coercion) artifact.update
      fault middle stop)
    (hb : frame.binding = some i) (hs : w.instance? i = some s)
    (hf : s.flags.size = layout.storage) (hk : min frame.step 2147483647 = k) :
    let code := updateRoutine t layout body coercion
    let on := Enclosed (layout.isSet s.flags) k t.root.all
    ∃ m, (∀ m', Leaves r update fuel frame artifact.update fault { world := w } m' ↔ m' = m) ∧
      m = { world := w.modifyCell s.result Cell.lock, stack := [], pc := m.pc, locks := 1 } ∧
      ((code.keyed.lookup (.step k)).map artifact.update.target = some m.pc ↔
        k ∈ artifact.steps ∧ on) ∧
      ((code.keyed.lookup .exit).map artifact.update.target = some m.pc ↔
        k ∈ artifact.steps ∧ ¬on) ∧
      (m.pc = fault ↔ k ∉ artifact.steps) := by
  classical
  intro code on
  have hk : (Builtin.countInt frame.step).toInt = k := hk ▸ toInt_countInt frame.step
  have hzero := hp.resume_range (.inl rfl)
  refine ⟨_, h.leaves_iff hp hb hs hf hk, rfl, ?_⟩
  rw [h.map_target_step, h.map_target_exit]
  by_cases hmem : k ∈ artifact.steps
  · have hrange := hp.resume_range (h.mem_steps.mp hmem)
    rw [h.route_eq hs hmem]
    by_cases hon : on
    · rw [if_pos hon]
      simp only [destination, hmem, hon, true_and, not_true_eq_false, iff_false, and_false]
      omega
    · rw [if_neg hon]
      simp only [destination, hmem, hon, true_and, not_true_eq_false, not_false_eq_true, iff_false]
      omega
  · rw [h.route_eq_fault hmem]
    simp only [destination, hmem, false_and, iff_false, not_false_eq_true, true_and, and_true]
    omega

end Compiles

namespace CompileContext

variable {cx : CompileContext} {scope : Scope} {parsed : ParsedExpr} {tree : Tree}

/-- The containers of a tree share out its steps, and an update comes from the lock to the resume
point of its step if the step is assigned and the flags of all containers around it are set, to the
exit if one of them is clear, and to the fault if the step is not assigned. Until then it takes the
lock and nothing else. Steps beyond the largest `int` count as that. -/
theorem dispatch_arrives {target : Option BindingTarget} {b : DynamicBinding}
    (htree : cx.buildTree scope parsed = .ok tree)
    (hcompile : cx.compileArtifact tree target = .ok b) :
    let rendered := tree.root.render .resumable .start
    let root := rendered.2.root
    let R := b.artifact.update
    (b.artifact.steps = List.range root.stop ∧
      (∀ k, 1 ≤ k → k < root.stop → ∃! c, c ∈ root.all ∧ k ∈ c.points.map SavePoint.step) ∧
      ∀ c ∈ root.all, (∀ d ∈ c.children, c.offset ≤ d.offset ∧ d.stop ≤ c.stop) ∧
        c.children.Pairwise (fun d e ↦ d.stop ≤ e.offset) ∧ .gap ∉ c.entries) ∧
    ∃ coercion, Targets cx tree (target.map BindingTarget.ty) coercion ∧
      let code := updateRoutine rendered.2 b.artifact.flags rendered.1 coercion
      code.finish = .ok R ∧ R.ops[0]? = some .lockAcquire ∧
      ∃ fault, R.ops[fault]? = some (.fault "dispatch step out of range") ∧
      (code.keyed.lookup (.step 0)).map R.target = some (fault + 1) ∧
      ∀ (r : Registry) (update : Updater) (fuel : Nat) (frame : Frame) (i : InstanceId) (w : World)
        (s : Instance), frame.binding = some i → w.instance? i = some s →
        s.flags.size = b.artifact.flags.storage →
        let k := min frame.step 2147483647
        let on := Enclosed (b.artifact.flags.isSet s.flags) k root.all
        ∃ m, (∀ m', Leaves r update fuel frame R fault { world := w } m' ↔ m' = m) ∧
          m = { world := w.modifyCell s.result Cell.lock, stack := [], pc := m.pc, locks := 1 } ∧
          ((code.keyed.lookup (.step k)).map R.target = some m.pc ↔ k ∈ b.artifact.steps ∧ on) ∧
          ((code.keyed.lookup .exit).map R.target = some m.pc ↔ k ∈ b.artifact.steps ∧ ¬on) ∧
          (m.pc = fault ↔ k ∉ b.artifact.steps) := by
  intro rendered root R
  have hres := (Tree.build_resolved htree).1
  obtain ⟨coercion, ht, -, hc⟩ := compileArtifact_eq hcompile (Node.Resolved.isPlain tree.root hres)
  have hroot : root = .mk 0 none 0 (1 + rendered.1.points.length) rendered.1.own
      (rendered.1.containers 1 1) := hc.root_eq
  obtain ⟨fault, middle, stop, hp⟩ := hc.positions
  rw [hc.flags]
  refine ⟨⟨hc.steps, fun k hk hlt ↦ ?_, fun c hcc ↦ ?_⟩, coercion, ht, hc.update.finish, hp.lockAt,
    fault, hp.faultAt, hc.map_target_step.mpr ⟨hc.mem_steps.mpr (.inl rfl), hp.startAt⟩,
    fun r update fuel frame i w s hb hs hf ↦ hc.arrives hp hb hs hf rfl⟩
  · rw [hroot] at hlt ⊢
    refine existsUnique_container hc.steps_eq _ ?_
    rw [hc.steps_eq, List.mem_range'_1]
    exact ⟨hk, hlt⟩
  · rw [hroot] at hcc
    have htidy := tidy_root hc.steps_eq c hcc
    exact ⟨htidy.inside, htidy.apart, htidy.full⟩

/-- Where the steps can be told apart, the dispatch arrives at every step itself. -/
theorem step_arrives {target : Option BindingTarget} {b : DynamicBinding}
    (htree : cx.buildTree scope parsed = .ok tree)
    (hcompile : cx.compileArtifact tree target = .ok b) (hfew : b.artifact.steps.length ≤ 2147483647) :
    let rendered := tree.root.render .resumable .start
    let R := b.artifact.update
    ∃ coercion, Targets cx tree (target.map BindingTarget.ty) coercion ∧
      let code := updateRoutine rendered.2 b.artifact.flags rendered.1 coercion
      code.finish = .ok R ∧ ∃ fault, R.ops[fault]? = some (.fault "dispatch step out of range") ∧
      ∀ (r : Registry) (update : Updater) (fuel : Nat) (frame : Frame) (i : InstanceId) (w : World)
        (s : Instance), frame.binding = some i → w.instance? i = some s →
        s.flags.size = b.artifact.flags.storage →
        let on := Enclosed (b.artifact.flags.isSet s.flags) frame.step rendered.2.root.all
        ∃ m, (∀ m', Leaves r update fuel frame R fault { world := w } m' ↔ m' = m) ∧
          ((code.keyed.lookup (.step frame.step)).map R.target = some m.pc ↔
            frame.step ∈ b.artifact.steps ∧ on) ∧
          ((code.keyed.lookup .exit).map R.target = some m.pc ↔ frame.step ∈ b.artifact.steps ∧ ¬on) ∧
          (m.pc = fault ↔ frame.step ∉ b.artifact.steps) := by
  intro rendered R
  have hres := (Tree.build_resolved htree).1
  obtain ⟨coercion, ht, -, hc⟩ := compileArtifact_eq hcompile (Node.Resolved.isPlain tree.root hres)
  obtain ⟨fault, middle, stop, hp⟩ := hc.positions
  rw [hc.flags]
  refine ⟨coercion, ht, hc.update.finish, fault, hp.faultAt,
    fun r update fuel frame i w s hb hs hf ↦ ?_⟩
  by_cases hlarge : frame.step < 2147483647
  · obtain ⟨m, hm, -, h⟩ := hc.arrives hp hb hs hf (Nat.min_eq_left hlarge.le)
    exact ⟨m, hm, h⟩
  · -- the step counts as the largest `int`, and neither of them is assigned
    have hout' : 2147483647 ∉ b.artifact.steps := by
      rw [hc.steps, Resumable.steps, List.length_range] at hfew
      rw [hc.steps, Resumable.steps, List.mem_range]
      omega
    have hout : frame.step ∉ b.artifact.steps := by
      rwa [← hc.min_mem_steps hfew, Nat.min_eq_right (Nat.not_lt.mp hlarge)]
    obtain ⟨m, hm, -, -, hexit, hfault⟩ := hc.arrives hp hb hs hf (Nat.min_eq_right (Nat.not_lt.mp hlarge))
    refine ⟨m, hm, ?_, ?_, ?_⟩
    · rw [hc.map_target_step]
      simp [hout]
    · simpa [hout, hout'] using hexit
    · simpa [hout, hout'] using hfault

end CompileContext

open Sample CompileContext Exec in
/-- An update from the right operand on, while that ran last. -/
theorem dispatch_arrives_conjunction :
    let frame : Frame := { binding := some ⟨0⟩, step := 2 }
    let w := (createInstance registry 50 binding.artifact (world true true)).2
    ∃ s fault m, w.instance? ⟨0⟩ = some s ∧
      (∀ m', Leaves registry (updateInstance registry 50) 50 frame binding.artifact.update fault
        { world := w } m' ↔ m' = m) ∧ m.stack = [] ∧ m.world.instance? ⟨0⟩ = some s ∧ m.pc ≠ fault := by
  intro frame w
  obtain ⟨hsome, hsize, hassigned⟩ : (w.instance? ⟨0⟩).isSome ∧
      (w.instance? ⟨0⟩).map (·.flags.size) = some binding.artifact.flags.storage ∧
      min frame.step 2147483647 ∈ binding.artifact.steps := by decide +kernel
  obtain ⟨s, hs⟩ := Option.isSome_iff_exists.mp hsome
  generalize w = w at hs hsize ⊢
  rw [hs] at hsize
  obtain ⟨-, coercion, -, -, -, fault, -, -, hrun⟩ := dispatch_arrives buildTree_eq compileArtifact_eq
  obtain ⟨m, hm, hstate, -, -, hfault⟩ := hrun registry (updateInstance registry 50) 50 frame ⟨0⟩ w s
    rfl hs (Option.some.inj hsize)
  refine ⟨s, fault, m, hs, hm, by rw [hstate], ?_, fun h ↦ hfault.mp h hassigned⟩
  rw [hstate, World.instance?_modifyCell]
  exact hs

end LiveBinding
