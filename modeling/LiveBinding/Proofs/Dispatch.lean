import LiveBinding.Proofs.Execution
import LiveBinding.Proofs.Rendering
import LiveBinding.Proofs.Storage

namespace LiveBinding

/-- Where a step leads: to its resume point, out of the update, or nowhere. -/
inductive Route where
  | resume
  | exit
  | fault
deriving DecidableEq

/-- Where a step of the fragment leads to. Inside an operand that did not run last the update
leaves. -/
def Fragment.route (isSet : Nat → Bool) (k : Nat) : Fragment → Route
  | ops _ | flagTest _ | flagAssign .. => .fault
  | append f g | nullGuard f g | shortCircuit _ f g =>
    if k ∈ f.steps then route isSet k f else route isSet k g
  | observe .. => .resume
  | branch _ f g flag _ _ =>
    if k ∈ f.steps then route isSet k f else if isSet flag then route isSet k g else .exit

theorem Fragment.route_ne_fault {isSet : Nat → Bool} {k : Nat} {f : Fragment} (h : k ∈ f.steps) :
    f.route isSet k ≠ .fault := by
  induction f with
  | ops | flagTest | flagAssign => simp [steps, points] at h
  | observe => simp [route]
  | append f g ih ih' | nullGuard f g ih ih' | shortCircuit op f g ih ih' =>
    simp only [steps_append, steps_nullGuard, steps_shortCircuit, List.mem_append] at h
    simp only [route]
    split
    · next hk => exact ih hk
    · next hk => exact ih' (h.resolve_left hk)
  | branch op f g flag counter ps ih ih' =>
    simp only [steps_branch, List.mem_append] at h
    simp only [route]
    split
    · next hk => exact ih hk
    · next hk =>
      split
      · exact ih' (h.resolve_left hk)
      · simp

namespace Container

open Assembler

variable {a b : Assembler} {R : Routine} {layout : FlagLayout} {fault : Label} {tables : List Label}

theorem continues_entryLabels (fault : Label) (tables : List Label) (entries : List Entry)
    (a : Assembler) : Continues a (entryLabels fault tables a entries).2 := by
  induction entries generalizing a with
  | nil => exact .refl a
  | cons e entries ih =>
    cases e with
    | resume k => exact (continues_keyedLabel a _).trans (ih _)
    | child i => exact ih a
    | gap => exact ih a

theorem continues_emitTable (layout : FlagLayout) (fault : Label) (tables : List Label)
    (a : Assembler) (c : Container) : Continues a (emitTable layout fault tables a c) := by
  unfold emitTable
  cases c.flag with
  | none => exact (continues_entryLabels ..).trans (continues_emitAll _ _)
  | some flag =>
    exact (continues_place _ _).trans <| (continues_emit _ _).trans <|
      (continues_keyedLabel _ _).trans <| (continues_emit _ _).trans <|
      (continues_entryLabels ..).trans (continues_emitAll _ _)

theorem continues_tables (layout : FlagLayout) (fault : Label) (tables : List Label)
    (cs : List Container) (a : Assembler) :
    Continues a (cs.foldl (emitTable layout fault tables) a) := by
  induction cs generalizing a with
  | nil => exact .refl a
  | cons c cs ih => exact (continues_emitTable ..).trans (ih _)

theorem continues_newLabels (n : Nat) (a : Assembler) : Continues a (newLabels a n).2 := by
  induction n generalizing a with
  | zero => exact .refl a
  | succ n ih => exact (continues_newLabel a).trans (ih _)

theorem ops_newLabels (n : Nat) (a : Assembler) : (newLabels a n).2.ops = a.ops := by
  induction n generalizing a with
  | zero => rfl
  | succ n ih => exact ih _

theorem continues_emitDispatch (root : Container) (layout : FlagLayout) (a : Assembler) :
    Continues a (root.emitDispatch layout a) :=
  (continues_newLabel a).trans <| (continues_newLabels ..).trans <| (continues_tables ..).trans <|
    (continues_place _ _).trans (continues_emit _ _)

theorem ops_entryLabels (fault : Label) (tables : List Label) (entries : List Entry)
    (a : Assembler) : (entryLabels fault tables a entries).2.ops = a.ops := by
  induction entries generalizing a with
  | nil => rfl
  | cons e entries ih =>
    cases e with
    | resume k => exact (ih _).trans (ops_keyedLabel a _)
    | child i => exact ih a
    | gap => exact ih a

/-- Where an entry of a table leads to. -/
def entryTarget (b : Assembler) (R : Routine) (fault : Label) (tables : List Label) : Entry → Nat
  | .resume k => b.keyTarget R (.step k)
  | .child i => R.target (if i = 0 then fault else tables.getD (i - 1) fault)
  | .gap => R.target fault

theorem target_entryLabels (entries : List Entry)
    (hc : Continues (entryLabels fault tables a entries).2 b) :
    (entryLabels fault tables a entries).1.map R.target =
      entries.map (entryTarget b R fault tables) := by
  induction entries generalizing a with
  | nil => rfl
  | cons e entries ih =>
    cases e with
    | resume k =>
      have hk := ((continues_entryLabels fault tables entries _).trans hc).keyed _ _
        (lookup_keyedLabel a (.step k))
      simp only [entryLabels, List.map_cons, entryTarget, keyTarget_eq hk]
      exact congrArg (_ :: ·) (ih hc)
    | child i =>
      simp only [entryLabels, List.map_cons, entryTarget]
      rw [ih hc]
    | gap =>
      simp only [entryLabels, List.map_cons, entryTarget]
      rw [ih hc]

/-- The table of a container stands in a routine, in front of a position. -/
structure TableAt (b : Assembler) (R : Routine) (layout : FlagLayout) (fault : Label)
    (tables : List Label) (limit : Nat) (c : Container) (pos : Nat) : Prop where
  body : ∃ targets, targets.map R.target = c.entries.map (entryTarget b R fault tables) ∧
    R.Holds (pos + if c.flag.isSome then 2 else 0) [.loadStep, .tableSwitch c.offset targets fault]
  guard : ∀ flag, c.flag = some flag → R.target (tables.getD (c.index - 1) fault) = pos ∧
    ∃ exit, R.target exit = b.keyTarget R .exit ∧ R.Holds pos [layout.test flag, .jumpIfFalse exit]
  before : pos + (if c.flag.isSome then 2 else 0) + 2 ≤ limit

theorem size_emitTable (layout : FlagLayout) (fault : Label) (tables : List Label) (a : Assembler)
    (c : Container) : (emitTable layout fault tables a c).ops.size =
      a.ops.size + (if c.flag.isSome then 2 else 0) + 2 := by
  unfold emitTable
  cases c.flag <;> simp [ops_entryLabels]

theorem tableAt_emit (h : Assembles b R) (c : Container) {limit : Nat}
    (hc : Continues (emitTable layout fault tables a c) b)
    (hlimit : (emitTable layout fault tables a c).ops.size ≤ limit) :
    TableAt b R layout fault tables limit c a.ops.size := by
  rw [size_emitTable] at hlimit
  have hbody (a : Assembler) (targets : List Label) (hc : Continues (((entryLabels fault tables a
      c.entries).2).emitAll [.loadStep, .tableSwitch c.offset targets fault]) b) :
      R.Holds a.ops.size [.loadStep, .tableSwitch c.offset targets fault] := by
    have e := h.holds hc
    rwa [ops_entryLabels] at e
  unfold emitTable at hc
  cases hf : c.flag with
  | none =>
    simp only [hf] at hc
    refine ⟨⟨_, target_entryLabels _ ((continues_emitAll _ _).trans hc), ?_⟩, by simp [hf], hlimit⟩
    simpa [hf] using hbody a _ hc
  | some flag =>
    simp only [hf] at hc
    let a₁ := a.place (tables.getD (c.index - 1) fault)
    let a₂ := a₁.emit (layout.test flag)
    let exit := (a₂.keyedLabel .exit).1
    let a₃ := (a₂.keyedLabel .exit).2.emit (.jumpIfFalse exit)
    have h₃ : Continues a₃ b :=
      (continues_entryLabels fault tables c.entries _).trans ((continues_emitAll _ _).trans hc)
    have h₂' : Continues (a₂.keyedLabel .exit).2 b := (continues_emit _ _).trans h₃
    have h₂ : Continues a₂ b := (continues_keyedLabel _ _).trans h₂'
    have h₁ : Continues a₁ b := (continues_emit _ _).trans h₂
    have s₂ : a₂.ops.size = a.ops.size + 1 := by simp [a₂, a₁]
    have s₃ : a₃.ops.size = a.ops.size + 2 := by simp [a₃, s₂]
    have e₂ := h.holds_one h₂
    have e₃ := h.holds_one h₃
    rw [ops_place] at e₂
    rw [ops_keyedLabel, s₂] at e₃
    refine ⟨⟨_, target_entryLabels _ ((continues_emitAll _ _).trans hc), ?_⟩, ?_, hlimit⟩
    · have e := hbody _ _ hc
      rw [s₃] at e
      simpa [hf] using e
    · rintro flag' hflag
      obtain rfl : flag = flag' := by simpa [hf] using hflag
      refine ⟨h.target_place h₁, exit, ?_, e₂.cons e₃⟩
      exact (keyTarget_eq (h₂'.keyed _ _ (lookup_keyedLabel a₂ .exit))).symm

/-- The tables of all containers stand in the routine. -/
theorem tablesAt_emit (h : Assembles b R) (cs : List Container) {limit : Nat}
    (hc : Continues (cs.foldl (emitTable layout fault tables) a) b)
    (hlimit : (cs.foldl (emitTable layout fault tables) a).ops.size ≤ limit) :
    ∀ c ∈ cs, ∃ pos ≥ a.ops.size, TableAt b R layout fault tables limit c pos := by
  induction cs generalizing a with
  | nil => simp
  | cons c cs ih =>
    have hrest := continues_tables layout fault tables cs (emitTable layout fault tables a c)
    intro d hd
    rcases List.mem_cons.mp hd with rfl | hd
    · exact ⟨_, Nat.le_refl _, tableAt_emit h d (hrest.trans hc) (Nat.le_trans hrest.size_le hlimit)⟩
    · obtain ⟨pos, hpos, ht⟩ := ih hc hlimit d hd
      rw [size_emitTable] at hpos
      exact ⟨pos, by omega, ht⟩

/-- Dispatch consists of the tables and of a fault behind them. -/
theorem dispatch_parts {root : Container} (h : Assembles b R)
    (hc : Continues (root.emitDispatch layout a) b) :
    ∃ fault tables a', a'.ops = a.ops ∧
      Continues (root.all.foldl (emitTable layout fault tables) a') b ∧
      (root.all.foldl (emitTable layout fault tables) a').ops.size = R.target fault ∧
      R.Holds (R.target fault) [.fault "dispatch step out of range"] ∧
      (root.emitDispatch layout a).ops.size = R.target fault + 1 := by
  let fault := a.newLabel.1
  let labels := newLabels a.newLabel.2 (root.all.length - 1)
  let a₁ := root.all.foldl (emitTable layout fault labels.1) labels.2
  have hplace : Continues (a₁.place fault) b := (continues_emit _ _).trans hc
  have hfault := h.holds_one (a := a₁.place fault) hc
  rw [ops_place, ← h.target_place hplace] at hfault
  refine ⟨fault, labels.1, labels.2, ops_newLabels _ _, (continues_place _ _).trans hplace,
    (h.target_place hplace).symm, hfault, ?_⟩
  rw [h.target_place hplace]
  show ((a₁.place fault).emit _).ops.size = _
  rw [size_emit, ops_place]

/-- In front of the fault stand the tables of all containers, that of the whole expression first. -/
theorem tables_of_dispatch {root : Container} {limit : Nat} (h : Assembles b R)
    (hc : Continues (root.emitDispatch layout a) b)
    (hlimit : (root.emitDispatch layout a).ops.size = limit + 1) :
    ∃ fault tables, R.target fault = limit ∧ TableAt b R layout fault tables limit root a.ops.size ∧
      ∀ c ∈ root.all, ∃ pos, TableAt b R layout fault tables limit c pos := by
  obtain ⟨fault, tables, a', ha, htables, hend, -, hsize⟩ := dispatch_parts h hc
  obtain rfl : R.target fault = limit := by omega
  refine ⟨fault, tables, rfl, ?_, fun c hcc ↦
    (tablesAt_emit h root.all htables (Nat.le_of_eq hend) c hcc).imp fun _ ↦ And.right⟩
  have hall : root.all = root :: allOf root.children := by cases root; rfl
  rw [hall, List.foldl_cons] at htables hend
  have hrest := continues_tables layout fault tables (allOf root.children)
    (emitTable layout fault tables a' root)
  rw [← ha]
  exact tableAt_emit h root (hrest.trans htables) (Nat.le_trans hrest.size_le (Nat.le_of_eq hend))

end Container

namespace Exec

variable {r : Registry} {update : Updater} {fuel : Nat} {frame : Frame} {R : Routine}

variable (r update fuel frame R) in
/-- The routine goes from one state to another by `k` instructions in front of a position, without a
call. -/
inductive LeadsIn (limit : Nat) : Nat → Machine → Machine → Prop
  | zero (m : Machine) : LeadsIn limit 0 m m
  | cons {op : Op} {k : Nat} {m m' m'' : Machine} (hlt : m.pc < limit) (hop : R.ops[m.pc]? = some op)
      (hne : op ≠ .return) (hcalls : callsOf r update fuel op m = [])
      (hstep : step r update fuel frame R op { m with pc := m.pc + 1 } = (.ok (), m'))
      (h : LeadsIn limit k m' m'') : LeadsIn limit (k + 1) m m''

variable (r update fuel frame R) in
/-- The routine goes from one state to another without a call. -/
def Leads (limit : Nat) (m m' : Machine) : Prop := ∃ k, LeadsIn r update fuel frame R limit k m m'

variable {limit : Nat}

theorem LeadsIn.trans {k l : Nat} {m m' m'' : Machine}
    (h : LeadsIn r update fuel frame R limit k m m')
    (h' : LeadsIn r update fuel frame R limit l m' m'') :
    LeadsIn r update fuel frame R limit (k + l) m m'' := by
  induction h with
  | zero => simpa only [Nat.zero_add] using h'
  | cons hlt hop hne hcalls hstep h ih =>
    simpa only [Nat.add_right_comm] using LeadsIn.cons hlt hop hne hcalls hstep (ih h')

theorem LeadsIn.execute_eq {k : Nat} {m m' : Machine}
    (h : LeadsIn r update fuel frame R limit k m m') (n : Nat) :
    execute r update fuel frame R (n + k) m = execute r update fuel frame R n m' ∧
      history r update fuel frame R (n + k) m = history r update fuel frame R n m' := by
  induction h with
  | zero => exact ⟨rfl, rfl⟩
  | cons hlt hop hne hcalls hstep h ih =>
    rw [← Nat.add_assoc, execute_succ _ _ hop hne, history_succ _ _ hop hne, hcalls]
    simpa only [hstep, List.nil_append] using ih

theorem Leads.refl (m : Machine) : Leads r update fuel frame R limit m m := ⟨0, .zero m⟩

theorem Leads.trans {m m' m'' : Machine} (h : Leads r update fuel frame R limit m m')
    (h' : Leads r update fuel frame R limit m' m'') : Leads r update fuel frame R limit m m'' := by
  obtain ⟨k, h⟩ := h
  obtain ⟨k', h'⟩ := h'
  exact ⟨k + k', h.trans h'⟩

theorem leads_does {op : Op} {i : Nat} {m m' : Machine} (hi : i < limit) (hs : op.isStraight)
    (h : R.ops[i]? = some op) (hd : Does r update fuel frame op m m') :
    LeadsIn r update fuel frame R limit 1 { m with pc := i } { m' with pc := i + 1 } := by
  refine .cons hi h (Op.ne_return_of_isStraight hs) ?_ ?_ (.zero _)
  · rw [callsOf_pc]
    exact congrArg Outcome.calls hd
  · have hresult : (step r update fuel frame default op m).1 = .ok () := congrArg Outcome.result hd
    have hmachine : (step r update fuel frame default op m).2 = m' := congrArg Outcome.machine hd
    rw [step_routine r update fuel frame hs R default]
    refine (pcFree_step r update fuel frame hs default m (i + 1)).trans ?_
    rw [hresult, hmachine]

/-- The step that dispatch goes by, which stays at the largest `int`. -/
theorem toInt_countInt (n : Nat) : (Builtin.countInt n).toInt = (min n 2147483647 : Nat) := by
  have hn := Int.natCast_nonneg n
  unfold Builtin.countInt maxInt
  rw [Int32.toInt_ofInt_of_le] <;> omega

/-- A table goes to the target of its entry for the step. -/
theorem leads_switch {offset pos k : Nat} {targets : List Label} {otherwise : Label}
    (h : R.Holds pos [.loadStep, .tableSwitch offset targets otherwise]) (hpos : pos + 2 ≤ limit)
    (hk : (Builtin.countInt frame.step).toInt = k) (ho : offset ≤ k) (m : Machine) :
    LeadsIn r update fuel frame R limit 2 { m with pc := pos }
      { m with pc := (targets.map R.target).getD (k - offset) (R.target otherwise) } := by
  let n := Builtin.countInt frame.step
  have hload : Does r update fuel frame .loadStep m { m with stack := .int n :: m.stack } := rfl
  refine (leads_does (by omega) rfl h.head hload).trans (.cons (by simp only; omega) (h 1 _ rfl)
    (by simp) rfl ?_ (.zero _))
  have hi : (n.toInt - offset).toNat = k - offset := by
    rw [hk]; omega
  have hle : 0 ≤ n.toInt - offset := by
    rw [hk]; omega
  simp only [step, popInt, bind_apply, pop_apply, Value.toInt, ofExcept, pure_apply, goto,
    modify_apply, if_pos hle, hi]
  simp only [List.getD_eq_getElem?_getD, List.getElem?_map]
  cases targets[k - offset]? <;> rfl

/-- The table of an operand is reached past the test of its flag, or the update leaves. -/
theorem leads_guard {layout : FlagLayout} {flag pos : Nat} {exit : Label} {i : InstanceId}
    {s : Instance} {m : Machine} (h : R.Holds pos [layout.test flag, .jumpIfFalse exit])
    (hpos : pos + 2 ≤ limit) (hb : frame.binding = some i) (hs : m.world.instance? i = some s)
    (hf : layout.wordOf flag < s.flags.size) :
    Leads r update fuel frame R limit { m with pc := pos }
      { m with pc := if layout.isSet s.flags flag then pos + 2 else R.target exit } := by
  refine ⟨2, (leads_does (by omega) (Fragment.isStraight_test layout flag) h.head
    (does_test hb hs hf)).trans (.cons (by simp only; omega) (h 1 _ rfl) (by simp) rfl ?_ (.zero _))⟩
  simp only [step, bind_apply, pop_apply, Value.toBool, ofExcept, pure_apply, jumpIf, goto]
  cases layout.isSet s.flags flag <;> rfl

end Exec

namespace Fragment

open Exec Container Assembler

theorem containers_range {f : Fragment} {index step : Nat} {c : Container}
    (h : c ∈ f.containers index step) :
    index ≤ c.index ∧ step ≤ c.offset ∧ c.stop ≤ step + f.points.length := by
  induction f generalizing index step with
  | ops | flagTest | flagAssign | observe => simp [containers] at h
  | append f g ih ih' | nullGuard f g ih ih' | shortCircuit op f g ih ih' =>
    simp only [containers, List.mem_append] at h
    simp only [points, List.length_append]
    rcases h with h | h
    · have := ih h; omega
    · have := ih' h; omega
  | branch op f g flag counter ps ih ih' =>
    simp only [containers, List.mem_append, List.mem_singleton] at h
    simp only [points, List.length_append]
    rcases h with h | rfl
    · have := ih h; omega
    · simp only [Container.index, Container.offset, Container.stop]; omega

theorem mem_steps_of_own {f : Fragment} {k : Nat} (h : k ∈ f.own.map SavePoint.step) :
    k ∈ f.steps := by
  obtain ⟨p, hp, rfl⟩ := List.mem_map.mp h
  exact List.mem_map_of_mem ((f.perm_points 0 0).subset (List.mem_append_left _ hp))

section

variable {r : Registry} {update : Updater} {fuel : Nat} {frame : Frame} {R : Routine}
variable {b : Assembler} {layout : FlagLayout} {fault : Label} {tables : List Label} {limit : Nat}
variable {i : InstanceId} {s : Instance}

/-- Where control goes by a route. -/
def destination (b : Assembler) (R : Routine) (fault k : Nat) : Route → Nat
  | .resume => b.keyTarget R (.step k)
  | .exit => b.keyTarget R .exit
  | .fault => fault

variable (r update fuel frame R b layout fault tables limit i s) in
/-- The entry for a step of the fragment in the table of the container that the fragment is the
content of: the point of the step itself, or a child whose table goes on by the route. -/
def Routed (k : Nat) (f : Fragment) (index step : Nat) : Prop :=
  (k ∈ f.own.map SavePoint.step ∧ f.route (layout.isSet s.flags) k = .resume) ∨
  (k ∉ f.own.map SavePoint.step ∧ ∃ child,
    (f.containers index step).find? (·.contains k) = some child ∧
    ∀ m : Machine, m.world.instance? i = some s →
      Leads r update fuel frame R limit
        { m with pc := R.target (tables.getD (child.index - 1) fault) }
        { m with pc := destination b R limit k (f.route (layout.isSet s.flags) k) })

/-- The table of a container goes on by the route of its content. -/
theorem Routed.leads {f : Fragment} {index step pos k : Nat} {c : Container}
    (h : Routed r update fuel frame R b layout fault tables limit i s k f index step)
    (hindex : 0 < index) (hk : (Builtin.countInt frame.step).toInt = k) (hk0 : k ≠ 0)
    (ht : TableAt b R layout fault tables limit c pos) (hp : c.points = f.own)
    (hc : c.children = f.containers index step) (hlo : c.offset ≤ k)
    (hhi : k < c.stop) (m : Machine) (hs : m.world.instance? i = some s) :
    Leads r update fuel frame R limit { m with pc := pos + if c.flag.isSome then 2 else 0 }
      { m with pc := destination b R limit k (f.route (layout.isSet s.flags) k) } := by
  obtain ⟨targets, htargets, hholds⟩ := ht.body
  have hentry : (c.entries.map (entryTarget b R fault tables))[k - c.offset]? =
      some (entryTarget b R fault tables (c.entry k)) := by
    simp only [entries, List.getElem?_map]
    rw [List.getElem?_range' (by omega)]
    simp only [Option.map_some, Nat.one_mul]
    rw [Nat.add_sub_cancel' hlo]
  refine Leads.trans ⟨2, leads_switch hholds ht.before hk hlo m⟩ ?_
  rw [htargets, List.getD_eq_getElem?_getD, hentry, Option.getD_some]
  have hany : c.points.any (·.step == k) = true ↔
      k ∈ f.own.map SavePoint.step := by
    simp [hp]
  rcases h with ⟨hown, hroute⟩ | ⟨hown, child, hfind, hchild⟩
  · have he : c.entry k = .resume k := by
      simp [entry, hany.mpr hown]
    rw [he, hroute]
    exact .refl _
  · have he : c.entry k = .child child.index := by
      have hno : c.points.any (·.step == k) = false := by
        simpa using mt hany.mp hown
      simp [entry, hno, hk0, hc, hfind]
    have hpos := (containers_range (List.mem_of_find?_eq_some hfind)).1
    rw [he, entryTarget, if_neg (by omega)]
    exact hchild m hs

theorem find?_containers_append {f g : Fragment} {index index' step k : Nat}
    (hk : step + f.points.length ≤ k) :
    (f.containers index step ++ g.containers index' (step + f.points.length)).find?
      (·.contains k) = (g.containers index' (step + f.points.length)).find? (·.contains k) := by
  rw [List.find?_append, List.find?_eq_none.mpr]
  · rfl
  · intro c hc
    have := containers_range hc
    simp only [contains, Bool.and_eq_true, decide_eq_true_eq]
    omega

theorem steps_split {f g : Fragment} {step : Nat}
    (h : f.steps ++ g.steps = List.range' step (f.points ++ g.points).length) :
    f.steps = List.range' step f.points.length ∧
      g.steps = List.range' (step + f.points.length) g.points.length := by
  rw [List.length_append, ← List.range'_append_1] at h
  exact List.append_inj h (by simp [steps])

theorem Routed.left {f g : Fragment} {index step k : Nat}
    (hsteps : f.steps ++ g.steps = List.range' step (f.points ++ g.points).length)
    (hmem : k ∈ f.steps)
    (h : Routed r update fuel frame R b layout fault tables limit i s k f index step) :
    Routed r update fuel frame R b layout fault tables limit i s k (.append f g) index step := by
  obtain ⟨hf, hg⟩ := steps_split hsteps
  have hnot : k ∉ g.own.map SavePoint.step := by
    intro hk
    have hk := mem_steps_of_own hk
    rw [hf, List.mem_range'_1] at hmem
    rw [hg, List.mem_range'_1] at hk
    omega
  simp only [Routed, own, containers, route, if_pos hmem, List.map_append, List.mem_append]
  rcases h with ⟨hown, hroute⟩ | ⟨hown, child, hfind, hchild⟩
  · exact .inl ⟨.inl hown, hroute⟩
  · exact .inr ⟨by simp only [hown, hnot, or_self, not_false_eq_true], child,
      by rw [List.find?_append, hfind]; rfl, hchild⟩

theorem Routed.right {f g : Fragment} {index step k : Nat}
    (hsteps : f.steps ++ g.steps = List.range' step (f.points ++ g.points).length)
    (hmem : k ∈ g.steps)
    (h : Routed r update fuel frame R b layout fault tables limit i s k g (index + f.branches.length)
      (step + f.points.length)) :
    Routed r update fuel frame R b layout fault tables limit i s k (.append f g) index step := by
  obtain ⟨hf, hg⟩ := steps_split hsteps
  rw [hg, List.mem_range'_1] at hmem
  have hnot : k ∉ f.steps := by
    rw [hf, List.mem_range'_1]
    omega
  have hnot' := mt (mem_steps_of_own (f := f)) hnot
  simp only [Routed, own, containers, route, if_neg hnot, List.map_append, List.mem_append]
  rcases h with ⟨hown, hroute⟩ | ⟨hown, child, hfind, hchild⟩
  · exact .inl ⟨.inr hown, hroute⟩
  · exact .inr ⟨by simp only [hown, hnot', or_self, not_false_eq_true], child,
      by rw [find?_containers_append hmem.1, hfind], hchild⟩

/-- Every step of the fragment is found through the tables. -/
theorem routed {f : Fragment} {index step k : Nat} (hindex : 0 < index) (hstep : 0 < step)
    (hsteps : f.steps = List.range' step f.points.length) (hb : frame.binding = some i)
    (hk : (Builtin.countInt frame.step).toInt = k) (hmem : k ∈ f.steps)
    (ht : ∀ c ∈ allOf (f.containers index step), ∃ pos, TableAt b R layout fault tables limit c pos)
    (hflags : ∀ e ∈ f.branches, layout.wordOf e.1 < s.flags.size) :
    Routed r update fuel frame R b layout fault tables limit i s k f index step := by
  induction f generalizing index step with
  | ops | flagTest | flagAssign => simp [steps, points] at hmem
  | observe property p => exact .inl ⟨by simpa [steps, points, own] using hmem, rfl⟩
  | append f g ih ih' | nullGuard f g ih ih' | shortCircuit op f g ih ih' =>
    simp only [steps_append, steps_nullGuard, steps_shortCircuit] at hsteps hmem
    simp only [containers, allOf_append, List.mem_append, branches] at ht hflags
    obtain ⟨hf, hg⟩ := steps_split hsteps
    by_cases hm : k ∈ f.steps
    · exact Routed.left hsteps hm (ih hindex hstep hf hm (fun c hc ↦ ht c (.inl hc))
        (fun e he ↦ hflags e (.inl he)))
    · have hm := (List.mem_append.mp hmem).resolve_left hm
      exact Routed.right hsteps hm (ih' (by omega) (by omega) hg hm (fun c hc ↦ ht c (.inr hc))
        (fun e he ↦ hflags e (.inr he)))
  | branch op f g flag counter ps ih ih' =>
    simp only [steps_branch] at hsteps hmem
    simp only [containers, allOf_append, List.mem_append, branches] at ht hflags
    obtain ⟨hf, hg⟩ := steps_split hsteps
    by_cases hm : k ∈ f.steps
    · have h := ih hindex hstep hf hm (fun c hc ↦ ht c (.inl hc)) (fun e he ↦ hflags e (.inl he))
      simp only [Routed, own, containers, route, if_pos hm]
      rcases h with ⟨hown, hroute⟩ | ⟨hown, child, hfind, hchild⟩
      · exact .inl ⟨hown, hroute⟩
      · exact .inr ⟨hown, child, by rw [List.find?_append, hfind]; rfl, hchild⟩
    · have hmg := (List.mem_append.mp hmem).resolve_left hm
      have hr := @ih' (index + f.branches.length + 1) _ (by omega) (by omega) hg hmg
        (fun c hc ↦ ht c (.inr (by simp [allOf, all, hc])))
        (fun e he ↦ hflags e (.inr (List.mem_cons_of_mem _ he)))
      rw [hg, List.mem_range'_1] at hmg
      let c : Container := .mk (index + f.branches.length) (some flag) (step + f.points.length)
        (step + f.points.length + g.points.length) g.own
        (g.containers (index + f.branches.length + 1) (step + f.points.length))
      simp only [Routed, own, containers, route, if_neg hm]
      refine .inr ⟨mt mem_steps_of_own hm, c, ?_, fun m hs ↦ ?_⟩
      · have hcontains : c.contains k = true :=
          Bool.and_eq_true_iff.mpr ⟨decide_eq_true hmg.1, decide_eq_true hmg.2⟩
        rw [List.find?_append, List.find?_eq_none.mpr, Option.none_or, List.find?_cons_of_pos]
        · exact hcontains
        · intro c hc
          have := containers_range hc
          simp only [contains, Bool.and_eq_true, decide_eq_true_eq]
          omega
      · obtain ⟨pos, htab⟩ := ht c (.inr (by simp [allOf, all, c]))
        obtain ⟨hpos, exit, hexit, hguard⟩ := htab.guard flag rfl
        rw [hpos]
        have hf' := hflags _ (.inr List.mem_cons_self)
        have hbefore := htab.before
        refine (leads_guard hguard (by simp only [c, Container.flag] at hbefore; simp at hbefore; omega)
          hb hs hf').trans ?_
        cases hset : layout.isSet s.flags flag with
        | false =>
          simp only [Bool.false_eq_true, if_false, hexit]
          exact .refl _
        | true =>
          simp only [if_true]
          exact hr.leads (by omega) hk (by omega) htab rfl rfl hmg.1 hmg.2 m hs

variable {f : Fragment} {a : Assembler} {stop k : Nat}

/-- Step 0 leads to the start of the code. -/
theorem leads_start (h : Assembles b R)
    (hc : Continues (emitDispatch (.mk 0 none 0 stop f.own (f.containers 1 1)) layout a) b)
    (hlimit : (emitDispatch (.mk 0 none 0 stop f.own (f.containers 1 1)) layout a).ops.size = limit + 1)
    (hstop : 0 < stop) (hk : frame.step = 0) (m : Machine) :
    LeadsIn r update fuel frame R limit 2 { m with pc := a.ops.size }
      { m with pc := b.keyTarget R (.step 0) } := by
  obtain ⟨fault, tables, -, hroot, -⟩ := tables_of_dispatch h hc hlimit
  let root : Container := .mk 0 none 0 stop f.own (f.containers 1 1)
  obtain ⟨targets, htargets, hholds⟩ := hroot.body
  have hentry : (root.entries.map (entryTarget b R fault tables))[0]? =
      some (b.keyTarget R (.step 0)) := by
    simp only [entries, root, Container.offset, Container.stop, List.getElem?_map]
    rw [List.getElem?_range' (by omega)]
    rfl
  have hzero : (Builtin.countInt frame.step).toInt = (0 : Nat) := by
    rw [toInt_countInt, hk]
    rfl
  have hl := @leads_switch r update fuel frame R limit 0 _ 0 _ _ hholds hroot.before hzero
    (Nat.le_refl 0) m
  rw [htargets, List.getD_eq_getElem?_getD, hentry] at hl
  exact hl

/-- Dispatch goes to the resume point of a step whose branches all ran last, or out of the
update. -/
theorem leads_dispatch (h : Assembles b R)
    (hc : Continues (emitDispatch (.mk 0 none 0 stop f.own (f.containers 1 1)) layout a) b)
    (hlimit : (emitDispatch (.mk 0 none 0 stop f.own (f.containers 1 1)) layout a).ops.size = limit + 1)
    (hsteps : f.steps = List.range' 1 f.points.length) (hstop : stop = 1 + f.points.length)
    (hb : frame.binding = some i) (hk : (Builtin.countInt frame.step).toInt = k)
    (hmem : k ∈ f.steps) (hflags : ∀ e ∈ f.branches, layout.wordOf e.1 < s.flags.size)
    (m : Machine) (hs : m.world.instance? i = some s) :
    Leads r update fuel frame R limit { m with pc := a.ops.size }
      { m with pc := destination b R limit k (f.route (layout.isSet s.flags) k) } := by
  obtain ⟨fault, tables, -, hroot, htables⟩ := tables_of_dispatch h hc hlimit
  have hr := @routed r update fuel frame R b layout fault tables limit i s f 1 1 k (by omega) (by omega)
    hsteps hb hk hmem (fun c hcc ↦ htables c (List.mem_cons_of_mem _ hcc)) hflags
  rw [hsteps, List.mem_range'_1] at hmem
  exact hr.leads (by omega) hk (by omega) hroot rfl rfl (Nat.zero_le _)
    (by simp only [Container.stop]; omega) m hs

/-- A step that is not assigned leads to the fault at the end of the tables. -/
theorem leads_fault (h : Assembles b R)
    (hc : Continues (emitDispatch (.mk 0 none 0 stop f.own (f.containers 1 1)) layout a) b)
    (hlimit : (emitDispatch (.mk 0 none 0 stop f.own (f.containers 1 1)) layout a).ops.size = limit + 1)
    (hk : (Builtin.countInt frame.step).toInt = k) (hstop : stop ≤ k) (m : Machine) :
    Leads r update fuel frame R limit { m with pc := a.ops.size } { m with pc := limit } := by
  obtain ⟨fault, tables, rfl, hroot, -⟩ := tables_of_dispatch h hc hlimit
  obtain ⟨targets, htargets, hholds⟩ := hroot.body
  have hl := @leads_switch r update fuel frame R _ 0 _ k _ _ hholds hroot.before hk (by omega) m
  have hlen : targets.length ≤ k := by
    have hlen := congrArg List.length htargets
    simp only [List.length_map, entries, List.length_range', Container.offset,
      Container.stop] at hlen
    omega
  rw [List.getD_eq_getElem?_getD, List.getElem?_eq_none (by simpa using hlen), Option.getD_none] at hl
  exact ⟨2, hl⟩

end

end Fragment

end LiveBinding
