import LiveBinding.Proofs.Coercions
import LiveBinding.Proofs.Operands

namespace LiveBinding

open Exec

namespace Coercion

open Literal

variable {text : String}

/-- Text is a whole number for the compiler if the host reads it as one. -/
theorem wholeText?_eq (text : String) : wholeText? text = parseInt64? text := by
  have hview : wholeText? text = (parseNumeric? text).bind toInt64? := by
    unfold wholeText?
    congr 1
  rw [hview]
  cases hn : parseInt64? text with
  | some n => rw [parseNumeric?_of_parseInt64? hn, Option.bind_some, toInt64?_ofInt64]
  | none =>
    cases hp : parseNumeric? text with
    | none => rfl
    | some v =>
      obtain ⟨x, rfl⟩ | ⟨n, hn', -⟩ := parseNumeric?_cases hp
      · rfl
      · cases hn.symm.trans hn'

theorem wholeBetween?_eq {lo hi : Int} (hlo : minLong ≤ lo) (hhi : hi ≤ maxLong) (text : String) :
    wholeBetween? lo hi text = (parseInt? lo hi text).map Int32.ofInt := by
  rw [wholeBetween?, wholeText?_eq, parseInt?_of_bounds hlo hhi, Option.map_bind]
  congr 1
  funext n
  dsimp only [Function.comp]
  split <;> rfl

theorem between_of_parseInt? {lo hi n : Int} (h : parseInt? lo hi text = some n) :
    lo ≤ n ∧ n ≤ hi := by
  unfold parseInt? at h
  dsimp only at h
  split at h
  · generalize (if (splitSign text.toList).1 then _ else _ : Int) = z at h
    split at h <;> cases h
    next hz => simpa using hz
  · cases h

theorem toInt_of_parseInt? {lo hi n : Int} (h : parseInt? lo hi text = some n)
    (hlo : minInt ≤ lo) (hhi : hi ≤ maxInt) : (Int32.ofInt n).toInt = n := by
  obtain ⟨hn, hn'⟩ := between_of_parseInt? h
  simp only [minInt, maxInt] at hlo hhi
  exact Int32.toInt_ofInt_of_le (by omega) (by omega)

variable {r : Registry} {update : Updater} {fuel : Nat} {frame : Frame}

/-- The constants of a kind are compiled of the texts that the host reads without fail, and are what
the host reads. -/
theorem constant_reads {p : Prim} (hp : p.isIntegral) (text : String) :
    (constant? text p = none ∧ ∃ e, p.read text = .error e) ∨
      ∃ ops v, constant? text p = some ops ∧ p.read text = .ok v ∧
        Pushes r update fuel frame ops v := by
  have hnarrow {kind : Prim} {n : Int32} {v : Value} (h : (Value.int n).convert kind = .ok v) :
      Pushes r update fuel frame ([Op.pushInt n] ++ [Op.convert .int kind]) v :=
    Pushes.gives (v := .int n) (fun _ ↦ rfl) fun _ ↦ h ▸ gives_convert _ _
  unfold Prim.read Value.parse
  cases p with
  | boolean | float | double => cases hp
  | char =>
    simp only [constant?]
    rcases text.toList with _ | ⟨c, _ | _⟩
    · exact .inl ⟨rfl, _, rfl⟩
    · exact .inr ⟨_, .char c, rfl, rfl, fun _ ↦ rfl⟩
    · exact .inl ⟨rfl, _, rfl⟩
  | byte =>
    rw [constant?, wholeBetween?_eq (by decide) (by decide), parseInt8?]
    cases h : parseInt? minByte maxByte text with
    | none => exact .inl ⟨rfl, _, rfl⟩
    | some n =>
      have hn := toInt_of_parseInt? h (by decide) (by decide)
      refine .inr ⟨_, .byte (Int8.ofInt n), rfl, rfl, hnarrow ?_⟩
      rw [Value.convert, Value.narrowInt_int]
      show Except.ok (Value.byte (Int8.ofInt (Int32.ofInt n).toInt)) = _
      rw [hn]
  | short =>
    rw [constant?, wholeBetween?_eq (by decide) (by decide), parseInt16?]
    cases h : parseInt? minShort maxShort text with
    | none => exact .inl ⟨rfl, _, rfl⟩
    | some n =>
      have hn := toInt_of_parseInt? h (by decide) (by decide)
      refine .inr ⟨_, .short (Int16.ofInt n), rfl, rfl, hnarrow ?_⟩
      rw [Value.convert, Value.narrowInt_int]
      show Except.ok (Value.short (Int16.ofInt (Int32.ofInt n).toInt)) = _
      rw [hn]
  | int =>
    rw [constant?, wholeBetween?_eq (by decide) (by decide), parseInt32?]
    cases parseInt? minInt maxInt text with
    | none => exact .inl ⟨rfl, _, rfl⟩
    | some n => exact .inr ⟨_, .int (Int32.ofInt n), rfl, rfl, fun _ ↦ rfl⟩
  | long =>
    rw [constant?, wholeText?_eq]
    cases parseInt64? text with
    | none => exact .inl ⟨rfl, _, rfl⟩
    | some n => exact .inr ⟨_, .long n, rfl, rfl, fun _ ↦ rfl⟩

theorem constant_boolean {ops : List Op} (h : constant? text .boolean = some ops) :
    ∃ b, Prim.boolean.read text = .ok (.bool b) ∧ Pushes r update fuel frame ops (.bool b) := by
  obtain ⟨b, hb, rfl⟩ := Option.map_eq_some_iff.mp h
  exact ⟨b, by rw [Prim.read, parseBoolean?_true hb], fun _ ↦ rfl⟩

/-- Types that text is read as in the same way when it is compiled and when it is run, but for the
booleans, of which the compiler takes only the two names. -/
inductive Spelled (r : Registry) : Ty → Prop
  | prim {p : Prim} : p.isIntegral ∨ p = .boolean → Spelled r (.prim p)
  | boxed {p : Prim} : p.isIntegral ∨ p = .boolean → Spelled r (.boxed p)
  | constant {c : ClassId} : (r.model.enumConstants (.class c)).isSome → Spelled r (.class c)
  | factory {c : ClassId} : (valueOf? r.model (.class c)).isSome → Spelled r (.class c)

end Coercion

/-- The static fields of an enum are its constants, each in its place. -/
structure Registry.EnumsRegistered (r : Registry) : Prop where
  constants : ∀ c names, r.model.enumConstants (.class c) = some names → ∀ name ∈ names,
    ∃ f ∈ r.fields, f.info.owner = .class c ∧ f.info.name = name
  fields : ∀ c, (r.model.enumConstants (.class c)).isSome → ∀ (i : Nat) (f : FieldDef), r.fields[i]? = some f →
    f.info.owner = .class c → f.info.id = ⟨i⟩ ∧ f.value = .enum c f.info.name

namespace Registry

variable {r : Registry}

/-- A registry with some more constants of an enum. -/
def withConstants (r : Registry) (c : ClassId) (names : List String) : Registry :=
  names.foldl (fun r name ↦ r.addStaticField (.class c) name (.class c) (.enum c name)) r

theorem fields_withConstants (c : ClassId) (names : List String) :
    (r.withConstants c names).classes = r.classes ∧
      (∀ f ∈ r.fields, f ∈ (r.withConstants c names).fields) ∧
      (∀ name ∈ names, ∃ f ∈ (r.withConstants c names).fields,
        f.info.owner = .class c ∧ f.info.name = name) ∧
      ∀ (i : Nat) (f : FieldDef), (r.withConstants c names).fields[i]? = some f →
        r.fields[i]? = some f ∨
          f.info.owner = .class c ∧ f.info.id = ⟨i⟩ ∧ f.value = .enum c f.info.name := by
  induction names generalizing r with
  | nil => exact ⟨rfl, fun _ h ↦ h, fun _ h ↦ (nomatch h), fun _ _ ↦ .inl⟩
  | cons name names ih =>
    obtain ⟨hclasses, hold, hnew, honly⟩ :=
      @ih (r.addStaticField (.class c) name (.class c) (.enum c name))
    refine ⟨hclasses, fun f hf ↦ hold f (Array.mem_push_of_mem _ hf), fun n hn ↦ ?_,
      fun i f hf ↦ ?_⟩
    · obtain rfl | hn := List.mem_cons.mp hn
      · exact ⟨_, hold _ Array.mem_push_self, rfl, rfl⟩
      · exact hnew n hn
    · obtain hf | hf := honly i f hf
      · simp only [addStaticField, Array.getElem?_push] at hf
        split at hf
        · next hi =>
          cases hf
          exact .inr ⟨rfl, by rw [hi], rfl⟩
        · exact .inl hf
      · exact .inr hf

/-- Defining an enum registers its constants, if no field belongs to a class that is yet to be
defined. -/
theorem enumsRegistered_defineEnum (hr : r.EnumsRegistered)
    (howners : ∀ f ∈ r.fields, ∀ c, f.info.owner = .class c → c.index < r.classes.size)
    (name : String) (names : List String) : (r.defineEnum name names).2.EnumsRegistered := by
  let c : ClassId := ⟨r.classes.size⟩
  obtain ⟨hclasses, hold, hnew, honly⟩ :=
    @fields_withConstants (r.defineClass name none).2 c names
  have hconstants (d : ClassId) : (r.defineEnum name names).2.model.enumConstants (.class d) =
      if d = c then some names else r.model.enumConstants (.class d) := by
    show ((((r.defineClass name none).2.withConstants c names).classes.modify r.classes.size
      ({ · with constants := some names }))[d.index]?).bind ClassDef.constants = _
    rw [hclasses]
    simp only [defineClass, Array.getElem?_modify, Array.getElem?_push]
    obtain ⟨i⟩ := d
    by_cases hi : i = r.classes.size
    · simp [c, hi]
    · have hne : (⟨i⟩ : ClassId) ≠ c := fun h ↦ hi (congrArg ClassId.index h)
      rw [if_neg hne, if_neg (Ne.symm hi), if_neg hi]
      rfl
  refine ⟨fun d ns hns n hn ↦ ?_, fun d hd i f hf howner ↦ ?_⟩
  · rw [hconstants] at hns
    split at hns
    · next hdc =>
      cases hns
      exact hdc ▸ hnew n hn
    · obtain ⟨f, hf, h⟩ := hr.constants d ns hns n hn
      exact ⟨f, hold f hf, h⟩
  · rw [hconstants] at hd
    obtain hf | ⟨hc, hid, hvalue⟩ := honly i f hf
    · split at hd
      · next hdc =>
        subst hdc
        have := howners f (Array.mem_of_getElem? hf) c howner
        exact absurd this (Nat.lt_irrefl _)
      · exact hr.fields d hd i f hf howner
    · obtain rfl : c = d := by simpa [hc] using howner
      exact ⟨hid, hvalue⟩

end Registry

/-- The run failed as it read a string, before it called a method. -/
def Outcome.FailsReading (o : Outcome) : Prop :=
  o.calls = [] ∧ ((∃ text target, o.result = .error (.error (.numberFormat text target))) ∨
    ∃ name enumName, o.result = .error (.error (.noSuchConstant name enumName)))

namespace Coercion

variable {r : Registry} {update : Updater} {fuel : Nat} {frame : Frame}
variable {t : Ty} {text : String} {m : Machine} {convert : List Op}

/-- What is compiled of a string puts on the stack what the conversion of the string would, and there
is nothing if the conversion fails as it reads the string. -/
structure Agrees (r : Registry) (update : Updater) (fuel : Nat) (frame : Frame) (t : Ty) (text : String)
    (m : Machine) (o : Outcome) : Prop where
  compiled : ∀ c, ofText? r.model text t = some c → c.Performs r update fuel frame m o
  accepted : t.isBoolean = false → ((ofText? r.model text t).isSome ↔ ¬o.FailsReading)
  boolean : t.isBoolean → (ofText? r.model text t).isSome →
    ∃ b, o = ⟨[], .ok (), { m with stack := .bool b :: m.stack }⟩

variable {o : Outcome} {x : Except RuntimeError Value}

theorem agrees_of_run
    (hrun : ∀ c, ofText? r.model text t = some c → c.run r update fuel frame none m = o)
    (haccepted : t.isBoolean = false → ((ofText? r.model text t).isSome ↔ ¬o.FailsReading))
    (hboolean : t.isBoolean → (ofText? r.model text t).isSome →
      ∃ b, o = ⟨[], .ok (), { m with stack := .bool b :: m.stack }⟩) :
    Agrees r update fuel frame t text m o where
  compiled _ hc := hrun _ hc ▸ Fragment.performs_run (isPlain_ofText hc)
  accepted := haccepted
  boolean := hboolean

/-- A conversion that calls no method, of a type whose text means the same for the compiler. -/
theorem agrees_of_gives (hb : t.isBoolean = false)
    (hx : Gives r update fuel frame m convert (.str text) x)
    (h : (ofText? r.model text t = none ∧ ∃ e, x = .error e ∧
        ((∃ text target, e = .numberFormat text target) ∨
          ∃ name enumName, e = .noSuchConstant name enumName)) ∨
      ∃ ops v, ofText? r.model text t = some (.ops ops) ∧ x = .ok v ∧
        Pushes r update fuel frame ops v) :
    Agrees r update fuel frame t text m
      (runOps r update fuel frame convert { m with stack := .str text :: m.stack }) := by
  obtain ⟨hnone, e, rfl, he⟩ | ⟨ops, v, hsome, rfl, hpush⟩ := h
  · obtain ⟨m', hm⟩ := hx m.stack
    refine agrees_of_run (fun c hc ↦ ?_) (fun _ ↦ ?_) fun h ↦ ?_
    · cases hnone.symm.trans hc
    · have hfails : Outcome.FailsReading ⟨[], .error (.error e), m'⟩ := by
        refine ⟨rfl, ?_⟩
        obtain ⟨text, target, rfl⟩ | ⟨name, enumName, rfl⟩ := he
        · exact .inl ⟨_, _, rfl⟩
        · exact .inr ⟨_, _, rfl⟩
      rw [hnone, hm]
      exact ⟨fun h ↦ (nomatch h), fun h ↦ absurd hfails h⟩
    · cases hb.symm.trans h
  · have hm : runOps r update fuel frame convert { m with stack := .str text :: m.stack } =
        ⟨[], .ok (), { m with stack := v :: m.stack }⟩ := hx m.stack
    refine agrees_of_run (fun c hc ↦ ?_) (fun _ ↦ ?_) fun h ↦ ?_
    · obtain rfl : c = .ops ops := Option.some.inj (hc.symm.trans hsome)
      rw [hm]
      exact hpush m
    · rw [hsome, hm]
      refine ⟨fun _ ↦ ?_, fun _ ↦ rfl⟩
      rintro ⟨-, ⟨_, _, h⟩ | ⟨_, _, h⟩⟩ <;> cases h
    · cases hb.symm.trans h

/-- A conversion to a boolean, which the compiler makes of fewer texts. -/
theorem agrees_boolean {x : Except RuntimeError Value} (hb : t.isBoolean)
    (hx : Gives r update fuel frame m convert (.str text) x)
    (h : ∀ c, ofText? r.model text t = some c →
      ∃ ops b, c = .ops ops ∧ x = .ok (.bool b) ∧ Pushes r update fuel frame ops (.bool b)) :
    Agrees r update fuel frame t text m
      (runOps r update fuel frame convert { m with stack := .str text :: m.stack }) := by
  refine agrees_of_run (fun c hc ↦ ?_) (fun h ↦ ?_) fun _ hsome ↦ ?_
  · obtain ⟨ops, b, rfl, rfl, hpush⟩ := h c hc
    exact (hpush m).trans (hx m.stack).symm
  · cases hb.symm.trans h
  · obtain ⟨c, hc⟩ := Option.isSome_iff_exists.mp hsome
    obtain ⟨ops, b, rfl, rfl, -⟩ := h c hc
    exact ⟨b, hx m.stack⟩

/-- What the conversion of a string comes to is decided by the code for strings that are not null. -/
theorem performs_text {default : List Op} (ha : r.model.isAssignable .str t = false)
    (hc : conversion? r.model .str t = some convert) (hd : defaultValue? t = some default)
    (h : Agrees r update fuel frame t text m
      (runOps r update fuel frame convert { m with stack := .str text :: m.stack })) :
    ∃ c o, coerce? r.model .str t = some c ∧
      c.Performs r update fuel frame { m with stack := .str text :: m.stack } o ∧
      Agrees r update fuel frame t text m o := by
  have hcoerce : coerce? r.model .str t = some (.nullGuard (.ops convert) (.ops default)) := by
    simp [coerce?, ha, hc, hd, Ty.isReference]
  refine ⟨_, _, hcoerce, Fragment.performs_run (isPlain_coerce hcoerce), ?_⟩
  rwa [run_nullGuard]

theorem agrees_prim {p : Prim} (hp : p.isIntegral ∨ p = .boolean) :
    Agrees r update fuel frame (.prim p) text m
      (runOps r update fuel frame [parse p] { m with stack := .str text :: m.stack }) := by
  obtain hp | rfl := hp
  · have hb : (Ty.prim p).isBoolean = false := by cases p <;> first | rfl | cases hp
    refine agrees_of_gives hb (gives_parse p text) ?_
    obtain ⟨hnone, e, he⟩ | ⟨ops, v, hsome, hv, hpush⟩ := constant_reads hp text
    · exact .inl ⟨congrArg (Option.map Fragment.ops) hnone, e, he, .inl ⟨_, _, Prim.read_error he⟩⟩
    · exact .inr ⟨ops, v, congrArg (Option.map Fragment.ops) hsome, hv, hpush⟩
  · refine agrees_boolean rfl (gives_parse _ text) fun c hc ↦ ?_
    obtain ⟨ops, hops, rfl⟩ := Option.map_eq_some_iff.mp hc
    obtain ⟨b, hb, hpush⟩ := constant_boolean hops
    exact ⟨ops, b, rfl, hb, hpush⟩

theorem agrees_boxed {p : Prim} (hp : p.isIntegral ∨ p = .boolean) :
    Agrees r update fuel frame (.boxed p) text m
      (runOps r update fuel frame [parse p, .box p] { m with stack := .str text :: m.stack }) := by
  have hbox {ops : List Op} {v : Value} (h : Pushes r update fuel frame ops v) :
      Pushes r update fuel frame (ops ++ [Op.box p]) v := h.gives fun _ ↦ gives_box p
  obtain hp | rfl := hp
  · have hb : (Ty.boxed p).isBoolean = false := by cases p <;> first | rfl | cases hp
    refine agrees_of_gives hb (gives_parseBoxed p text) ?_
    obtain ⟨hnone, e, he⟩ | ⟨ops, v, hsome, hv, hpush⟩ := constant_reads hp text
    · exact .inl ⟨congrArg (Option.map _) hnone, e, he, .inl ⟨_, _, Prim.read_error he⟩⟩
    · exact .inr ⟨_, v, congrArg (Option.map _) hsome, hv, hbox hpush⟩
  · refine agrees_boolean rfl (gives_parseBoxed _ text) fun c hc ↦ ?_
    obtain ⟨ops, hops, rfl⟩ := Option.map_eq_some_iff.mp hc
    obtain ⟨b, hb, hpush⟩ := constant_boolean hops
    exact ⟨_, b, rfl, hb, hbox hpush⟩

theorem mem_of_matchConstant? {names : List String} {name : String}
    (h : matchConstant? names text = some name) : name ∈ names := by
  rw [matchConstant?, Option.or_eq_some_iff, Option.or_eq_some_iff] at h
  obtain h | ⟨-, h | ⟨-, h⟩⟩ := h <;> exact List.mem_of_find?_eq_some h

/-- The static field of a constant holds that constant. -/
theorem staticField_constant (hr : r.EnumsRegistered) {c : ClassId} {names : List String}
    (hc : r.model.enumConstants (.class c) = some names) {name : String} (hname : name ∈ names) :
    ∃ f, r.model.staticField (.class c) name = some f ∧ r.staticValue f.id = .ok (.enum c name) := by
  obtain ⟨d, hd, howner, hdname⟩ := hr.constants c names hc name hname
  have hfound : (r.fields.find? fun f ↦ f.info.owner == .class c && f.info.name == name).isSome := by
    rw [Array.find?_isSome]
    exact ⟨d, hd, by simp [howner, hdname]⟩
  obtain ⟨f, hf⟩ := Option.isSome_iff_exists.mp hfound
  have hp := Array.find?_some hf
  simp only [Bool.and_eq_true, beq_iff_eq] at hp
  obtain ⟨i, hi, hget⟩ := Array.getElem_of_mem (Array.mem_of_find?_eq_some hf)
  have hi : r.fields[i]? = some f := by rw [Array.getElem?_eq_getElem hi, hget]
  obtain ⟨hid, hvalue⟩ := hr.fields c (by rw [hc]; rfl) i f hi hp.1
  refine ⟨f.info, by simp only [Registry.model, hf, Option.map_some], ?_⟩
  simp only [Registry.staticValue, hid, hi, hvalue, hp.2]

theorem agrees_enum (hr : r.EnumsRegistered) {c : ClassId}
    (hc : (r.model.enumConstants (.class c)).isSome) :
    Agrees r update fuel frame (.class c) text m
      (runOps r update fuel frame [.enumValueOf c] { m with stack := .str text :: m.stack }) := by
  obtain ⟨names, hnames⟩ := Option.isSome_iff_exists.mp hc
  refine agrees_of_gives rfl (gives_enumValueOf c text) ?_
  have htext : ofText? r.model text (.class c) =
      ((matchConstant? names text).bind (r.model.staticField (.class c))).map fun f ↦
        .op (.getStatic f.id) := by
    simp only [ofText?, hnames]
  obtain ⟨d, hd, hdnames⟩ := Option.bind_eq_some_iff.mp hnames
  rw [htext, Registry.enumValueOf, hd]
  simp only [hdnames, Option.getD_some]
  cases hmatch : matchConstant? names text with
  | none => exact .inl ⟨rfl, _, rfl, .inr ⟨_, _, rfl⟩⟩
  | some name =>
    obtain ⟨f, hf, hvalue⟩ := staticField_constant hr hnames (mem_of_matchConstant? hmatch)
    refine .inr ⟨[.getStatic f.id], .enum c name, ?_, rfl, fun m ↦ ?_⟩
    · rw [Option.bind_some, hf]
      rfl
    · refine runOps_cons ?_ []
      simp only [Does, runOp, step, bind_apply, hvalue, Exec.ofExcept, pure_apply, push_apply]
      rfl

theorem agrees_factory {c : ClassId} {f : MethodInfo} (hf : valueOf? r.model (.class c) = some f)
    (hc : r.model.enumConstants (.class c) = none) :
    Agrees r update fuel frame (.class c) text m
      (runOps r update fuel frame [.invokeStatic f.id 1] { m with stack := .str text :: m.stack }) := by
  have htext : ofText? r.model text (.class c) = some (.ops [.pushStr text, .invokeStatic f.id 1]) := by
    simp only [ofText?, hc, hf, Option.map_some]
  refine agrees_of_run (fun d hd ↦ ?_) (fun _ ↦ ?_) fun h ↦ absurd h Bool.false_ne_true
  · obtain rfl : d = .ops _ := Option.some.inj (hd.symm.trans htext)
    have hpush : Does r update fuel frame (.pushStr text) m
        { m with stack := .str text :: m.stack } := rfl
    exact runOps_cons hpush _
  · rw [htext, runOps_invokeStatic]
    refine ⟨fun _ h ↦ ?_, fun _ ↦ rfl⟩
    have hcalls := h.1
    split at hcalls <;> cases hcalls

end Coercion

open Coercion in
/-- Text that is compiled to a value of a type puts the same on the stack, or fails with the same
error, as the conversion of the text while it runs; and text is refused by the compiler if and only if
the conversion fails as it reads it. Of booleans the compiler takes fewer texts. -/
theorem literal_agrees {r : Registry} {update : Updater} {fuel : Nat} {frame : Frame} {t : Ty}
    (hr : r.EnumsRegistered) (ht : Spelled r t) (text : String) (m : Machine) :
    ∃ c o, coerce? r.model .str t = some c ∧
      c.Performs r update fuel frame { m with stack := .str text :: m.stack } o ∧
      Agrees r update fuel frame t text m o := by
  cases ht with
  | @prim p hp =>
    obtain ⟨default, hd⟩ : ∃ ops, defaultValue? (.prim p) = some ops := by cases p <;> exact ⟨_, rfl⟩
    exact performs_text rfl rfl hd (agrees_prim hp)
  | boxed hp => exact performs_text rfl rfl rfl (agrees_boxed hp)
  | @constant c hc => exact performs_text rfl (if_pos hc) rfl (agrees_enum hr hc)
  | @factory c hf =>
    cases hc : r.model.enumConstants (.class c) with
    | some names =>
      have hc : (r.model.enumConstants (.class c)).isSome := by rw [hc]; rfl
      exact performs_text rfl (if_pos hc) rfl (agrees_enum hr hc)
    | none =>
      obtain ⟨f, hf⟩ := Option.isSome_iff_exists.mp hf
      have hconv : conversion? r.model .str (.class c) = some [.invokeStatic f.id 1] := by
        simp [conversion?, hc, hf]
      exact performs_text rfl hconv rfl (agrees_factory hf hc)

namespace Sample

/-- A host that has an enum. -/
def painted : Registry := (Registry.defineEnum {} "Color" ["RED", "DARK_BLUE"]).2

theorem enumsRegistered_painted : painted.EnumsRegistered := by
  refine Registry.enumsRegistered_defineEnum ⟨fun c names h ↦ ?_, fun c h ↦ ?_⟩ (fun f hf ↦ ?_) _ _
  · cases h
  · cases h
  · simp at hf

end Sample

open Sample Coercion in
theorem literal_agrees_constant : painted.EnumsRegistered ∧ Spelled painted (.class ⟨0⟩) ∧
    ∃ c o, coerce? painted.model .str (.class ⟨0⟩) = some c ∧
      c.Performs painted (fun _ _ ↦ pure ()) 1 {} { world := {}, stack := [.str "darkBlue"] } o ∧
      Agrees painted (fun _ _ ↦ pure ()) 1 {} (.class ⟨0⟩) "darkBlue" { world := {} } o :=
  have hc : Spelled painted (.class ⟨0⟩) := .constant rfl
  ⟨enumsRegistered_painted, hc,
    literal_agrees enumsRegistered_painted hc "darkBlue" { world := {} }⟩

end LiveBinding
