import LiveBinding.Code.Artifact
import LiveBinding.Host.Action

namespace LiveBinding

structure InstanceId where
  index : Nat
deriving DecidableEq

/-- Who is told when the value of a cell changes. -/
inductive Listener where
  /-- Runs the update of a binding at a step. -/
  | binding (id : InstanceId) (step : Nat)
  | callback (action : Value → Action Unit)

namespace Listener

def isBinding (id : InstanceId) (step : Nat) : Listener → Bool
  | binding i s => i == id && s == step
  | callback _ => false

def belongsTo (id : InstanceId) : Listener → Bool
  | binding i _ => i == id
  | callback _ => false

end Listener

/-- How many locks are held, in 32 bits: one more than the largest number is none. -/
abbrev LockDepth := UInt32

/-- One lock less, where there is one. -/
def LockDepth.pred (d : LockDepth) : LockDepth := if d = 0 then 0 else d - 1

namespace LockDepth

@[simp] theorem pred_one : pred 1 = 0 := rfl

theorem toNat_pred (d : LockDepth) : d.pred.toNat = d.toNat - 1 := by
  by_cases h : d = 0
  · rw [h]
    rfl
  · have hpos : d.toNat ≠ 0 := fun hzero ↦ h (UInt32.toNat_inj.mp hzero)
    rw [pred, if_neg h]
    exact UInt32.toNat_sub_of_le d 1 (UInt32.le_iff_toNat_le.mpr (Nat.one_le_iff_ne_zero.mpr hpos))

end LockDepth

/-- A value that can be listened to. While it is locked its listeners are not told of changes; they
are told once when the last lock is given back. -/
structure Cell where
  value : Value
  listeners : List Listener := []
  lockDepth : LockDepth := 0
  pending : Bool := false

namespace Cell

def isLocked (c : Cell) : Bool := c.lockDepth != 0

theorem isLocked_iff {c : Cell} : c.isLocked ↔ c.lockDepth ≠ 0 := bne_iff_ne

def addListener (c : Cell) (l : Listener) : Cell := { c with listeners := c.listeners ++ [l] }

/-- Takes off the first listener of a binding for a step. -/
def removeListener (c : Cell) (id : InstanceId) (step : Nat) : Cell :=
  { c with listeners := c.listeners.eraseP (·.isBinding id step) }

def lock (c : Cell) : Cell := { c with lockDepth := c.lockDepth + 1 }

def subscriptions (c : Cell) (id : InstanceId) : Nat := c.listeners.countP (·.belongsTo id)

end Cell

/-- Where a property is kept. -/
inductive Slot where
  | plain (value : Value)
  | observable (cell : CellId)

structure HostObject where
  cls : ClassId
  /-- The name under which the object was made. -/
  label : String
  slots : List (String × Slot) := []

namespace HostObject

def slot? (o : HostObject) (property : String) : Option Slot := o.slots.lookup property

def setSlot (o : HostObject) (property : String) (slot : Slot) : HostObject :=
  if o.slots.any (·.1 == property) then
    { o with slots := o.slots.map fun (name, s) ↦ (name, if name == property then slot else s) }
  else { o with slots := o.slots ++ [(property, slot)] }

end HostObject

/-- A dynamic binding with its storage. -/
structure Instance where
  artifact : Artifact
  captures : Array Value
  scratch : Array Value
  flags : Array UInt64
  counters : Array Int32
  /-- The cell that the computed value is published to. -/
  result : CellId
  /-- Steps that were asked for while the result was locked. -/
  queued : List Nat := []
  /-- Nobody can reach a binding that is dropped; what listeners it left are passed over. -/
  alive : Bool := true

def Instance.new (artifact : Artifact) (result : CellId) : Instance where
  artifact := artifact
  captures := .replicate artifact.captures .null
  scratch := .replicate artifact.scratch .null
  flags := .replicate artifact.flags.storage 0
  counters := .replicate artifact.counters 0
  result := result

/-- A value as it is shown: objects by their labels, cells by what they hold. -/
inductive Shown where
  | value (v : Value)
  | object (label : String)
  | cell (content : Shown)
deriving DecidableEq, Inhabited

/-- What host code has recorded. -/
inductive Event where
  | call (method : String) (args : List Shown)
  | watch (tag : String) (value : Shown)

/-- The state of the host. -/
structure World where
  objects : Array HostObject := #[]
  cells : Array Cell := #[]
  instances : Array Instance := #[]
  /-- The objects that the host keeps by name, the latest first. -/
  names : List (String × ObjectId) := []
  /-- The bindings that the host keeps by name, the latest last. -/
  bindings : List (String × InstanceId) := []
  /-- How many objects host code has made. -/
  made : Nat := 0
  /-- The locals of the host frame. -/
  frame : List Value := []
  /-- What running code has in its hands: operands, arguments, and values given to listeners. -/
  held : List Value := []
  events : Array Event := #[]

namespace World

variable (w : World)

def find? (name : String) : Option ObjectId := w.names.lookup name

def cell? (c : CellId) : Option Cell := w.cells[c.index]?

def cellValue (c : CellId) : Value := ((w.cell? c).map Cell.value).getD .null

def modifyCell (c : CellId) (f : Cell → Cell) : World :=
  { w with cells := w.cells.modify c.index f }

def newCell (value : Value) : CellId × World :=
  (⟨w.cells.size⟩, { w with cells := w.cells.push { value } })

def object? (o : ObjectId) : Option HostObject := w.objects[o.index]?

def slot? (o : ObjectId) (property : String) : Option Slot :=
  (w.object? o).bind (·.slot? property)

/-- The value of a property, read through its cell if it has one. -/
def get? (o : ObjectId) (property : String) : Option Value :=
  (w.slot? o property).map fun
    | .plain v => v
    | .observable c => w.cellValue c

def observable? (o : ObjectId) (property : String) : Option CellId :=
  match w.slot? o property with
  | some (.observable c) => some c
  | _ => none

def setPlain (o : ObjectId) (property : String) (v : Value) : World :=
  { w with objects := w.objects.modify o.index (·.setSlot property (.plain v)) }

def addSlot (o : HostObject) : String × Value × Bool → HostObject × World
  | (property, v, true) =>
    let (c, w) := w.newCell v
    (o.setSlot property (.observable c), w)
  | (property, v, false) => (o.setSlot property (.plain v), w)

def addSlots (o : HostObject) (slots : List (String × Value × Bool)) : HostObject × World :=
  slots.foldl (fun (o, w) slot ↦ w.addSlot o slot) (o, w)

def forget (name : String) : World :=
  { w with names := w.names.filter (·.1 != name) }

/-- Keeps an object by a name, in place of an earlier one. -/
def nameObject (name : String) (o : ObjectId) : World :=
  { w with names := (name, o) :: (w.forget name).names }

/-- Makes an object that the host keeps by its label. -/
def newObject (cls : ClassId) (label : String) (slots : List (String × Value × Bool)) :
    ObjectId × World :=
  let (o, w) := w.addSlots { cls, label } slots
  let id : ObjectId := ⟨w.objects.size⟩
  (id, { w with objects := w.objects.push o }.nameObject label id)

def instance? (i : InstanceId) : Option Instance := w.instances[i.index]?

def modifyInstance (i : InstanceId) (f : Instance → Instance) : World :=
  { w with instances := w.instances.modify i.index f }

def drop (i : InstanceId) : World := w.modifyInstance i ({ · with alive := false })

def binding? (name : String) : Option InstanceId := w.bindings.lookup name

/-- Drops the binding that is kept by a name, if there is one. -/
def dropNamed (name : String) : World :=
  match w.binding? name with
  | some i => { w.drop i with bindings := w.bindings.filter (·.1 != name) }
  | none => w

/-- Keeps a binding by a name, in place of an earlier one, which is dropped. -/
def keep (name : String) (i : InstanceId) : World :=
  let w := w.dropNamed name
  { w with bindings := w.bindings ++ [(name, i)] }

/-- The cell that a binding publishes its value to. -/
def resultCell? (i : InstanceId) : Option CellId := (w.instance? i).map Instance.result

def valueOf (i : InstanceId) : Value := ((w.resultCell? i).map w.cellValue).getD .null

/-- How a value is shown. A cell may hold another cell, which is followed at most as often as there
are cells. -/
def displayWithin : Nat → Value → Shown
  | _, .object o => .object (((w.object? o).map HostObject.label).getD "")
  | 0, v => .value v
  | fuel + 1, .cell c => .cell (displayWithin fuel (w.cellValue c))
  | _ + 1, v => .value v

def display (v : Value) : Shown := w.displayWithin (w.cells.size + 1) v

/-- The structure of a value, as listings show it. -/
def inspectWithin : Nat → Value → String
  | _, .null => "Null"
  | _, .bool b => Op.wrap "Bool" (toString b)
  | _, .char c => Op.wrap "Char" (Text.quotedChar c)
  | _, .byte n => Op.wrap "Byte" (toString n.toInt)
  | _, .short n => Op.wrap "Short" (toString n.toInt)
  | _, .int n => Op.wrap "Int" (toString n.toInt)
  | _, .long n => Op.wrap "Long" (toString n.toInt)
  | _, .float x => Op.wrap "Float" (hostStyle.render x)
  | _, .double x => Op.wrap "Double" (hostStyle.render x)
  | _, .str s => Op.wrap "Str" (Text.quoted s)
  | _, .enum _ name => Op.wrap "Enum" name
  | _, .object o => Op.wrap "Object" (((w.object? o).map (·.cls.render)).getD "")
  | 0, .cell _ => Op.wrap "Cell" ""
  | fuel + 1, .cell c => Op.wrap "Cell" (inspectWithin fuel (w.cellValue c))

def inspect (v : Value) : String := w.inspectWithin (w.cells.size + 1) v

def inspectObject (o : HostObject) : String :=
  Op.braced "HostObject" [("class", o.cls.render), ("slots", toString o.slots.length)]

def inspectCell (c : Cell) : String :=
  Op.braced "ObservableValue" [("value", w.inspect c.value),
    ("listeners", toString c.listeners.length), ("lock_depth", toString c.lockDepth)]

def logEvent (e : Event) : World := { w with events := w.events.push e }

end World

end LiveBinding
