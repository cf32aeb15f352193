import LiveBinding.Code.Op
import LiveBinding.Image.Codec

namespace LiveBinding.Codec

def label : Codec Label := u32.imap Label.index fun n ↦ some ⟨n⟩

def prim : Codec Prim := choice Prim.all

def binaryOp : Codec BinaryOp := choice BinaryOp.all

def single : Codec Single := u32.imap (·.bits.toNat) fun n ↦ some ⟨BitVec.ofNat _ n⟩

def double : Codec Double := u64.imap (·.bits.toNat) fun n ↦ some ⟨BitVec.ofNat _ n⟩

def int32 : Codec Int32 := (int 4).imap Int32.toInt fun n ↦ some (.ofInt n)

def int64 : Codec Int64 := (int 8).imap Int64.toInt fun n ↦ some (.ofInt n)

def word : Codec UInt64 := u64.imap UInt64.toNat fun n ↦ some (.ofNat n)

/-- A call by its method and the number of its arguments. -/
def callCodec : Codec (Nat × Nat) := pair u32 u8

def switchCodec : Codec (Nat × List Label × Label) := pair u32 (pair (list label) label)

/-- An instruction is written as its number and its operands. -/
def encodeOp : Op → List UInt8
  | .pushNull => u32.encode 0
  | .pushBool b => u32.encode 1 ++ bool.encode b
  | .pushInt n => u32.encode 2 ++ int32.encode n
  | .pushLong n => u32.encode 3 ++ int64.encode n
  | .pushFloat x => u32.encode 4 ++ single.encode x
  | .pushDouble x => u32.encode 5 ++ double.encode x
  | .pushChar c => u32.encode 6 ++ char.encode c
  | .pushStr s => u32.encode 7 ++ string.encode s
  | .loadLocal n => u32.encode 8 ++ u32.encode n
  | .loadCapture n => u32.encode 9 ++ u32.encode n
  | .storeCapture n => u32.encode 10 ++ u32.encode n
  | .loadScratch n => u32.encode 11 ++ u32.encode n
  | .storeScratch n => u32.encode 12 ++ u32.encode n
  | .loadStep => u32.encode 13
  | .dup => u32.encode 14
  | .pop => u32.encode 15
  | .swap => u32.encode 16
  | .getProperty s => u32.encode 17 ++ string.encode s
  | .getObservable s => u32.encode 18 ++ string.encode s
  | .observableValue => u32.encode 19
  | .getStatic f => u32.encode 20 ++ u32.encode f.index
  | .invoke m argc => u32.encode 21 ++ callCodec.encode (m.index, argc)
  | .invokeStatic m argc => u32.encode 22 ++ callCodec.encode (m.index, argc)
  | .construct m argc => u32.encode 23 ++ callCodec.encode (m.index, argc)
  | .charAt => u32.encode 24
  | .arith op kind => u32.encode 25 ++ (pair binaryOp prim).encode (op, kind)
  | .neg kind => u32.encode 26 ++ prim.encode kind
  | .cmp op kind => u32.encode 27 ++ (pair binaryOp prim).encode (op, kind)
  | .refEq => u32.encode 28
  | .not => u32.encode 29
  | .concat => u32.encode 30
  | .convert source target => u32.encode 31 ++ (pair prim prim).encode (source, target)
  | .box kind => u32.encode 32 ++ prim.encode kind
  | .unbox kind => u32.encode 33 ++ prim.encode kind
  | .parseNumber kind => u32.encode 34 ++ prim.encode kind
  | .parseBool => u32.encode 35
  | .parseChar => u32.encode 36
  | .toStr => u32.encode 37
  | .enumValueOf c => u32.encode 38 ++ u32.encode c.index
  | .jump l => u32.encode 39 ++ label.encode l
  | .jumpIfFalse l => u32.encode 40 ++ label.encode l
  | .jumpIfTrue l => u32.encode 41 ++ label.encode l
  | .jumpIfNull l => u32.encode 42 ++ label.encode l
  | .jumpIfNonNull l => u32.encode 43 ++ label.encode l
  | .jumpIfSame l => u32.encode 44 ++ label.encode l
  | .jumpIfZero l => u32.encode 45 ++ label.encode l
  | .tableSwitch low targets l => u32.encode 46 ++ switchCodec.encode (low, targets, l)
  | .flagTest mask => u32.encode 47 ++ word.encode mask
  | .flagAssign mask value => u32.encode 48 ++ (pair word bool).encode (mask, value)
  | .bitTest bit => u32.encode 49 ++ u32.encode bit
  | .bitAssign bit value => u32.encode 50 ++ (pair u32 bool).encode (bit, value)
  | .counterLoad c => u32.encode 51 ++ u32.encode c
  | .counterAdd c delta => u32.encode 52 ++ (pair u32 int32).encode (c, delta)
  | .subscribe step => u32.encode 53 ++ u32.encode step
  | .unsubscribe step => u32.encode 54 ++ u32.encode step
  | .publish => u32.encode 55
  | .lockAcquire => u32.encode 56
  | .lockRelease => u32.encode 57
  | .fault s => u32.encode 58 ++ string.encode s
  | .return => u32.encode 59

/-- Reads the operands of an instruction. -/
def operand {α : Type} (c : Codec α) (make : α → Op) (bytes : List UInt8) :
    Option (Op × List UInt8) :=
  (c.decode bytes).map fun (a, rest) ↦ (make a, rest)

/-- Reads the operands that follow the number of an instruction. -/
def decodeOperands (bytes : List UInt8) : Nat → Option (Op × List UInt8)
  | 0 => some (.pushNull, bytes)
  | 1 => operand bool .pushBool bytes
  | 2 => operand int32 .pushInt bytes
  | 3 => operand int64 .pushLong bytes
  | 4 => operand single .pushFloat bytes
  | 5 => operand double .pushDouble bytes
  | 6 => operand char .pushChar bytes
  | 7 => operand string .pushStr bytes
  | 8 => operand u32 .loadLocal bytes
  | 9 => operand u32 .loadCapture bytes
  | 10 => operand u32 .storeCapture bytes
  | 11 => operand u32 .loadScratch bytes
  | 12 => operand u32 .storeScratch bytes
  | 13 => some (.loadStep, bytes)
  | 14 => some (.dup, bytes)
  | 15 => some (.pop, bytes)
  | 16 => some (.swap, bytes)
  | 17 => operand string .getProperty bytes
  | 18 => operand string .getObservable bytes
  | 19 => some (.observableValue, bytes)
  | 20 => operand u32 (fun n ↦ .getStatic ⟨n⟩) bytes
  | 21 => operand callCodec (fun (m, argc) ↦ .invoke ⟨m⟩ argc) bytes
  | 22 => operand callCodec (fun (m, argc) ↦ .invokeStatic ⟨m⟩ argc) bytes
  | 23 => operand callCodec (fun (m, argc) ↦ .construct ⟨m⟩ argc) bytes
  | 24 => some (.charAt, bytes)
  | 25 => operand (pair binaryOp prim) (fun (op, kind) ↦ .arith op kind) bytes
  | 26 => operand prim .neg bytes
  | 27 => operand (pair binaryOp prim) (fun (op, kind) ↦ .cmp op kind) bytes
  | 28 => some (.refEq, bytes)
  | 29 => some (.not, bytes)
  | 30 => some (.concat, bytes)
  | 31 => operand (pair prim prim) (fun (source, target) ↦ .convert source target) bytes
  | 32 => operand prim .box bytes
  | 33 => operand prim .unbox bytes
  | 34 => operand prim .parseNumber bytes
  | 35 => some (.parseBool, bytes)
  | 36 => some (.parseChar, bytes)
  | 37 => some (.toStr, bytes)
  | 38 => operand u32 (fun n ↦ .enumValueOf ⟨n⟩) bytes
  | 39 => operand label .jump bytes
  | 40 => operand label .jumpIfFalse bytes
  | 41 => operand label .jumpIfTrue bytes
  | 42 => operand label .jumpIfNull bytes
  | 43 => operand label .jumpIfNonNull bytes
  | 44 => operand label .jumpIfSame bytes
  | 45 => operand label .jumpIfZero bytes
  | 46 => operand switchCodec (fun (low, targets, l) ↦ .tableSwitch low targets l) bytes
  | 47 => operand word .flagTest bytes
  | 48 => operand (pair word bool) (fun (mask, value) ↦ .flagAssign mask value) bytes
  | 49 => operand u32 .bitTest bytes
  | 50 => operand (pair u32 bool) (fun (bit, value) ↦ .bitAssign bit value) bytes
  | 51 => operand u32 .counterLoad bytes
  | 52 => operand (pair u32 int32) (fun (c, delta) ↦ .counterAdd c delta) bytes
  | 53 => operand u32 .subscribe bytes
  | 54 => operand u32 .unsubscribe bytes
  | 55 => some (.publish, bytes)
  | 56 => some (.lockAcquire, bytes)
  | 57 => some (.lockRelease, bytes)
  | 58 => operand string .fault bytes
  | 59 => some (.return, bytes)
  | _ => none

def op : Codec Op where
  encode := encodeOp
  decode bytes := (u32.decode bytes).bind fun (n, rest) ↦ decodeOperands rest n

end LiveBinding.Codec
