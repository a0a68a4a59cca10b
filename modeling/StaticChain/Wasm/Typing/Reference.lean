import StaticChain.Wasm.Typing.Context

/-!
# Typing of references and objects

What the instructions on references, structures and arrays make of a point. A packed field is read
with a sign or without one, any other field as it is; only mutable fields are written.
-/

namespace StaticChain.Wasm

/-- What a reference of the first type is known to be once it is found not to be of the second. -/
def RefType.without (a b : RefType) : RefType := { a with nullable := a.nullable && !b.nullable }

/-- Whether a field can be read so. -/
def FieldType.readable (field : FieldType) (sign : Option Sign) : Bool :=
  field.storage.isPacked == sign.isSome

/-- Whether the bytes of a data segment can fill the field. -/
def FieldType.isPlain (field : FieldType) : Bool := !field.storage.unpacked.isRef

namespace Context

variable (c : Context)

/-- A reference to an object of a defined type. -/
def objectRef? (nullable : Bool) (type : Nat) : Option ValType :=
  c.types.numbers[type]?.map fun number => .ref ⟨nullable, .index number⟩

/-- A nullable reference to all that can be an object of a heap type. -/
def topRef? (heap : HeapType) : Option ValType :=
  (c.types.kind? heap).map fun kind => .ref ⟨true, .kind kind.top⟩

/-- Whether there is a data segment of a number, and its number was announced. -/
def hasData (data : Nat) : Bool := c.dataCount.any (data < ·)

/-- Whether an element segment can fill storage. -/
def elementFits (element : Nat) (ty : StorageType) : Bool :=
  ty.unpacked.isRef &&
    c.elements[element]?.any fun found => c.types.isBelow (.ref found) ty.unpacked

/-- Takes a reference to objects of one kind and turns it into one to another. -/
def convert (source target : HeapKind) (p : Point) : Option Point := do
  let (operand, p) ← c.popKind source p
  return p.pushOperand (operand.converted target)

def checkRef (op : RefOp) (p : Point) : Option Point := do
  match op with
  | .null heap => return p.push (.ref ⟨true, ← c.types.heap? heap⟩)
  | .isNull => return (← p.popRef).2.push .i32
  | .func function =>
    guard (c.declared.contains function)
    return p.push (.ref ⟨false, .index (← c.functions[function]?)⟩)
  | .eq =>
    let (_, p) ← c.popKind .eq p
    let (_, p) ← c.popKind .eq p
    return p.push .i32
  | .asNonNull =>
    let (operand, p) ← p.popRef
    return p.pushOperand operand.nonNull
  | .test type =>
    let type ← c.types.ref? type
    c.apply [← c.topRef? type.heap] [.i32] p
  | .cast type =>
    let type ← c.types.ref? type
    c.apply [← c.topRef? type.heap] [.ref type] p
  | .i31 => c.apply [.i32] [.ref ⟨false, .kind .i31⟩] p
  | .i31Get _ => return (← c.popKind .i31 p).2.push .i32
  | .internalize => c.convert .external .any p
  | .externalize => c.convert .any .external p

def checkObject (op : ObjectOp) (p : Point) : Option Point := do
  match op with
  | .structNew type =>
    let fields ← c.types.struct? type
    c.apply (fields.map (·.storage.unpacked)) [← c.objectRef? false type] p
  | .structDefault type =>
    let fields ← c.types.struct? type
    guard (fields.all (·.storage.unpacked.hasDefault))
    return p.push (← c.objectRef? false type)
  | .structGet sign type index =>
    let field ← (← c.types.struct? type)[index]?
    guard (field.readable sign)
    c.apply [← c.objectRef? true type] [field.storage.unpacked] p
  | .structSet type index =>
    let field ← (← c.types.struct? type)[index]?
    guard field.mutable
    c.popAll [← c.objectRef? true type, field.storage.unpacked] p
  | .arrayNew type =>
    let element ← c.types.array? type
    c.apply [element.storage.unpacked, .i32] [← c.objectRef? false type] p
  | .arrayDefault type =>
    let element ← c.types.array? type
    guard element.storage.unpacked.hasDefault
    c.apply [.i32] [← c.objectRef? false type] p
  | .arrayFixed type count =>
    let element ← c.types.array? type
    let p ← c.popMany count element.storage.unpacked p
    return p.push (← c.objectRef? false type)
  | .arrayOfData type data =>
    let element ← c.types.array? type
    guard (element.isPlain && c.hasData data)
    c.apply [.i32, .i32] [← c.objectRef? false type] p
  | .arrayOfElements type source =>
    let element ← c.types.array? type
    guard (c.elementFits source element.storage)
    c.apply [.i32, .i32] [← c.objectRef? false type] p
  | .arrayGet sign type =>
    let element ← c.types.array? type
    guard (element.readable sign)
    c.apply [← c.objectRef? true type, .i32] [element.storage.unpacked] p
  | .arraySet type =>
    let element ← c.types.array? type
    guard element.mutable
    c.popAll [← c.objectRef? true type, .i32, element.storage.unpacked] p
  | .arrayLength => return (← c.popKind .array p).2.push .i32
  | .arrayFill type =>
    let element ← c.types.array? type
    guard element.mutable
    c.popAll [← c.objectRef? true type, .i32, element.storage.unpacked, .i32] p
  | .arrayCopy target source =>
    let written ← c.types.array? target
    let read ← c.types.array? source
    guard (written.mutable && c.types.storageIsBelow read.storage written.storage)
    c.popAll [← c.objectRef? true target, .i32, ← c.objectRef? true source, .i32, .i32] p
  | .arrayInitData type data =>
    let element ← c.types.array? type
    guard (element.mutable && element.isPlain && c.hasData data)
    c.popAll [← c.objectRef? true type, .i32, .i32, .i32] p
  | .arrayInitElements type source =>
    let element ← c.types.array? type
    guard (element.mutable && c.elementFits source element.storage)
    c.popAll [← c.objectRef? true type, .i32, .i32, .i32] p

end Context

end StaticChain.Wasm
