import DescriptorCodec.Attribute.Basic

/-!
# Sets of records

The records of one module, at most one of each kind, in the order in which they were collected.
A descriptor is encoded into the records it needs, and decoded from the records that are there:
the record of its tables, which has to be there, comes first, and the others follow in the order
of their kinds, wherever they stand in the set.
-/

namespace DescriptorCodec

structure RecordSet where
  records : OrderedMap AttributeKind Bytes
  deriving BEq, Repr

namespace RecordSet

def empty : RecordSet := ⟨.empty⟩

instance : Inhabited RecordSet := ⟨empty⟩

def size (set : RecordSet) : Nat :=
  set.records.size

def isEmpty (set : RecordSet) : Bool :=
  set.records.isEmpty

def kinds (set : RecordSet) : List AttributeKind :=
  set.records.keys

def toList (set : RecordSet) : List (AttributeKind × Bytes) :=
  set.records.toList

def get? (set : RecordSet) (kind : AttributeKind) : Option Bytes :=
  set.records.get? kind

/-- Adds a record at the end; a second one of a kind is refused. -/
def insert (set : RecordSet) (kind : AttributeKind) (record : Bytes) : Except Error RecordSet :=
  match set.records.insertNew? kind record with
  | some records => .ok ⟨records⟩
  | none => .error (.duplicateAttribute kind)

/-- Adds the record of a stored attribute. What is none of a module's is passed over. -/
def insertNamed (set : RecordSet) (stored : String × Bytes) : ExceptT Error Traced RecordSet :=
  match AttributeKind.ofName? stored.1 with
  | some kind => MonadExcept.ofExcept (set.insert kind stored.2)
  | none => do
    report (.skippedAttribute stored.1)
    return set

/-- The records among the attributes stored in a container. -/
def ofNamed (stored : List (String × Bytes)) : ExceptT Error Traced RecordSet :=
  stored.foldlM insertNamed empty

/-- Adds the records of the given kinds that another set has, in the order of the kinds. -/
def insertFrom (set other : RecordSet) (kinds : List AttributeKind) : Except Error RecordSet :=
  kinds.foldlM (fun set kind =>
    match other.get? kind with
    | none => .ok set
    | some record => set.insert kind record) set

/-! ### Writing -/

/-- Adds the record of one kind that a descriptor needs, if it needs one. -/
def encodeKind (descriptor : Descriptor) (set : RecordSet) (kind : AttributeKind) :
    PoolM RecordSet :=
  match Attribute.ofDescriptor? descriptor kind with
  | none => pure set
  | some attr => do
    let record ← attr.encode
    MonadExcept.ofExcept (set.insert kind record)

def ofDescriptor (descriptor : Descriptor) : PoolM RecordSet :=
  AttributeKind.all.foldlM (encodeKind descriptor) empty

/-- Encodes a descriptor, and reports it when it is done. -/
def encode (descriptor : Descriptor) : ExceptT Error (StateT Pool Traced) RecordSet :=
  ExceptT.mk fun pool => do
    let (result, pool) := (ofDescriptor descriptor).run.run pool
    match result with
    | .ok set => report (.encodedRecords descriptor.name set.size)
    | .error _ => pure ()
    return (result, pool)

/-! ### Reading -/

/-- Hands the record of one kind to a builder, if it is there, and reports that first. -/
def decodeKind (set : RecordSet) (name : String) (pool : Pool) (cache : Option CacheId)
    (builder : Builder) (kind : AttributeKind) : CacheM Builder :=
  match set.get? kind with
  | none => pure builder
  | some record => do
    report (.decodingRecord name kind record.length)
    let attr ← Attribute.decode kind record pool cache
    MonadExcept.ofExcept (attr.apply builder)

/-- Decodes the descriptor of the module with the given name. -/
def decode (set : RecordSet) (name : String) (pool : Pool) (cache : Option CacheId) :
    CacheM Descriptor :=
  match set.get? .module with
  | none => throw (.missingAttribute .module)
  | some record => do
    report (.decodingRecords name set.size)
    let tables ← Attribute.decode .module record pool cache
    let builder ← MonadExcept.ofExcept (tables.apply (Builder.new name cache))
    let builder ← AttributeKind.all.tail.foldlM (set.decodeKind name pool cache) builder
    builder.build

end RecordSet

end DescriptorCodec
