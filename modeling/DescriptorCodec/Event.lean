import DescriptorCodec.Attribute.Kind

/-!
# Events

Encoding, decoding and version parsing report what they do. An event has a level, a message and
named fields; a computation that reports events adds them to the end of a log.
-/

namespace DescriptorCodec

/-- How much detail an event belongs to. -/
inductive Event.Level where
  | debug
  | trace
  deriving DecidableEq, Repr

def Event.Level.name : Event.Level → String
  | debug => "DEBUG"
  | trace => "TRACE"

inductive Event.Value where
  | text (value : String)
  | number (value : Nat)
  deriving DecidableEq, Repr

inductive Event where
  /-- The records of a module are about to be decoded. -/
  | decodingRecords (name : String) (records : Nat)
  /-- One record of a module, other than its first, is about to be decoded. -/
  | decodingRecord (name : String) (kind : AttributeKind) (length : Nat)
  /-- The descriptor of a module has been encoded. -/
  | encodedRecords (name : String) (records : Nat)
  /-- A stored attribute is none of a module's. -/
  | skippedAttribute (stored : String)
  /-- A cache holds the version of this text. -/
  | cacheHit (text : String)
  /-- A cache does not hold the version of this text. -/
  | cacheMiss (text : String)
  /-- A module has hashes of other modules but no algorithm to go with them. -/
  | droppedHashes (name : String) (count : Nat)
  deriving DecidableEq, Repr

namespace Event

def level : Event → Level
  | decodingRecords .. => .debug
  | decodingRecord .. => .trace
  | encodedRecords .. => .debug
  | skippedAttribute _ => .trace
  | cacheHit _ => .trace
  | cacheMiss _ => .trace
  | droppedHashes .. => .debug

/-- The fixed part of an event's text. -/
def message : Event → String
  | decodingRecords .. => "decoding module attributes"
  | decodingRecord .. => "decoding attribute"
  | encodedRecords .. => "encoded module attributes"
  | skippedAttribute _ => "skipping unrelated attribute"
  | cacheHit _ => "version cache hit"
  | cacheMiss _ => "version cache miss"
  | droppedHashes .. => "dropping module hashes without an algorithm"

def fields : Event → List (String × Value)
  | decodingRecords name records => [("module", .text name), ("attributes", .number records)]
  | decodingRecord name kind length =>
    [("module", .text name), ("attribute", .text kind.name), ("len", .number length)]
  | encodedRecords name records => [("module", .text name), ("attributes", .number records)]
  | skippedAttribute stored => [("attribute", .text stored)]
  | cacheHit text => [("version", .text text)]
  | cacheMiss text => [("version", .text text)]
  | droppedHashes name count => [("module", .text name), ("count", .number count)]

end Event

/-- A computation that reports events, in the order in which they happen. -/
abbrev Traced := StateM (Array Event)

def report (event : Event) : Traced Unit :=
  modify fun log => log.push event

@[simp] theorem run_report (event : Event) (log : Array Event) :
    (report event).run log = ((), log.push event) := rfl

end DescriptorCodec
