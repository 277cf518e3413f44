import DescriptorCodec.Record.Field

/-!
# The layout of a record

The layout of a record is the list of what it is made of: fields, and counts of the rows that
follow. Writing goes through the list once, takes the words from the pool, and adds to the pool
what is missing, in the order of the list.

A class can also be declared without being written, which only makes sure that the pool has it.
-/

namespace DescriptorCodec

/-- A piece of a record. -/
inductive Item where
  /-- One field. -/
  | field (field : Field) (value : field.Value)
  /-- The number of rows that follow, with the name of their table. -/
  | count (table : String) (rows : Nat)
  /-- A class entry that the pool has to have; nothing is written. -/
  | declare (className : String)

namespace Item

/-- Writes one piece at the end of a record. -/
def put (buffer : Buffer) : Item → PoolM Buffer
  | field kind value => do
    let bits ← kind.intern value
    return buffer.put .bits16 bits.toNat
  | count table rows => MonadExcept.ofExcept (buffer.putCount table rows)
  | declare name => do
    let _ ← Pool.internClass name
    return buffer

/-- The record with a layout. -/
def encode (layout : List Item) : PoolM Bytes := do
  let buffer ← layout.foldlM put Buffer.empty
  return buffer.toBytes

end Item

end DescriptorCodec
