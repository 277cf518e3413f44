import DescriptorCodec.Symbol.Pool

/-!
# The fields of a record

Every field of a record is one two-byte word. Some words stand for themselves; the others refer
to a pool entry, and what the record says is what the entry holds. `Field.Value` is what a field
says, `Field.resolve` reads it off a word, and `Field.intern` finds the word for it.

A package name is a text in stored form. An optional text is absent where the word is zero; the
empty text is written as absent too, so reading does not tell the two apart.
-/

namespace DescriptorCodec

/-- What a word of a record stands for. -/
inductive Field where
  /-- The word itself. -/
  | word
  /-- A text of the pool. -/
  | utf8
  /-- A package name, which is a text of the pool in stored form. -/
  | packageName
  /-- The name of a class entry of the pool. -/
  | className
  /-- A text of the pool, or nothing. -/
  | optionalUtf8
  deriving DecidableEq, Repr

namespace Field

/-- What a field says. -/
abbrev Value : Field → Type
  | word => UInt16
  | utf8 => String
  | packageName => String
  | className => String
  | optionalUtf8 => Option String

/-- What the word of a field says, given the pool it refers to. -/
def resolve (pool : Pool) (bits : UInt16) : (field : Field) → Except Error field.Value
  | word => .ok bits
  | utf8 => pool.resolveUtf8 bits
  | packageName => (pool.resolveUtf8 bits).map Name.dotted
  | className => pool.resolveClass bits
  | optionalUtf8 => if bits = 0 then .ok none else (pool.resolveUtf8 bits).map some

/-- The word that says it, with the entries that it takes. -/
def intern : (field : Field) → field.Value → PoolM UInt16
  | word, bits => pure bits
  | utf8, text => Pool.internUtf8 text
  | packageName, name => Pool.internUtf8 (Name.internal name)
  | className, name => Pool.internClass name
  | optionalUtf8, none => pure 0
  | optionalUtf8, some text => if text.isEmpty then pure 0 else Pool.internUtf8 text

end Field

end DescriptorCodec
