/-!
# Big-endian words

A record is a string of bytes, and every integer in it is an unsigned word of one, two, four or
eight bytes, most significant byte first. `toBytes` and `ofBytes` convert between a word's value
and its bytes, and `read` takes a word off the front of a byte string.

Values are natural numbers and bytes are a list, so that a record can be taken apart from the
front without index arithmetic. A value that does not fit its word is written modulo the word.
-/

namespace DescriptorCodec

/-- The bytes of a record, in the order in which they are stored. -/
abbrev Bytes := List UInt8

/-- The widths of the unsigned words a record is made of. -/
inductive Width where
  | bits8
  | bits16
  | bits32
  | bits64
  deriving DecidableEq, Repr

namespace Width

/-- The number of bytes a word of this width takes. -/
def size : Width → Nat
  | bits8 => 1
  | bits16 => 2
  | bits32 => 4
  | bits64 => 8

theorem size_pos (width : Width) : 0 < width.size := by
  cases width <;> decide

end Width

namespace BigEndian

/-- The lowest `size` bytes of `value`, most significant first. -/
def toBytes : Nat → Nat → Bytes
  | 0, _ => []
  | size + 1, value => toBytes size (value / 256) ++ [UInt8.ofNat value]

@[simp] theorem toBytes_zero (value : Nat) : toBytes 0 value = [] := rfl

theorem toBytes_succ (size value : Nat) :
    toBytes (size + 1) value = toBytes size (value / 256) ++ [UInt8.ofNat value] := rfl

@[simp] theorem length_toBytes (size value : Nat) : (toBytes size value).length = size := by
  induction size generalizing value with
  | zero => rfl
  | succ size ih => simp [toBytes_succ, ih]

/-- How many values `size` bytes can hold. -/
def range : Nat → Nat
  | 0 => 1
  | size + 1 => 256 * range size

/-- The number that bytes spell, most significant first. -/
def ofBytes (bytes : Bytes) : Nat :=
  bytes.foldl (fun value byte => value * 256 + byte.toNat) 0

@[simp] theorem ofBytes_nil : ofBytes [] = 0 := rfl

theorem ofBytes_append_singleton (bytes : Bytes) (byte : UInt8) :
    ofBytes (bytes ++ [byte]) = ofBytes bytes * 256 + byte.toNat := by
  simp [ofBytes]

/-- Bytes written for a value spell that value, reduced to what the width holds. -/
theorem ofBytes_toBytes (size value : Nat) :
    ofBytes (toBytes size value) = value % range size := by
  induction size generalizing value with
  | zero => simp [range, Nat.mod_one]
  | succ size ih =>
    have last : (UInt8.ofNat value).toNat = value % 256 := by simp
    rw [toBytes_succ, ofBytes_append_singleton, ih, last, range, Nat.mod_mul]
    omega

/-- Takes a word off the front of `bytes`: its value and the bytes after it, or nothing when
fewer bytes are left than the word takes. -/
def read (width : Width) (bytes : Bytes) : Option (Nat × Bytes) :=
  let word := bytes.take width.size
  if word.length = width.size then some (ofBytes word, bytes.drop width.size) else none

/-- A word can be read exactly when its bytes are there. -/
theorem read_eq_none_iff (width : Width) (bytes : Bytes) :
    read width bytes = none ↔ bytes.length < width.size := by
  simp only [read, List.length_take]
  split <;> simp <;> omega

/-- What a successful read returns. -/
theorem read_eq_some_iff {width : Width} {bytes : Bytes} {value : Nat} {rest : Bytes} :
    read width bytes = some (value, rest) ↔
      width.size ≤ bytes.length ∧ value = ofBytes (bytes.take width.size) ∧
        rest = bytes.drop width.size := by
  simp only [read, List.length_take]
  split
  · simp only [Option.some.injEq, Prod.mk.injEq]
    constructor
    · rintro ⟨rfl, rfl⟩
      exact ⟨by omega, rfl, rfl⟩
    · rintro ⟨-, rfl, rfl⟩
      exact ⟨rfl, rfl⟩
  · simp only [reduceCtorEq, false_iff, not_and]
    omega

/-- A word read from its own bytes is the value written, and what follows is left alone. -/
theorem read_toBytes_append (width : Width) (value : Nat) (rest : Bytes) :
    read width (toBytes width.size value ++ rest) = some (value % range width.size, rest) := by
  simp [read, List.take_left', List.drop_left', ofBytes_toBytes]

/-- Reads a word that starts `offset` bytes into `data`: its value and the offset just past it. -/
def readAt (width : Width) (data : Bytes) (offset : Nat) : Option (Nat × Nat) :=
  (read width (data.drop offset)).map fun (value, _) => (value, offset + width.size)

/-- A word can be read at an offset exactly when it ends within the data. -/
theorem readAt_eq_none_iff (width : Width) (data : Bytes) (offset : Nat) :
    readAt width data offset = none ↔ data.length < offset + width.size := by
  have := width.size_pos
  rw [readAt, Option.map_eq_none_iff, read_eq_none_iff, List.length_drop]
  omega

end BigEndian

end DescriptorCodec
