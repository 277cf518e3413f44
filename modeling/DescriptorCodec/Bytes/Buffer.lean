import DescriptorCodec.Bytes.BigEndian
import DescriptorCodec.Error

/-!
# Buffers

A buffer collects the words of a record. Counts are two-byte words with a check: a table with
more rows than such a word can tell is refused, and the buffer stays as it was.
-/

namespace DescriptorCodec

/-- The largest number that a two-byte count can tell, and the largest number of pool entries. -/
def countLimit : Nat := 65535

/-- The bytes written so far. -/
structure Buffer where
  bytes : Array UInt8
  deriving DecidableEq, Repr

namespace Buffer

def empty : Buffer := ⟨#[]⟩

def toBytes (buffer : Buffer) : Bytes :=
  buffer.bytes.toList

@[simp] theorem toBytes_empty : empty.toBytes = [] := rfl

def size (buffer : Buffer) : Nat :=
  buffer.bytes.size

def isEmpty (buffer : Buffer) : Bool :=
  buffer.bytes.isEmpty

/-- Appends a word of the given width. -/
def put (buffer : Buffer) (width : Width) (value : Nat) : Buffer :=
  ⟨buffer.bytes ++ BigEndian.toBytes width.size value⟩

@[simp] theorem toBytes_put (buffer : Buffer) (width : Width) (value : Nat) :
    (buffer.put width value).toBytes =
      buffer.toBytes ++ BigEndian.toBytes width.size value := by
  simp [toBytes, put]

/-- Appends a count of `what`, which has to fit a two-byte word. If it does not, it is refused, and
the buffer is left with what it had. -/
def count (buffer : Buffer) (what : String) (rows : Nat) : Except Error Unit × Buffer :=
  if rows ≤ countLimit then (.ok (), buffer.put .bits16 rows)
  else (.error (.limitExceeded what rows), buffer)

theorem count_of_le (buffer : Buffer) (what : String) {rows : Nat} (fits : rows ≤ countLimit) :
    buffer.count what rows = (.ok (), buffer.put .bits16 rows) :=
  if_pos fits

theorem count_of_lt (buffer : Buffer) (what : String) {rows : Nat} (excess : countLimit < rows) :
    buffer.count what rows = (.error (.limitExceeded what rows), buffer) :=
  if_neg (Nat.not_le_of_lt excess)

/-- The buffer with a count, for those who give it up if the count is refused. -/
def putCount (buffer : Buffer) (what : String) (rows : Nat) : Except Error Buffer :=
  let (answer, left) := buffer.count what rows
  answer.map fun _ => left

theorem putCount_eq (buffer : Buffer) (what : String) (rows : Nat) :
    buffer.putCount what rows =
      if rows ≤ countLimit then .ok (buffer.put .bits16 rows)
      else .error (.limitExceeded what rows) := by
  rcases Nat.lt_or_ge countLimit rows with excess | fits
  · rw [putCount, count_of_lt buffer what excess, if_neg (Nat.not_le_of_lt excess)]
    rfl
  · rw [putCount, count_of_le buffer what fits, if_pos fits]
    rfl

end Buffer

end DescriptorCodec
