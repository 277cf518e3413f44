import DescriptorCodec.Bytes.BigEndian
import DescriptorCodec.Error

/-!
# Cursors

A cursor is a position in a byte string from which words are read one after another. A read that
does not fit fails and leaves the cursor where it was, so a narrower read may still succeed.
-/

namespace DescriptorCodec

/-- A position in a byte string, together with the bytes that are still ahead of it. -/
structure Cursor where
  data : Bytes
  position : Nat
  ahead : Bytes
  ahead_eq : ahead = data.drop position
  position_le : position ≤ data.length

namespace Cursor

/-- The cursor at the start of `data`. -/
def ofBytes (data : Bytes) : Cursor where
  data := data
  position := 0
  ahead := data
  ahead_eq := rfl
  position_le := Nat.zero_le _

/-- The number of bytes in the whole byte string. -/
def length (cursor : Cursor) : Nat :=
  cursor.data.length

/-- Whether there are no bytes at all. -/
def isEmpty (cursor : Cursor) : Bool :=
  cursor.data.isEmpty

def remaining (cursor : Cursor) : Nat :=
  cursor.length - cursor.position

def hasMore (cursor : Cursor) : Bool :=
  cursor.position < cursor.length

@[simp] theorem length_ahead (cursor : Cursor) : cursor.ahead.length = cursor.remaining := by
  rw [cursor.ahead_eq, List.length_drop, remaining, length]

theorem position_add_remaining (cursor : Cursor) :
    cursor.position + cursor.remaining = cursor.length := by
  have := cursor.position_le
  simp only [remaining, length]
  omega

/-- Reads the word ahead of the cursor: its value and the cursor just past it. If there is no such
word, the cursor is left where it is. -/
def next (cursor : Cursor) (width : Width) : Except Error Nat × Cursor :=
  match word : BigEndian.read width cursor.ahead with
  | none => (.error .outOfBounds, cursor)
  | some (value, rest) =>
    (.ok value,
      { data := cursor.data
        position := cursor.position + width.size
        ahead := rest
        ahead_eq := by
          rw [(BigEndian.read_eq_some_iff.mp word).2.2, cursor.ahead_eq, List.drop_drop]
        position_le := by
          have fits := (BigEndian.read_eq_some_iff.mp word).1
          have := cursor.position_add_remaining
          simp only [length_ahead, length] at fits this
          omega })

/-- A word that would end past the end of the bytes is not read. -/
theorem next_of_short {cursor : Cursor} {width : Width}
    (short : cursor.length < cursor.position + width.size) :
    cursor.next width = (.error .outOfBounds, cursor) := by
  unfold next
  split
  · rfl
  · next word =>
    have total := cursor.position_add_remaining
    have fits := (BigEndian.read_eq_some_iff.mp word).1
    rw [length_ahead] at fits
    omega

/-- The word ahead of the cursor and the cursor past it, for those who give up without a word. -/
def read (cursor : Cursor) (width : Width) : Except Error (Nat × Cursor) :=
  let (answer, left) := cursor.next width
  answer.map fun value => (value, left)

end Cursor

end DescriptorCodec
