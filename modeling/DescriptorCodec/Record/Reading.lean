import DescriptorCodec.Bytes.BigEndian
import DescriptorCodec.Record.Field

/-!
# Reading a record

A reading is a tree: it is finished with a value, or it asks for a field and goes on with what
the field says. How many fields it asks for may depend on what it has read so far, which is how a
count is followed by as many rows.

Readings are data, so that what holds for every record format can be shown by induction: each
word is looked up in the pool as soon as it has been read, the first failure ends the reading, and
bytes that no field was read from are never looked at.
-/

namespace DescriptorCodec

/-- A way to read a value off the front of a byte string. -/
inductive Reading (α : Type) where
  | done (value : α)
  | ask (field : Field) (next : field.Value → Reading α)

namespace Reading

variable {α β : Type}

/-- Goes on with a second reading when the first is finished. -/
def bind : Reading α → (α → Reading β) → Reading β
  | done value, rest => rest value
  | ask field next, rest => ask field fun value => (next value).bind rest

@[simp] theorem bind_done (value : α) (rest : α → Reading β) :
    (done value).bind rest = rest value := rfl

theorem bind_ask (field : Field) (next : field.Value → Reading α) (rest : α → Reading β) :
    (ask field next).bind rest = ask field fun value => (next value).bind rest := rfl

theorem bind_done_right (reading : Reading α) : reading.bind done = reading := by
  induction reading with
  | done value => rfl
  | ask field next ih => rw [bind_ask, funext ih]

theorem bind_assoc {γ : Type} (reading : Reading α) (second : α → Reading β)
    (third : β → Reading γ) :
    (reading.bind second).bind third = reading.bind fun value => (second value).bind third := by
  induction reading with
  | done value => rfl
  | ask field next ih => rw [bind_ask, bind_ask, bind_ask, funext ih]

instance : Monad Reading where
  pure := done
  bind := bind

instance : LawfulMonad Reading :=
  LawfulMonad.mk' Reading bind_done_right (fun _ _ => rfl) bind_assoc

/-- Reads one field. -/
def field (kind : Field) : Reading kind.Value :=
  ask kind done

/-- Reads rows one after another, in addition to those read before. -/
def rowsFrom (row : Reading α) : Nat → List α → Reading (List α)
  | 0, before => done before.reverse
  | rows + 1, before => row.bind fun first => rowsFrom row rows (first :: before)

/-- Reads a table: the number of its rows, then the rows. -/
def table (row : Reading α) : Reading (List α) :=
  ask .word fun count => rowsFrom row count.toNat []

/-- Reads from a byte string, and returns what is left of it too. -/
def run (pool : Pool) : Reading α → Bytes → Except Error (α × Bytes)
  | done value, bytes => .ok (value, bytes)
  | ask field next, bytes =>
    match BigEndian.read .bits16 bytes with
    | none => .error .outOfBounds
    | some (bits, rest) =>
      match field.resolve pool (UInt16.ofNat bits) with
      | .error error => .error error
      | .ok value => (next value).run pool rest

/-- Reads from the front of a byte string; what is left does not matter. -/
def decode (reading : Reading α) (pool : Pool) (bytes : Bytes) : Except Error α :=
  (reading.run pool bytes).map Prod.fst

@[simp] theorem run_done (pool : Pool) (value : α) (bytes : Bytes) :
    (done value).run pool bytes = .ok (value, bytes) := rfl

/-- Two readings in a row read as one. -/
theorem run_bind (pool : Pool) (reading : Reading α) (rest : α → Reading β) (bytes : Bytes) :
    (reading.bind rest).run pool bytes =
      (reading.run pool bytes).bind fun (value, bytes) => (rest value).run pool bytes := by
  induction reading generalizing bytes with
  | done value => rfl
  | ask field next ih =>
    simp only [bind_ask, run]
    cases BigEndian.read .bits16 bytes with
    | none => rfl
    | some word =>
      obtain ⟨bits, after⟩ := word
      dsimp only
      cases field.resolve pool (UInt16.ofNat bits) with
      | error error => rfl
      | ok value => exact ih value after

end Reading

end DescriptorCodec
