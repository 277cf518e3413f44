import DescriptorCodec.Proofs.Descriptor.Normalize
import DescriptorCodec.Record.Reading

/-!
# What every reading ensures

`reading.Ensures p` says that `p` holds of all values that the reading can return, whatever the
pool and the bytes are. Names that are read are in written form, and a table has no more rows than
its count can tell.
-/

namespace DescriptorCodec

namespace Field

/-- What can be read of a field. -/
def Readable : (field : Field) → field.Value → Prop
  | word, _ => True
  | utf8, _ => True
  | packageName, name => Name.IsDotted name
  | className, name => Name.IsDotted name
  | optionalUtf8, _ => True

theorem isDotted_of_map {text : Except Error String} {name : String}
    (h : text.map Name.dotted = .ok name) : Name.IsDotted name := by
  cases text with
  | ok text =>
      cases h
      exact Name.isDotted_dotted text
  | error e => cases h

theorem readable_of_resolve {pool : Pool} {bits : UInt16} {field : Field} {value : field.Value}
    (resolved : field.resolve pool bits = .ok value) : field.Readable value := by
  cases field with
  | word => trivial
  | utf8 => trivial
  | packageName => exact isDotted_of_map resolved
  | className =>
      rw [Field.resolve, Pool.resolveClass] at resolved
      split at resolved
      · exact isDotted_of_map resolved
      · cases resolved
  | optionalUtf8 => trivial

end Field

namespace Reading

variable {α β : Type}

/-- The property holds of everything that the reading returns. -/
def Ensures (reading : Reading α) (p : α → Prop) : Prop :=
  ∀ pool bytes value rest, reading.run pool bytes = .ok (value, rest) → p value

namespace Ensures

variable {p : α → Prop} {q : β → Prop}

theorem done {value : α} (h : p value) : (Reading.done value).Ensures p := by
  intro pool bytes read rest run
  cases run
  exact h

theorem ask {kind : Field} {next : kind.Value → Reading α}
    (h : ∀ value, kind.Readable value → (next value).Ensures p) :
    (Reading.ask kind next).Ensures p := by
  intro pool bytes value rest run
  rw [Reading.run] at run
  split at run
  · cases run
  · next bits after _ =>
    split at run
    · cases run
    · next asked resolved =>
      exact h asked (Field.readable_of_resolve resolved) pool after value rest run

theorem field (kind : Field) : (Reading.field kind).Ensures kind.Readable :=
  ask fun _ readable => done readable

theorem bind {reading : Reading α} {next : α → Reading β} (h : reading.Ensures p)
    (h' : ∀ value, p value → (next value).Ensures q) : (reading.bind next).Ensures q := by
  intro pool bytes value rest run
  rw [run_bind] at run
  cases first : reading.run pool bytes with
  | error e =>
      rw [first] at run
      cases run
  | ok outcome =>
      rw [first] at run
      exact h' outcome.1 (h pool bytes _ _ first) pool outcome.2 value rest run

theorem rowsFrom {row : Reading α} (each : row.Ensures p) (count : Nat) {before : List α}
    (earlier : ∀ x ∈ before, p x) :
    (Reading.rowsFrom row count before).Ensures fun rows =>
      rows.length = before.length + count ∧ ∀ x ∈ rows, p x := by
  induction count generalizing before with
  | zero =>
      refine done ⟨List.length_reverse, ?_⟩
      intro x member
      exact earlier x (List.mem_reverse.mp member)
  | succ count ih =>
      refine bind each fun first holds => ?_
      have more : ∀ x ∈ first :: before, p x := by
        intro x member
        rcases List.mem_cons.mp member with rfl | member
        · exact holds
        · exact earlier x member
      have rest := ih more
      rw [List.length_cons, Nat.add_assoc, Nat.add_comm 1] at rest
      exact rest

theorem table {row : Reading α} (each : row.Ensures p) :
    (Reading.table row).Ensures fun rows => rows.length ≤ countLimit ∧ ∀ x ∈ rows, p x := by
  refine ask fun count _ => ?_
  intro pool bytes rows rest run
  have nothing : ∀ x ∈ ([] : List α), p x := by
    intro x member
    cases member
  obtain ⟨length, holds⟩ := rowsFrom each count.toNat nothing pool bytes rows rest run
  refine ⟨?_, holds⟩
  have small := count.toNat_lt
  rw [length, List.length_nil, countLimit]
  omega

theorem decode {reading : Reading α} (h : reading.Ensures p) {pool : Pool} {bytes : Bytes}
    {value : α} (decoded : reading.decode pool bytes = .ok value) : p value := by
  rw [Reading.decode] at decoded
  cases run : reading.run pool bytes with
  | error e =>
      rw [run] at decoded
      cases decoded
  | ok outcome =>
      rw [run] at decoded
      cases decoded
      exact h pool bytes outcome.1 outcome.2 run

end Ensures

end Reading

end DescriptorCodec
