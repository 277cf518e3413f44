import DescriptorCodec.Proofs.Pool.Growth
import DescriptorCodec.Record.Reading

/-!
# Reading while the pool grows

A word that was resolved once is resolved to the same in every pool that has grown from there. So
a reading returns the same, and fails in the same way, unless it was stopped by a reference that
pointed at no entry of the right kind; such a reference may point at one later.
-/

namespace DescriptorCodec

/-- The error is that of a reference which points at no entry of the expected kind. -/
def Error.Dangling (error : Error) : Prop :=
  ∃ index kind, error = .invalidSymbol index kind

/-- The outcome stays what it was, unless it was a dangling reference. -/
def Persists {α : Type} (before after : Except Error α) : Prop :=
  (∃ e, before = .error e ∧ e.Dangling) ∨ after = before

theorem Persists.map {α β : Type} {before after : Except Error α} (h : Persists before after)
    (f : α → β) : Persists (before.map f) (after.map f) := by
  rcases h with ⟨e, failed, dangling⟩ | same
  · rw [failed]
    exact .inl ⟨e, rfl, dangling⟩
  · rw [same]
    exact .inr rfl

theorem Pool.resolveUtf8_of_le {P Q : Pool} (h : P ≤ Q) (index : UInt16) :
    Persists (P.resolveUtf8 index) (Q.resolveUtf8 index) := by
  unfold Persists resolveUtf8
  split
  · next found =>
    rw [get?_of_le h found]
    exact .inr rfl
  · exact .inl ⟨_, rfl, _, _, rfl⟩

theorem Pool.resolveClass_of_le {P Q : Pool} (h : P ≤ Q) (index : UInt16) :
    Persists (P.resolveClass index) (Q.resolveClass index) := by
  rw [resolveClass]
  split
  · next name found =>
    rw [resolveClass, get?_of_le h found]
    exact (resolveUtf8_of_le h name).map Name.dotted
  · exact .inl ⟨_, rfl, _, _, rfl⟩

theorem Field.resolve_of_le {P Q : Pool} (h : P ≤ Q) (field : Field) (bits : UInt16) :
    Persists (field.resolve P bits) (field.resolve Q bits) := by
  cases field with
  | word => exact .inr rfl
  | utf8 => exact Pool.resolveUtf8_of_le h bits
  | packageName => exact (Pool.resolveUtf8_of_le h bits).map Name.dotted
  | className => exact Pool.resolveClass_of_le h bits
  | optionalUtf8 =>
      simp only [resolve]
      by_cases zero : bits = 0
      · rw [if_pos zero, if_pos zero]
        exact .inr rfl
      · rw [if_neg zero, if_neg zero]
        exact (Pool.resolveUtf8_of_le h bits).map some

namespace Reading

variable {α : Type}

/-- The induction follows the reading. Each word is either resolved as before, so that the same
question comes next, or ends the reading. -/
theorem run_of_le {P Q : Pool} (h : P ≤ Q) (reading : Reading α) (bytes : Bytes) :
    Persists (reading.run P bytes) (reading.run Q bytes) := by
  induction reading generalizing bytes with
  | done value => exact .inr rfl
  | ask field next ih =>
      rw [run, run]
      cases BigEndian.read .bits16 bytes with
      | none => exact .inr rfl
      | some word =>
          dsimp only
          rcases field.resolve_of_le h (UInt16.ofNat word.1) with ⟨e, failed, dangling⟩ | same
          · rw [failed]
            exact .inl ⟨e, rfl, dangling⟩
          · rw [same]
            cases field.resolve P (UInt16.ofNat word.1) with
            | error e => exact .inr rfl
            | ok value => exact ih value word.2

theorem decode_of_le {P Q : Pool} (h : P ≤ Q) (reading : Reading α) (bytes : Bytes) :
    Persists (reading.decode P bytes) (reading.decode Q bytes) :=
  (reading.run_of_le h bytes).map Prod.fst

end Reading

end DescriptorCodec
