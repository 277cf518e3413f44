import DescriptorCodec.Proofs.Record.Steps

/-!
# How much of a record is read

A reading that succeeds has taken some bytes off the front of the record. What comes behind them
makes no difference, and wherever the record is cut off before their end, the reading finds out:
the words before the cut are read as they were, and then one is missing. How many bytes these are
depends on the counts among the words, but not on the pool, since a word is taken for each step of
the record.
-/

namespace DescriptorCodec

/-- A word that was read stands in two bytes, and is read off them whatever comes behind. -/
theorem BigEndian.exists_of_read {bytes rest : Bytes} {value : Nat}
    (found : read .bits16 bytes = some (value, rest)) :
    ∃ word : Bytes, word.length = 2 ∧ bytes = word ++ rest ∧
      ∀ more, read .bits16 (word ++ more) = some (value, more) := by
  obtain ⟨enough, rfl, rfl⟩ := read_eq_some_iff.mp found
  have two : (bytes.take Width.bits16.size).length = Width.bits16.size := by
    rw [List.length_take, Nat.min_eq_left enough]
  refine ⟨bytes.take Width.bits16.size, two, (List.take_append_drop _ bytes).symm, fun more => ?_⟩
  refine read_eq_some_iff.mpr ⟨?_, ?_, ?_⟩
  · rw [List.length_append, two]
    exact Nat.le_add_right _ _
  · rw [List.take_left' two]
  · rw [List.drop_left' two]

namespace Record

theorem length_words : ∀ bytes : Bytes, (words bytes).length = bytes.length / 2
  | [] => rfl
  | [_] => by simp [words]
  | _ :: _ :: rest => by
      rw [words, List.length_cons, length_words rest, List.length_cons, List.length_cons]
      omega

/-- Where no step lacks its word, later pieces are for the words behind. -/
theorem steps_append {ws : List UInt16} {pieces : List Piece}
    (there : ∀ step ∈ steps ws pieces, step.word? ≠ none) (rest : List Piece) :
    (steps ws pieces).length ≤ ws.length ∧
      steps ws (pieces ++ rest) =
        steps ws pieces ++ steps (ws.drop (steps ws pieces).length) rest := by
  induction ws generalizing pieces with
  | nil =>
      cases pieces with
      | nil => exact ⟨Nat.le_refl _, rfl⟩
      | cons piece pieces => cases piece <;> exact absurd rfl (there _ List.mem_cons_self)
  | cons word ws ih =>
      cases pieces with
      | nil => exact ⟨Nat.zero_le _, rfl⟩
      | cons piece pieces =>
          cases piece with
          | one role =>
              obtain ⟨short, behind⟩ := ih (List.forall_mem_of_forall_mem_cons there)
              exact ⟨Nat.succ_le_succ short, congrArg (List.cons _) behind⟩
          | table row =>
              obtain ⟨short, behind⟩ := ih (List.forall_mem_of_forall_mem_cons there)
              rw [List.append_assoc] at behind
              exact ⟨Nat.succ_le_succ short, congrArg (List.cons _) behind⟩

theorem word?_of_firstFault? {pool : Pool} {steps : List Step}
    (none : firstFault? pool steps = none) : ∀ step ∈ steps, step.word? ≠ .none := by
  intro step member missing
  have passes := List.findSome?_eq_none_iff.mp none step member
  rw [Step.fault?, missing] at passes
  cases passes

/-- Flag words never fail, so they tell how many words there are. -/
theorem firstFault?_replicate_plain (pool : Pool) (ws : List UInt16) (count : Nat) :
    firstFault? pool (steps ws (List.replicate count (.one .plain))) = none ↔
      count ≤ ws.length := by
  induction ws generalizing count with
  | nil => cases count <;> simp [steps, List.replicate_succ, firstFault?, Step.fault?]
  | cons word ws ih =>
      cases count with
      | zero => simp [firstFault?]
      | succ count =>
          rw [List.replicate_succ, steps, firstFault?_cons, List.length_cons, Nat.succ_le_succ_iff]
          exact ih count

end Record

namespace Reading

open Record

variable {α : Type} {pool : Pool} {reading : Reading α} {bytes left : Bytes} {value : α}

/-- The reading finds the value in these bytes, whatever comes behind them, and in no fewer. -/
structure Consumes (pool : Pool) (reading : Reading α) (used : Bytes) (value : α) : Prop where
  longer : ∀ more, reading.run pool (used ++ more) = .ok (value, more)
  shorter : ∀ k < used.length, reading.run pool (used.take k) = .error .outOfBounds

/-- A cut is either within the first word or behind it. -/
theorem Consumes.ask {field : Field} {next : field.Value → Reading α} {asked : field.Value}
    {word used : Bytes} {bits : Nat} (two : word.length = 2)
    (reads : ∀ more, BigEndian.read .bits16 (word ++ more) = some (bits, more))
    (resolved : field.resolve pool (UInt16.ofNat bits) = .ok asked)
    (rest : (next asked).Consumes pool used value) :
    (Reading.ask field next).Consumes pool (word ++ used) value := by
  have first (more : Bytes) :
      (Reading.ask field next).run pool (word ++ more) = (next asked).run pool more := by
    rw [run, reads]
    dsimp only
    rw [resolved]
  constructor
  · intro more
    rw [List.append_assoc, first]
    exact rest.longer more
  · intro k short
    rw [List.length_append, two] at short
    rw [List.take_append, two]
    by_cases inside : k < 2
    · have none : BigEndian.read .bits16 (word.take k ++ used.take (k - 2)) = none := by
        rw [BigEndian.read_eq_none_iff, List.length_append, List.length_take, List.length_take,
          Width.size]
        omega
      rw [run, none]
    · rw [List.take_of_length_le (by omega), first]
      exact rest.shorter (k - 2) (by omega)

theorem exists_consumes (ran : reading.run pool bytes = .ok (value, left)) :
    ∃ used, bytes = used ++ left ∧ 2 ∣ used.length ∧ reading.Consumes pool used value := by
  induction reading generalizing bytes with
  | done result =>
      cases ran
      exact ⟨[], rfl, ⟨0, rfl⟩, fun more => rfl, nofun⟩
  | ask field next ih =>
      rw [run] at ran
      cases found : BigEndian.read .bits16 bytes with
      | none =>
          rw [found] at ran
          cases ran
      | some pair =>
          obtain ⟨bits, rest⟩ := pair
          rw [found] at ran
          dsimp only at ran
          cases resolved : field.resolve pool (UInt16.ofNat bits) with
          | error e =>
              rw [resolved] at ran
              cases ran
          | ok asked =>
              rw [resolved] at ran
              obtain ⟨used, rfl, even, consumes⟩ := ih asked ran
              obtain ⟨word, two, rfl, reads⟩ := BigEndian.exists_of_read found
              refine ⟨word ++ used, (List.append_assoc ..).symm, ?_,
                consumes.ask two reads resolved⟩
              rw [List.length_append, two]
              exact Nat.dvd_add (Nat.dvd_refl 2) even

/-- Words are left as if the steps of the format had taken one each. The pieces that are put
behind the format count the words that are left. -/
theorem Keeps.length_words_left {pieces : List Piece} (keeps : reading.Keeps pool pieces)
    (ran : reading.run pool bytes = .ok (value, left)) :
    (words left).length + (steps (words bytes) pieces).length = (words bytes).length := by
  have behind (rest : List Piece) := keeps bytes rest
  simp only [ran] at behind
  have none := behind []
  rw [List.append_nil, steps_nil] at none
  obtain ⟨short, -⟩ := steps_append (word?_of_firstFault? none) []
  have same (count : Nat) :
      count ≤ (words bytes).length - (steps (words bytes) pieces).length ↔
        count ≤ (words left).length := by
    obtain ⟨-, later⟩ := steps_append (word?_of_firstFault? none)
      (List.replicate count (.one .plain))
    have after := behind (List.replicate count (.one .plain))
    rw [later, firstFault?, List.findSome?_append, ← firstFault?, none] at after
    rw [← List.length_drop, ← firstFault?_replicate_plain pool, ← firstFault?_replicate_plain pool,
      ← after]
    rfl
  have most := (same _).mp (Nat.le_refl _)
  have least := (same _).mpr (Nat.le_refl _)
  omega

/-- A reading that keeps to a format takes two bytes for each of its steps. -/
theorem Keeps.exists_consumes {pieces : List Piece} (keeps : reading.Keeps pool pieces)
    (ran : reading.run pool bytes = .ok (value, left)) :
    ∃ used, bytes = used ++ left ∧ used.length = 2 * (steps (words bytes) pieces).length ∧
      reading.Consumes pool used value := by
  obtain ⟨used, rfl, even, consumes⟩ := Reading.exists_consumes ran
  have taken := keeps.length_words_left ran
  rw [Record.length_words, Record.length_words (used ++ left), List.length_append] at taken
  exact ⟨used, rfl, by omega, consumes⟩

end Reading

end DescriptorCodec
