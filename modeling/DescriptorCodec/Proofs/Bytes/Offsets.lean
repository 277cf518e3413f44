import DescriptorCodec.Bytes.Cursor
import Mathlib.Data.List.Induction
import Mathlib.Data.Nat.Digits.Defs

/-!
# Reading at offsets

A read at an offset answers with the word that starts there and moves the offset behind it. If the
word would end behind the data, the read fails and the offset stays, so the next read starts from
the same place.

An offset is a number here. If it is a machine word, the end of the word that is read has to be
computed without wrapping around, and then all reads come out the same. A cursor is an offset that
starts at zero, together with the data.
-/

namespace DescriptorCodec

section InTurn

variable {α β σ τ : Type}

/-- The answers of steps that are taken one after the other, and the state in which they end. -/
def inTurn (step : σ → α → β × σ) (state : σ) (inputs : List α) : List β × σ :=
  (inputs.mapM (m := StateM σ) fun input state => step state input) state

@[simp] theorem inTurn_nil (step : σ → α → β × σ) (state : σ) :
    inTurn step state [] = ([], state) := rfl

theorem inTurn_cons (step : σ → α → β × σ) (state : σ) (input : α) (inputs : List α) :
    inTurn step state (input :: inputs) =
      ((step state input).1 :: (inTurn step (step state input).2 inputs).1,
        (inTurn step (step state input).2 inputs).2) := by
  rw [inTurn, List.mapM_cons]
  rfl

theorem inTurn_append (step : σ → α → β × σ) (state : σ) (before after : List α) :
    inTurn step state (before ++ after) =
      ((inTurn step state before).1 ++ (inTurn step (inTurn step state before).2 after).1,
        (inTurn step (inTurn step state before).2 after).2) := by
  induction before generalizing state with
  | nil => rfl
  | cons input before ih => simp [inTurn_cons, ih]

/-- Steps that give the same answers from states that correspond, and lead to states that
correspond, do so in turn. -/
theorem inTurn_of_step {step : σ → α → β × σ} {step' : τ → α → β × τ} {Alike : σ → τ → Prop}
    (each : ∀ state state', Alike state state' → ∀ input,
      (step state input).1 = (step' state' input).1 ∧
        Alike (step state input).2 (step' state' input).2)
    {state : σ} {state' : τ} (start : Alike state state') (inputs : List α) :
    (inTurn step state inputs).1 = (inTurn step' state' inputs).1 ∧
      Alike (inTurn step state inputs).2 (inTurn step' state' inputs).2 := by
  induction inputs generalizing state state' with
  | nil => exact ⟨rfl, start⟩
  | cons input inputs ih =>
      obtain ⟨same, next⟩ := each state state' start input
      obtain ⟨rest, last⟩ := ih next
      rw [inTurn_cons, inTurn_cons, same, rest]
      exact ⟨rfl, last⟩

end InTurn

namespace BigEndian

/-- The digits of a number to the base 256 are its bytes, the last byte being the lowest digit. -/
theorem ofBytes_eq_ofDigits (bytes : Bytes) :
    ofBytes bytes = Nat.ofDigits 256 (bytes.reverse.map UInt8.toNat) := by
  induction bytes using List.reverseRecOn with
  | nil => rfl
  | append_singleton bytes byte ih =>
      rw [ofBytes_append_singleton, ih, List.reverse_append, List.reverse_singleton,
        List.singleton_append, List.map_cons, Nat.ofDigits_cons]
      omega

theorem range_eq_two_pow (size : Nat) : range size = 2 ^ (8 * size) := by
  induction size with
  | zero => rfl
  | succ size ih => rw [range, ih, Nat.mul_succ, Nat.pow_add, Nat.mul_comm]

/-! ### One read -/

/-- The number that the bytes of a word at an offset spell to the base 256. -/
def wordAt (data : Bytes) (offset : Nat) (width : Width) : Nat :=
  Nat.ofDigits 256 (((data.drop offset).take width.size).reverse.map UInt8.toNat)

/-- Reads the word at an offset, which is then behind the word. -/
def next (data : Bytes) (offset : Nat) (width : Width) : Except Error Nat × Nat :=
  match readAt width data offset with
  | some (value, stop) => (.ok value, stop)
  | none => (.error .outOfBounds, offset)

variable {data : Bytes} {offset : Nat} {width : Width}

theorem next_of_fits (fits : offset + width.size ≤ data.length) :
    next data offset width = (.ok (wordAt data offset width), offset + width.size) := by
  have enough : width.size ≤ (data.drop offset).length := by
    rw [List.length_drop]
    omega
  have found := read_eq_some_iff.mpr ⟨enough, rfl, rfl⟩
  rw [next, readAt, found, wordAt, ← ofBytes_eq_ofDigits]
  rfl

theorem next_of_short (short : data.length < offset + width.size) :
    next data offset width = (.error .outOfBounds, offset) := by
  rw [next, (readAt_eq_none_iff width data offset).mpr short]

/-- What a read comes to is told by where the word would end. -/
theorem next_outcome (data : Bytes) (offset : Nat) (width : Width) :
    ((∃ value, (next data offset width).1 = .ok value) ↔ offset + width.size ≤ data.length) ∧
    (∀ value, (next data offset width).1 = .ok value →
      value = wordAt data offset width ∧ (next data offset width).2 = offset + width.size) ∧
    ∀ e, (next data offset width).1 = .error e →
      e = .outOfBounds ∧ (next data offset width).2 = offset := by
  rcases Nat.lt_or_ge data.length (offset + width.size) with short | fits
  · rw [next_of_short short]
    simp [short]
  · rw [next_of_fits fits]
    simp [fits, eq_comm]

/-- Each of several reads starts where the ones before it have left the offset. After a failure this
is where it was before, and a narrower read gets the word that is there. -/
theorem inTurn_next_middle (data : Bytes) (offset : Nat) (before : List Width) (width : Width)
    (after : List Width) :
    let here := (inTurn (next data) offset before).2
    ∃ answer stop,
      inTurn (next data) offset (before ++ width :: after) =
        ((inTurn (next data) offset before).1 ++ answer :: (inTurn (next data) stop after).1,
          (inTurn (next data) stop after).2) ∧
      ((∃ value, answer = .ok value) ↔ here + width.size ≤ data.length) ∧
      (∀ value, answer = .ok value →
        value = wordAt data here width ∧ stop = here + width.size) ∧
      ∀ e, answer = .error e → e = .outOfBounds ∧ stop = here ∧
        ∀ narrower, here + narrower.size ≤ data.length →
          (next data stop narrower).1 = .ok (wordAt data here narrower) := by
  intro here
  obtain ⟨succeeds, word, fails⟩ := next_outcome data here width
  refine ⟨(next data here width).1, (next data here width).2, ?_, succeeds, word, ?_⟩
  · rw [inTurn_append, inTurn_cons]
  · intro e failed
    obtain ⟨bounds, stays⟩ := fails e failed
    refine ⟨bounds, stays, fun narrower fits => ?_⟩
    rw [stays, next_of_fits fits]

/-! ### Offsets that are machine words -/

/-- The sum of two machine words, unless it wraps around. -/
def checkedAdd (first second : UInt64) : Option UInt64 :=
  if first ≤ first + second then some (first + second) else none

theorem checkedAdd_eq_none_iff {first second : UInt64} :
    checkedAdd first second = none ↔ 2 ^ 64 ≤ first.toNat + second.toNat := by
  have := first.toNat_lt
  have := second.toNat_lt
  simp only [checkedAdd, UInt64.le_iff_toNat_le, UInt64.toNat_add]
  split <;> simp <;> omega

theorem toNat_of_checkedAdd {first second sum : UInt64}
    (found : checkedAdd first second = some sum) : sum.toNat = first.toNat + second.toNat := by
  have fits : ¬ 2 ^ 64 ≤ first.toNat + second.toNat := by
    rw [← checkedAdd_eq_none_iff, found]
    simp
  obtain rfl := Option.some.inj (Option.ite_none_right_eq_some.mp found).2
  rw [UInt64.toNat_add, Nat.mod_eq_of_lt (Nat.lt_of_not_le fits)]

/-- Reads the word at an offset that is a machine word, as is the end of the word that is read. -/
def nextChecked (data : Bytes) (offset : UInt64) (width : Width) : Except Error Nat × UInt64 :=
  match checkedAdd offset (UInt64.ofNat width.size) with
  | none => (.error .outOfBounds, offset)
  | some stop =>
    if data.length < stop.toNat then (.error .outOfBounds, offset)
    else
      match read width ((data.drop offset.toNat).take (stop.toNat - offset.toNat)) with
      | some (value, _) => (.ok value, stop)
      | none => (.error .outOfBounds, offset)

/-- Where the sum would wrap around, the word ends behind the data. -/
theorem nextChecked_eq_next (small : data.length < 2 ^ 64) (offset : UInt64) (width : Width) :
    (nextChecked data offset width).1 = (next data offset.toNat width).1 ∧
      (nextChecked data offset width).2.toNat = (next data offset.toNat width).2 := by
  have size : (UInt64.ofNat width.size).toNat = width.size := by cases width <;> rfl
  rw [nextChecked]
  split
  · next wraps =>
    rw [checkedAdd_eq_none_iff, size] at wraps
    rw [next_of_short (Nat.lt_of_lt_of_le small wraps)]
    exact ⟨rfl, rfl⟩
  · next stop found =>
    have ends := toNat_of_checkedAdd found
    rw [size] at ends
    split
    · next short =>
      rw [next_of_short (ends ▸ short)]
      exact ⟨rfl, rfl⟩
    · next enough =>
      rw [ends] at enough
      have word : read width ((data.drop offset.toNat).take (stop.toNat - offset.toNat)) =
          some (wordAt data offset.toNat width, []) := by
        rw [read_eq_some_iff, ends, Nat.add_sub_cancel_left, List.take_take, Nat.min_self,
          wordAt, ← ofBytes_eq_ofDigits]
        refine ⟨?_, rfl, ?_⟩
        · rw [List.length_take, List.length_drop]
          omega
        · rw [List.drop_take, Nat.sub_self, List.take_zero]
      rw [word, next_of_fits (Nat.le_of_not_lt enough)]
      exact ⟨rfl, ends⟩

theorem inTurn_nextChecked (small : data.length < 2 ^ 64) (offset : UInt64)
    (widths : List Width) :
    (inTurn (nextChecked data) offset widths).1 = (inTurn (next data) offset.toNat widths).1 ∧
      (inTurn (nextChecked data) offset widths).2.toNat =
        (inTurn (next data) offset.toNat widths).2 := by
  have each : ∀ (machine : UInt64) (offset : Nat), machine.toNat = offset → ∀ width,
      (nextChecked data machine width).1 = (next data offset width).1 ∧
        (nextChecked data machine width).2.toNat = (next data offset width).2 := by
    rintro machine _ rfl width
    exact nextChecked_eq_next small machine width
  exact inTurn_of_step each rfl widths

end BigEndian

namespace Cursor

theorem exists_next_of_fits {cursor : Cursor} {width : Width}
    (fits : cursor.position + width.size ≤ cursor.length) :
    ∃ left : Cursor,
      cursor.next width = (.ok (BigEndian.wordAt cursor.data cursor.position width), left) ∧
      left.data = cursor.data ∧ left.position = cursor.position + width.size := by
  unfold next
  split
  · next missing =>
    have total := cursor.position_add_remaining
    rw [BigEndian.read_eq_none_iff, length_ahead] at missing
    omega
  · next value rest found =>
    have spelled : value = BigEndian.wordAt cursor.data cursor.position width := by
      rw [BigEndian.wordAt, ← BigEndian.ofBytes_eq_ofDigits, ← cursor.ahead_eq]
      exact (BigEndian.read_eq_some_iff.mp found).2.1
    exact ⟨_, Prod.ext (congrArg Except.ok spelled) rfl, rfl, rfl⟩

/-- The cursor is at an offset of the data. -/
def IsAt (data : Bytes) (cursor : Cursor) (offset : Nat) : Prop :=
  cursor.data = data ∧ cursor.position = offset

theorem next_of_isAt {data : Bytes} {cursor : Cursor} {offset : Nat}
    (there : IsAt data cursor offset) (width : Width) :
    (cursor.next width).1 = (BigEndian.next data offset width).1 ∧
      IsAt data (cursor.next width).2 (BigEndian.next data offset width).2 := by
  obtain ⟨rfl, rfl⟩ := there
  rcases Nat.lt_or_ge cursor.length (cursor.position + width.size) with short | fits
  · rw [next_of_short short, BigEndian.next_of_short short]
    exact ⟨rfl, rfl, rfl⟩
  · obtain ⟨left, found, same, moved⟩ := exists_next_of_fits fits
    rw [found, BigEndian.next_of_fits fits]
    exact ⟨rfl, same, moved⟩

/-- Reading with a cursor is reading at offsets, beginning with the first byte. -/
theorem inTurn_next (data : Bytes) (widths : List Width) :
    (inTurn next (ofBytes data) widths).1 = (inTurn (BigEndian.next data) 0 widths).1 ∧
      IsAt data (inTurn next (ofBytes data) widths).2
        (inTurn (BigEndian.next data) 0 widths).2 := by
  have start : IsAt data (ofBytes data) 0 := ⟨rfl, rfl⟩
  exact inTurn_of_step (fun _ _ => next_of_isAt) start widths

end Cursor

end DescriptorCodec
