import DescriptorCodec.Bytes.Buffer
import DescriptorCodec.Proofs.Bytes.Offsets

/-!
# What is put into a buffer is read back

Words and counts are put into a buffer one after the other. A count that is too large is refused and
leaves nothing behind. So the bytes of the buffer are those of the accepted words, and a cursor that
reads words of the same widths gets the same values, whatever comes behind them.
-/

namespace DescriptorCodec

/-- What can be put into a buffer: a word of some width, or the count of a table's rows. -/
inductive Put where
  | word (width : Width) (value : BitVec (8 * width.size))
  | count (what : String) (rows : Nat)

namespace Put

/-- A count has to fit a two-byte word. -/
def answer : Put → Except Error Unit
  | word _ _ => .ok ()
  | count what rows => if rows ≤ countLimit then .ok () else .error (.limitExceeded what rows)

/-- The width and the value of the word that is put, unless it is refused. -/
def word? : Put → Option (Width × Nat)
  | word width value => some (width, value.toNat)
  | count _ rows => if rows ≤ countLimit then some (.bits16, rows) else none

/-- A word fits its width. -/
theorem lt_range_of_word? {put : Put} {word : Width × Nat} (found : put.word? = some word) :
    word.2 < BigEndian.range word.1.size := by
  rw [BigEndian.range_eq_two_pow]
  cases put with
  | word width value =>
      cases found
      exact value.isLt
  | count what rows =>
      obtain ⟨fits, same⟩ := Option.ite_none_right_eq_some.mp found
      cases same
      exact Nat.lt_succ_of_le fits

end Put

/-- The bytes of words, one after the other. -/
def BigEndian.wordBytes (words : List (Width × Nat)) : Bytes :=
  words.flatMap fun word => toBytes word.1.size word.2

namespace Buffer

def perform (buffer : Buffer) : Put → Except Error Unit × Buffer
  | .word width value => (.ok (), buffer.put width value.toNat)
  | .count what rows => buffer.count what rows

theorem perform_spec (buffer : Buffer) (put : Put) :
    (buffer.perform put).1 = put.answer ∧
      (buffer.perform put).2.toBytes =
        buffer.toBytes ++ BigEndian.wordBytes put.word?.toList := by
  cases put with
  | word width value =>
      refine ⟨rfl, ?_⟩
      rw [perform, toBytes_put]
      simp [Put.word?, BigEndian.wordBytes]
  | count what rows =>
      rw [Put.answer, Put.word?]
      split
      · next fits =>
        rw [perform, count_of_le buffer what fits]
        refine ⟨rfl, ?_⟩
        rw [toBytes_put]
        simp [BigEndian.wordBytes]
      · next excess =>
        rw [perform, count_of_lt buffer what (Nat.lt_of_not_le excess)]
        simp [BigEndian.wordBytes]

theorem inTurn_perform (buffer : Buffer) (puts : List Put) :
    (inTurn perform buffer puts).1 = puts.map Put.answer ∧
      (inTurn perform buffer puts).2.toBytes =
        buffer.toBytes ++ BigEndian.wordBytes (puts.filterMap Put.word?) := by
  induction puts generalizing buffer with
  | nil => exact ⟨rfl, (List.append_nil _).symm⟩
  | cons put puts ih =>
      obtain ⟨answer, written⟩ := buffer.perform_spec put
      obtain ⟨answers, rest⟩ := ih (buffer.perform put).2
      have accepted : (put :: puts).filterMap Put.word? =
          put.word?.toList ++ puts.filterMap Put.word? := by
        cases found : put.word? <;> simp [found]
      rw [inTurn_cons, answer, answers, rest, written, accepted, List.append_assoc]
      exact ⟨rfl, congrArg (buffer.toBytes ++ ·) List.flatMap_append.symm⟩

end Buffer

namespace BigEndian

theorem next_toBytes (before more : Bytes) (width : Width) (value : Nat)
    (fits : value < range width.size) :
    next (before ++ (toBytes width.size value ++ more)) before.length width =
      (.ok value, before.length + width.size) := by
  rw [next, readAt, List.drop_left, read_toBytes_append, Nat.mod_eq_of_lt fits]
  rfl

/-- Words are read off their bytes, whatever comes before and behind. -/
theorem inTurn_next_wordBytes {words : List (Width × Nat)}
    (fit : ∀ word ∈ words, word.2 < range word.1.size) (before more : Bytes) :
    inTurn (next (before ++ (wordBytes words ++ more))) before.length (words.map Prod.fst) =
      (words.map fun word => .ok word.2, (before ++ wordBytes words).length) := by
  induction words generalizing before with
  | nil => simp [wordBytes]
  | cons word words ih =>
      have first := next_toBytes before (wordBytes words ++ more) word.1 word.2
        (fit word List.mem_cons_self)
      have rest := ih (fun word' member => fit word' (List.mem_cons_of_mem _ member))
        (before ++ toBytes word.1.size word.2)
      have split : wordBytes (word :: words) =
          toBytes word.1.size word.2 ++ wordBytes words := List.flatMap_cons
      rw [List.length_append, length_toBytes, List.append_assoc, List.append_assoc] at rest
      rw [List.map_cons, inTurn_cons, split, List.append_assoc, first, rest]
      rfl

end BigEndian

/-- A cursor at the start of the buffer's bytes reads what was accepted. -/
theorem Cursor.inTurn_next_perform (puts : List Put) (more : Bytes) :
    let buffer := (inTurn Buffer.perform .empty puts).2
    let accepted := puts.filterMap Put.word?
    let reading := inTurn next (.ofBytes (buffer.toBytes ++ more)) (accepted.map Prod.fst)
    reading.1 = accepted.map (fun word => .ok word.2) ∧ reading.2.position = buffer.size := by
  intro buffer accepted reading
  have written : buffer.toBytes = BigEndian.wordBytes accepted := by
    rw [(Buffer.inTurn_perform .empty puts).2, Buffer.toBytes_empty, List.nil_append]
  have fit : ∀ word ∈ accepted, word.2 < BigEndian.range word.1.size := by
    intro word member
    obtain ⟨put, -, found⟩ := List.mem_filterMap.mp member
    exact Put.lt_range_of_word? found
  have words := BigEndian.inTurn_next_wordBytes fit [] more
  rw [List.nil_append, List.nil_append, ← written, List.length_nil] at words
  obtain ⟨answers, -, stop⟩ := inTurn_next (buffer.toBytes ++ more) (accepted.map Prod.fst)
  rw [words] at answers stop
  exact ⟨answers, stop⟩

/-- What was accepted is read back, whatever comes behind it, and the cursor stops where the buffer
ends. A count that does not fit is refused and leaves the buffer as it is.

A read at an offset succeeds exactly if its word ends within the data, also where the end would wrap
around if it were computed in machine words. It answers with the number that the bytes of the word
spell and moves the offset behind them. A read that fails leaves the offset as it is, so that a
narrower one may succeed there. A cursor goes along with an offset that starts at zero, and never
gets behind its data. -/
theorem puts_read_back_and_reads_in_bounds (puts : List Put) (more data : Bytes)
    (offset : UInt64) (before : List Width) (width : Width) (after : List Width)
    (small : data.length < 2 ^ 64) :
    (let writing := inTurn Buffer.perform .empty puts
     let accepted := puts.filterMap Put.word?
     let reading := inTurn Cursor.next (.ofBytes (writing.2.toBytes ++ more))
       (accepted.map Prod.fst)
     writing.1 = puts.map Put.answer ∧
     reading.1 = accepted.map (fun word => .ok word.2) ∧
     reading.2.position = writing.2.size) ∧
    (∀ (buffer : Buffer) (what : String) (count : Nat), 65535 < count →
      buffer.perform (.count what count) = (.error (.limitExceeded what count), buffer)) ∧
    (let here := (inTurn (BigEndian.next data) offset.toNat before).2
     ∃ answer stop,
       inTurn (BigEndian.next data) offset.toNat (before ++ width :: after) =
         ((inTurn (BigEndian.next data) offset.toNat before).1 ++
             answer :: (inTurn (BigEndian.next data) stop after).1,
           (inTurn (BigEndian.next data) stop after).2) ∧
       ((∃ value, answer = .ok value) ↔ here + width.size ≤ data.length) ∧
       (∀ value, answer = .ok value →
         value = BigEndian.wordAt data here width ∧ stop = here + width.size) ∧
       ∀ e, answer = .error e → e = .outOfBounds ∧ stop = here ∧
         ∀ narrower, here + narrower.size ≤ data.length →
           (BigEndian.next data stop narrower).1 =
             .ok (BigEndian.wordAt data here narrower)) ∧
    (let machine := inTurn (BigEndian.nextChecked data) offset (before ++ width :: after)
     (machine.1, machine.2.toNat) =
       inTurn (BigEndian.next data) offset.toNat (before ++ width :: after)) ∧
    ∀ widths,
      let reading := inTurn Cursor.next (.ofBytes data) widths
      (reading.1, reading.2.position) = inTurn (BigEndian.next data) 0 widths ∧
      reading.2.length = data.length ∧
      reading.2.position ≤ reading.2.length ∧
      reading.2.position + reading.2.remaining = reading.2.length := by
  refine ⟨?_, ?_, ?_, ?_, ?_⟩
  · exact ⟨(Buffer.inTurn_perform .empty puts).1, Cursor.inTurn_next_perform puts more⟩
  · exact fun buffer what count excess => buffer.count_of_lt what excess
  · exact BigEndian.inTurn_next_middle data offset.toNat before width after
  · obtain ⟨answers, stop⟩ :=
      BigEndian.inTurn_nextChecked small offset (before ++ width :: after)
    exact Prod.ext answers stop
  · intro widths reading
    obtain ⟨answers, same, stop⟩ := Cursor.inTurn_next data widths
    exact ⟨Prod.ext answers stop, congrArg List.length same, reading.2.position_le,
      reading.2.position_add_remaining⟩

/-- A refused count between two words, and reads from the last offset, whose ends wrap around to the
bytes at the front. -/
theorem puts_read_back_past_refusal :
    ([1, 2, 3] : Bytes).length < 2 ^ 64 ∧
    (let writing := inTurn Buffer.perform .empty
       [.word .bits16 258, .count "rows" 70000, .count "rows" 3]
     let reading := inTurn Cursor.next (.ofBytes (writing.2.toBytes ++ [9])) [.bits16, .bits16]
     writing.1 = [.ok (), .error (.limitExceeded "rows" 70000), .ok ()] ∧
     reading.1 = [.ok 258, .ok 3] ∧ reading.2.position = writing.2.size) ∧
    (let machine := inTurn (BigEndian.nextChecked [1, 2, 3]) 18446744073709551615
       [.bits16, .bits8]
     (machine.1, machine.2.toNat) =
       ([.error .outOfBounds, .error .outOfBounds], 18446744073709551615)) := by
  obtain ⟨written, -, -, machine, -⟩ := puts_read_back_and_reads_in_bounds
    [.word .bits16 258, .count "rows" 70000, .count "rows" 3] [9] [1, 2, 3]
    18446744073709551615 [] .bits16 [.bits8] (by decide)
  exact ⟨by decide, written, machine.trans rfl⟩

end DescriptorCodec
