import DescriptorCodec.Proofs.Pool.Symbols
import DescriptorCodec.Proofs.Record.Writing

/-!
# The words of a record

Each word of a record is taken from the pool as it is at that moment. In the pool that is left in
the end a symbol has one number, so the record is what the layout and that pool alone say: for
each field a number of the pool or the field itself, and for each table the number of its rows.
-/

namespace DescriptorCodec

namespace Field

/-- The word of a field, given the numbers of a pool. -/
def number (pool : Pool) : (field : Field) → field.Value → Nat
  | word, bits => bits.toNat
  | utf8, text => pool.indexOf (.utf8 text)
  | packageName, name => pool.indexOf (.utf8 (Name.internal name))
  | className, name => pool.indexOf (.classOf (Name.internal name))
  | optionalUtf8, none => 0
  | optionalUtf8, some text => if text.isEmpty then 0 else pool.indexOf (.utf8 text)

end Field

namespace Pool

variable {pool : Pool} {index : UInt16}

theorem Closed.toNat_of_get?_utf8 (closed : pool.Closed) {text : String}
    (found : pool.get? index = some (.utf8 text)) : index.toNat = pool.indexOf (.utf8 text) := by
  refine closed.toNat_eq_indexOf ?_
  rw [symbolAt?, found]
  rfl

theorem Closed.toNat_of_refersToClass (closed : pool.Closed) {name : String}
    (refers : pool.RefersToClass name index) :
    index.toNat = pool.indexOf (.classOf (Name.internal name)) := by
  obtain ⟨nameIndex, entry, text⟩ := refers
  refine closed.toNat_eq_indexOf ?_
  rw [symbolAt?, entry]
  exact symbol?_classRef text

end Pool

namespace Field

/-- Whatever word stands for what the field says, it has this number. -/
theorem Refers.toNat_eq {pool : Pool} (closed : pool.Closed) {bits : UInt16} {field : Field}
    {value : field.Value} (refers : field.Refers pool bits value) :
    bits.toNat = field.number pool value := by
  cases field with
  | word => exact congrArg UInt16.toNat refers
  | utf8 => exact closed.toNat_of_get?_utf8 refers
  | packageName => exact closed.toNat_of_get?_utf8 refers
  | className => exact closed.toNat_of_refersToClass refers
  | optionalUtf8 =>
      cases value with
      | none => exact congrArg UInt16.toNat refers
      | some text =>
          simp only [Refers, number] at refers ⊢
          split at refers
          · next empty =>
            rw [if_pos empty]
            exact congrArg UInt16.toNat refers
          · next full =>
            rw [if_neg full]
            exact closed.toNat_of_get?_utf8 refers

end Field

/-- Words of two bytes, one after another. -/
def BigEndian.ofWords (words : List Nat) : Bytes :=
  words.flatMap (toBytes Width.bits16.size)

namespace Item

def words (pool : Pool) : Item → List Nat
  | field kind value => [kind.number pool value]
  | count _ rows => [rows]
  | declare _ => []

/-- A written record consists of the words of its layout, none of which is cut off. -/
theorem Written.eq_ofWords {pool : Pool} (closed : pool.Closed) {layout : List Item}
    {bytes : Bytes} (written : Written pool layout bytes) :
    bytes = BigEndian.ofWords (layout.flatMap (words pool)) ∧
      ∀ word ∈ layout.flatMap (words pool), word ≤ countLimit := by
  induction written with
  | nil =>
      refine ⟨rfl, ?_⟩
      intro word impossible
      cases impossible
  | @field kind value bits items bytes refers _ ih =>
      obtain ⟨same, small⟩ := ih
      have number := refers.toNat_eq closed
      rw [List.flatMap_cons, words, ← number]
      constructor
      · rw [same]
        rfl
      · intro word member
        rcases List.mem_cons.mp member with rfl | member
        · exact Nat.le_of_lt_succ bits.toNat_lt
        · exact small word member
  | @count table rows items bytes fits _ ih =>
      obtain ⟨same, small⟩ := ih
      rw [List.flatMap_cons, words]
      constructor
      · rw [same]
        rfl
      · intro word member
        rcases List.mem_cons.mp member with rfl | member
        · exact fits
        · exact small word member
  | declare _ _ ih => exact ih

end Item

end DescriptorCodec
