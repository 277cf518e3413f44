import DescriptorCodec.Proofs.Record.Writing
import DescriptorCodec.Record.Reading

/-!
# Readings that follow a layout

`reading.Reads layout value` says that a reading asks for the fields of a layout one after
another and is finished with `value` when it is told what they say. Neither a pool nor bytes occur
in it, so a record format is checked against its reading once and for all. Applied to a record
written with the layout, the reading then finds `value`, whatever bytes follow.
-/

namespace DescriptorCodec

namespace Field

/-- What is read back from the word of a field. -/
def canonical : (field : Field) → field.Value → field.Value
  | word, bits => bits
  | utf8, text => text
  | packageName, name => Name.dotted name
  | className, name => Name.dotted name
  | optionalUtf8, text => text.filter fun text => !text.isEmpty

theorem resolveUtf8_eq_ok_iff {pool : Pool} {bits : UInt16} {text : String} :
    pool.resolveUtf8 bits = .ok text ↔ pool.get? bits = some (.utf8 text) := by
  unfold Pool.resolveUtf8
  split
  · next found => simp [found]
  · next absent =>
    constructor
    · intro impossible
      cases impossible
    · intro found
      exact absurd found (absent text)

/-- A word that stands for a value is resolved to what is read back. -/
theorem Refers.resolve {pool : Pool} {bits : UInt16} {field : Field} {value : field.Value}
    (refers : field.Refers pool bits value) :
    field.resolve pool bits = .ok (field.canonical value) := by
  cases field with
  | word => exact congrArg Except.ok refers
  | utf8 => exact resolveUtf8_eq_ok_iff.mpr refers
  | packageName =>
      have text := resolveUtf8_eq_ok_iff.mpr refers
      simp [Field.resolve, canonical, text, Except.map]
  | className =>
      obtain ⟨nameIndex, entry, name⟩ := refers
      have text := resolveUtf8_eq_ok_iff.mpr name
      simp [Field.resolve, canonical, Pool.resolveClass, entry, text, Except.map]
  | optionalUtf8 =>
      cases value with
      | none =>
          have zero : bits = 0 := refers
          simp [Field.resolve, canonical, zero]
      | some text =>
          simp only [Refers] at refers
          split at refers
          · next empty =>
            have absent : canonical optionalUtf8 (some text) = none := by
              simp [canonical, Option.filter, empty]
            rw [absent, Field.resolve, if_pos refers]
          · next full =>
            have present : canonical optionalUtf8 (some text) = some text := by
              simp [canonical, Option.filter, full]
            have nonzero : bits ≠ 0 := by
              rintro rfl
              cases refers
            rw [present, Field.resolve, if_neg nonzero, resolveUtf8_eq_ok_iff.mpr refers]
            rfl

end Field

namespace Reading

variable {α β γ : Type}

/-- The reading is finished with the value once it has been told the fields of the layout. A count
is only followed if it fits its word. -/
inductive Reads : Reading α → List Item → α → Prop
  | done (value : α) : Reads (done value) [] value
  | field {kind : Field} {asked : kind.Value} {next : kind.Value → Reading α}
      {layout : List Item} {value : α} (rest : Reads (next (kind.canonical asked)) layout value) :
      Reads (ask kind next) (.field kind asked :: layout) value
  | count {table : String} {rows : Nat} {next : UInt16 → Reading α} {layout : List Item}
      {value : α} (rest : rows ≤ countLimit → Reads (next (UInt16.ofNat rows)) layout value) :
      Reads (ask .word next) (.count table rows :: layout) value
  | declare {name : String} {reading : Reading α} {layout : List Item} {value : α}
      (rest : Reads reading layout value) : Reads reading (.declare name :: layout) value

namespace Reads

theorem read_word {value : Nat} (h : value ≤ countLimit) (rest : Bytes) :
    BigEndian.read .bits16 (BigEndian.toBytes Width.bits16.size value ++ rest) =
      some (value, rest) := by
  rw [BigEndian.read_toBytes_append]
  congr 2
  exact Nat.mod_eq_of_lt (Nat.lt_succ_of_le h)

/-- Reading a record that was written with the layout. -/
theorem run {reading : Reading α} {layout : List Item} {value : α}
    (reads : reading.Reads layout value) {pool : Pool} {bytes : Bytes}
    (written : Item.Written pool layout bytes) (rest : Bytes) :
    reading.run pool (bytes ++ rest) = .ok (value, rest) := by
  induction reads generalizing bytes with
  | done value =>
      cases written
      rfl
  | @field kind asked next layout value _ ih =>
      cases written with
      | @field _ _ bits _ bytes refers written =>
          rw [Reading.run, List.append_assoc, read_word (Nat.le_of_lt_succ bits.toNat_lt)]
          simp only [UInt16.ofNat_toNat, refers.resolve]
          exact ih written
  | @count table rows next layout value _ ih =>
      cases written with
      | @count _ _ _ bytes fits written =>
          rw [Reading.run, List.append_assoc, read_word fits]
          exact ih fits written
  | declare _ ih =>
      cases written with
      | declare _ written => exact ih written

theorem decode {reading : Reading α} {layout : List Item} {value : α}
    (reads : reading.Reads layout value) {pool : Pool} {bytes : Bytes}
    (written : Item.Written pool layout bytes) : reading.decode pool bytes = .ok value := by
  have whole := reads.run written []
  rw [List.append_nil] at whole
  rw [Reading.decode, whole]
  rfl

theorem bind {reading : Reading α} {next : α → Reading β} {layout layout' : List Item}
    {value : α} {value' : β} (reads : reading.Reads layout value)
    (reads' : (next value).Reads layout' value') :
    (reading.bind next).Reads (layout ++ layout') value' := by
  induction reads with
  | done value => exact reads'
  | field _ ih => exact .field (ih reads')
  | count _ ih => exact .count fun fits => ih fits reads'
  | declare _ ih => exact .declare (ih reads')

theorem map {reading : Reading α} {layout : List Item} {value : α}
    (reads : reading.Reads layout value) (f : α → β) :
    (reading.bind fun value => .done (f value)).Reads layout (f value) := by
  rw [← List.append_nil layout]
  exact reads.bind (.done (f value))

theorem ofField (kind : Field) (asked : kind.Value) :
    (Reading.field kind).Reads [.field kind asked] (kind.canonical asked) :=
  .field (.done _)

/-- Reading `m + n` rows is reading `m` rows and then `n` rows. -/
theorem rowsFrom_add (row : Reading α) (m n : Nat) (before : List α) :
    rowsFrom row (m + n) before =
      (rowsFrom row m before).bind fun read => rowsFrom row n read.reverse := by
  induction m generalizing before with
  | zero => simp [rowsFrom]
  | succ m ih =>
      rw [Nat.add_right_comm, rowsFrom, rowsFrom, bind_assoc]
      congr 1
      funext first
      exact ih (first :: before)

/-- Rows read one after another, each with its own layout. -/
theorem rowsFrom {row : Reading β} {rows : List α} {layoutOf : α → List Item} {valueOf : α → β}
    (each : ∀ x ∈ rows, row.Reads (layoutOf x) (valueOf x)) (before : List β) :
    (rowsFrom row rows.length before).Reads (rows.flatMap layoutOf)
      (before.reverse ++ rows.map valueOf) := by
  induction rows generalizing before with
  | nil =>
      rw [List.map_nil, List.append_nil]
      exact .done _
  | cons x rows ih =>
      have first := each x List.mem_cons_self
      have others := ih (fun y hy => each y (List.mem_cons_of_mem _ hy)) (valueOf x :: before)
      rw [List.reverse_cons, List.append_assoc] at others
      exact first.bind others

/-- A group of rows for each element, as when a table is written in groups. -/
theorem rowsFrom_groups {row : Reading β} {groups : List α} {layoutOf : α → List Item}
    {rowsOf : α → List β}
    (each : ∀ x ∈ groups, ∀ before, (Reading.rowsFrom row (rowsOf x).length before).Reads
      (layoutOf x) (before.reverse ++ rowsOf x)) (before : List β) :
    (Reading.rowsFrom row (groups.flatMap rowsOf).length before).Reads
      (groups.flatMap layoutOf) (before.reverse ++ groups.flatMap rowsOf) := by
  induction groups generalizing before with
  | nil =>
      rw [List.flatMap_nil, List.flatMap_nil, List.append_nil]
      exact .done _
  | cons x groups ih =>
      rw [List.flatMap_cons, List.flatMap_cons, List.length_append, rowsFrom_add]
      have first := each x List.mem_cons_self before
      refine first.bind ?_
      rw [← List.append_assoc]
      have others := ih (fun y hy => each y (List.mem_cons_of_mem _ hy))
        (before.reverse ++ rowsOf x).reverse
      rwa [List.reverse_reverse] at others

theorem table_of_rowsFrom {row : Reading β} {name : String} {count : Nat} {layout : List Item}
    {rows : List β} (reads : (Reading.rowsFrom row count []).Reads layout rows) :
    (Reading.table row).Reads (.count name count :: layout) rows := by
  refine .count fun fits => ?_
  have small : count < 2 ^ 16 := by
    simp only [countLimit] at fits
    omega
  rw [UInt16.toNat_ofNat', Nat.mod_eq_of_lt small]
  exact reads

/-- A table that is written row by row. -/
theorem table {row : Reading β} {rows : List α} {layoutOf : α → List Item} {valueOf : α → β}
    (name : String) (each : ∀ x ∈ rows, row.Reads (layoutOf x) (valueOf x)) :
    (Reading.table row).Reads (.count name rows.length :: rows.flatMap layoutOf)
      (rows.map valueOf) := by
  have reads := rowsFrom each []
  rw [List.reverse_nil, List.nil_append] at reads
  exact table_of_rowsFrom reads

/-- A table whose rows are single fields. -/
theorem column (name : String) (kind : Field) (values : List kind.Value) :
    (Reading.table (Reading.field kind)).Reads
      (.count name values.length :: values.map fun value => .field kind value)
      (values.map kind.canonical) := by
  rw [List.map_eq_flatMap]
  exact table name fun value _ => ofField kind value

end Reads

end Reading

end DescriptorCodec
