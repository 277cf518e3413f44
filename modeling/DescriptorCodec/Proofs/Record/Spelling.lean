import Mathlib.Data.List.Forall2
import DescriptorCodec.Proofs.Pool.Symbols
import DescriptorCodec.Proofs.Record.Reads
import DescriptorCodec.Proofs.Record.Steps

/-!
# What words spell

What a record says is told by its words and the pool alone. `Field.Says` is what one word says,
and a table is a count and then as many rows, each spelled by words of its own.

A reading that is finished with a value has been told it by words that spell the value, and it is
finished with nothing else. `Reading.Spells` says so for every reading, and there is one lemma for
each way in which readings are put together.
-/

namespace DescriptorCodec

theorem map_eq_ok_iff {α β : Type} {outcome : Except Error α} {f : α → β} {value : β} :
    outcome.map f = .ok value ↔ ∃ given, outcome = .ok given ∧ value = f given := by
  cases outcome with
  | ok given => simp [Except.map, eq_comm]
  | error e => simp [Except.map]

namespace Pool

variable {pool : Pool} {index : UInt16}

theorem symbolAt?_eq_utf8_iff {text : String} :
    pool.symbolAt? index = some (.utf8 text) ↔ pool.get? index = some (.utf8 text) := by
  rw [symbolAt?, Option.bind_eq_some_iff]
  constructor
  · rintro ⟨entry | name, found, stands⟩
    · cases stands
      exact found
    · obtain ⟨_, -, impossible⟩ := symbol?_classRef_eq_some stands
      cases impossible
  · intro found
    exact ⟨_, found, rfl⟩

theorem symbolAt?_eq_classOf_iff {text : String} :
    pool.symbolAt? index = some (.classOf text) ↔
      ∃ name, pool.get? index = some (.classRef name) ∧ pool.get? name = some (.utf8 text) := by
  rw [symbolAt?, Option.bind_eq_some_iff]
  constructor
  · rintro ⟨entry | name, found, stands⟩
    · cases stands
    · obtain ⟨stored, there, same⟩ := symbol?_classRef_eq_some stands
      cases same
      exact ⟨name, found, there⟩
  · rintro ⟨name, found, there⟩
    exact ⟨_, found, symbol?_classRef there⟩

end Pool

namespace Field

/-- What the word of a field says. -/
def Says (pool : Pool) (bits : UInt16) : (field : Field) → field.Value → Prop
  | word, value => value = bits
  | utf8, text => pool.symbolAt? bits = some (.utf8 text)
  | packageName, name =>
    ∃ stored, pool.symbolAt? bits = some (.utf8 stored) ∧ name = Name.dotted stored
  | className, name =>
    ∃ stored, pool.symbolAt? bits = some (.classOf stored) ∧ name = Name.dotted stored
  | optionalUtf8, none => bits = 0
  | optionalUtf8, some text => bits ≠ 0 ∧ pool.symbolAt? bits = some (.utf8 text)

theorem resolveUtf8_eq_ok_iff_symbolAt? {pool : Pool} {bits : UInt16} {text : String} :
    pool.resolveUtf8 bits = .ok text ↔ pool.symbolAt? bits = some (.utf8 text) :=
  resolveUtf8_eq_ok_iff.trans Pool.symbolAt?_eq_utf8_iff.symm

/-- A word is resolved to what it says, and to nothing else. -/
theorem resolve_eq_ok_iff {pool : Pool} {bits : UInt16} {field : Field} {value : field.Value} :
    field.resolve pool bits = .ok value ↔ field.Says pool bits value := by
  cases field with
  | word => simp [resolve, Says, eq_comm]
  | utf8 => exact resolveUtf8_eq_ok_iff_symbolAt?
  | packageName =>
      simp only [resolve, Says, map_eq_ok_iff, resolveUtf8_eq_ok_iff_symbolAt?]
  | className =>
      simp only [resolve, Says, Pool.symbolAt?_eq_classOf_iff, Pool.resolveClass]
      constructor
      · intro resolved
        split at resolved
        · next name found =>
          obtain ⟨stored, there, same⟩ := map_eq_ok_iff.mp resolved
          exact ⟨stored, ⟨name, found, resolveUtf8_eq_ok_iff.mp there⟩, same⟩
        · cases resolved
      · rintro ⟨stored, ⟨name, found, there⟩, rfl⟩
        rw [found]
        exact map_eq_ok_iff.mpr ⟨stored, resolveUtf8_eq_ok_iff.mpr there, rfl⟩
  | optionalUtf8 =>
      simp only [resolve]
      by_cases zero : bits = 0
      · cases value <;> simp [zero, Says]
      · rw [if_neg zero, map_eq_ok_iff]
        cases value <;> simp [zero, Says, resolveUtf8_eq_ok_iff_symbolAt?]

end Field

/-- The words are a count and then as many rows. -/
def Record.TableOf {α : Type} (row : List UInt16 → α → Prop) (ws : List UInt16) (rows : List α) :
    Prop :=
  ∃ (count : UInt16) (parts : List (List UInt16)), ws = count :: parts.flatten ∧
    count.toNat = rows.length ∧ List.Forall₂ row parts rows

/-- What rows of this kind have in common holds of all rows of the table. -/
theorem Record.TableOf.forall_mem {α : Type} {row : List UInt16 → α → Prop} {p : α → Prop}
    (each : ∀ ws value, row ws value → p value) {ws : List UInt16} {rows : List α}
    (table : TableOf row ws rows) : ∀ value ∈ rows, p value := by
  obtain ⟨count, parts, -, -, spelled⟩ := table
  induction spelled with
  | nil => exact List.forall_mem_nil p
  | cons first _ ih => exact List.forall_mem_cons.mpr ⟨each _ _ first, ih⟩

namespace Reading

open Record

variable {α β : Type} {pool : Pool}

/-- The words are the ones that the reading asks for, and they tell it the value. -/
inductive Spells (pool : Pool) : Reading α → List UInt16 → α → Prop
  | done (value : α) : Spells pool (done value) [] value
  | ask {field : Field} {next : field.Value → Reading α} {bits : UInt16} {asked : field.Value}
      {ws : List UInt16} {value : α} (told : field.Says pool bits asked)
      (rest : Spells pool (next asked) ws value) : Spells pool (ask field next) (bits :: ws) value

theorem spells_done_iff {result value : α} {ws : List UInt16} :
    (done result).Spells pool ws value ↔ ws = [] ∧ value = result := by
  constructor
  · rintro ⟨⟩
    exact ⟨rfl, rfl⟩
  · rintro ⟨rfl, rfl⟩
    exact .done _

theorem spells_ask_iff {field : Field} {next : field.Value → Reading α} {ws : List UInt16}
    {value : α} :
    (ask field next).Spells pool ws value ↔
      ∃ bits rest asked, ws = bits :: rest ∧ field.Says pool bits asked ∧
        (next asked).Spells pool rest value := by
  constructor
  · rintro (_ | ⟨told, rest⟩)
    exact ⟨_, _, _, rfl, told, rest⟩
  · rintro ⟨bits, rest, asked, rfl, told, spells⟩
    exact .ask told spells

/-- What a record is read as is what the words in front spell. -/
theorem decode_eq_ok_iff {reading : Reading α} {bytes : Bytes} {value : α} :
    reading.decode pool bytes = .ok value ↔
      ∃ ws, ws <+: words bytes ∧ reading.Spells pool ws value := by
  rw [decode, map_eq_ok_iff]
  induction reading generalizing bytes with
  | done result =>
      constructor
      · rintro ⟨_, ran, rfl⟩
        cases ran
        exact ⟨[], List.nil_prefix, .done result⟩
      · rintro ⟨_, -, ⟨⟩⟩
        exact ⟨_, rfl, rfl⟩
  | ask field next ih =>
      rw [run]
      simp only [spells_ask_iff]
      cases read : BigEndian.read .bits16 bytes with
      | none =>
          rw [words_of_read_eq_none read]
          constructor
          · rintro ⟨_, ran, -⟩
            cases ran
          · rintro ⟨_, front, bits, rest, asked, rfl, -⟩
            cases List.prefix_nil.mp front
      | some found =>
          obtain ⟨bits, after⟩ := found
          rw [words_of_read_eq_some read]
          dsimp only
          constructor
          · rintro ⟨outcome, ran, rfl⟩
            cases resolved : field.resolve pool (UInt16.ofNat bits) with
            | error e =>
                rw [resolved] at ran
                cases ran
            | ok asked =>
                rw [resolved] at ran
                obtain ⟨ws, front, spells⟩ := (ih asked).mp ⟨outcome, ran, rfl⟩
                exact ⟨_, List.cons_prefix_cons.mpr ⟨rfl, front⟩, _, ws, asked, rfl,
                  Field.resolve_eq_ok_iff.mp resolved, spells⟩
          · rintro ⟨_, front, first, rest, asked, rfl, told, spells⟩
            obtain ⟨rfl, behind⟩ := List.cons_prefix_cons.mp front
            rw [Field.resolve_eq_ok_iff.mpr told]
            exact (ih asked).mpr ⟨rest, behind, spells⟩

theorem bind_eq (reading : Reading α) (next : α → Reading β) :
    (reading >>= next) = reading.bind next := rfl

theorem pure_eq (value : α) : (pure value : Reading α) = done value := rfl

theorem decode_map (f : α → β) (reading : Reading α) (pool : Pool) (bytes : Bytes) :
    (f <$> reading).decode pool bytes = (reading.decode pool bytes).map f := by
  rw [map_eq_pure_bind, bind_eq, decode, run_bind, decode]
  cases reading.run pool bytes <;> rfl

/-- Whether rows are changed one by one or all at once. -/
theorem rowsFrom_map (f : α → β) (row : Reading α) (count : Nat) (before : List α) :
    rowsFrom (f <$> row) count (before.map f) = List.map f <$> rowsFrom row count before := by
  induction count generalizing before with
  | zero =>
      rw [rowsFrom, rowsFrom, ← List.map_reverse]
      rfl
  | succ count ih =>
      have rest (first : α) := ih (first :: before)
      simp only [List.map_cons, map_eq_pure_bind, bind_eq, pure_eq] at rest
      simp only [rowsFrom, map_eq_pure_bind, bind_eq, pure_eq, bind_assoc, bind_done, rest]

theorem table_map (f : α → β) (row : Reading α) : table (f <$> row) = List.map f <$> table row :=
  congrArg (ask .word) (funext fun count => rowsFrom_map f row count.toNat [])

theorem spells_field_iff {kind : Field} {ws : List UInt16} {value : kind.Value} :
    (field kind).Spells pool ws value ↔ ∃ bits, ws = [bits] ∧ kind.Says pool bits value := by
  simp only [field, spells_ask_iff, spells_done_iff]
  constructor
  · rintro ⟨bits, _, _, rfl, told, rfl, rfl⟩
    exact ⟨bits, rfl, told⟩
  · rintro ⟨bits, rfl, told⟩
    exact ⟨bits, _, _, rfl, told, rfl, rfl⟩

theorem spells_bind_iff {reading : Reading α} {next : α → Reading β} {ws : List UInt16}
    {value : β} :
    (reading.bind next).Spells pool ws value ↔
      ∃ front back given, ws = front ++ back ∧ reading.Spells pool front given ∧
        (next given).Spells pool back value := by
  induction reading generalizing ws with
  | done result =>
      simp only [bind_done, spells_done_iff]
      constructor
      · intro spells
        exact ⟨[], ws, result, rfl, ⟨rfl, rfl⟩, spells⟩
      · rintro ⟨_, back, _, rfl, ⟨rfl, rfl⟩, spells⟩
        exact spells
  | ask field more ih =>
      simp only [bind_ask, spells_ask_iff, ih]
      constructor
      · rintro ⟨bits, _, asked, rfl, told, front, back, given, rfl, first, second⟩
        exact ⟨bits :: front, back, given, rfl, ⟨bits, front, asked, rfl, told, first⟩, second⟩
      · rintro ⟨_, back, given, rfl, ⟨bits, front, asked, rfl, told, first⟩, second⟩
        exact ⟨bits, front ++ back, asked, rfl, told, front, back, given, rfl, first, second⟩

theorem spells_rowsFrom_iff {row : Reading α} {count : Nat} {before rows : List α}
    {ws : List UInt16} :
    (rowsFrom row count before).Spells pool ws rows ↔
      ∃ parts later, ws = parts.flatten ∧ rows = before.reverse ++ later ∧ count = later.length ∧
        List.Forall₂ (row.Spells pool) parts later := by
  induction count generalizing before ws with
  | zero =>
      simp only [rowsFrom, spells_done_iff]
      constructor
      · rintro ⟨rfl, rfl⟩
        exact ⟨[], [], rfl, (List.append_nil _).symm, rfl, .nil⟩
      · rintro ⟨parts, later, rfl, rfl, none, each⟩
        obtain rfl := List.length_eq_zero_iff.mp none.symm
        cases each
        exact ⟨rfl, List.append_nil _⟩
  | succ count ih =>
      simp only [rowsFrom, spells_bind_iff, ih]
      constructor
      · rintro ⟨part, _, first, rfl, spells, parts, later, rfl, rfl, rfl, each⟩
        refine ⟨part :: parts, first :: later, rfl, ?_, rfl, .cons spells each⟩
        rw [List.reverse_cons, List.append_assoc]
        rfl
      · rintro ⟨_, _, rfl, rfl, length, each⟩
        cases each with
        | nil => cases length
        | @cons part first parts later spells each =>
            refine ⟨part, parts.flatten, first, rfl, spells, parts, later, rfl, ?_,
              Nat.succ.inj length, each⟩
            rw [List.reverse_cons, List.append_assoc]
            rfl

/-- A table is spelled row by row. -/
theorem spells_table_iff {row : Reading α} {spelled : List UInt16 → α → Prop}
    (each : ∀ ws value, row.Spells pool ws value ↔ spelled ws value) {ws : List UInt16}
    {rows : List α} : (table row).Spells pool ws rows ↔ TableOf spelled ws rows := by
  obtain rfl : row.Spells pool = spelled :=
    funext fun ws => funext fun value => propext (each ws value)
  simp only [table, spells_ask_iff, spells_rowsFrom_iff, List.reverse_nil, List.nil_append]
  constructor
  · rintro ⟨bits, _, count, rfl, told, parts, _, rfl, rfl, length, each⟩
    cases told
    exact ⟨bits, parts, rfl, length, each⟩
  · rintro ⟨count, parts, rfl, length, each⟩
    exact ⟨count, _, _, rfl, rfl, parts, _, rfl, rfl, length, each⟩

end Reading

end DescriptorCodec
