import DescriptorCodec.Attribute.Basic
import DescriptorCodec.Proofs.Record.Spelling
import DescriptorCodec.Proofs.Version.Caching

/-!
# The rows of a record

A record is taken apart into rows before anything is collected: the flags are as they stand, no row
is left out, and the rows of a service need not be beside each other. `SpelledBy` says, word by
word, when a record consists of such rows. It consists of at most one list of them.

A record can be decoded exactly if it consists of rows, and what is decoded is collected from them.
-/

namespace DescriptorCodec

open Record (TableOf words)

/-- A row of a table of exported or opened packages. -/
structure AccessRow where
  source : String
  flags : UInt16
  targets : List String

/-- The rows of the record that every module has, and its flags. -/
structure ModuleRows where
  flags : UInt16
  requires : List (String × UInt16)
  exports : List AccessRow
  opens : List AccessRow
  uses : List String
  provides : List (String × String)

/-- The rows of the record of packages. -/
structure PackageRows where
  names : List String

/-- The rows of the record of hashes, and the algorithm. -/
structure HashRows where
  algorithm : String
  entries : List (String × String)

/-! ### Word by word -/

/-- One word that stands for what a field says. -/
def Field.SpelledBy (pool : Pool) (field : Field) (ws : List UInt16) (value : field.Value) : Prop :=
  ∃ bits, ws = [bits] ∧ field.Says pool bits value

/-- Two words that stand for what two fields say. -/
def Field.PairSpelledBy (pool : Pool) (first second : Field) (ws : List UInt16)
    (pair : first.Value × second.Value) : Prop :=
  ∃ bits bits', ws = [bits, bits'] ∧ first.Says pool bits pair.1 ∧ second.Says pool bits' pair.2

/-- A package, its flags and the table of its targets. -/
def AccessRow.SpelledBy (pool : Pool) (ws : List UInt16) (row : AccessRow) : Prop :=
  ∃ source targets, ws = source :: row.flags :: targets ∧
    Field.packageName.Says pool source row.source ∧
    TableOf (Field.utf8.SpelledBy pool) targets row.targets

/-- The flags and five tables, one after another, whatever comes behind them. -/
def ModuleRows.SpelledBy (pool : Pool) (record : Bytes) (rows : ModuleRows) : Prop :=
  ∃ requires exports opens uses provides behind,
    words record =
      rows.flags :: (requires ++ (exports ++ (opens ++ (uses ++ provides)))) ++ behind ∧
    TableOf (Field.utf8.PairSpelledBy pool .word) requires rows.requires ∧
    TableOf (AccessRow.SpelledBy pool) exports rows.exports ∧
    TableOf (AccessRow.SpelledBy pool) opens rows.opens ∧
    TableOf (Field.className.SpelledBy pool) uses rows.uses ∧
    TableOf (Field.className.PairSpelledBy pool .className) provides rows.provides

/-- One table of package names. -/
def PackageRows.SpelledBy (pool : Pool) (record : Bytes) (rows : PackageRows) : Prop :=
  ∃ names behind, words record = names ++ behind ∧
    TableOf (Field.packageName.SpelledBy pool) names rows.names

/-- The algorithm, and one table of names and hashes. -/
def HashRows.SpelledBy (pool : Pool) (record : Bytes) (rows : HashRows) : Prop :=
  ∃ algorithm entries behind, words record = algorithm :: entries ++ behind ∧
    Field.utf8.Says pool algorithm rows.algorithm ∧
    TableOf (Field.utf8.PairSpelledBy pool .utf8) entries rows.entries

/-! ### Reading rows -/

def Reading.pair (first second : Field) : Reading (first.Value × second.Value) := do
  let a ← field first
  let b ← field second
  return (a, b)

/-- Reads a row of a table of packages as it stands. -/
def AccessRow.reading : Reading AccessRow := do
  let source ← Reading.field .packageName
  let flags ← Reading.field .word
  let targets ← Reading.table (Reading.field .utf8)
  return ⟨source, flags, targets⟩

/-- Reads the rows of the record that every module has as they stand. -/
def ModuleRows.reading : Reading ModuleRows := do
  let flags ← Reading.field .word
  let requires ← Reading.table (Reading.pair .utf8 .word)
  let exports ← Reading.table AccessRow.reading
  let opens ← Reading.table AccessRow.reading
  let uses ← Reading.table (Reading.field .className)
  let provides ← Reading.table (Reading.pair .className .className)
  return { flags, requires, exports, opens, uses, provides }

def PackageRows.reading : Reading PackageRows :=
  PackageRows.mk <$> Reading.table (Reading.field .packageName)

/-- Reads the rows of the record of hashes as they stand. -/
def HashRows.reading : Reading HashRows := do
  let algorithm ← Reading.field .utf8
  let entries ← Reading.table (Reading.pair .utf8 .utf8)
  return { algorithm, entries }

section Spelling

open Reading

variable {pool : Pool} {ws : List UInt16} {record : Bytes}

theorem Reading.spells_pair_iff {first second : Field} {pair : first.Value × second.Value} :
    (Reading.pair first second).Spells pool ws pair ↔ first.PairSpelledBy pool second ws pair := by
  obtain ⟨a, b⟩ := pair
  simp only [Reading.pair, bind_eq, pure_eq, spells_bind_iff, spells_field_iff, spells_done_iff]
  constructor
  · rintro ⟨_, _, _, rfl, ⟨bits, rfl, told⟩, _, _, _, rfl, ⟨bits', rfl, told'⟩, rfl, ⟨⟩⟩
    exact ⟨bits, bits', rfl, told, told'⟩
  · rintro ⟨bits, bits', rfl, told, told'⟩
    exact ⟨[bits], [bits'], a, rfl, ⟨bits, rfl, told⟩, [bits'], [], b, rfl, ⟨bits', rfl, told'⟩,
      rfl, rfl⟩

theorem Reading.spells_column_iff {kind : Field} {values : List kind.Value} :
    (Reading.table (Reading.field kind)).Spells pool ws values ↔
      TableOf (kind.SpelledBy pool) ws values :=
  spells_table_iff fun _ _ => spells_field_iff

theorem Reading.spells_pairs_iff {first second : Field} {rows : List (first.Value × second.Value)} :
    (Reading.table (Reading.pair first second)).Spells pool ws rows ↔
      TableOf (first.PairSpelledBy pool second) ws rows :=
  spells_table_iff fun _ _ => spells_pair_iff

theorem AccessRow.spells_iff {row : AccessRow} :
    AccessRow.reading.Spells pool ws row ↔ row.SpelledBy pool ws := by
  obtain ⟨source, flags, targets⟩ := row
  simp only [AccessRow.reading, bind_eq, pure_eq, spells_bind_iff, spells_done_iff]
  constructor
  · rintro ⟨_, _, _, rfl, first, _, _, _, rfl, second, table, _, _, rfl, third, rfl, ⟨⟩⟩
    obtain ⟨bits, rfl, told⟩ := spells_field_iff.mp first
    obtain ⟨flags, rfl, rfl⟩ := spells_field_iff.mp second
    refine ⟨bits, table, ?_, told, spells_column_iff.mp third⟩
    rw [List.append_nil]
    rfl
  · rintro ⟨bits, table, rfl, told, each⟩
    exact ⟨[bits], _, _, rfl, spells_field_iff.mpr ⟨bits, rfl, told⟩, [flags], _, _, rfl,
      spells_field_iff.mpr ⟨flags, rfl, rfl⟩, table, [], targets, (List.append_nil _).symm,
      spells_column_iff.mpr each, rfl, rfl⟩

theorem AccessRow.spells_table_iff {rows : List AccessRow} :
    (Reading.table AccessRow.reading).Spells pool ws rows ↔
      TableOf (AccessRow.SpelledBy pool) ws rows :=
  Reading.spells_table_iff fun _ _ => AccessRow.spells_iff

/-- The rows of a record are those that are read, so there is one list of them at most. -/
theorem ModuleRows.spelledBy_iff {rows : ModuleRows} :
    rows.SpelledBy pool record ↔ ModuleRows.reading.decode pool record = .ok rows := by
  obtain ⟨flags, requires, exports, opens, uses, provides⟩ := rows
  rw [decode_eq_ok_iff]
  simp only [ModuleRows.reading, bind_eq, pure_eq, spells_bind_iff, spells_done_iff]
  constructor
  · rintro ⟨requiresWs, exportsWs, opensWs, usesWs, providesWs, behind, whole, first, second, third,
      fourth, fifth⟩
    refine ⟨_, ⟨behind, whole.symm⟩, [flags], _, flags, rfl,
      spells_field_iff.mpr ⟨flags, rfl, rfl⟩, requiresWs, _, requires, rfl,
      spells_pairs_iff.mpr first, exportsWs, _, exports, rfl, AccessRow.spells_table_iff.mpr second,
      opensWs, _, opens, rfl, AccessRow.spells_table_iff.mpr third, usesWs, _, uses, rfl,
      spells_column_iff.mpr fourth, providesWs, [], provides, (List.append_nil _).symm,
      spells_pairs_iff.mpr fifth, rfl, rfl⟩
  · rintro ⟨_, ⟨behind, whole⟩, _, _, _, rfl, zeroth, requiresWs, _, _, rfl, first, exportsWs, _, _,
      rfl, second, opensWs, _, _, rfl, third, usesWs, _, _, rfl, fourth, providesWs, _, _, rfl,
      fifth, rfl, ⟨⟩⟩
    obtain ⟨flags, rfl, rfl⟩ := spells_field_iff.mp zeroth
    refine ⟨requiresWs, exportsWs, opensWs, usesWs, providesWs, behind, ?_,
      spells_pairs_iff.mp first, AccessRow.spells_table_iff.mp second,
      AccessRow.spells_table_iff.mp third, spells_column_iff.mp fourth, spells_pairs_iff.mp fifth⟩
    rw [← whole, List.append_nil]
    rfl

theorem ModuleRows.spelledBy_iff_eq {rows other : ModuleRows}
    (spelled : rows.SpelledBy pool record) : other.SpelledBy pool record ↔ other = rows := by
  rw [spelledBy_iff, spelledBy_iff.mp spelled, Except.ok.injEq, eq_comm]

theorem PackageRows.spelledBy_iff {rows : PackageRows} :
    rows.SpelledBy pool record ↔ PackageRows.reading.decode pool record = .ok rows := by
  obtain ⟨names⟩ := rows
  rw [PackageRows.reading, decode_map, map_eq_ok_iff]
  simp only [decode_eq_ok_iff]
  constructor
  · rintro ⟨table, behind, whole, each⟩
    exact ⟨names, ⟨table, ⟨behind, whole.symm⟩, spells_column_iff.mpr each⟩, rfl⟩
  · rintro ⟨_, ⟨table, ⟨behind, whole⟩, each⟩, ⟨⟩⟩
    exact ⟨table, behind, whole.symm, spells_column_iff.mp each⟩

theorem PackageRows.spelledBy_iff_eq {rows other : PackageRows}
    (spelled : rows.SpelledBy pool record) : other.SpelledBy pool record ↔ other = rows := by
  rw [spelledBy_iff, spelledBy_iff.mp spelled, Except.ok.injEq, eq_comm]

theorem HashRows.spelledBy_iff {rows : HashRows} :
    rows.SpelledBy pool record ↔ HashRows.reading.decode pool record = .ok rows := by
  obtain ⟨algorithm, entries⟩ := rows
  rw [decode_eq_ok_iff]
  simp only [HashRows.reading, bind_eq, pure_eq, spells_bind_iff, spells_done_iff]
  constructor
  · rintro ⟨bits, table, behind, whole, told, each⟩
    exact ⟨_, ⟨behind, whole.symm⟩, [bits], _, algorithm, rfl,
      spells_field_iff.mpr ⟨bits, rfl, told⟩, table, [], entries, (List.append_nil _).symm,
      spells_pairs_iff.mpr each, rfl, rfl⟩
  · rintro ⟨_, ⟨behind, whole⟩, _, _, _, rfl, first, table, _, _, rfl, second, rfl, ⟨⟩⟩
    obtain ⟨bits, rfl, told⟩ := spells_field_iff.mp first
    refine ⟨bits, table, behind, ?_, told, spells_pairs_iff.mp second⟩
    rw [← whole, List.append_nil]
    rfl

theorem HashRows.spelledBy_iff_eq {rows other : HashRows}
    (spelled : rows.SpelledBy pool record) : other.SpelledBy pool record ↔ other = rows := by
  rw [spelledBy_iff, spelledBy_iff.mp spelled, Except.ok.injEq, eq_comm]

end Spelling

/-! ### Collecting rows -/

/-- What is made of a row of a table of packages. -/
def AccessRow.access (row : AccessRow) : PackageAccess :=
  ⟨row.source, FlagFamily.packageAccess.truncate row.flags, .ofList row.targets⟩

/-- What is made of the rows. -/
def ModuleRows.tables (rows : ModuleRows) : ModuleTables where
  flags := FlagFamily.ofModule.truncate rows.flags
  requires := .ofList (rows.requires.map fun (name, flags) =>
    ⟨name, FlagFamily.requires.truncate flags⟩)
  exports := .ofList (rows.exports.map AccessRow.access)
  opens := .ofList (rows.opens.map AccessRow.access)
  uses := .ofList rows.uses
  provides := (OrderedMap.group rows.provides).map Provides.new

theorem ModuleRows.keyed_provides (rows : ModuleRows) :
    rows.tables.provides.KeyedBy Provides.service :=
  OrderedMap.keyedBy_map (fun _ _ => rfl) _

def HashRows.table (rows : HashRows) : ModuleHashes :=
  .ofList rows.algorithm rows.entries

open Reading

theorem ModuleTables.readRequires_eq : readRequires =
    (fun (row : String × UInt16) => ⟨row.1, FlagFamily.requires.truncate row.2⟩) <$>
      Reading.pair .utf8 .word := rfl

theorem ModuleTables.readAccess_eq : readAccess = AccessRow.access <$> AccessRow.reading := by
  rw [readAccess, AccessRow.reading]
  simp only [map_eq_pure_bind, LawfulMonad.bind_assoc, LawfulMonad.pure_bind]
  rfl

/-- Reading the record is reading its rows and collecting them. -/
theorem ModuleTables.reading_eq : reading = ModuleRows.tables <$> ModuleRows.reading := by
  rw [reading, readRequires_eq, readAccess_eq, ModuleRows.reading, table_map, table_map]
  simp only [map_eq_pure_bind, LawfulMonad.bind_assoc, LawfulMonad.pure_bind]
  rfl

theorem Attribute.readHashes_eq : readHashes = HashRows.table <$> HashRows.reading := by
  rw [readHashes, HashRows.reading]
  simp only [map_eq_pure_bind, LawfulMonad.bind_assoc, LawfulMonad.pure_bind]
  rfl

/-! ### Decoding -/

namespace Attribute

variable {pool : Pool} {record : Bytes} {cache : Option CacheId} {store : VersionStore}
  {log : Array Event} {attr : Attribute}

theorem result_map_read {α β : Type} (f : α → β) (reading : Reading α) (pool : Pool)
    (record : Bytes) (store : VersionStore) (log : Array Event) :
    (f <$> read reading pool record).result store log = (reading.decode pool record).map f := by
  rw [map_eq_pure_bind, CacheM.result, CacheM.exec_bind, read, CacheM.exec_ofExcept]
  cases reading.decode pool record <;> rfl

/-- What is decoded has been collected from the rows of the record. -/
theorem decode_module_eq_ok_iff :
    (decode .module record pool cache).result store log = .ok attr ↔
      ∃ rows : ModuleRows, rows.SpelledBy pool record ∧ attr = .module rows.tables := by
  rw [decode, result_map_read, ModuleTables.reading_eq, Reading.decode_map, map_eq_ok_iff]
  simp only [map_eq_ok_iff, ModuleRows.spelledBy_iff]
  constructor
  · rintro ⟨_, ⟨rows, read, rfl⟩, rfl⟩
    exact ⟨rows, read, rfl⟩
  · rintro ⟨rows, read, rfl⟩
    exact ⟨_, ⟨rows, read, rfl⟩, rfl⟩

theorem decode_packages_eq_ok_iff :
    (decode .packages record pool cache).result store log = .ok attr ↔
      ∃ rows : PackageRows, rows.SpelledBy pool record ∧ attr = .packages (.ofList rows.names) := by
  have mapped : (decode .packages record pool cache).result store log =
      ((table (field .packageName)).decode pool record).map fun names =>
        packages (.ofList names) := result_map_read _ _ _ _ _ _
  rw [mapped]
  simp only [PackageRows.spelledBy_iff, PackageRows.reading, decode_map, map_eq_ok_iff]
  constructor
  · rintro ⟨names, read, rfl⟩
    exact ⟨⟨names⟩, ⟨names, read, rfl⟩, rfl⟩
  · rintro ⟨_, ⟨names, read, rfl⟩, rfl⟩
    exact ⟨names, read, rfl⟩

end Attribute

end DescriptorCodec
