import DescriptorCodec.Proofs.Attribute.Applying
import DescriptorCodec.Proofs.Attribute.Rows
import DescriptorCodec.Proofs.Record.Reads

/-!
# Reading the tables of a module back

Each row is read back with its names in written form. A row without targets ends with a zero, which
is read as a table without rows. The rows of services are written service by service, so the table
of services is read in groups. Flags that have no meaning are dropped when the rows are collected.
-/

namespace DescriptorCodec

namespace ModuleTables

open FlagFamily

/-- What is read back of the tables. -/
def normalize (tables : ModuleTables) : ModuleTables where
  flags := FlagFamily.ofModule.truncate tables.flags
  requires := .ofList (tables.requires.toList.map Requires.normalize)
  exports := .ofList (tables.exports.toList.map PackageAccess.normalize)
  opens := .ofList (tables.opens.toList.map PackageAccess.normalize)
  uses := .ofList (tables.uses.toList.map Name.dotted)
  provides := Provides.normalizeTable tables.provides

/-- The open flag survives, whatever is said about the module being synthetic. -/
theorem isOpen_moduleFlags (isOpen isSynthetic : Bool) :
    (FlagFamily.ofModule.truncate (moduleFlags isOpen isSynthetic) &&& openBit == openBit) =
      isOpen := by
  cases isOpen <;> cases isSynthetic <;> decide

theorem pair_reads (first second : Field) (a : first.Value) (b : second.Value) :
    (Reading.pair first second).Reads [.field first a, .field second b]
      (first.canonical a, second.canonical b) :=
  .field (.field (.done _))

/-- Both forms of the table of targets. -/
theorem targets_reads (access : PackageAccess) :
    (Reading.table (Reading.field .utf8)).Reads
      (if access.isQualified then
        .count "targets" access.targets.size ::
          access.targets.toList.map fun target => .field .utf8 target
      else [.field .word 0]) access.targets.toList := by
  by_cases qualified : access.isQualified
  · rw [if_pos qualified]
    have same : access.targets.toList.map Field.utf8.canonical = access.targets.toList :=
      List.map_id' _
    have column := Reading.Reads.column "targets" .utf8 access.targets.toList
    rwa [same] at column
  · rw [if_neg qualified, PackageAccess.toList_targets_eq_nil qualified]
    exact .field (.done _)

/-- The row of a table of packages as it is read back. -/
def rowOf (access : PackageAccess) : AccessRow :=
  ⟨Name.dotted access.source, access.modifiers, access.targets.toList⟩

theorem accessRow_reads (access : PackageAccess) :
    AccessRow.reading.Reads (accessRow access) (rowOf access) :=
  .field (.field ((targets_reads access).map _))

/-- The rows of a service as they are read back. -/
def pairsOf (entry : Provides) : List (String × String) :=
  entry.toList.map fun provider => (Name.dotted entry.service, Name.dotted provider)

theorem providesRows_reads (entry : Provides) (before : List (String × String)) :
    (Reading.rowsFrom readProvides (pairsOf entry).length before).Reads
      (providesRows entry) (before.reverse ++ pairsOf entry) := by
  rw [pairsOf, List.length_map]
  refine .declare ?_
  exact Reading.Reads.rowsFrom
    (fun provider _ => pair_reads .className .className entry.service provider) before

theorem provides_reads (tables : ModuleTables) :
    (Reading.table readProvides).Reads
      (.count "provides" tables.pairCount :: tables.provides.values.flatMap providesRows)
      (tables.provides.values.flatMap pairsOf) := by
  have count : tables.pairCount = (tables.provides.values.flatMap pairsOf).length := by
    simp [pairCount, pairsOf, List.length_flatMap]
  rw [count]
  exact Reading.Reads.table_of_rowsFrom <| Reading.Reads.rowsFrom_groups
    (fun entry (_ : entry ∈ tables.provides.values) => providesRows_reads entry) []

/-- Collecting the rows again gives the normal form of the table they were taken from. A service
without implementations has no row, so it can be left out before the rows are made. -/
theorem map_group_pairs (provides : OrderedMap String Provides) :
    (OrderedMap.group (provides.values.flatMap pairsOf)).map Provides.new =
      Provides.normalizeTable provides := by
  have spread (entries : List Provides) : entries.flatMap pairsOf =
      ((entries.filter fun entry => !entry.isEmpty).map fun entry =>
        (Name.dotted entry.service, entry.toList.map Name.dotted)).flatMap fun entry =>
          entry.2.map fun value => (entry.1, value) := by
    induction entries with
    | nil => rfl
    | cons entry entries ih =>
        rw [List.flatMap_cons, ih, List.filter_cons]
        by_cases empty : entry.isEmpty
        · have none : pairsOf entry = [] := by
            simpa [pairsOf, Provides.isEmpty] using empty
          simp [empty, none]
        · simp [empty, pairsOf]
  rw [spread, OrderedMap.group_flatMap]
  · refine OrderedMap.ext ?_
    simp only [Provides.normalizeTable, OrderedMap.toList_map, List.map_map]
    rfl
  · intro entry member
    obtain ⟨original, kept, rfl⟩ := List.mem_map.mp member
    have full := (List.mem_filter.mp kept).2
    simpa [Provides.isEmpty] using full

/-- The layout table by table. -/
theorem layout_eq (tables : ModuleTables) : tables.layout = [.field .word tables.flags] ++
    ((.count "requires" tables.requires.size :: tables.requires.toList.flatMap requiresRow) ++
    ((.count "exports" tables.exports.size :: tables.exports.toList.flatMap accessRow) ++
    ((.count "opens" tables.opens.size :: tables.opens.toList.flatMap accessRow) ++
    ((.count "uses" tables.uses.size ::
      tables.uses.toList.map (fun service => .field .className service)) ++
    (.count "provides" tables.pairCount :: tables.provides.values.flatMap providesRows))))) := by
  simp only [layout, List.cons_append, List.append_assoc, List.nil_append]

/-- The rows that are written, with their names as they are read back. -/
def rows (tables : ModuleTables) : ModuleRows where
  flags := tables.flags
  requires := tables.requires.toList.map fun requires => (requires.name, requires.modifiers)
  exports := tables.exports.toList.map rowOf
  opens := tables.opens.toList.map rowOf
  uses := tables.uses.toList.map Name.dotted
  provides := tables.provides.values.flatMap pairsOf

theorem rows_reads (tables : ModuleTables) :
    ModuleRows.reading.Reads tables.layout tables.rows := by
  have requires := Reading.Reads.table "requires" fun requires
    (_ : requires ∈ tables.requires.toList) =>
      pair_reads .utf8 .word requires.name requires.modifiers
  have exports := Reading.Reads.table "exports" fun access
    (_ : access ∈ tables.exports.toList) => accessRow_reads access
  have opens := Reading.Reads.table "opens" fun access
    (_ : access ∈ tables.opens.toList) => accessRow_reads access
  have uses := Reading.Reads.column "uses" .className tables.uses.toList
  have provides := provides_reads tables
  rw [layout_eq, rows]
  refine (Reading.Reads.ofField .word tables.flags).bind ?_
  refine requires.bind (exports.bind (opens.bind (uses.bind ?_)))
  exact provides.map _

theorem access_rowOf (access : PackageAccess) : (rowOf access).access = access.normalize := by
  rw [rowOf, AccessRow.access, truncate, mask_packageAccess, OrderedSet.ofList_toList]
  rfl

/-- Collecting the rows that are written gives the normal form. -/
theorem tables_rows (tables : ModuleTables) : tables.rows.tables = tables.normalize := by
  have requires (requires : Requires) :
      ⟨requires.name, FlagFamily.requires.truncate requires.modifiers⟩ = requires.normalize := by
    rw [truncate, mask_requires]
    rfl
  rw [rows, ModuleRows.tables, normalize, ← map_group_pairs]
  simp only [List.map_map, Function.comp_def, requires, access_rowOf]

theorem reading_reads (tables : ModuleTables) : reading.Reads tables.layout tables.normalize := by
  rw [reading_eq, ← tables_rows]
  exact (rows_reads tables).map _

end ModuleTables

end DescriptorCodec
