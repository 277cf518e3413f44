import DescriptorCodec.Proofs.Collection.Repeats
import DescriptorCodec.Proofs.Descriptor.Calls
import DescriptorCodec.Proofs.Record.Room
import DescriptorCodec.Proofs.Record.Words
import DescriptorCodec.Proofs.RecordSet.Failure
import DescriptorCodec.Proofs.RecordSet.Feeding

/-!
# Descriptors collected from rows

The rows of a record may repeat one another, and two rows may differ only in bits that mean nothing
or in the order of their targets. A decoded descriptor has the rows in order and without repeats.

Every record reaches the builder once, and what the builder shows of it is never touched again:
`Builder.Shows` survives attributes of other kinds.
-/

namespace DescriptorCodec

open Collection (withoutRepeats)
open Record (TableOf)

/-! ### Without repeats -/

namespace AccessRow

/-- The same package with the same flags, for the same modules in any order. -/
def repeats (earlier row : AccessRow) : Bool :=
  earlier.source == row.source && earlier.flags &&& 0x0030 == row.flags &&& 0x0030 &&
    (earlier.targets.all row.targets.contains && row.targets.all earlier.targets.contains)

/-- The table has those of the rows that repeat none in front of them. -/
structure ListedIn (rows : List AccessRow) (table : OrderedSet PackageAccess) : Prop where
  entries : table.toList.map (fun access =>
      (access.source, access.modifiers, access.targets.toList)) =
    (withoutRepeats repeats [] rows).map fun row =>
      (row.source, row.flags &&& 0x0030, row.targets.eraseDups)
  /-- No row is lost. -/
  represented : ∀ row ∈ rows, ∃ access ∈ table.toList, access.source = row.source ∧
    access.modifiers = row.flags &&& 0x0030 ∧
    ∀ target, target ∈ access.targets.toList ↔ target ∈ row.targets
  /-- No row is made up. -/
  origin : ∀ access ∈ table.toList, ∃ row ∈ rows, access.source = row.source ∧
    access.modifiers = row.flags &&& 0x0030 ∧ access.targets.toList = row.targets.eraseDups

theorem modifiers_access (row : AccessRow) : row.access.modifiers = row.flags &&& 0x0030 := by
  rw [access, FlagFamily.truncate, FlagFamily.mask_packageAccess]

theorem targets_access (row : AccessRow) :
    row.access.targets.toList = row.targets.eraseDups :=
  Collection.firstOccurrences_eq_eraseDups row.targets

theorem mem_targets_access {row : AccessRow} {target : String} :
    target ∈ row.access.targets.toList ↔ target ∈ row.targets := by
  rw [targets_access, List.mem_eraseDups]

theorem repeats_iff {earlier row : AccessRow} :
    earlier.repeats row = true ↔ earlier.source = row.source ∧
      earlier.flags &&& 0x0030 = row.flags &&& 0x0030 ∧
      ∀ target, target ∈ earlier.targets ↔ target ∈ row.targets := by
  simp only [repeats, Bool.and_eq_true, beq_iff_eq, List.all_eq_true, List.contains_iff_mem,
    and_assoc, iff_def, forall_and]

/-- Repeating a row is giving an equal entry. -/
theorem beq_access (earlier row : AccessRow) :
    (earlier.access == row.access) = earlier.repeats row := by
  rw [Bool.eq_iff_iff, PackageAccess.beq_iff, repeats_iff, modifiers_access, modifiers_access,
    OrderedSet.beq_iff]
  refine and_congr_right fun _ => and_congr_right fun _ => forall_congr' fun target => ?_
  rw [Bool.eq_iff_iff, OrderedSet.contains, OrderedSet.contains, List.contains_iff_mem,
    List.contains_iff_mem, mem_targets_access, mem_targets_access]

theorem toList_ofList_access (rows : List AccessRow) :
    (OrderedSet.ofList (rows.map access)).toList = (withoutRepeats repeats [] rows).map access := by
  have mapped := Collection.withoutRepeats_map (fun a b => a == b) access [] rows
  simp only [beq_access] at mapped
  rw [OrderedSet.toList_ofList, Collection.firstOccurrences_eq_withoutRepeats]
  exact mapped

theorem listedIn (rows : List AccessRow) : ListedIn rows (.ofList (rows.map access)) := by
  have entries := toList_ofList_access rows
  constructor
  · rw [entries, List.map_map]
    refine List.map_congr_left fun row _ => ?_
    rw [Function.comp_apply, modifiers_access, targets_access]
    rfl
  · intro row member
    have refl (row : AccessRow) : row.repeats row = true :=
      repeats_iff.mpr ⟨rfl, rfl, fun _ => Iff.rfl⟩
    have trans (x y z : AccessRow) (first : x.repeats y = true) (second : y.repeats z = true) :
        x.repeats z = true := by
      obtain ⟨source, flags, targets⟩ := repeats_iff.mp first
      obtain ⟨source', flags', targets'⟩ := repeats_iff.mp second
      exact repeats_iff.mpr ⟨source.trans source', flags.trans flags',
        fun target => (targets target).trans (targets' target)⟩
    have kept : (∃ earlier ∈ ([] : List AccessRow), earlier.repeats row = true) ∨
        ∃ kept ∈ withoutRepeats repeats [] rows, kept.repeats row = true :=
      Collection.exists_mem_withoutRepeats refl trans member
    rcases kept with ⟨_, impossible, -⟩ | ⟨kept, there, repeated⟩
    · cases impossible
    · obtain ⟨source, flags, targets⟩ := repeats_iff.mp repeated
      refine ⟨kept.access, ?_, source, kept.modifiers_access.trans flags, fun target => ?_⟩
      · rw [entries]
        exact List.mem_map_of_mem there
      · rw [mem_targets_access, targets]
  · intro access member
    rw [entries] at member
    obtain ⟨row, kept, rfl⟩ := List.mem_map.mp member
    exact ⟨row, Collection.withoutRepeats_subset repeats [] rows kept, rfl, row.modifiers_access,
      row.targets_access⟩

end AccessRow

/-- The descriptor has the rows of the tables in order, and none of them again. -/
structure ModuleRows.CollectedIn (rows : ModuleRows) (descriptor : Descriptor) : Prop where
  requires : descriptor.requires.toList =
    (rows.requires.map fun (name, flags) => (⟨name, flags &&& 0x0033⟩ : Requires)).eraseDups
  exports : AccessRow.ListedIn rows.exports descriptor.exports
  opens : AccessRow.ListedIn rows.opens descriptor.opens
  uses : descriptor.uses.toList = rows.uses.eraseDups

/-- One entry for each name, where its first row stands and with the hash of its last row. -/
structure HashRows.CollectedIn (rows : HashRows) (table : ModuleHashes) : Prop where
  algorithm : table.algorithm = rows.algorithm
  names : table.entries.toList.map Prod.fst = (rows.entries.map Prod.fst).eraseDups
  last : ∀ entry ∈ table.entries.toList,
    rows.entries.reverse.find? (fun row => row.1 == entry.1) = some entry

theorem ModuleRows.collectedIn {rows : ModuleRows} {descriptor : Descriptor}
    (requires : descriptor.requires = rows.tables.requires)
    (exports : descriptor.exports = rows.tables.exports)
    (opens : descriptor.opens = rows.tables.opens) (uses : descriptor.uses = rows.tables.uses) :
    rows.CollectedIn descriptor where
  requires := by
    rw [requires, tables, OrderedSet.toList_ofList, Collection.firstOccurrences_eq_eraseDups]
    simp only [FlagFamily.truncate, FlagFamily.mask_requires]
  exports := exports ▸ AccessRow.listedIn rows.exports
  opens := opens ▸ AccessRow.listedIn rows.opens
  uses := by
    rw [uses]
    exact Collection.firstOccurrences_eq_eraseDups rows.uses

theorem HashRows.collectedIn (rows : HashRows) : rows.CollectedIn rows.table := by
  have entries : rows.table.entries.toList = Collection.lastEntries rows.entries :=
    OrderedMap.toList_ofList_eq rows.entries
  constructor
  · rfl
  · rw [entries, Collection.map_fst_lastEntries]
  · rw [entries]
    exact fun entry member => Collection.find?_of_mem_lastEntries member

/-! ### What a builder shows -/

/-- The attribute is collected from the rows of the record, if its kind has rows. -/
def Attribute.CollectedFrom (pool : Pool) (record : Bytes) : Attribute → Prop
  | module tables => ∃ rows : ModuleRows, rows.SpelledBy pool record ∧ tables = rows.tables
  | packages names =>
    ∃ rows : PackageRows, rows.SpelledBy pool record ∧ names = .ofList rows.names
  | hashes table => ∃ rows : HashRows, rows.SpelledBy pool record ∧ table = rows.table
  | _ => True

/-- What the builder has of a kind is collected from the rows of the record, if there is one. -/
def Builder.Shows (pool : Pool) (builder : Builder) : AttributeKind → Option Bytes → Prop
  | .module, some record => ∃ rows : ModuleRows, rows.SpelledBy pool record ∧
      builder.requires = rows.tables.requires ∧ builder.exports = rows.tables.exports ∧
      builder.opens = rows.tables.opens ∧ builder.uses = rows.tables.uses ∧
      builder.provides = rows.tables.provides
  | .packages, none => builder.packages = .empty
  | .packages, some record =>
    ∃ rows : PackageRows, rows.SpelledBy pool record ∧ builder.packages = .ofList rows.names
  | .hashes, none => builder.finalHashes = none
  | .hashes, some record =>
    ∃ rows : HashRows, rows.SpelledBy pool record ∧ builder.finalHashes = some rows.table
  | _, _ => True

namespace Attribute

variable {pool : Pool}

theorem read_collects {α : Type} {reading : Reading α} {record : Bytes} {kind : AttributeKind}
    (make : α → Attribute) (own : ∀ value, (make value).kind = kind)
    (collected : ∀ value, reading.decode pool record = .ok value →
      (make value).CollectedFrom pool record) :
    (make <$> read reading pool record).Spec
      (fun attr => attr.kind = kind ∧ attr.CollectedFrom pool record) fun _ => True := by
  have values : (read reading pool record).Spec
      (fun value => reading.decode pool record = .ok value) fun _ => True :=
    CacheM.Spec.ofExcept (fun _ decoded => decoded) fun _ _ => trivial
  exact values.map fun value decoded => ⟨own value, collected value decoded⟩

theorem decode_collects (kind : AttributeKind) (record : Bytes) (cache : Option CacheId) :
    (decode kind record pool cache).Spec
      (fun attr => attr.kind = kind ∧ attr.CollectedFrom pool record) fun _ => True := by
  cases kind with
  | module =>
      refine read_collects module (fun _ => rfl) fun tables decoded => ?_
      rw [ModuleTables.reading_eq, Reading.decode_map, map_eq_ok_iff] at decoded
      obtain ⟨rows, read, rfl⟩ := decoded
      exact ⟨rows, ModuleRows.spelledBy_iff.mpr read, rfl⟩
  | packages =>
      refine read_collects (fun names => packages (.ofList names)) (fun _ => rfl)
        fun names decoded => ?_
      refine ⟨⟨names⟩, PackageRows.spelledBy_iff.mpr ?_, rfl⟩
      rw [PackageRows.reading, Reading.decode_map, decoded]
      rfl
  | version =>
      refine (version_stepwise cache).mono (fun attr own => ?_) fun _ _ => trivial
      cases attr with
      | version shared => exact ⟨rfl, trivial⟩
      | _ => cases own.1
  | mainClass => exact read_collects mainClass (fun _ => rfl) fun _ _ => trivial
  | targetPlatform => exact read_collects targetPlatform (fun _ => rfl) fun _ _ => trivial
  | hashes =>
      refine read_collects hashes (fun _ => rfl) fun table decoded => ?_
      rw [readHashes_eq, Reading.decode_map, map_eq_ok_iff] at decoded
      obtain ⟨rows, read, rfl⟩ := decoded
      exact ⟨rows, HashRows.spelledBy_iff.mpr read, rfl⟩

end Attribute

namespace Builder

variable {pool : Pool} {builder : Builder} {attr : Attribute} {kind : AttributeKind}

theorem shows_new (name : String) (cache : Option CacheId) (kind : AttributeKind) :
    (new name cache).Shows pool kind none := by
  cases kind <;> trivial

/-- What is shown of a record stays when attributes of other kinds are given. -/
theorem Shows.give {record? : Option Bytes} (shows : builder.Shows pool kind record?)
    (other : attr.kind ≠ kind) : (builder.give attr).Shows pool kind record? := by
  cases attr with
  | module tables =>
      rw [Builder.give, ModuleTables.apply_eq]
      cases kind with
      | module => exact absurd rfl other
      | _ => cases record? <;> exact shows
  | packages names =>
      cases kind with
      | packages => exact absurd rfl other
      | _ => cases record? <;> exact shows
  | hashes table =>
      cases kind with
      | hashes => exact absurd rfl other
      | _ => cases record? <;> exact shows
  | _ => cases kind <;> cases record? <;> exact shows

theorem shows_give {record : Bytes} (collected : attr.CollectedFrom pool record)
    (builder : Builder) : (builder.give attr).Shows pool attr.kind (some record) := by
  cases attr with
  | module tables =>
      obtain ⟨rows, spelled, rfl⟩ := collected
      rw [Builder.give, ModuleTables.apply_eq, rows.keyed_provides.keyBy_values]
      exact ⟨rows, spelled, rfl, rfl, rfl, rfl, rfl⟩
  | packages names =>
      obtain ⟨rows, spelled, rfl⟩ := collected
      exact ⟨rows, spelled, rfl⟩
  | hashes table =>
      obtain ⟨rows, spelled, rfl⟩ := collected
      exact ⟨rows, spelled, finalHashes_give builder rows.table⟩
  | _ => trivial

end Builder

namespace RecordSet

variable {set : RecordSet} {pool : Pool}

/-- A set of nothing but the record of these rows is decoded to what is collected from them. -/
theorem exists_decode_module {record : Bytes} {rows : ModuleRows}
    (alone : set.toList = [(.module, record)]) (spelled : rows.SpelledBy pool record)
    (name : String) (cache : Option CacheId) {store : VersionStore} (parsed : store.Reachable)
    (log : Array Event) :
    ∃ descriptor, (set.decode name pool cache).result store log = .ok descriptor ∧
      descriptor.untagged =
        ((Builder.new name none).merge (.module rows.tables)).descriptor.untagged := by
  have decodes : Attribute.Decodes pool (.module, record) (.module rows.tables) :=
    ⟨none, .empty, #[], .empty, Attribute.decode_module_eq_ok_iff.mpr ⟨rows, spelled, rfl⟩⟩
  have found : set.get? .module = some record :=
    mem_toList_iff.mp (alone ▸ List.mem_singleton_self _)
  have all : List.Forall₂ (Attribute.Decodes pool) set.toList [.module rows.tables] := by
    rw [alone]
    exact .cons decodes .nil
  have module : set.get? .module ≠ none := by
    rw [found]
    exact Option.some_ne_none _
  exact exists_decode all module name cache parsed log

/-- As long as a kind is to come, nothing is shown of it. -/
theorem decode_shows (set : RecordSet) (name : String) (pool : Pool) (cache : Option CacheId) :
    (set.decode name pool cache).Spec
      (fun descriptor => ∃ builder : Builder, descriptor = builder.descriptor ∧
        ∀ kind, builder.Shows pool kind (set.get? kind))
      fun _ => True := by
  let inv (kinds : List AttributeKind) (builder : Builder) : Prop :=
    builder.Awaits kinds ∧
      ∀ kind, builder.Shows pool kind (if kind ∈ kinds then none else set.get? kind)
  have decoded : (set.decode name pool cache).Spec
      (fun descriptor => ∃ builder, inv [] builder ∧ descriptor = builder.descriptor)
      fun _ => True := by
    apply decode_spec
    · refine ⟨Builder.awaits_new _ _, fun kind => ?_⟩
      rw [if_pos kind.mem_all]
      exact Builder.shows_new name cache kind
    · intro kind kinds builder absent holds
      obtain ⟨awaits, shows⟩ := holds
      refine ⟨awaits.skip, fun other => ?_⟩
      have before := shows other
      by_cases same : other = kind
      · subst same
        rw [if_pos List.mem_cons_self] at before
        rwa [absent, ite_self]
      · simpa only [List.mem_cons, same, false_or] using before
    · intro kind kinds builder record found holds
      obtain ⟨awaits, shows⟩ := holds
      refine (Attribute.decode_collects kind record cache).mono ?_ fun _ _ => trivial
      rintro attr ⟨rfl, collected⟩
      have fresh := (List.nodup_cons.mp awaits.nodup).1
      obtain ⟨applied, awaits⟩ := awaits.apply
      refine ⟨_, applied, awaits, fun other => ?_⟩
      by_cases same : other = attr.kind
      · subst same
        rw [if_neg fresh, found]
        exact Builder.shows_give collected builder
      · have before := (shows other).give (Ne.symm same)
        simpa only [List.mem_cons, same, false_or] using before
    · exact fun _ => trivial
  refine decoded.mono ?_ fun _ _ => trivial
  rintro _ ⟨builder, ⟨-, shows⟩, rfl⟩
  exact ⟨builder, rfl, shows⟩

/-- What a set is decoded to has been collected from the rows of its records. Each row is there,
where the first row that it repeats has its place, and nothing else is. Only a hash is taken from
the last row of its name. -/
theorem collected_of_decode {pool : Pool} {set : RecordSet} {name : String}
    {cache : Option CacheId} {store : VersionStore} (parsed : store.Reachable) {log : Array Event}
    {descriptor : Descriptor}
    (decoded : (set.decode name pool cache).result store log = .ok descriptor) :
    (∃ (record : Bytes) (rows : ModuleRows), set.get? .module = some record ∧
      (∀ other : ModuleRows, other.SpelledBy pool record ↔ other = rows) ∧
      rows.CollectedIn descriptor) ∧
    (match set.get? .packages with
      | none => descriptor.packages.toList = []
      | some record => ∃ rows : PackageRows,
          (∀ other : PackageRows, other.SpelledBy pool record ↔ other = rows) ∧
          descriptor.packages.toList = rows.names.eraseDups) ∧
    (match set.get? .hashes with
      | none => descriptor.hashes = none
      | some record => ∃ (rows : HashRows) (table : ModuleHashes),
          (∀ other : HashRows, other.SpelledBy pool record ↔ other = rows) ∧
          descriptor.hashes = some table ∧ rows.CollectedIn table) := by
  obtain ⟨builder, rfl, shows⟩ := (decode_shows set name pool cache).of_ok parsed.sound decoded
  refine ⟨?_, ?_, ?_⟩
  · have shown := shows .module
    cases found : set.get? .module with
    | none =>
        rw [decode, found] at decoded
        cases decoded
    | some record =>
        rw [found] at shown
        obtain ⟨rows, spelled, requires, exports, opens, uses, -⟩ := shown
        exact ⟨record, rows, rfl, fun other => ModuleRows.spelledBy_iff_eq spelled,
          ModuleRows.collectedIn requires exports opens uses⟩
  · have shown := shows .packages
    cases found : set.get? .packages with
    | none =>
        rw [found] at shown
        exact congrArg OrderedSet.toList shown
    | some record =>
        rw [found] at shown
        obtain ⟨rows, spelled, packages⟩ := shown
        refine ⟨rows, fun other => PackageRows.spelledBy_iff_eq spelled, ?_⟩
        rw [Builder.descriptor, packages]
        exact Collection.firstOccurrences_eq_eraseDups rows.names
  · have shown := shows .hashes
    cases found : set.get? .hashes with
    | none =>
        rw [found] at shown
        exact shown
    | some record =>
        rw [found] at shown
        obtain ⟨rows, spelled, hashes⟩ := shown
        exact ⟨rows, rows.table, fun other => HashRows.spelledBy_iff_eq spelled, hashes,
          rows.collectedIn⟩

/-- The second row repeats the first one, but for a bit that means nothing and the order of its
targets. The third one has fewer targets. Only the `/` of the package becomes a `.`. -/
theorem collected_of_decode_reordered :
    ∃ (pool : Pool) (set : RecordSet) (descriptor : Descriptor), pool.Reachable ∧
      set.toList = [(.module, BigEndian.ofWords
        [0, 0, 3, 1, 0x8010, 2, 3, 5, 1, 0x0010, 2, 5, 3, 1, 0x0010, 1, 3, 0, 0, 0])] ∧
      (set.decode "m" pool none).result .empty #[] = .ok descriptor ∧
      (descriptor.exports.toList.map fun access =>
        (access.source, access.modifiers, access.targets.toList)) =
          [("a.p", 0x0010, ["q/x", "r"]), ("a.p", 0x0010, ["q/x"])] := by
  let record : Bytes := BigEndian.ofWords
    [0, 0, 3, 1, 0x8010, 2, 3, 5, 1, 0x0010, 2, 5, 3, 1, 0x0010, 1, 3, 0, 0, 0]
  let set : RecordSet := ⟨⟨[(.module, record)], List.pairwise_singleton _ _⟩⟩
  let exports : List AccessRow :=
    [⟨"a.p", 0x8010, ["q/x", "r"]⟩, ⟨"a.p", 0x0010, ["r", "q/x"]⟩, ⟨"a.p", 0x0010, ["q/x"]⟩]
  let rows : ModuleRows := ⟨0, [], exports, [], [], []⟩
  obtain ⟨pool, reachable, symbols⟩ :=
    Pool.exists_symbols_eq ["a/p", "q/x", "r"] (by decide +kernel)
  have p : Field.packageName.Says pool 1 "a.p" :=
    ⟨"a/p", reachable.symbolAt?_of_idxOf symbols (by decide +kernel) (by decide +kernel),
      by decide +kernel⟩
  have q : Field.utf8.SpelledBy pool [3] "q/x" :=
    ⟨3, rfl, reachable.symbolAt?_of_idxOf symbols (by decide +kernel) (by decide +kernel)⟩
  have r : Field.utf8.SpelledBy pool [5] "r" :=
    ⟨5, rfl, reachable.symbolAt?_of_idxOf symbols (by decide +kernel) (by decide +kernel)⟩
  have listed : TableOf (AccessRow.SpelledBy pool)
      [3, 1, 0x8010, 2, 3, 5, 1, 0x0010, 2, 5, 3, 1, 0x0010, 1, 3] exports := by
    refine ⟨3, [[1, 0x8010, 2, 3, 5], [1, 0x0010, 2, 5, 3], [1, 0x0010, 1, 3]], rfl, rfl, ?_⟩
    exact .cons ⟨1, [2, 3, 5], rfl, p, 2, [[3], [5]], rfl, rfl, .cons q (.cons r .nil)⟩ <|
      .cons ⟨1, [2, 5, 3], rfl, p, 2, [[5], [3]], rfl, rfl, .cons r (.cons q .nil)⟩ <|
      .cons ⟨1, [1, 3], rfl, p, 1, [[3]], rfl, rfl, .cons q .nil⟩ .nil
  have spelled : rows.SpelledBy pool record :=
    ⟨[0], _, [0], [0], [0], [], rfl, ⟨0, [], rfl, rfl, .nil⟩, listed, ⟨0, [], rfl, rfl, .nil⟩,
      ⟨0, [], rfl, rfl, .nil⟩, ⟨0, [], rfl, rfl, .nil⟩⟩
  have alone : set.toList = [(.module, record)] := rfl
  obtain ⟨descriptor, decoded, -⟩ := exists_decode_module alone spelled "m" none .empty #[]
  obtain ⟨⟨_, found, here, unique, collected⟩, -⟩ := collected_of_decode .empty decoded
  cases here
  obtain rfl := (unique rows).mp spelled
  refine ⟨pool, set, descriptor, reachable, alone, decoded, ?_⟩
  rw [collected.exports.entries]
  decide

end RecordSet

end DescriptorCodec
