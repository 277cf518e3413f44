import DescriptorCodec.Proofs.Descriptor.Format
import DescriptorCodec.Proofs.RecordSet.Rows

/-!
# Services collected from rows

A record pairs services with implementations in any order. The pairs are collected service by
service when they are read, the builder enters the services once more, and writing spreads them
over rows again. On this way no pair is lost and none is made up: only repeats go, and the pairs of
a service come to stand together.
-/

namespace DescriptorCodec

open Collection (partnersOf groupedPairs)

/-- The descriptor provides the services of these pairs, each with what it is paired with. -/
structure Descriptor.Coalesces (descriptor : Descriptor) (pairs : List (String × String)) :
    Prop where
  /-- Each service is looked up by the name that is in its entry. -/
  keys : ∀ entry ∈ descriptor.provides.toList, entry.1 = entry.2.service
  /-- The services in the order of their first pairs. -/
  services : descriptor.provides.toList.map Prod.fst = (pairs.map Prod.fst).eraseDups
  /-- The implementations of a service in the order in which they were first paired with it. -/
  providers : ∀ entry ∈ descriptor.provides.toList, entry.2.toList = partnersOf entry.1 pairs
  nodup : ∀ entry ∈ descriptor.provides.toList, entry.2.toList.Nodup
  nonempty : ∀ entry ∈ descriptor.provides.toList, entry.2.toList ≠ []
  /-- Nothing is lost and nothing made up. -/
  perm : descriptor.pairs.Perm pairs.eraseDups
  /-- The pairs of a service stand together. -/
  contiguous : ∀ service, ∃ before after,
    descriptor.pairs =
        before ++ ((partnersOf service pairs).map fun provider => (service, provider)) ++ after ∧
      ∀ pair ∈ before ++ after, pair.1 ≠ service

namespace ModuleRows

theorem toList_provides (rows : ModuleRows) :
    rows.tables.provides.toList = (rows.provides.map Prod.fst).eraseDups.map fun service =>
      (service, Provides.new service (Collection.valuesOf service rows.provides)) := by
  rw [tables, OrderedMap.toList_map, OrderedMap.toList_group, List.map_map,
    Collection.firstOccurrences_eq_eraseDups]
  rfl

theorem toList_new_valuesOf (service : String) (pairs : List (String × String)) :
    (Provides.new service (Collection.valuesOf service pairs)).toList =
      partnersOf service pairs := by
  rw [Provides.toList_new, Collection.firstOccurrences_eq_eraseDups,
    Collection.eraseDups_valuesOf]

variable {rows : ModuleRows} {descriptor : Descriptor}

theorem pairs_eq (provides : descriptor.provides = rows.tables.provides) :
    descriptor.pairs = groupedPairs rows.provides := by
  rw [Descriptor.pairs, provides, OrderedMap.values, toList_provides, List.map_map,
    List.flatMap_map, groupedPairs]
  simp only [Function.comp_apply, toList_new_valuesOf, Provides.service_new]

theorem coalesces (provides : descriptor.provides = rows.tables.provides) :
    descriptor.Coalesces rows.provides := by
  have providers : ∀ entry ∈ descriptor.provides.toList,
      entry.2.toList = partnersOf entry.1 rows.provides ∧
        entry.1 ∈ rows.provides.map Prod.fst := by
    rw [provides, toList_provides]
    intro entry member
    obtain ⟨service, listed, rfl⟩ := List.mem_map.mp member
    exact ⟨toList_new_valuesOf service rows.provides, List.mem_eraseDups.mp listed⟩
  constructor
  · rw [provides]
    exact rows.keyed_provides
  · rw [provides, toList_provides, List.map_map]
    exact List.map_id' _
  · exact fun entry member => (providers entry member).1
  · intro entry member
    rw [(providers entry member).1]
    exact Collection.nodup_partnersOf
  · intro entry member
    obtain ⟨same, listed⟩ := providers entry member
    rw [same]
    exact Collection.partnersOf_ne_nil listed
  · rw [pairs_eq provides]
    exact Collection.groupedPairs_perm rows.provides
  · intro service
    rw [pairs_eq provides]
    exact Collection.exists_groupedPairs_eq rows.provides service

theorem dotted_of_spelledBy {pool : Pool} {record : Bytes} (spelled : rows.SpelledBy pool record) :
    ∀ pair ∈ rows.provides, Name.dotted pair.1 = pair.1 ∧ Name.dotted pair.2 = pair.2 := by
  obtain ⟨_, _, _, _, _, _, -, -, -, -, -, table⟩ := spelled
  refine table.forall_mem ?_
  rintro _ ⟨service, provider⟩ ⟨_, _, -, ⟨stored, -, rfl⟩, ⟨stored', -, rfl⟩⟩
  exact ⟨Name.dotted_dotted stored, Name.dotted_dotted stored'⟩

end ModuleRows

namespace RecordSet

variable {descriptor : Descriptor} {start left : Pool} {set : RecordSet} {log : Array Event}

theorem exists_spelledBy_of_encode (reachable : start.Reachable)
    (encoded : (((encode descriptor).run start).run log).1 = (.ok set, left)) :
    ∃ record, set.get? .module = some record ∧
      (ModuleTables.ofDescriptor descriptor).rows.SpelledBy left record := by
  rw [value_encode] at encoded
  obtain ⟨-, -, records⟩ := ofDescriptor_spec descriptor start reachable.bounded
  rw [encoded] at records
  obtain ⟨record, found, written⟩ := records .module
  refine ⟨record, found, ModuleRows.spelledBy_iff.mpr ?_⟩
  exact (ModuleTables.ofDescriptor descriptor).rows_reads.decode written

/-- Names that are in written form are read back as they are. -/
theorem provides_rows_ofDescriptor
    (dotted : ∀ pair ∈ descriptor.pairs,
      Name.dotted pair.1 = pair.1 ∧ Name.dotted pair.2 = pair.2) :
    (ModuleTables.ofDescriptor descriptor).rows.provides = descriptor.pairs := by
  have written : (ModuleTables.ofDescriptor descriptor).rows.provides =
      descriptor.pairs.map fun pair => (Name.dotted pair.1, Name.dotted pair.2) := by
    rw [Descriptor.pairs, List.map_flatMap]
    simp only [List.map_map]
    rfl
  rw [written]
  refine (List.map_congr_left fun pair member => ?_).trans (List.map_id' _)
  obtain ⟨service, provider⟩ := dotted pair member
  exact Prod.ext service provider

/-- Whatever the descriptor is encoded to has its pairs as rows, and as many as these pairs are
without repeats. -/
def SpreadsOver (descriptor : Descriptor) (pairs : List (String × String)) : Prop :=
  ∀ (start left : Pool) (log : Array Event) (set : RecordSet), start.Reachable →
    (((encode descriptor).run start).run log).1 = (.ok set, left) →
    ∃ (record : Bytes) (rows : ModuleRows), set.get? .module = some record ∧
      (∀ other : ModuleRows, other.SpelledBy left record ↔ other = rows) ∧
      rows.provides = descriptor.pairs ∧ rows.provides.length = pairs.eraseDups.length

theorem spreadsOver_of_spelledBy {pool : Pool} {record : Bytes} {rows : ModuleRows}
    (spelled : rows.SpelledBy pool record) (coalesces : descriptor.Coalesces rows.provides) :
    SpreadsOver descriptor rows.provides := by
  intro start left log set reachable encoded
  obtain ⟨again, found, spelled'⟩ := exists_spelledBy_of_encode reachable encoded
  have dotted := ModuleRows.dotted_of_spelledBy spelled
  have same := provides_rows_ofDescriptor fun pair member =>
    dotted pair (List.mem_eraseDups.mp (coalesces.perm.mem_iff.mp member))
  refine ⟨again, _, found, fun other => ModuleRows.spelledBy_iff_eq spelled', same, ?_⟩
  rw [same]
  exact coalesces.perm.length_eq

/-- The record of a module's tables says which services are provided in any order. A builder that
is given it has them service by service, as has a descriptor that is decoded from a set with this
record, and they are written in this way again. -/
theorem coalesces_of_decode {pool : Pool} {record : Bytes} {cache : Option CacheId}
    {store : VersionStore} {attr : Attribute}
    (decoded : (Attribute.decode .module record pool cache).result store log = .ok attr) :
    ∃ rows : ModuleRows, (∀ other : ModuleRows, other.SpelledBy pool record ↔ other = rows) ∧
      (∀ builder : Builder, ∃ filled, attr.apply builder = .ok filled ∧
        filled.descriptor.Coalesces rows.provides ∧
        SpreadsOver filled.descriptor rows.provides) ∧
      ∀ (set : RecordSet) (name : String) (cache : Option CacheId) (store : VersionStore)
        (log : Array Event) (descriptor : Descriptor), set.get? .module = some record →
        store.Reachable → (set.decode name pool cache).result store log = .ok descriptor →
        descriptor.Coalesces rows.provides ∧ SpreadsOver descriptor rows.provides := by
  obtain ⟨rows, spelled, rfl⟩ := Attribute.decode_module_eq_ok_iff.mp decoded
  refine ⟨rows, fun other => ModuleRows.spelledBy_iff_eq spelled, ?_, ?_⟩
  · intro builder
    have provides : (rows.tables.apply builder).descriptor.provides = rows.tables.provides := by
      rw [ModuleTables.apply_eq, rows.keyed_provides.keyBy_values]
      rfl
    have coalesces := ModuleRows.coalesces provides
    exact ⟨rows.tables.apply builder, rfl, coalesces, spreadsOver_of_spelledBy spelled coalesces⟩
  · intro set name cache store log descriptor found parsed decoded
    obtain ⟨builder, rfl, shows⟩ := (decode_shows set name pool cache).of_ok parsed.sound decoded
    have shown := shows .module
    rw [found] at shown
    obtain ⟨other, spelled', -, -, -, -, provides⟩ := shown
    rw [(ModuleRows.spelledBy_iff_eq spelled).mp spelled'] at provides
    have coalesces : builder.descriptor.Coalesces rows.provides := ModuleRows.coalesces provides
    exact ⟨coalesces, spreadsOver_of_spelledBy spelled coalesces⟩

/-- Five rows of two services, in turns and with one repeat. The first service has a `/` in the
pool, and a `.` both as a key and in its entry. -/
theorem coalesces_of_decode_interleaved :
    ∃ (pool : Pool) (attr : Attribute) (filled : Builder), pool.Reachable ∧
      (Attribute.decode .module
        (BigEndian.ofWords [0, 0, 0, 0, 0, 5, 2, 8, 4, 6, 2, 6, 2, 8, 4, 8]) pool none).result
          .empty #[] = .ok attr ∧
      attr.apply (.new "m" none) = .ok filled ∧
      (filled.descriptor.provides.toList.map fun entry =>
        (entry.1, entry.2.service, entry.2.toList)) =
          [("x.S", "x.S", ["B", "A"]), ("T", "T", ["A", "B"])] := by
  let rows : ModuleRows :=
    ⟨0, [], [], [], [], [("x.S", "B"), ("T", "A"), ("x.S", "A"), ("x.S", "B"), ("T", "B")]⟩
  obtain ⟨pool, reachable, symbols⟩ :=
    Pool.exists_symbols_eq ["x/S", "T", "A", "B"] (by decide +kernel)
  have s : Field.className.Says pool 2 "x.S" :=
    ⟨"x/S", reachable.symbolAt?_of_idxOf symbols (by decide +kernel) (by decide +kernel),
      by decide +kernel⟩
  have t : Field.className.Says pool 4 "T" :=
    ⟨"T", reachable.symbolAt?_of_idxOf symbols (by decide +kernel) (by decide +kernel), rfl⟩
  have a : Field.className.Says pool 6 "A" :=
    ⟨"A", reachable.symbolAt?_of_idxOf symbols (by decide +kernel) (by decide +kernel), rfl⟩
  have b : Field.className.Says pool 8 "B" :=
    ⟨"B", reachable.symbolAt?_of_idxOf symbols (by decide +kernel) (by decide +kernel), rfl⟩
  have spelled : rows.SpelledBy pool
      (BigEndian.ofWords [0, 0, 0, 0, 0, 5, 2, 8, 4, 6, 2, 6, 2, 8, 4, 8]) := by
    refine ⟨[0], [0], [0], [0], [5, 2, 8, 4, 6, 2, 6, 2, 8, 4, 8], [], rfl, ⟨0, [], rfl, rfl, .nil⟩,
      ⟨0, [], rfl, rfl, .nil⟩, ⟨0, [], rfl, rfl, .nil⟩, ⟨0, [], rfl, rfl, .nil⟩, 5,
      [[2, 8], [4, 6], [2, 6], [2, 8], [4, 8]], rfl, rfl, ?_⟩
    exact .cons ⟨2, 8, rfl, s, b⟩ <| .cons ⟨4, 6, rfl, t, a⟩ <| .cons ⟨2, 6, rfl, s, a⟩ <|
      .cons ⟨2, 8, rfl, s, b⟩ <| .cons ⟨4, 8, rfl, t, b⟩ .nil
  have decoded : (Attribute.decode .module
      (BigEndian.ofWords [0, 0, 0, 0, 0, 5, 2, 8, 4, 6, 2, 6, 2, 8, 4, 8]) pool none).result
        .empty #[] = .ok (.module rows.tables) :=
    Attribute.decode_module_eq_ok_iff.mpr ⟨rows, spelled, rfl⟩
  obtain ⟨found, unique, collected⟩ := coalesces_of_decode decoded
  obtain rfl := (unique rows).mp spelled
  obtain ⟨filled, applied, coalesces, -⟩ := collected.1 (.new "m" none)
  refine ⟨pool, _, filled, reachable, decoded, applied, ?_⟩
  have listed : (filled.descriptor.provides.toList.map fun entry =>
      (entry.1, entry.2.service, entry.2.toList)) =
        (filled.descriptor.provides.toList.map Prod.fst).map fun service =>
          (service, service, partnersOf service rows.provides) := by
    rw [List.map_map]
    refine List.map_congr_left fun entry member => ?_
    rw [Function.comp_apply, ← coalesces.keys entry member, coalesces.providers entry member]
  rw [listed, coalesces.services]
  decide

end RecordSet

end DescriptorCodec
