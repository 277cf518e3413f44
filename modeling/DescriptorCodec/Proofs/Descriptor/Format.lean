import Mathlib.Algebra.GroupWithZero.Nat
import DescriptorCodec.Proofs.Descriptor.Needed
import DescriptorCodec.Proofs.Record.Words

/-!
# The format of the records

`Descriptor.records` is the format of a descriptor's records, told word by word of the descriptor
and the numbers of a pool. A table is the number of its rows and then the rows. The layouts that
are written, which also say in which order the pool is asked, amount to this format.
-/

namespace DescriptorCodec

/-- The words of a table: the number of its rows, and the rows. -/
def tableWords (rows : List (List Nat)) : List Nat :=
  rows.length :: rows.flatten

namespace Pool

variable (pool : Pool)

def textNumber (text : String) : Nat :=
  pool.indexOf (.utf8 text)

/-- The number of a package name, which is a text in stored form. -/
def packageNumber (name : String) : Nat :=
  pool.indexOf (.utf8 (Name.internal name))

def classNumber (name : String) : Nat :=
  pool.indexOf (.classOf (Name.internal name))

/-- The number of an optional text, or zero if it is absent. -/
def optionalNumber (field : Option String) : Nat :=
  match Platform.specified field with
  | none => 0
  | some text => pool.textNumber text

end Pool

namespace PackageAccess

def words (pool : Pool) (access : PackageAccess) : List Nat :=
  pool.packageNumber access.source :: access.modifiers.toNat ::
    tableWords (access.targets.toList.map fun target => [pool.textNumber target])

end PackageAccess

namespace Descriptor

variable (descriptor : Descriptor) (pool : Pool)

/-- Every service with each of its implementations. -/
def pairs : List (String × String) :=
  descriptor.provides.values.flatMap fun entry =>
    entry.toList.map fun provider => (entry.service, provider)

theorem length_pairs :
    descriptor.pairs.length =
      (descriptor.provides.toList.map fun entry => entry.2.toList.length).sum := by
  simp [pairs, OrderedMap.values, List.length_flatMap, Function.comp_def]

def flagsWord : Nat :=
  (if descriptor.isOpen then 0x0001 else 0) + (if descriptor.isSynthetic then 0x0020 else 0)

def moduleRecord : List Nat :=
  descriptor.flagsWord ::
  tableWords (descriptor.requires.toList.map fun requires =>
    [pool.textNumber requires.name, requires.modifiers.toNat]) ++
  tableWords (descriptor.exports.toList.map (PackageAccess.words pool)) ++
  tableWords (descriptor.opens.toList.map (PackageAccess.words pool)) ++
  tableWords (descriptor.uses.toList.map fun service => [pool.classNumber service]) ++
  tableWords (descriptor.pairs.map fun (service, provider) =>
    [pool.classNumber service, pool.classNumber provider])

def packagesRecord? : Option (List Nat) :=
  if descriptor.packages.isEmpty then none
  else some (tableWords (descriptor.packages.toList.map fun name => [pool.packageNumber name]))

def platformRecord? : Option (List Nat) :=
  let fields := [descriptor.platform.osName, descriptor.platform.osArch,
    descriptor.platform.osVersion]
  if fields.all fun field => (Platform.specified field).isNone then none
  else some (fields.map pool.optionalNumber)

def hashesRecord (pool : Pool) (hashes : ModuleHashes) : List Nat :=
  pool.textNumber hashes.algorithm ::
    tableWords (hashes.entries.toList.map fun (name, hash) =>
      [pool.textNumber name, pool.textNumber hash])

/-- The record of a kind, if the descriptor needs one. -/
def record? : AttributeKind → Option (List Nat)
  | .module => some (descriptor.moduleRecord pool)
  | .packages => descriptor.packagesRecord? pool
  | .version => descriptor.version.map fun shared => [pool.textNumber shared.version.source]
  | .mainClass => descriptor.mainClass.map fun name => [pool.classNumber name]
  | .targetPlatform => descriptor.platformRecord? pool
  | .hashes => descriptor.hashes.map (hashesRecord pool)

/-- The records of the descriptor, in the order of their kinds. -/
def records : List (AttributeKind × List Nat) :=
  AttributeKind.all.filterMap fun kind => (descriptor.record? pool kind).map fun words =>
    (kind, words)

end Descriptor

/-! ### The words of the layouts -/

theorem tableWords_map {α : Type} (row : α → List Nat) (xs : List α) :
    tableWords (xs.map row) = xs.length :: xs.flatMap row := by
  rw [tableWords, List.length_map, List.flatMap_def]

section Layout

variable (pool : Pool)

namespace ModuleTables

theorem words_accessRow (access : PackageAccess) :
    (accessRow access).flatMap (Item.words pool) = access.words pool := by
  by_cases qualified : access.isQualified
  · rw [accessRow, if_pos qualified, PackageAccess.words, tableWords_map]
    simp only [List.flatMap_cons, List.flatMap_map]
    rfl
  · rw [accessRow, if_neg qualified, PackageAccess.words,
      PackageAccess.toList_targets_eq_nil qualified]
    rfl

/-- The rows of a service; declaring its class writes nothing. -/
theorem words_providesRows (entry : Provides) :
    (providesRows entry).flatMap (Item.words pool) =
      entry.toList.flatMap fun provider =>
        [pool.classNumber entry.service, pool.classNumber provider] := by
  rw [providesRows, List.flatMap_cons, List.flatMap_assoc]
  rfl

theorem words_provides (descriptor : Descriptor) :
    (ofDescriptor descriptor).pairCount ::
      (descriptor.provides.values.flatMap providesRows).flatMap (Item.words pool) =
      tableWords (descriptor.pairs.map fun (service, provider) =>
        [pool.classNumber service, pool.classNumber provider]) := by
  have count : (ofDescriptor descriptor).pairCount = descriptor.pairs.length := by
    rw [Descriptor.pairs, pairCount, List.length_flatMap, List.length_flatMap]
    simp only [List.length_map]
    rfl
  rw [tableWords_map, count, Descriptor.pairs, List.flatMap_assoc, List.flatMap_assoc]
  simp only [words_providesRows, List.flatMap_map]

theorem toNat_moduleFlags (descriptor : Descriptor) :
    (moduleFlags descriptor.isOpen descriptor.isSynthetic).toNat = descriptor.flagsWord := by
  rw [Descriptor.flagsWord]
  cases descriptor.isOpen <;> cases descriptor.isSynthetic <;> rfl

theorem words_layout (descriptor : Descriptor) :
    (ofDescriptor descriptor).layout.flatMap (Item.words pool) =
      descriptor.moduleRecord pool := by
  have flags : Item.words pool (.field .word (ofDescriptor descriptor).flags) =
      [descriptor.flagsWord] := congrArg (fun word => [word]) (toNat_moduleFlags descriptor)
  rw [Descriptor.moduleRecord, ← words_provides, tableWords_map, tableWords_map, tableWords_map,
    tableWords_map, layout]
  simp only [List.flatMap_append, List.flatMap_cons, flags, List.flatMap_map, List.append_assoc]
  rw [List.flatMap_assoc, List.flatMap_assoc, List.flatMap_assoc]
  simp only [words_accessRow]
  rfl

end ModuleTables

namespace Attribute

variable {descriptor : Descriptor}

theorem number_optionalUtf8 (field : Option String) :
    Field.optionalUtf8.number pool field = pool.optionalNumber field := by
  cases field with
  | none => rfl
  | some text =>
      rw [Field.number, Pool.optionalNumber, Platform.specified, Option.filter]
      by_cases empty : text.isEmpty
      · simp [empty]
      · simp [empty, Pool.textNumber]

theorem isEmpty_platform (platform : Platform) :
    platform.isEmpty = [platform.osName, platform.osArch, platform.osVersion].all
      fun field => (Platform.specified field).isNone := by
  rw [Bool.eq_iff_iff, Platform.isEmpty, beq_iff_eq, Platform.normalize, Platform.any]
  simp

/-- The layout of each record amounts to its format. -/
theorem map_words_ofDescriptor? (descriptor : Descriptor) (kind : AttributeKind) :
    (ofDescriptor? descriptor kind).map (fun attr => attr.layout.flatMap (Item.words pool)) =
      descriptor.record? pool kind := by
  cases kind with
  | module => exact congrArg some (ModuleTables.words_layout pool descriptor)
  | packages =>
      rw [ofDescriptor?, Descriptor.record?, Descriptor.packagesRecord?, tableWords_map]
      split
      · rfl
      · rw [Option.map_some, layout, List.flatMap_cons, List.flatMap_map]
        rfl
  | version =>
      rw [ofDescriptor?, Option.map_map]
      rfl
  | mainClass =>
      rw [ofDescriptor?, Option.map_map]
      rfl
  | targetPlatform =>
      rw [ofDescriptor?, Descriptor.record?, Descriptor.platformRecord?, isEmpty_platform]
      split
      · rfl
      · simp [layout, Item.words, number_optionalUtf8]
  | hashes =>
      rw [ofDescriptor?, Option.map_map, Descriptor.record?]
      refine congrArg (Option.map · descriptor.hashes) (funext fun hashes => ?_)
      rw [Descriptor.hashesRecord, tableWords_map, Function.comp, layout, List.flatMap_cons,
        List.flatMap_cons, List.flatMap_assoc]
      rfl

theorem map_words_attributes (descriptor : Descriptor) :
    (descriptor.attributes.map fun attr => (attr.kind, attr.layout.flatMap (Item.words pool))) =
      descriptor.records pool := by
  rw [Descriptor.attributes, Descriptor.records, List.map_filterMap]
  refine List.filterMap_congr fun kind _ => ?_
  rw [← map_words_ofDescriptor?, Option.map_map]
  cases needed : ofDescriptor? descriptor kind with
  | none => rfl
  | some attr =>
      rw [Option.map_some, Option.map_some, kind_of_ofDescriptor? needed]
      rfl

end Attribute

end Layout

end DescriptorCodec
