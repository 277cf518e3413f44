import Mathlib.Data.List.Flatten
import DescriptorCodec.Proofs.Attribute.Tables
import DescriptorCodec.Proofs.Record.Ensures
import DescriptorCodec.Proofs.Record.Writing

/-!
# What decoding can give

Whatever bytes are decoded, the attributes that come out are canonical, and no table is too long
to be written again: repeats have been dropped from a table that was counted by a word. A builder
that is given such attributes stays canonical and writable.
-/

namespace DescriptorCodec

open Collection

theorem size_ofList_le {α : Type} [BEq α] [Hashable α] [EquivBEq α] [LawfulHashable α]
    {xs : List α} (h : xs.length ≤ countLimit) : (OrderedSet.ofList xs).size ≤ countLimit :=
  Nat.le_trans (length_firstOccurrences_le xs) h

theorem forall_mem_ofList {α : Type} [BEq α] [Hashable α] [EquivBEq α] [LawfulHashable α]
    {xs : List α} {p : α → Prop} (h : ∀ x ∈ xs, p x) : ∀ x ∈ (OrderedSet.ofList xs).toList, p x :=
  fun x member => h x (mem_of_mem_firstOccurrences xs member)

namespace ModuleTables

open FlagFamily

/-- Nothing is lost of the tables. -/
structure Canonical (tables : ModuleTables) : Prop where
  requires : ∀ requires ∈ tables.requires.toList,
    requires.modifiers &&& 0x0033 = requires.modifiers
  exports : ∀ access ∈ tables.exports.toList, access.Canonical
  opens : ∀ access ∈ tables.opens.toList, access.Canonical
  uses : ∀ service ∈ tables.uses.toList, Name.IsDotted service
  keyed : tables.provides.KeyedBy Provides.service
  provides : ∀ entry ∈ tables.provides.values, entry.Canonical

/-- Every table can be counted by a word. -/
structure Fits (tables : ModuleTables) : Prop where
  requires : tables.requires.size ≤ countLimit
  exports : tables.exports.size ≤ countLimit
  exportTargets : ∀ access ∈ tables.exports.toList, access.targets.size ≤ countLimit
  opens : tables.opens.size ≤ countLimit
  openTargets : ∀ access ∈ tables.opens.toList, access.targets.size ≤ countLimit
  uses : tables.uses.size ≤ countLimit
  provides : tables.pairCount ≤ countLimit

theorem readRequires_ensures :
    readRequires.Ensures fun requires => requires.modifiers &&& 0x0033 = requires.modifiers := by
  refine .ask fun name _ => .ask fun modifiers _ => .done ?_
  rw [← mask_requires]
  exact truncate_truncate FlagFamily.requires modifiers

theorem readAccess_ensures :
    readAccess.Ensures fun access => access.Canonical ∧ access.targets.size ≤ countLimit := by
  refine .ask fun source dotted => .ask fun modifiers _ => ?_
  refine (Reading.Ensures.table (.field .utf8)).bind fun targets counted => .done ?_
  refine ⟨⟨dotted, ?_⟩, size_ofList_le counted.1⟩
  rw [← mask_packageAccess]
  exact truncate_truncate packageAccess modifiers

theorem readProvides_ensures :
    readProvides.Ensures fun pair => Name.IsDotted pair.1 ∧ Name.IsDotted pair.2 :=
  .ask fun _ service => .ask fun _ provider => .done ⟨service, provider⟩

/-- The services of rows that were read. -/
theorem canonical_of_mem_group {rows : List (String × String)}
    (dotted : ∀ row ∈ rows, Name.IsDotted row.1 ∧ Name.IsDotted row.2) :
    ∀ entry ∈ ((OrderedMap.group rows).map Provides.new).values, entry.Canonical := by
  intro entry member
  rw [OrderedMap.values, OrderedMap.toList_map, OrderedMap.toList_group, List.map_map,
    List.map_map] at member
  obtain ⟨key, kept, rfl⟩ := List.mem_map.mp member
  obtain ⟨row, present, rfl⟩ := List.mem_map.mp (mem_of_mem_firstOccurrences _ kept)
  refine ⟨(dotted row present).1, ?_, ?_⟩
  · have found : row.2 ∈ valuesOf row.1 rows := mem_valuesOf.mpr ⟨row, present, BEq.rfl, rfl⟩
    obtain ⟨first, others, same⟩ := List.exists_cons_of_ne_nil (List.ne_nil_of_mem found)
    dsimp only [Function.comp_apply]
    rw [same, Provides.toList_new, firstOccurrences_cons]
    exact List.cons_ne_nil _ _
  · intro provider member
    have found := mem_of_mem_firstOccurrences _ member
    obtain ⟨row', present', -, same⟩ := mem_valuesOf.mp found
    rw [← same]
    exact (dotted row' present').2

/-- Repeated rows count once. -/
theorem pairCount_group_le (rows : List (String × String)) :
    (((OrderedMap.group rows).map Provides.new).values.flatMap Provides.toList).length ≤
      rows.length := by
  rw [OrderedMap.values, OrderedMap.toList_map, OrderedMap.toList_group, List.map_map, List.map_map,
    List.flatMap_map]
  apply Nat.le_trans _ (Nat.le_of_eq (length_flatMap_valuesOf rows))
  apply List.Sublist.length_le
  apply List.Sublist.flatMap_right
  intro key _
  exact firstOccurrences_sublist (valuesOf key rows)

theorem reading_ensures : reading.Ensures fun tables => tables.Canonical ∧ tables.Fits := by
  refine .ask fun flags _ => ?_
  refine (Reading.Ensures.table readRequires_ensures).bind fun requires requires' => ?_
  refine (Reading.Ensures.table readAccess_ensures).bind fun exports exports' => ?_
  refine (Reading.Ensures.table readAccess_ensures).bind fun opens opens' => ?_
  refine (Reading.Ensures.table (.field .className)).bind fun uses uses' => ?_
  refine (Reading.Ensures.table readProvides_ensures).bind fun provides provides' => .done ?_
  constructor
  · exact {
      requires := forall_mem_ofList requires'.2
      exports := forall_mem_ofList fun access member => (exports'.2 access member).1
      opens := forall_mem_ofList fun access member => (opens'.2 access member).1
      uses := forall_mem_ofList uses'.2
      keyed := OrderedMap.keyedBy_map (fun _ _ => rfl) _
      provides := canonical_of_mem_group provides'.2 }
  · exact {
      requires := size_ofList_le requires'.1
      exports := size_ofList_le exports'.1
      exportTargets := forall_mem_ofList fun access member => (exports'.2 access member).2
      opens := size_ofList_le opens'.1
      openTargets := forall_mem_ofList fun access member => (opens'.2 access member).2
      uses := size_ofList_le uses'.1
      provides := Nat.le_trans (pairCount_group_le provides) provides'.1 }

/-- A row of a table of packages counts its targets and nothing else. -/
theorem count_mem_accessRow {table : String} {rows : Nat} {access : PackageAccess}
    (member : .count table rows ∈ accessRow access) : rows = access.targets.size := by
  unfold accessRow at member
  split at member
  · simp at member
    exact member.2
  · simp at member

theorem count_mem_layout_flags {tables : ModuleTables} {flags : UInt16} {table : String}
    {rows : Nat} : .count table rows ∈ ({ tables with flags } : ModuleTables).layout ↔
      .count table rows ∈ tables.layout := by
  simp [layout, pairCount]

theorem Fits.count_mem_layout {tables : ModuleTables} (h : tables.Fits) {table : String}
    {rows : Nat} (member : .count table rows ∈ tables.layout) : rows ≤ countLimit := by
  simp only [layout, List.mem_append, List.mem_cons, List.mem_flatMap, List.mem_map, reduceCtorEq,
    false_or, and_false, exists_false, or_false, Item.count.injEq] at member
  rcases member with ((((⟨-, rfl⟩ | ⟨row, -, inside⟩) | ⟨-, rfl⟩ | ⟨access, own, inside⟩) |
    ⟨-, rfl⟩ | ⟨access, own, inside⟩) | ⟨-, rfl⟩) | ⟨-, rfl⟩ | ⟨entry, -, inside⟩
  · exact h.requires
  · simp [requiresRow] at inside
  · exact h.exports
  · rw [count_mem_accessRow inside]
    exact h.exportTargets access own
  · exact h.opens
  · rw [count_mem_accessRow inside]
    exact h.openTargets access own
  · exact h.uses
  · exact h.provides
  · simp [providesRows] at inside

end ModuleTables

namespace Attribute

/-- Nothing is lost of the attribute, except for what a builder drops itself. -/
def Canonical : Attribute → Prop
  | module tables => tables.Canonical
  | packages names => ∀ name ∈ names.toList, Name.IsDotted name
  | version shared => Version.parse shared.version.source = .ok shared.version
  | mainClass name => Name.IsDotted name
  | _ => True

/-- Every table can be counted by a word. -/
def Fits (attr : Attribute) : Prop :=
  ∀ table rows, .count table rows ∈ attr.layout → rows ≤ countLimit

theorem read_spec_of_ensures {α : Type} {reading : Reading α} {p : α → Prop}
    (h : reading.Ensures p) (pool : Pool) (record : Bytes) :
    (read reading pool record).Spec p fun _ => True :=
  CacheM.Spec.ofExcept (fun _ decoded => h.decode decoded) fun _ _ => trivial

theorem readHashes_ensures : readHashes.Ensures fun table => table.entries.size ≤ countLimit := by
  have row : readHash.Ensures fun _ => True := fun _ _ _ _ _ => trivial
  refine .ask fun algorithm _ => ?_
  refine (Reading.Ensures.table row).bind fun entries counted => .done ?_
  exact Nat.le_trans (OrderedMap.size_ofList_le entries) counted.1

/-- Whatever record is decoded, the attribute has its kind, is canonical, and can be written. -/
theorem decode_canonical (kind : AttributeKind) (record : Bytes) (pool : Pool)
    (cache : Option CacheId) :
    (decode kind record pool cache).Spec
      (fun attr => attr.kind = kind ∧ attr.Canonical ∧ attr.Fits) fun _ => True := by
  cases kind with
  | module =>
      refine (read_spec_of_ensures ModuleTables.reading_ensures pool record).map ?_
      intro tables holds
      exact ⟨rfl, holds.1, fun _ _ member => holds.2.count_mem_layout member⟩
  | packages =>
      have names := Reading.Ensures.table (Reading.Ensures.field .packageName)
      refine (read_spec_of_ensures names pool record).bind fun names counted => ?_
      refine CacheM.Spec.pure ⟨rfl, forall_mem_ofList counted.2, ?_⟩
      intro table rows member
      simp [layout] at member
      rw [member.2]
      exact size_ofList_le counted.1
  | version =>
      refine (read_spec_of_ensures (Reading.Ensures.field .utf8) pool record).bind fun text _ => ?_
      refine CacheM.Spec.map ((SharedVersion.parse_spec cache text).mono (fun _ parsed => parsed)
        fun _ _ => trivial) ?_
      intro shared parsed
      have source := Version.source_of_parse parsed
      refine ⟨rfl, ?_, ?_⟩
      · rw [Canonical, source, parsed]
      · intro table rows member
        simp [layout] at member
  | mainClass =>
      refine (read_spec_of_ensures (Reading.Ensures.field .className) pool record).map ?_
      intro name dotted
      refine ⟨rfl, dotted, ?_⟩
      intro table rows member
      simp [layout] at member
  | targetPlatform =>
      have any : readPlatform.Ensures fun _ => True := fun _ _ _ _ _ => trivial
      refine (read_spec_of_ensures any pool record).map ?_
      intro platform _
      refine ⟨rfl, trivial, ?_⟩
      intro table rows member
      simp [layout] at member
  | hashes =>
      refine (read_spec_of_ensures readHashes_ensures pool record).map ?_
      intro table counted
      refine ⟨rfl, trivial, ?_⟩
      intro name rows member
      simp [layout] at member
      rw [member.2]
      exact counted

end Attribute

namespace Descriptor

/-- Every table of the descriptor can be counted by a word. -/
def Fits (descriptor : Descriptor) : Prop :=
  ∀ kind attr, Attribute.ofDescriptor? descriptor kind = some attr → attr.Fits

end Descriptor

namespace Builder

theorem canonical_give {builder : Builder} (h : builder.descriptor.Canonical) {attr : Attribute}
    (canonical : attr.Canonical) : (builder.give attr).descriptor.Canonical := by
  cases attr with
  | module tables =>
      rw [give, ModuleTables.apply_eq, canonical.keyed.keyBy_values]
      exact { h with
        keyed := canonical.keyed
        requires := canonical.requires
        exports := canonical.exports
        opens := canonical.opens
        uses := canonical.uses
        provides := canonical.provides }
  | packages names => exact { h with packages := canonical }
  | version shared =>
      refine { h with version := ?_ }
      intro given same
      cases same
      exact canonical
  | mainClass name =>
      refine { h with mainClass := ?_ }
      intro given same
      cases same
      exact canonical
  | targetPlatform platform =>
      exact { h with
        osName := fun _ given => Platform.nonempty_of_specified given
        osArch := fun _ given => Platform.nonempty_of_specified given
        osVersion := fun _ given => Platform.nonempty_of_specified given }
  | hashes table => exact { h with }

theorem ofDescriptor_give (builder : Builder) {tables : ModuleTables}
    (keyed : tables.provides.KeyedBy Provides.service) :
    ModuleTables.ofDescriptor (builder.give (.module tables)).descriptor =
      { tables with flags := ModuleTables.moduleFlags tables.isOpen builder.isSynthetic } := by
  rw [give, ModuleTables.apply_eq, keyed.keyBy_values]
  rfl

theorem ofDescriptor?_give (builder : Builder) {attr : Attribute} {kind : AttributeKind}
    (other : attr.kind ≠ kind) : Attribute.ofDescriptor? (builder.give attr).descriptor kind =
      Attribute.ofDescriptor? builder.descriptor kind := by
  cases attr <;> cases kind <;> first | rfl | exact absurd rfl other

theorem fits_give {builder : Builder} (h : builder.descriptor.Fits) {attr : Attribute}
    (canonical : attr.Canonical) (fits : attr.Fits) : (builder.give attr).descriptor.Fits := by
  intro kind own needed
  by_cases other : attr.kind ≠ kind
  · rw [ofDescriptor?_give builder other] at needed
    exact h kind own needed
  · rw [not_not] at other
    subst other
    cases attr with
    | module tables =>
        cases needed
        intro table rows member
        rw [ofDescriptor_give builder canonical.keyed, Attribute.layout,
          ModuleTables.count_mem_layout_flags] at member
        exact fits table rows member
    | packages names =>
        obtain ⟨-, same⟩ := Option.ite_none_left_eq_some.mp needed
        cases same
        exact fits
    | version shared =>
        cases needed
        exact fits
    | mainClass name =>
        cases needed
        exact fits
    | targetPlatform platform =>
        obtain ⟨-, same⟩ := Option.ite_none_left_eq_some.mp needed
        cases same
        intro table rows member
        simp [Attribute.layout] at member
    | hashes table =>
        have needed : (builder.give (.hashes table)).finalHashes.map Attribute.hashes =
          some own := needed
        rw [finalHashes_give] at needed
        cases needed
        exact fits

end Builder

end DescriptorCodec
