import DescriptorCodec.Proofs.Attribute.Tables

/-!
# Reading attributes back

What is read back of an attribute is its normal form, with a version that is parsed anew from its
own text. A builder that is given the normal forms of all attributes of a descriptor builds the
normal form of the descriptor.
-/

namespace DescriptorCodec

namespace Attribute

/-- What is read back of the attribute. -/
def normalize : Attribute → Attribute
  | module tables => module tables.normalize
  | packages names => packages (.ofList (names.toList.map Name.dotted))
  | version shared => version shared
  | mainClass name => mainClass (Name.dotted name)
  | targetPlatform platform => targetPlatform platform.normalize
  | hashes table => hashes table

@[simp] theorem kind_normalize (attr : Attribute) : attr.normalize.kind = attr.kind := by
  cases attr <;> rfl

/-- A version is what its text is parsed to. -/
def Parsed : Attribute → Prop
  | version shared => Version.parse shared.version.source = .ok shared.version
  | _ => True

theorem parsed_of_ofDescriptor? {descriptor : Descriptor} (h : descriptor.WellFormed)
    {kind : AttributeKind} {attr : Attribute}
    (needed : ofDescriptor? descriptor kind = some attr) : attr.Parsed := by
  cases attr with
  | version shared =>
      have same := kind_of_ofDescriptor? needed
      subst same
      obtain ⟨shared', given, same⟩ := Option.map_eq_some_iff.mp needed
      cases same
      exact h.version shared given
  | _ => trivial

theorem readPlatform_reads (platform : Platform) :
    readPlatform.Reads (targetPlatform platform).layout platform.normalize :=
  .field (.field (.field (.done _)))

theorem readHash_reads (entry : String × String) :
    readHash.Reads [.field .utf8 entry.1, .field .utf8 entry.2] entry :=
  .field (.field (.done _))

theorem readHashes_reads (table : ModuleHashes) :
    readHashes.Reads (hashes table).layout table := by
  have entries := Reading.Reads.table "module hashes" fun entry
    (_ : entry ∈ table.entries.toList) => readHash_reads entry
  have whole := entries.map (ModuleHashes.ofList table.algorithm)
  rw [List.map_id', ModuleHashes.ofList, OrderedMap.ofList_toList] at whole
  exact .field whole

section Decoding

variable {pool : Pool} {record : Bytes} {cache : Option CacheId}

theorem read_spec {α : Type} {reading : Reading α} {layout : List Item} {value : α}
    (reads : reading.Reads layout value) (written : Item.Written pool layout record) :
    (read reading pool record).Spec (fun result => result = value) fun _ => False := by
  rw [read, reads.decode written]
  refine CacheM.Spec.ofExcept ?_ ?_
  · intro result same
    cases same
    rfl
  · intro e impossible
    cases impossible

/-- Decoding a written record never fails, and gives back the normal form of the attribute. -/
theorem decode_spec {attr : Attribute} (parsed : attr.Parsed)
    (written : Item.Written pool attr.layout record) :
    (decode attr.kind record pool cache).Spec
      (fun result => result.untagged = attr.normalize.untagged) fun _ => False := by
  cases attr with
  | module tables =>
      refine (read_spec tables.reading_reads written).map ?_
      intro result equal
      subst equal
      rfl
  | packages names =>
      refine (read_spec (Reading.Reads.column _ .packageName names.toList) written).bind ?_
      intro result equal
      subst equal
      exact CacheM.Spec.pure rfl
  | version shared =>
      refine (read_spec (.ofField .utf8 shared.version.source) written).bind ?_
      intro result equal
      subst equal
      refine CacheM.Spec.map ((SharedVersion.parse_spec cache shared.version.source).mono
        (fun _ holds => holds) ?_) ?_
      · intro e failed
        have parsed : Version.parse shared.version.source = .ok shared.version := parsed
        rw [parsed] at failed
        cases failed
      · intro result holds
        have parsed : Version.parse shared.version.source = .ok shared.version := parsed
        rw [parsed] at holds
        exact congrArg version (SharedVersion.untagged_eq_iff.mpr (Except.ok.inj holds).symm)
  | mainClass name =>
      refine (read_spec (.ofField .className name) written).map ?_
      intro result equal
      subst equal
      rfl
  | targetPlatform platform =>
      refine (read_spec (readPlatform_reads platform) written).map ?_
      intro result equal
      subst equal
      rfl
  | hashes table =>
      refine (read_spec (readHashes_reads table) written).map ?_
      intro result equal
      subst equal
      rfl

end Decoding

end Attribute

namespace Builder

variable {descriptor : Descriptor} {builder : Builder}

/-- The builder with what is read back of the descriptor's attribute of this kind, if it has
one. -/
def take (builder : Builder) (descriptor : Descriptor) (kind : AttributeKind) : Builder :=
  match Attribute.ofDescriptor? descriptor kind with
  | none => builder
  | some attr => builder.give attr.normalize

theorem take_module : builder.take descriptor .module =
    { builder with
      isOpen := descriptor.isOpen
      requires := descriptor.normalize.requires
      exports := descriptor.normalize.exports
      opens := descriptor.normalize.opens
      uses := descriptor.normalize.uses
      provides := descriptor.normalize.provides } := by
  have same : (ModuleTables.ofDescriptor descriptor).normalize.isOpen = descriptor.isOpen :=
    ModuleTables.isOpen_moduleFlags descriptor.isOpen descriptor.isSynthetic
  have keyed := (Provides.keyedBy_normalizeTable descriptor.provides).keyBy_values
  have given := ModuleTables.apply_eq (ModuleTables.ofDescriptor descriptor).normalize builder
  rw [same, ModuleTables.normalize, ModuleTables.ofDescriptor, keyed] at given
  exact given

theorem take_packages (h : builder.packages = .empty) : builder.take descriptor .packages =
    { builder with packages := descriptor.normalize.packages } := by
  rw [take, Attribute.ofDescriptor?]
  by_cases none : descriptor.packages.isEmpty
  · have same : descriptor.normalize.packages = .empty := by
      rw [Descriptor.normalize, OrderedSet.isEmpty_iff.mp none]
      rfl
    rw [if_pos none, same, ← h]
  · rw [if_neg none]
    rfl

theorem take_version (h : builder.version = none) : builder.take descriptor .version =
    { builder with version := descriptor.version } := by
  rw [take, Attribute.ofDescriptor?]
  cases descriptor.version with
  | none =>
      cases builder
      cases h
      rfl
  | some shared => rfl

theorem take_mainClass (h : builder.mainClass = none) : builder.take descriptor .mainClass =
    { builder with mainClass := descriptor.normalize.mainClass } := by
  rw [take, Attribute.ofDescriptor?, Descriptor.normalize]
  cases descriptor.mainClass with
  | none =>
      cases builder
      cases h
      rfl
  | some name => rfl

theorem take_targetPlatform (wellFormed : descriptor.WellFormed) (h : builder.platform = .any) :
    builder.take descriptor .targetPlatform =
      { builder with platform := descriptor.platform } := by
  rw [take, Attribute.ofDescriptor?]
  have same := wellFormed.normalize_platform
  by_cases none : descriptor.platform.isEmpty
  · have any : descriptor.platform = .any := by
      rw [Platform.isEmpty, same] at none
      exact eq_of_beq none
    rw [if_pos none, any, ← h]
  · rw [if_neg none]
    change builder.give (.targetPlatform descriptor.platform.normalize) = _
    rw [same]
    rfl

theorem take_hashes (h : builder.algorithm = none) :
    (builder.take descriptor .hashes).descriptor =
      { builder.descriptor with hashes := descriptor.hashes } := by
  rw [take, Attribute.ofDescriptor?]
  cases descriptor.hashes with
  | none =>
      have nothing : builder.finalHashes = none := by
        rw [finalHashes, h]
        rfl
      simp only [Option.map_none, Builder.descriptor, nothing]
  | some table =>
      exact congrArg (fun hashes => { builder.descriptor with hashes })
        (finalHashes_give builder table)

/-- The attributes of a descriptor, taken together, are all that its normal form consists of. -/
theorem foldl_take (wellFormed : descriptor.WellFormed) :
    (AttributeKind.all.foldl (fun builder kind => builder.take descriptor kind)
      (new descriptor.name none)).descriptor = descriptor.normalize := by
  rw [AttributeKind.all, List.foldl_cons, List.foldl_cons, List.foldl_cons, List.foldl_cons,
    List.foldl_cons, List.foldl_cons, List.foldl_nil, take_module, take_packages rfl,
    take_version rfl, take_mainClass rfl, take_targetPlatform wellFormed rfl, take_hashes rfl]
  exact congrArg (fun platform => { descriptor.normalize with platform })
    wellFormed.normalize_platform

end Builder

end DescriptorCodec
