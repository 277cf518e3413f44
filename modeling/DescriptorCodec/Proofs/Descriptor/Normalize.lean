import DescriptorCodec.Builder
import DescriptorCodec.Symbol.Name
import DescriptorCodec.Proofs.Collection.Grouping
import DescriptorCodec.Proofs.Version.Caching

/-!
# The normal form of a descriptor

Records do not tell all descriptors apart. They store names with slashes, drop what they have no
place for, and have nothing to say about a service without implementations. `normalize` is what
is left of a descriptor: names in written form, only flags that have a meaning, and services with
implementations, where entries that have become equal are merged into the first of them.

`Canonical` says when nothing is lost: a canonical descriptor is its own normal form.
-/

namespace DescriptorCodec

namespace Name

/-- The name is in written form. -/
def IsDotted (name : String) : Prop :=
  '/' ∉ name.toList

theorem isDotted_dotted (name : String) : IsDotted (dotted name) := by
  intro member
  rw [toList_dotted, List.mem_map] at member
  obtain ⟨c, -, same⟩ := member
  unfold dot at same
  split at same
  · cases same
  · next other => exact other same

theorem dotted_of_isDotted {name : String} (h : IsDotted name) : dotted name = name := by
  have kept : ∀ c ∈ name.toList, dot c = c := by
    intro c member
    have other : c ≠ '/' := by
      rintro rfl
      exact h member
    rw [dot, if_neg other]
  refine String.toList_inj.mp ?_
  rw [toList_dotted, List.map_congr_left kept, List.map_id']

theorem map_dotted {names : List String} (h : ∀ name ∈ names, IsDotted name) :
    names.map dotted = names := by
  rw [List.map_congr_left fun name member => dotted_of_isDotted (h name member), List.map_id']

end Name

namespace Requires

/-- The requirement without the bits that have no meaning. -/
def normalize (requires : Requires) : Requires :=
  { requires with modifiers := requires.modifiers &&& 0x0033 }

end Requires

namespace PackageAccess

/-- The access with the name of its package in written form and without the bits that have no
meaning. -/
def normalize (access : PackageAccess) : PackageAccess :=
  { access with source := Name.dotted access.source, modifiers := access.modifiers &&& 0x0030 }

/-- Nothing is lost of the access. -/
structure Canonical (access : PackageAccess) : Prop where
  source : Name.IsDotted access.source
  modifiers : access.modifiers &&& 0x0030 = access.modifiers

theorem normalize_of_canonical {access : PackageAccess} (h : access.Canonical) :
    access.normalize = access := by
  cases access
  simp only [normalize, Name.dotted_of_isDotted h.source, h.modifiers]

theorem map_normalize {rows : List PackageAccess} (h : ∀ access ∈ rows, access.Canonical) :
    rows.map normalize = rows := by
  rw [List.map_congr_left fun access member => normalize_of_canonical (h access member),
    List.map_id']

end PackageAccess

namespace Provides

def isEmpty (entry : Provides) : Bool :=
  entry.toList.isEmpty

/-- Services with an implementation, under their written names. Services whose names have become
equal are merged at the place of the first, with the implementations of each in order. -/
def normalizeTable (provides : OrderedMap String Provides) : OrderedMap String Provides :=
  (OrderedMap.group ((provides.values.filter fun entry => !entry.isEmpty).map fun entry =>
    (Name.dotted entry.service, entry.toList.map Name.dotted))).map
      fun service lists => new service lists.flatten

/-- Nothing is lost of the entry of a service. -/
structure Canonical (entry : Provides) : Prop where
  service : Name.IsDotted entry.service
  nonempty : entry.toList ≠ []
  providers : ∀ provider ∈ entry.toList, Name.IsDotted provider

theorem new_toList (entry : Provides) : new entry.service entry.toList = entry :=
  ext_toList rfl (Collection.firstOccurrences_eq_self entry.providers.names.distinct)

theorem keyedBy_normalizeTable (provides : OrderedMap String Provides) :
    (normalizeTable provides).KeyedBy service :=
  OrderedMap.keyedBy_map (fun _ _ => rfl) _

theorem normalizeTable_of_canonical {provides : OrderedMap String Provides}
    (keyed : provides.KeyedBy service) (h : ∀ entry ∈ provides.values, entry.Canonical) :
    normalizeTable provides = provides := by
  have all : (provides.values.filter fun entry => !entry.isEmpty) = provides.values := by
    refine List.filter_eq_self.mpr fun entry member => ?_
    have nonempty := (h entry member).nonempty
    simpa [isEmpty] using nonempty
  have dotted : (provides.values.map fun entry =>
      (Name.dotted entry.service, entry.toList.map Name.dotted)) =
        provides.values.map fun entry => (entry.service, entry.toList) := by
    refine List.map_congr_left fun entry member => ?_
    have canonical := h entry member
    rw [Name.dotted_of_isDotted canonical.service, Name.map_dotted canonical.providers]
  have distinct : Collection.Distinct
      ((provides.values.map fun entry => (entry.service, entry.toList)).map Prod.fst) := by
    rw [List.map_map]
    exact keyed.distinct
  refine OrderedMap.ext ?_
  rw [normalizeTable, all, dotted, OrderedMap.toList_map,
    OrderedMap.toList_group_of_distinct distinct, List.map_map, List.map_map, keyed.toList_eq]
  refine List.map_congr_left fun entry _ => Prod.ext rfl ?_
  change new entry.service [entry.toList].flatten = entry
  rw [List.flatten_singleton, new_toList]

end Provides

namespace Platform

theorem specified_of_nonempty {field : Option String} (h : ∀ text, field = some text → text ≠ "") :
    specified field = field := by
  cases field with
  | none => rfl
  | some text =>
      have nonempty := h text rfl
      simp [specified, Option.filter, nonempty]

theorem nonempty_of_specified {field : Option String} {text : String}
    (h : specified field = some text) : text ≠ "" := by
  have kept := (Option.filter_eq_some_iff.mp h).2
  simpa using kept

end Platform

namespace Descriptor

/-- The descriptor without the ticket of its version, which only says who shares it. -/
def untagged (descriptor : Descriptor) : Descriptor :=
  { descriptor with version := descriptor.version.map SharedVersion.untagged }

/-- What records keep of a descriptor. -/
def normalize (descriptor : Descriptor) : Descriptor :=
  { descriptor with
    isAutomatic := false
    isSynthetic := false
    requires := .ofList (descriptor.requires.toList.map Requires.normalize)
    exports := .ofList (descriptor.exports.toList.map PackageAccess.normalize)
    opens := .ofList (descriptor.opens.toList.map PackageAccess.normalize)
    packages := .ofList (descriptor.packages.toList.map Name.dotted)
    uses := .ofList (descriptor.uses.toList.map Name.dotted)
    provides := Provides.normalizeTable descriptor.provides
    mainClass := descriptor.mainClass.map Name.dotted }

/-- The version is what its text is parsed to, no field of the platform is empty, and every service
is looked up by the name that is in its entry. -/
structure WellFormed (descriptor : Descriptor) : Prop where
  keyed : descriptor.provides.KeyedBy Provides.service
  version : ∀ shared, descriptor.version = some shared →
    Version.parse shared.version.source = .ok shared.version
  osName : ∀ text, descriptor.platform.osName = some text → text ≠ ""
  osArch : ∀ text, descriptor.platform.osArch = some text → text ≠ ""
  osVersion : ∀ text, descriptor.platform.osVersion = some text → text ≠ ""

theorem WellFormed.normalize_platform {descriptor : Descriptor} (h : descriptor.WellFormed) :
    descriptor.platform.normalize = descriptor.platform := by
  rw [Platform.normalize, Platform.specified_of_nonempty h.osName,
    Platform.specified_of_nonempty h.osArch, Platform.specified_of_nonempty h.osVersion]

/-- Records keep all of the descriptor. -/
structure Canonical (descriptor : Descriptor) : Prop extends WellFormed descriptor where
  not_automatic : descriptor.isAutomatic = false
  not_synthetic : descriptor.isSynthetic = false
  requires : ∀ requires ∈ descriptor.requires.toList,
    requires.modifiers &&& 0x0033 = requires.modifiers
  exports : ∀ access ∈ descriptor.exports.toList, access.Canonical
  opens : ∀ access ∈ descriptor.opens.toList, access.Canonical
  packages : ∀ package ∈ descriptor.packages.toList, Name.IsDotted package
  uses : ∀ service ∈ descriptor.uses.toList, Name.IsDotted service
  provides : ∀ entry ∈ descriptor.provides.values, entry.Canonical
  mainClass : ∀ name, descriptor.mainClass = some name → Name.IsDotted name

theorem normalize_of_canonical {descriptor : Descriptor} (h : descriptor.Canonical) :
    descriptor.normalize = descriptor := by
  have requires : descriptor.requires.toList.map Requires.normalize =
      descriptor.requires.toList := by
    have kept : ∀ requires ∈ descriptor.requires.toList, requires.normalize = requires := by
      intro requires member
      have known := h.requires requires member
      cases requires
      simp only [Requires.normalize, known]
    rw [List.map_congr_left kept, List.map_id']
  have mainClass : descriptor.mainClass.map Name.dotted = descriptor.mainClass := by
    cases given : descriptor.mainClass with
    | none => rfl
    | some name => rw [Option.map_some, Name.dotted_of_isDotted (h.mainClass name given)]
  have automatic := h.not_automatic
  have synthetic := h.not_synthetic
  rw [normalize, requires, PackageAccess.map_normalize h.exports,
    PackageAccess.map_normalize h.opens, Name.map_dotted h.packages, Name.map_dotted h.uses,
    Provides.normalizeTable_of_canonical h.keyed h.provides, mainClass]
  simp only [OrderedSet.ofList_toList]
  cases descriptor
  cases synthetic
  cases automatic
  rfl

end Descriptor

end DescriptorCodec
