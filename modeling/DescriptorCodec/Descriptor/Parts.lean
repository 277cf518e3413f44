import DescriptorCodec.Collection.OrderedMap
import DescriptorCodec.Collection.OrderedSet

/-!
# The parts of a descriptor

What a module says about other modules: which it requires, which packages it exports or opens and
to whom, which implementations of a service it provides, and the hashes of the modules it was
linked against; and which platform it is for.

Each part comes with the equality under which descriptors are compared. Target modules are
compared as a set, providers as a list, because the first provider of a service is preferred.
-/

namespace DescriptorCodec

/-- A module that is required, with the flags of the requirement. -/
structure Requires where
  name : String
  modifiers : UInt16
  deriving DecidableEq, Hashable, Repr

instance : EquivBEq Requires := inferInstance

instance : LawfulHashable Requires := inferInstance

/-- A package that is exported or opened, with the flags and the modules it is limited to. -/
structure PackageAccess where
  source : String
  modifiers : UInt16
  targets : OrderedSet String
  deriving Repr

namespace PackageAccess

/-- Whether access is limited to some modules. -/
def isQualified (access : PackageAccess) : Bool :=
  !access.targets.isEmpty

theorem toList_targets_eq_nil {access : PackageAccess} (unqualified : ¬access.isQualified = true) :
    access.targets.toList = [] := by
  simpa [isQualified, OrderedSet.isEmpty_iff] using unqualified

/-- The order of the target modules does not matter. -/
instance : BEq PackageAccess where
  beq a b := a.source == b.source && a.modifiers == b.modifiers && a.targets == b.targets

theorem beq_iff {a b : PackageAccess} :
    (a == b) = true ↔
      a.source = b.source ∧ a.modifiers = b.modifiers ∧ (a.targets == b.targets) = true := by
  change (a.source == b.source && a.modifiers == b.modifiers && a.targets == b.targets) = true ↔ _
  simp [and_assoc]

instance : EquivBEq PackageAccess where
  rfl := beq_iff.mpr ⟨rfl, rfl, BEq.rfl⟩
  symm h :=
    have ⟨source, modifiers, targets⟩ := beq_iff.mp h
    beq_iff.mpr ⟨source.symm, modifiers.symm, BEq.symm targets⟩
  trans h₁ h₂ :=
    have ⟨source₁, modifiers₁, targets₁⟩ := beq_iff.mp h₁
    have ⟨source₂, modifiers₂, targets₂⟩ := beq_iff.mp h₂
    beq_iff.mpr
      ⟨source₁.trans source₂, modifiers₁.trans modifiers₂, BEq.trans targets₁ targets₂⟩

/-- The hash leaves out the targets, whose order must not change it. -/
instance : Hashable PackageAccess where
  hash access := mixHash (hash access.source) (hash access.modifiers)

instance : LawfulHashable PackageAccess where
  hash_eq a b h := by
    obtain ⟨source, modifiers, -⟩ := beq_iff.mp h
    simp only [hash, source, modifiers]

end PackageAccess

/-- The implementations of a service, the preferred one first. -/
structure Providers where
  names : OrderedSet String
  deriving Repr

namespace Providers

def ofList (names : List String) : Providers :=
  ⟨OrderedSet.ofList names⟩

def toList (providers : Providers) : List String :=
  providers.names.toList

@[simp] theorem toList_ofList (names : List String) :
    (ofList names).toList = Collection.firstOccurrences names := rfl

@[ext] theorem ext {a b : Providers} (h : a.toList = b.toList) : a = b := by
  cases a
  cases b
  congr
  exact OrderedSet.ext h

/-- The order of the implementations matters. -/
instance : BEq Providers := ⟨fun a b => a.toList == b.toList⟩

instance : LawfulBEq Providers where
  rfl {a} := beq_self_eq_true a.toList
  eq_of_beq h := ext (eq_of_beq (α := List String) h)

end Providers

structure Provides where
  service : String
  providers : Providers
  deriving BEq, ReflBEq, LawfulBEq, Repr

namespace Provides

/-- A service with implementations, without later repeats. -/
def new (service : String) (names : List String) : Provides :=
  ⟨service, .ofList names⟩

def toList (entry : Provides) : List String :=
  entry.providers.toList

@[simp] theorem service_new (service : String) (names : List String) :
    (new service names).service = service := rfl

@[simp] theorem toList_new (service : String) (names : List String) :
    (new service names).toList = Collection.firstOccurrences names := rfl

theorem ext_toList {a b : Provides} (service : a.service = b.service)
    (toList : a.toList = b.toList) : a = b := by
  cases a
  cases b
  congr
  exact Providers.ext toList

end Provides

/-- The hashes of other modules, all made by one algorithm. -/
structure ModuleHashes where
  algorithm : String
  entries : OrderedMap String String
  deriving BEq, Repr

namespace ModuleHashes

/-- The hashes of a list, where a name's last hash counts. -/
def ofList (algorithm : String) (entries : List (String × String)) : ModuleHashes :=
  ⟨algorithm, OrderedMap.ofList entries⟩

def hashFor? (hashes : ModuleHashes) (name : String) : Option String :=
  hashes.entries.get? name

end ModuleHashes

/-- The operating system a module is for. -/
structure Platform where
  osName : Option String
  osArch : Option String
  osVersion : Option String
  deriving DecidableEq, Repr

namespace Platform

def any : Platform := ⟨none, none, none⟩

/-- A field that holds the empty text says nothing. -/
def specified (field : Option String) : Option String :=
  field.filter fun text => !text.isEmpty

/-- The platform with empty texts left out. -/
def normalize (platform : Platform) : Platform :=
  ⟨specified platform.osName, specified platform.osArch, specified platform.osVersion⟩

/-- Whether nothing is said about the platform. -/
def isEmpty (platform : Platform) : Bool :=
  platform.normalize == any

end Platform

end DescriptorCodec
