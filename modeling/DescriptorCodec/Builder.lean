import DescriptorCodec.Descriptor.Basic

/-!
# Builders

A builder puts a descriptor together piece by piece. Setting a flag or a table replaces what was
there. A field that holds one value can be set once; setting it again fails, and the builder is
then as before. Names are not checked.

Hashes are kept as they come, and sorted out when the descriptor is built: they make it into the
descriptor only if an algorithm was named.
-/

namespace DescriptorCodec

/-- A descriptor in the making, and the cache through which its version is parsed. -/
structure Builder where
  name : String
  cache : Option CacheId
  isOpen : Bool := false
  isAutomatic : Bool := false
  isSynthetic : Bool := false
  requires : OrderedSet Requires := .empty
  exports : OrderedSet PackageAccess := .empty
  opens : OrderedSet PackageAccess := .empty
  packages : OrderedSet String := .empty
  uses : OrderedSet String := .empty
  provides : OrderedMap String Provides := .empty
  version : Option SharedVersion := none
  mainClass : Option String := none
  platform : Platform := .any
  algorithm : Option String := none
  hashes : Option (Array (String × String)) := none
  deriving Repr

namespace Builder

/-- A builder that has nothing but the name. -/
def new (name : String) (cache : Option CacheId := some .shared) : Builder :=
  { name, cache }

def setOpen (builder : Builder) (value : Bool) : Builder :=
  { builder with isOpen := value }

def setAutomatic (builder : Builder) (value : Bool) : Builder :=
  { builder with isAutomatic := value }

def setSynthetic (builder : Builder) (value : Bool) : Builder :=
  { builder with isSynthetic := value }

def setRequires (builder : Builder) (requires : List Requires) : Builder :=
  { builder with requires := .ofList requires }

def setExports (builder : Builder) (exports : List PackageAccess) : Builder :=
  { builder with exports := .ofList exports }

def setOpens (builder : Builder) (opens : List PackageAccess) : Builder :=
  { builder with opens := .ofList opens }

def setPackages (builder : Builder) (packages : List String) : Builder :=
  { builder with packages := .ofList packages }

def setUses (builder : Builder) (uses : List String) : Builder :=
  { builder with uses := .ofList uses }

/-- Replaces the services provided; the last entry of a service counts. -/
def setProvides (builder : Builder) (provides : List Provides) : Builder :=
  { builder with provides := .keyBy Provides.service provides }

/-- The value of a field that is set for the first time. -/
def once {α : Type} (field : ScalarField) (present : Option α) (value : α) :
    Except Error (Option α) :=
  match present with
  | none => .ok (some value)
  | some _ => .error (.alreadySet field)

def setSharedVersion (builder : Builder) (version : SharedVersion) : Except Error Builder := do
  let version ← once .version builder.version version
  return { builder with version }

/-- Parses and sets the version. A version that is set already is reported before the text is
looked at. -/
def setVersion (builder : Builder) (text : String) : CacheM Builder := do
  if builder.version.isSome then throw (.alreadySet .version)
  let version ← SharedVersion.parse builder.cache text
  MonadExcept.ofExcept (builder.setSharedVersion version)

def setMainClass (builder : Builder) (name : String) : Except Error Builder := do
  let mainClass ← once .mainClass builder.mainClass name
  return { builder with mainClass }

def setOsName (builder : Builder) (name : String) : Except Error Builder := do
  let osName ← once .osName builder.platform.osName name
  return { builder with platform := { builder.platform with osName } }

def setOsArch (builder : Builder) (arch : String) : Except Error Builder := do
  let osArch ← once .osArch builder.platform.osArch arch
  return { builder with platform := { builder.platform with osArch } }

def setOsVersion (builder : Builder) (version : String) : Except Error Builder := do
  let osVersion ← once .osVersion builder.platform.osVersion version
  return { builder with platform := { builder.platform with osVersion } }

def setAlgorithm (builder : Builder) (algorithm : String) : Builder :=
  { builder with algorithm := some algorithm }

def addHash (builder : Builder) (name hash : String) : Builder :=
  { builder with hashes := some ((builder.hashes.getD #[]).push (name, hash)) }

/-- The hashes that make it into the descriptor. -/
def finalHashes (builder : Builder) : Option ModuleHashes :=
  builder.algorithm.map fun algorithm =>
    .ofList algorithm (builder.hashes.getD #[]).toList

/-- The descriptor as it stands. A platform field with the empty text counts as not given. -/
def descriptor (builder : Builder) : Descriptor where
  name := builder.name
  isOpen := builder.isOpen
  isAutomatic := builder.isAutomatic
  isSynthetic := builder.isSynthetic
  requires := builder.requires
  exports := builder.exports
  opens := builder.opens
  packages := builder.packages
  uses := builder.uses
  provides := builder.provides
  version := builder.version
  mainClass := builder.mainClass
  platform := builder.platform.normalize
  hashes := builder.finalHashes

/-- Builds the descriptor, and reports hashes that are left out for want of an algorithm. -/
def build (builder : Builder) : Traced Descriptor := do
  match builder.algorithm, builder.hashes with
  | none, some hashes =>
    report (.droppedHashes builder.name (OrderedMap.ofList hashes.toList).size)
  | _, _ => pure ()
  return builder.descriptor

end Builder

end DescriptorCodec
