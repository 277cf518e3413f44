import DescriptorCodec.Descriptor.Parts
import DescriptorCodec.Version.Order
import DescriptorCodec.Version.Store

/-!
# Module descriptors

A descriptor is all that is known of a module. Its tables remember the order in which they were
filled, so that the same descriptor always gives the same records. `==` ignores that order, except
among the providers of a service, and compares versions by value. The services that a module
provides are looked up by their names, which are also in their entries.
-/

namespace DescriptorCodec

/-- Shared versions are compared by value; the ticket does not count. -/
instance : BEq SharedVersion := ⟨fun a b => a.version == b.version⟩

structure Descriptor where
  name : String
  isOpen : Bool
  isAutomatic : Bool
  isSynthetic : Bool
  requires : OrderedSet Requires
  exports : OrderedSet PackageAccess
  opens : OrderedSet PackageAccess
  packages : OrderedSet String
  uses : OrderedSet String
  provides : OrderedMap String Provides
  version : Option SharedVersion
  mainClass : Option String
  platform : Platform
  hashes : Option ModuleHashes
  deriving Repr

namespace Descriptor

instance : BEq Descriptor where
  beq a b :=
    a.name == b.name && a.isOpen == b.isOpen && a.isAutomatic == b.isAutomatic &&
    a.isSynthetic == b.isSynthetic && a.requires == b.requires && a.exports == b.exports &&
    a.opens == b.opens && a.packages == b.packages && a.uses == b.uses &&
    a.provides == b.provides && a.version == b.version && a.mainClass == b.mainClass &&
    a.platform == b.platform && a.hashes == b.hashes

/-- The hash of a module that this one was linked against. -/
def hashFor? (descriptor : Descriptor) (name : String) : Option String :=
  descriptor.hashes.bind fun hashes => hashes.hashFor? name

/-- Whether two descriptors hold the version that one and the same parse made. -/
def sameVersion (a b : Descriptor) : Bool :=
  match a.version, b.version with
  | some v, some w => v.ticket == w.ticket
  | _, _ => false

end Descriptor

end DescriptorCodec
