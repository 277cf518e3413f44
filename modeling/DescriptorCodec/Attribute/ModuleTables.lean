import DescriptorCodec.Builder
import DescriptorCodec.Descriptor.Flags
import DescriptorCodec.Record.Layout
import DescriptorCodec.Record.Reading

/-!
# The tables of a module

The record that every module has: a word of flags, and the tables of requirements, exported and
opened packages, services used and services provided. The last of these has a row for each pair
of a service and one of its implementations; the rows of a service need not stand together, and
its implementations are collected where its first row stands.

Reading clears the bits of flag words that have no meaning. Of the module's own flags only the
open one is used; a module that was read is never synthetic.
-/

namespace DescriptorCodec

structure ModuleTables where
  flags : UInt16
  requires : OrderedSet Requires
  exports : OrderedSet PackageAccess
  opens : OrderedSet PackageAccess
  uses : OrderedSet String
  provides : OrderedMap String Provides
  deriving BEq, Repr

namespace ModuleTables

def moduleFlags (isOpen isSynthetic : Bool) : UInt16 :=
  (if isOpen then FlagFamily.openBit else 0) |||
    (if isSynthetic then FlagFamily.syntheticModuleBit else 0)

def isOpen (tables : ModuleTables) : Bool :=
  tables.flags &&& FlagFamily.openBit == FlagFamily.openBit

def ofDescriptor (descriptor : Descriptor) : ModuleTables where
  flags := moduleFlags descriptor.isOpen descriptor.isSynthetic
  requires := descriptor.requires
  exports := descriptor.exports
  opens := descriptor.opens
  uses := descriptor.uses
  provides := descriptor.provides

def apply (tables : ModuleTables) (builder : Builder) : Builder :=
  builder
    |>.setOpen tables.isOpen
    |>.setRequires tables.requires.toList
    |>.setExports tables.exports.toList
    |>.setOpens tables.opens.toList
    |>.setUses tables.uses.toList
    |>.setProvides tables.provides.values

/-! ### Writing -/

def requiresRow (requires : Requires) : List Item :=
  [.field .utf8 requires.name, .field .word requires.modifiers]

/-- A row of a table of packages, with the table of its targets. A row without targets has a zero
in place of that table. -/
def accessRow (access : PackageAccess) : List Item :=
  .field .packageName access.source :: .field .word access.modifiers ::
    if access.isQualified then
      .count "targets" access.targets.size ::
        access.targets.toList.map fun target => .field .utf8 target
    else [.field .word 0]

/-- The rows of a service. The class of the service is declared even if it has no row. -/
def providesRows (entry : Provides) : List Item :=
  .declare entry.service ::
    entry.toList.flatMap fun provider =>
      [.field .className entry.service, .field .className provider]

def pairCount (tables : ModuleTables) : Nat :=
  (tables.provides.values.flatMap Provides.toList).length

def layout (tables : ModuleTables) : List Item :=
  .field .word tables.flags ::
  .count "requires" tables.requires.size ::
    tables.requires.toList.flatMap requiresRow ++
  .count "exports" tables.exports.size ::
    tables.exports.toList.flatMap accessRow ++
  .count "opens" tables.opens.size ::
    tables.opens.toList.flatMap accessRow ++
  .count "uses" tables.uses.size ::
    tables.uses.toList.map (fun service => .field .className service) ++
  .count "provides" tables.pairCount ::
    tables.provides.values.flatMap providesRows

/-! ### Reading -/

def readRequires : Reading Requires := do
  let name ← Reading.field .utf8
  let modifiers ← Reading.field .word
  return ⟨name, FlagFamily.requires.truncate modifiers⟩

def readAccess : Reading PackageAccess := do
  let source ← Reading.field .packageName
  let modifiers ← Reading.field .word
  let targets ← Reading.table (Reading.field .utf8)
  return ⟨source, FlagFamily.packageAccess.truncate modifiers, .ofList targets⟩

def readProvides : Reading (String × String) := do
  let service ← Reading.field .className
  let provider ← Reading.field .className
  return (service, provider)

def reading : Reading ModuleTables := do
  let flags ← Reading.field .word
  let requires ← Reading.table readRequires
  let exports ← Reading.table readAccess
  let opens ← Reading.table readAccess
  let uses ← Reading.table (Reading.field .className)
  let provides ← Reading.table readProvides
  return {
    flags := FlagFamily.ofModule.truncate flags
    requires := .ofList requires
    exports := .ofList exports
    opens := .ofList opens
    uses := .ofList uses
    provides := (OrderedMap.group provides).map Provides.new }

end ModuleTables

end DescriptorCodec
