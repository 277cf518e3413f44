import DescriptorCodec.Attribute.ModuleTables

/-!
# Attributes

An attribute is the part of a descriptor that one record holds. Encoding writes its layout;
decoding reads a record of a given kind, and applying hands what was read to a builder. Only the
version needs more than its record: its text is parsed, through a cache if there is one.
-/

namespace DescriptorCodec

/-- The part of a descriptor that a record holds. -/
inductive Attribute where
  | module (tables : ModuleTables)
  | packages (packages : OrderedSet String)
  | version (version : SharedVersion)
  | mainClass (name : String)
  | targetPlatform (platform : Platform)
  | hashes (hashes : ModuleHashes)
  deriving BEq, Repr

namespace Attribute

def kind : Attribute → AttributeKind
  | module _ => .module
  | packages _ => .packages
  | version _ => .version
  | mainClass _ => .mainClass
  | targetPlatform _ => .targetPlatform
  | hashes _ => .hashes

/-- The attribute of a kind that a descriptor needs, if it needs one. -/
def ofDescriptor? (descriptor : Descriptor) : AttributeKind → Option Attribute
  | .module => some (module (.ofDescriptor descriptor))
  | .packages =>
    if descriptor.packages.isEmpty then none else some (packages descriptor.packages)
  | .version => descriptor.version.map version
  | .mainClass => descriptor.mainClass.map mainClass
  | .targetPlatform =>
    if descriptor.platform.isEmpty then none else some (targetPlatform descriptor.platform)
  | .hashes => descriptor.hashes.map hashes

theorem kind_of_ofDescriptor? {descriptor : Descriptor} {kind : AttributeKind}
    {attr : Attribute} (h : ofDescriptor? descriptor kind = some attr) : attr.kind = kind := by
  cases kind <;> simp only [ofDescriptor?, Option.map_eq_some_iff, Option.ite_none_left_eq_some,
    Option.some.injEq] at h <;> grind [Attribute.kind]

/-! ### Writing -/

def layout : Attribute → List Item
  | module tables => tables.layout
  | packages names =>
    .count "packages" names.size :: names.toList.map fun name => .field .packageName name
  | version shared => [.field .utf8 shared.version.source]
  | mainClass name => [.field .className name]
  | targetPlatform platform =>
    [.field .optionalUtf8 platform.osName, .field .optionalUtf8 platform.osArch,
      .field .optionalUtf8 platform.osVersion]
  | hashes table =>
    .field .utf8 table.algorithm :: .count "module hashes" table.entries.size ::
      table.entries.toList.flatMap fun (name, hash) => [.field .utf8 name, .field .utf8 hash]

def encode (attr : Attribute) : PoolM Bytes :=
  Item.encode attr.layout

/-! ### Reading -/

def readPlatform : Reading Platform := do
  let osName ← Reading.field .optionalUtf8
  let osArch ← Reading.field .optionalUtf8
  let osVersion ← Reading.field .optionalUtf8
  return ⟨osName, osArch, osVersion⟩

def readHash : Reading (String × String) := do
  let name ← Reading.field .utf8
  let hash ← Reading.field .utf8
  return (name, hash)

def readHashes : Reading ModuleHashes := do
  let algorithm ← Reading.field .utf8
  let entries ← Reading.table readHash
  return .ofList algorithm entries

/-- Reads a value off a record, as a step of a computation that may parse versions. -/
def read {α : Type} (reading : Reading α) (pool : Pool) (record : Bytes) : CacheM α :=
  MonadExcept.ofExcept (reading.decode pool record)

/-- The attribute that a record of the given kind holds. Versions are parsed through `cache`. -/
def decode (kind : AttributeKind) (record : Bytes) (pool : Pool) (cache : Option CacheId) :
    CacheM Attribute :=
  match kind with
  | .module => module <$> read ModuleTables.reading pool record
  | .packages => do
    let names ← read (Reading.table (Reading.field .packageName)) pool record
    return packages (.ofList names)
  | .version => do
    let text ← read (Reading.field .utf8) pool record
    version <$> SharedVersion.parse cache text
  | .mainClass => mainClass <$> read (Reading.field .className) pool record
  | .targetPlatform => targetPlatform <$> read readPlatform pool record
  | .hashes => hashes <$> read readHashes pool record

/-- Sets a field of a builder to what a record says, if it says anything. -/
def setGiven (set : Builder → String → Except Error Builder) (field : Option String)
    (builder : Builder) : Except Error Builder :=
  match field with
  | none => .ok builder
  | some text => set builder text

def apply (builder : Builder) : Attribute → Except Error Builder
  | module tables => .ok (tables.apply builder)
  | packages names => .ok (builder.setPackages names.toList)
  | version shared => builder.setSharedVersion shared
  | mainClass name => builder.setMainClass name
  | targetPlatform platform => do
    let builder ← setGiven Builder.setOsName platform.osName builder
    let builder ← setGiven Builder.setOsArch platform.osArch builder
    setGiven Builder.setOsVersion platform.osVersion builder
  | hashes table =>
    .ok (table.entries.toList.foldl (fun builder (name, hash) => builder.addHash name hash)
      (builder.setAlgorithm table.algorithm))

end Attribute

end DescriptorCodec
