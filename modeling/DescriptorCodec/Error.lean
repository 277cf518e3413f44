import DescriptorCodec.Attribute.Kind

/-!
# Errors

What can go wrong when a descriptor is built, encoded or decoded. Each constructor is a cause;
the wording of all causes is in `Error.message`.
-/

namespace DescriptorCodec

/-- The parts of a descriptor that a builder accepts only once. -/
inductive ScalarField where
  | version
  | mainClass
  | osName
  | osArch
  | osVersion
  deriving DecidableEq, Repr

/-- How messages refer to the field. -/
def ScalarField.description : ScalarField → String
  | version => "module version"
  | mainClass => "main class"
  | osName => "OS name"
  | osArch => "OS arch"
  | osVersion => "OS version"

/-- The kinds of entry a reference into a constant pool can ask for. -/
inductive SymbolKind where
  | utf8
  | classRef
  deriving DecidableEq, Repr

def SymbolKind.description : SymbolKind → String
  | utf8 => "utf8"
  | classRef => "class"

/-- The reasons for which a text is not a module version. -/
inductive VersionFault where
  | emptyText
  | noLeadingNumber
  | numberTooLarge
  | emptyPreRelease
  | emptyBuild
  deriving DecidableEq, Repr

def VersionFault.description : VersionFault → String
  | emptyText => "empty version string"
  | noLeadingNumber => "version string does not start with a number"
  | numberTooLarge => "number too large"
  | emptyPreRelease => "empty pre-release"
  | emptyBuild => "empty build"

inductive Error where
  /-- A word starts too close to the end of the bytes. -/
  | outOfBounds
  /-- A set of records already holds a record of this kind. -/
  | duplicateAttribute (kind : AttributeKind)
  /-- A set of records lacks a record that decoding needs. -/
  | missingAttribute (kind : AttributeKind)
  /-- A reference does not point at a pool entry of the expected kind. -/
  | invalidSymbol (index : UInt16) (expected : SymbolKind)
  /-- A table or the pool has more entries than a two-byte count can tell. -/
  | limitExceeded (what : String) (count : Nat)
  /-- A builder field that is set once has a value already. -/
  | alreadySet (field : ScalarField)
  /-- A text is not a module version. -/
  | invalidVersion (text : String) (fault : VersionFault)
  /-- A name is not that of an attribute kind. -/
  | unknownKind
  deriving DecidableEq, Repr

/-- The text that reports the failure. -/
def Error.message : Error → String
  | outOfBounds => "Out of Bound read would have occurred!"
  | duplicateAttribute kind => "Duplicate " ++ kind.name ++ " attribute"
  | missingAttribute kind => "Missing " ++ kind.name ++ " attribute"
  | invalidSymbol index expected =>
    "Invalid symbol index " ++ toString index.toNat ++ " - expected " ++ expected.description
  | limitExceeded what count =>
    "Too many " ++ what ++ " - " ++ toString count ++ " exceeds the u2 limit"
  | alreadySet field => field.description ++ " already set"
  | invalidVersion text fault => "Invalid version '" ++ text ++ "' - " ++ fault.description
  | unknownKind => "Matching variant not found"

def AttributeKind.ofName (text : String) : Except Error AttributeKind :=
  match AttributeKind.ofName? text with
  | some kind => .ok kind
  | none => .error .unknownKind

end DescriptorCodec
