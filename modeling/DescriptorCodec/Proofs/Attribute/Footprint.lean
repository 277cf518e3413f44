import Mathlib.Data.List.Nodup
import DescriptorCodec.Proofs.Attribute.Applying

/-!
# What an attribute changes of a builder

An attribute covers some parts of a builder and leaves the others as they are, whatever the
builder has.

Attributes of different kinds cover different parts, so none of them stands in the way of another
one, and it does not matter which of them comes first.
-/

namespace DescriptorCodec

namespace Builder

inductive Part where
  | name
  | cache
  | isOpen
  | isAutomatic
  | isSynthetic
  | requires
  | exports
  | opens
  | packages
  | uses
  | provides
  | version
  | mainClass
  | osName
  | osArch
  | osVersion
  | algorithm
  | hashes
  deriving DecidableEq, Repr

abbrev Part.Value : Part → Type
  | name => String
  | cache => Option CacheId
  | isOpen => Bool
  | isAutomatic => Bool
  | isSynthetic => Bool
  | requires => OrderedSet Requires
  | exports => OrderedSet PackageAccess
  | opens => OrderedSet PackageAccess
  | packages => OrderedSet String
  | uses => OrderedSet String
  | provides => OrderedMap String Provides
  | version => Option SharedVersion
  | mainClass => Option String
  | osName => Option String
  | osArch => Option String
  | osVersion => Option String
  | algorithm => Option String
  | hashes => Option (Array (String × String))

def get (builder : Builder) : (part : Part) → part.Value
  | .name => builder.name
  | .cache => builder.cache
  | .isOpen => builder.isOpen
  | .isAutomatic => builder.isAutomatic
  | .isSynthetic => builder.isSynthetic
  | .requires => builder.requires
  | .exports => builder.exports
  | .opens => builder.opens
  | .packages => builder.packages
  | .uses => builder.uses
  | .provides => builder.provides
  | .version => builder.version
  | .mainClass => builder.mainClass
  | .osName => builder.platform.osName
  | .osArch => builder.platform.osArch
  | .osVersion => builder.platform.osVersion
  | .algorithm => builder.algorithm
  | .hashes => builder.hashes

end Builder

/-- The parts of a builder that the attribute says something about. -/
def Attribute.covered : Attribute → List Builder.Part
  | module _ => [.isOpen, .requires, .exports, .opens, .uses, .provides]
  | packages _ => [.packages]
  | version _ => [.version]
  | mainClass _ => [.mainClass]
  | targetPlatform platform =>
    (if platform.osName.isSome then [.osName] else []) ++
      (if platform.osArch.isSome then [.osArch] else []) ++
      (if platform.osVersion.isSome then [.osVersion] else [])
  | hashes table => .algorithm :: if table.entries.isEmpty then [] else [.hashes]

namespace Builder

variable {builder : Builder} {attr other : Attribute}

/-! ### Attributes of different kinds -/

theorem accepts_merge (distinct : attr.kind ≠ other.kind) :
    (builder.merge attr).Accepts other ↔ builder.Accepts other := by
  cases attr <;> cases other <;> first | exact Iff.rfl | exact absurd rfl distinct

theorem merge_merge (distinct : attr.kind ≠ other.kind) :
    (builder.merge attr).merge other = (builder.merge other).merge attr := by
  cases attr <;> cases other <;> first | rfl | exact absurd rfl distinct

/-- What an attribute does not cover stays as it was. -/
theorem get_merge {part : Part} (uncovered : part ∉ attr.covered) :
    (builder.merge attr).get part = builder.get part := by
  cases attr with
  | targetPlatform platform =>
      obtain ⟨osName, osArch, osVersion⟩ := platform
      cases part with
      | osName =>
          cases osName with
          | none => rfl
          | some text => exact absurd (by simp [Attribute.covered]) uncovered
      | osArch =>
          cases osArch with
          | none => rfl
          | some text => exact absurd (by simp [Attribute.covered]) uncovered
      | osVersion =>
          cases osVersion with
          | none => rfl
          | some text => exact absurd (by simp [Attribute.covered]) uncovered
      | _ => rfl
  | hashes table =>
      cases part with
      | algorithm => exact absurd List.mem_cons_self uncovered
      | hashes =>
          have empty : table.entries.isEmpty = true := by
            simpa [Attribute.covered] using uncovered
          exact if_pos empty
      | _ => rfl
  | _ => cases part <;> first | rfl | exact absurd (by simp [Attribute.covered]) uncovered

/-! ### Tickets -/

theorem untagged_merge (builder : Builder) (attr : Attribute) :
    (builder.merge attr).untagged = builder.untagged.merge attr.untagged := by
  cases attr <;> rfl

theorem untagged_foldl_merge (attrs : List Attribute) (builder : Builder) :
    (attrs.foldl merge builder).untagged =
      (attrs.map Attribute.untagged).foldl merge builder.untagged := by
  induction attrs generalizing builder with
  | nil => rfl
  | cons attr attrs ih =>
      rw [List.foldl_cons, ih, untagged_merge, List.map_cons, List.foldl_cons]

theorem covered_untagged (attr : Attribute) : attr.untagged.covered = attr.covered := by
  cases attr <;> rfl

theorem accepts_untagged : builder.Accepts attr.untagged ↔ builder.Accepts attr := by
  cases attr <;> exact Iff.rfl

/-! ### In any order -/

/-- Attributes of different kinds can be merged in any order. -/
theorem foldl_merge_of_perm {attrs attrs' : List Attribute} (order : attrs.Perm attrs')
    (distinct : (attrs.map Attribute.kind).Nodup) (builder : Builder) :
    attrs.foldl merge builder = attrs'.foldl merge builder := by
  refine order.foldl_eq' (fun x hx y hy b => ?_) builder
  by_cases same : x.kind = y.kind
  · rw [List.inj_on_of_nodup_map distinct hx hy same]
  · exact merge_merge same

end Builder

end DescriptorCodec
