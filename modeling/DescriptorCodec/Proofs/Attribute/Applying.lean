import DescriptorCodec.Attribute.Basic
import DescriptorCodec.Proofs.Descriptor.Building

/-!
# Handing attributes to a builder

A builder accepts an attribute if nothing has been set that the attribute would set once. Tables
are replaced then, hashes are added to those that are there, and `merge` is what comes of it. If the
builder does not accept the attribute, it reports a field that has been set.

Decoding hands a builder at most one attribute of each kind. A builder that has nothing of a kind
accepts an attribute of that kind, and what it has then is what `give` says.

Tickets and caches do not matter on the way: `untagged` leaves them out of a builder, before an
attribute is given to it or afterwards.
-/

namespace DescriptorCodec

namespace Attribute

/-- The attribute without the ticket of its version. -/
def untagged : Attribute → Attribute
  | version shared => version shared.untagged
  | attr => attr

@[simp] theorem kind_untagged (attr : Attribute) : attr.untagged.kind = attr.kind := by
  cases attr <;> rfl

theorem kind_eq_of_untagged {a b : Attribute} (h : a.untagged = b.untagged) : a.kind = b.kind := by
  rw [← kind_untagged a, h, kind_untagged]

end Attribute

/-- All tables are replaced at once. Services are entered under their names once more. -/
theorem ModuleTables.apply_eq (tables : ModuleTables) (builder : Builder) : tables.apply builder =
    { builder with
      isOpen := tables.isOpen
      requires := tables.requires
      exports := tables.exports
      opens := tables.opens
      uses := tables.uses
      provides := .keyBy Provides.service tables.provides.values } := by
  simp only [apply, Builder.setOpen, Builder.setRequires, Builder.setExports, Builder.setOpens,
    Builder.setUses, Builder.setProvides, OrderedSet.ofList_toList]

namespace Builder

/-- The builder without its cache and without the ticket of its version. -/
def untagged (builder : Builder) : Builder :=
  { builder with cache := none, version := builder.version.map SharedVersion.untagged }

theorem untagged_descriptor (builder : Builder) :
    builder.untagged.descriptor = builder.descriptor.untagged := rfl

/-- The builder has nothing that an attribute of the kind could not be added to. -/
def Lacks (builder : Builder) : AttributeKind → Prop
  | .module => True
  | .packages => builder.packages = .empty
  | .version => builder.version = none
  | .mainClass => builder.mainClass = none
  | .targetPlatform => builder.platform = .any
  | .hashes => builder.hashes = none

/-- The kinds whose attributes the builder may still be given, each of them once. -/
structure Awaits (builder : Builder) (kinds : List AttributeKind) : Prop where
  nodup : kinds.Nodup
  lacks : ∀ kind ∈ kinds, builder.Lacks kind

theorem awaits_new (name : String) (cache : Option CacheId) :
    (new name cache).Awaits AttributeKind.all where
  nodup := by decide
  lacks kind _ := by cases kind <;> trivial

/-- The builder with the attribute in place of what it had of that kind. -/
def give (builder : Builder) : Attribute → Builder
  | .module tables => tables.apply builder
  | .packages names => { builder with packages := names }
  | .version shared => { builder with version := some shared }
  | .mainClass name => { builder with mainClass := some name }
  | .targetPlatform platform => { builder with platform }
  | .hashes table =>
    { builder with
      algorithm := some table.algorithm
      hashes := if table.entries.isEmpty then none else some table.entries.toList.toArray }

theorem foldl_addHash (entries : List (String × String)) (builder : Builder) :
    entries.foldl (fun builder (name, hash) => builder.addHash name hash) builder =
      { builder with
        hashes :=
          if entries.isEmpty then builder.hashes
          else some ((builder.hashes.getD #[]) ++ entries.toArray) } := by
  induction entries generalizing builder with
  | nil => rfl
  | cons entry entries ih =>
      rw [List.foldl_cons, ih]
      cases entries with
      | nil => simp [addHash]
      | cons next entries => simp [addHash]

/-! ### What a builder accepts -/

variable {builder : Builder} {attr : Attribute}

/-- Nothing is to be set, or nothing has been set. -/
def Vacant (given present : Option String) : Prop :=
  given = none ∨ present = none

/-- What the attribute sets once has not been set. -/
def Accepts (builder : Builder) : Attribute → Prop
  | .version _ => builder.version = none
  | .mainClass _ => builder.mainClass = none
  | .targetPlatform platform =>
    Vacant platform.osName builder.platform.osName ∧
      Vacant platform.osArch builder.platform.osArch ∧
      Vacant platform.osVersion builder.platform.osVersion
  | _ => True

/-- The builder with what the attribute says. -/
def merge (builder : Builder) : Attribute → Builder
  | .module tables =>
    { builder with
      isOpen := tables.isOpen
      requires := tables.requires
      exports := tables.exports
      opens := tables.opens
      uses := tables.uses
      provides := .keyBy Provides.service tables.provides.values }
  | .packages names => { builder with packages := names }
  | .version shared => { builder with version := some shared }
  | .mainClass name => { builder with mainClass := some name }
  | .targetPlatform platform =>
    { builder with
      platform := {
        osName := platform.osName.or builder.platform.osName
        osArch := platform.osArch.or builder.platform.osArch
        osVersion := platform.osVersion.or builder.platform.osVersion } }
  | .hashes table =>
    { builder with
      algorithm := some table.algorithm
      hashes :=
        if table.entries.isEmpty then builder.hashes
        else some (builder.hashes.getD #[] ++ table.entries.toList.toArray) }

theorem accepts_new (name : String) (cache : Option CacheId) (attr : Attribute) :
    (new name cache).Accepts attr := by
  cases attr with
  | targetPlatform platform => exact ⟨.inr rfl, .inr rfl, .inr rfl⟩
  | _ => trivial

/-- What a field that is set once holds when it may have been given a text. -/
def fill (field : ScalarField) (given present : Option String) : Except Error (Option String) :=
  match given with
  | none => .ok present
  | some text => once field present text

theorem fill_of_vacant (field : ScalarField) {given present : Option String}
    (vacant : Vacant given present) : fill field given present = .ok (given.or present) := by
  rcases vacant with rfl | rfl
  · rfl
  · cases given <;> rfl

theorem fill_of_not_vacant (field : ScalarField) {given present : Option String}
    (taken : ¬ Vacant given present) : fill field given present = .error (.alreadySet field) := by
  cases given with
  | none => exact absurd (.inl rfl) taken
  | some text =>
      cases present with
      | none => exact absurd (.inr rfl) taken
      | some value => rfl

/-- The fields of a platform are filled one after another. -/
theorem apply_targetPlatform (builder : Builder) (platform : Platform) :
    (Attribute.targetPlatform platform).apply builder = do
      let osName ← fill .osName platform.osName builder.platform.osName
      let osArch ← fill .osArch platform.osArch builder.platform.osArch
      let osVersion ← fill .osVersion platform.osVersion builder.platform.osVersion
      return { builder with platform := ⟨osName, osArch, osVersion⟩ } := by
  obtain ⟨osName, osArch, osVersion⟩ := platform
  cases builder with
  | mk _ _ _ _ _ _ _ _ _ _ _ _ _ present =>
      -- A field that is given and was set ends the filling, whatever the later ones are.
      obtain ⟨osName', osArch', osVersion'⟩ := present
      cases osName <;> cases osArch <;> cases osVersion <;> cases osName' <;> cases osArch' <;>
        cases osVersion' <;> rfl

theorem Accepts.apply (accepts : builder.Accepts attr) :
    attr.apply builder = .ok (builder.merge attr) := by
  cases attr with
  | module tables =>
      rw [Attribute.apply, ModuleTables.apply_eq]
      rfl
  | packages names =>
      rw [Attribute.apply, setPackages, OrderedSet.ofList_toList]
      rfl
  | version shared =>
      have absent : builder.version = none := accepts
      rw [Attribute.apply, setSharedVersion, absent]
      rfl
  | mainClass name =>
      have absent : builder.mainClass = none := accepts
      rw [Attribute.apply, setMainClass, absent]
      rfl
  | targetPlatform platform =>
      obtain ⟨osName, osArch, osVersion⟩ := accepts
      rw [apply_targetPlatform, fill_of_vacant _ osName, fill_of_vacant _ osArch,
        fill_of_vacant _ osVersion]
      rfl
  | hashes table =>
      rw [Attribute.apply, foldl_addHash, setAlgorithm, merge, OrderedMap.isEmpty]

theorem exists_apply_of_not_accepts (refused : ¬ builder.Accepts attr) :
    ∃ field, attr.apply builder = .error (.alreadySet field) := by
  cases attr with
  | version shared =>
      obtain ⟨present, same⟩ := Option.ne_none_iff_exists'.mp refused
      refine ⟨.version, ?_⟩
      rw [Attribute.apply, setSharedVersion, same]
      rfl
  | mainClass name =>
      obtain ⟨present, same⟩ := Option.ne_none_iff_exists'.mp refused
      refine ⟨.mainClass, ?_⟩
      rw [Attribute.apply, setMainClass, same]
      rfl
  | targetPlatform platform =>
      rw [apply_targetPlatform]
      by_cases osName : Vacant platform.osName builder.platform.osName
      · rw [fill_of_vacant _ osName]
        by_cases osArch : Vacant platform.osArch builder.platform.osArch
        · rw [fill_of_vacant _ osArch]
          have osVersion : ¬ Vacant platform.osVersion builder.platform.osVersion :=
            fun osVersion => refused ⟨osName, osArch, osVersion⟩
          rw [fill_of_not_vacant _ osVersion]
          exact ⟨_, rfl⟩
        · rw [fill_of_not_vacant _ osArch]
          exact ⟨_, rfl⟩
      · rw [fill_of_not_vacant _ osName]
        exact ⟨_, rfl⟩
  | _ => exact absurd trivial refused

/-! ### One attribute of each kind -/

theorem Lacks.accepts (lacks : builder.Lacks attr.kind) : builder.Accepts attr := by
  cases attr with
  | version shared => exact lacks
  | mainClass name => exact lacks
  | targetPlatform platform =>
      have absent : builder.platform = .any := lacks
      rw [Accepts, absent]
      exact ⟨.inr rfl, .inr rfl, .inr rfl⟩
  | _ => trivial

/-- A builder that has nothing of the kind takes over the attribute as it is. -/
theorem Lacks.merge_eq_give (lacks : builder.Lacks attr.kind) :
    builder.merge attr = builder.give attr := by
  cases attr with
  | module tables => exact (tables.apply_eq builder).symm
  | targetPlatform platform =>
      have absent : builder.platform = .any := lacks
      simp only [merge, give, absent, Platform.any, Option.or_none]
  | hashes table =>
      have absent : builder.hashes = none := lacks
      simp only [merge, give, absent, Option.getD_none, Array.empty_append]
  | _ => rfl

theorem Lacks.apply (lacks : builder.Lacks attr.kind) :
    attr.apply builder = .ok (builder.give attr) := by
  rw [lacks.accepts.apply, lacks.merge_eq_give]

/-- The hashes that are given are the hashes that are built. -/
theorem finalHashes_give (builder : Builder) (table : ModuleHashes) :
    (builder.give (.hashes table)).finalHashes = some table := by
  have entries : ((if table.entries.isEmpty then none
      else some table.entries.toList.toArray).getD #[]).toList = table.entries.toList := by
    by_cases empty : table.entries.isEmpty
    · have nothing : table.entries.toList = [] := by
        simpa [OrderedMap.isEmpty] using empty
      rw [if_pos empty, nothing]
      rfl
    · rw [if_neg empty]
      rfl
  rw [finalHashes, give, Option.map_some, entries, ModuleHashes.ofList, OrderedMap.ofList_toList]

theorem Lacks.give {builder : Builder} {kind : AttributeKind} (h : builder.Lacks kind)
    {attr : Attribute} (other : attr.kind ≠ kind) : (builder.give attr).Lacks kind := by
  cases attr <;> cases kind <;> first | exact h | trivial

namespace Awaits

variable {builder : Builder} {kind : AttributeKind} {kinds : List AttributeKind}

theorem skip (h : builder.Awaits (kind :: kinds)) : builder.Awaits kinds where
  nodup := (List.nodup_cons.mp h.nodup).2
  lacks other member := h.lacks other (List.mem_cons_of_mem _ member)

theorem apply {attr : Attribute} (h : builder.Awaits (attr.kind :: kinds)) :
    attr.apply builder = .ok (builder.give attr) ∧ (builder.give attr).Awaits kinds := by
  refine ⟨(h.lacks _ List.mem_cons_self).apply, h.skip.nodup, ?_⟩
  intro other member
  refine (h.skip.lacks other member).give ?_
  rintro rfl
  exact (List.nodup_cons.mp h.nodup).1 member

end Awaits

theorem name_give (builder : Builder) (attr : Attribute) :
    (builder.give attr).name = builder.name := by
  cases attr <;> rfl

theorem untagged_give (builder : Builder) (attr : Attribute) :
    (builder.give attr).untagged = builder.untagged.give attr.untagged := by
  cases attr <;> rfl

end Builder

end DescriptorCodec
