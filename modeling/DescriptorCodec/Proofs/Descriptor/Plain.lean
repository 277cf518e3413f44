import DescriptorCodec.Proofs.Descriptor.Format

/-!
# Plain descriptors

A descriptor is plain if its names are in written form and all its bits have a meaning. Its normal
form is then the descriptor itself, except that it is not automatic and has no services without
implementations. Neither shows in the records: they are the same, word for word, and the normal
form needs no symbol that the descriptor does not need.
-/

namespace DescriptorCodec

namespace Provides

/-- The services that have an implementation. -/
def offered (provides : OrderedMap String Provides) : OrderedMap String Provides where
  toList := provides.toList.filter fun entry => !entry.2.isEmpty
  distinct := provides.distinct.sublist (List.filter_sublist.map Prod.fst)

theorem values_offered (provides : OrderedMap String Provides) :
    (offered provides).values = provides.values.filter fun entry => !entry.isEmpty := by
  rw [OrderedMap.values, OrderedMap.values, offered, List.filter_map]
  rfl

/-- Nothing but services without implementations is lost. -/
theorem normalizeTable_of_dotted {provides : OrderedMap String Provides}
    (keyed : provides.KeyedBy service)
    (services : ∀ entry ∈ provides.values, Name.IsDotted entry.service)
    (providers : ∀ entry ∈ provides.values, ∀ provider ∈ entry.toList, Name.IsDotted provider) :
    normalizeTable provides = offered provides := by
  have keyed' : (offered provides).KeyedBy service := fun entry member =>
    keyed entry (List.mem_of_mem_filter member)
  have canonical : ∀ entry ∈ (offered provides).values, entry.Canonical := by
    intro entry member
    rw [values_offered] at member
    obtain ⟨listed, nonempty⟩ := List.mem_filter.mp member
    exact ⟨services entry listed, by simpa [isEmpty] using nonempty, providers entry listed⟩
  have again : normalizeTable (offered provides) = normalizeTable provides := by
    rw [normalizeTable, normalizeTable, values_offered, List.filter_filter]
    simp only [Bool.and_self]
  rw [← again, normalizeTable_of_canonical keyed' canonical]

end Provides

namespace Descriptor

/-- Names are in written form, and all bits have a meaning. -/
structure Plain (descriptor : Descriptor) : Prop where
  not_synthetic : descriptor.isSynthetic = false
  requires : ∀ requires ∈ descriptor.requires.toList,
    requires.modifiers &&& 0x0033 = requires.modifiers
  exports : ∀ access ∈ descriptor.exports.toList, access.Canonical
  opens : ∀ access ∈ descriptor.opens.toList, access.Canonical
  packages : ∀ package ∈ descriptor.packages.toList, Name.IsDotted package
  uses : ∀ service ∈ descriptor.uses.toList, Name.IsDotted service
  services : ∀ entry ∈ descriptor.provides.values, Name.IsDotted entry.service
  providers : ∀ entry ∈ descriptor.provides.values, ∀ provider ∈ entry.toList,
    Name.IsDotted provider
  mainClass : ∀ name, descriptor.mainClass = some name → Name.IsDotted name

/-- The descriptor without what the records of a plain descriptor do not show. -/
def shown (descriptor : Descriptor) : Descriptor :=
  { descriptor with
    isAutomatic := false
    provides := Provides.offered descriptor.provides }

variable {descriptor : Descriptor}

theorem normalize_of_plain (wellFormed : descriptor.WellFormed) (plain : descriptor.Plain) :
    descriptor.normalize = descriptor.shown := by
  let others : Descriptor := { descriptor with isAutomatic := false, provides := .empty }
  have canonical : others.Canonical := {
    keyed := OrderedMap.keyedBy_empty
    version := wellFormed.version
    osName := wellFormed.osName
    osArch := wellFormed.osArch
    osVersion := wellFormed.osVersion
    not_automatic := rfl
    not_synthetic := plain.not_synthetic
    requires := plain.requires
    exports := plain.exports
    opens := plain.opens
    packages := plain.packages
    uses := plain.uses
    provides := fun _ member => absurd member List.not_mem_nil
    mainClass := plain.mainClass }
  have split : descriptor.normalize =
      { others.normalize with provides := Provides.normalizeTable descriptor.provides } := rfl
  rw [split, normalize_of_canonical canonical,
    Provides.normalizeTable_of_dotted wellFormed.keyed plain.services plain.providers]
  rfl

theorem pairs_shown (descriptor : Descriptor) : descriptor.shown.pairs = descriptor.pairs := by
  rw [pairs, pairs, shown, Provides.values_offered]
  refine Collection.flatMap_filter_of_nil fun entry _ empty => ?_
  have nothing : entry.toList = [] := by simpa [Provides.isEmpty] using empty
  rw [nothing, List.map_nil]

theorem records_shown (descriptor : Descriptor) (pool : Pool) :
    descriptor.shown.records pool = descriptor.records pool := by
  have module : descriptor.shown.moduleRecord pool = descriptor.moduleRecord pool := by
    rw [moduleRecord, pairs_shown]
    rfl
  refine List.filterMap_congr fun kind _ => congrArg (Option.map _) ?_
  cases kind with
  | module => exact congrArg some module
  | _ => rfl

theorem needed_shown {symbol : Symbol} (needed : symbol ∈ descriptor.shown.needed) :
    symbol ∈ descriptor.needed := by
  have services (f : Provides → List Symbol)
      (member : symbol ∈ descriptor.shown.provides.values.flatMap f) :
      symbol ∈ descriptor.provides.values.flatMap f := by
    rw [shown, Provides.values_offered] at member
    obtain ⟨entry, listed, inside⟩ := List.mem_flatMap.mp member
    exact List.mem_flatMap.mpr ⟨entry, List.mem_of_mem_filter listed, inside⟩
  simp only [Descriptor.needed, List.mem_append, or_assoc] at needed ⊢
  exact needed.imp_right (Or.imp_right (Or.imp_right (Or.imp_right (Or.imp_left (services _)))))

/-! ### Tickets -/

theorem records_untagged (descriptor : Descriptor) (pool : Pool) :
    descriptor.untagged.records pool = descriptor.records pool := by
  refine List.filterMap_congr fun kind _ => congrArg (Option.map _) ?_
  cases kind with
  | version => exact Option.map_map _ _ _
  | _ => rfl

theorem needed_untagged (descriptor : Descriptor) :
    descriptor.untagged.needed = descriptor.needed := by
  have source : descriptor.untagged.version.toList.map
        (fun shared => Symbol.utf8 shared.version.source) =
      descriptor.version.toList.map fun shared => .utf8 shared.version.source := by
    rw [untagged]
    cases descriptor.version <;> rfl
  rw [needed, source]
  rfl

end Descriptor

end DescriptorCodec
