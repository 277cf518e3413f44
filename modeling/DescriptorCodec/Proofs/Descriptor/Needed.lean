import DescriptorCodec.Proofs.Attribute.Canonical
import DescriptorCodec.Proofs.Record.Room

/-!
# What a descriptor needs

`Descriptor.needed` lists the symbols that a descriptor uses in the order of their first use, and
`Descriptor.Countable` says that each of its tables can be counted by a word. Both are told of the
descriptor itself. Taken over all attributes, the layouts of the records ask for nothing else: a
service is named again in each of its rows, which adds no symbol.
-/

namespace DescriptorCodec

open Collection

namespace PackageAccess

def needed (access : PackageAccess) : List Symbol :=
  .utf8 (Name.internal access.source) :: access.targets.toList.map .utf8

end PackageAccess

namespace Descriptor

/-- The symbols that the descriptor uses, in the order of their first use. -/
def needed (descriptor : Descriptor) : List Symbol :=
  descriptor.requires.toList.map (fun requires => .utf8 requires.name) ++
  descriptor.exports.toList.flatMap PackageAccess.needed ++
  descriptor.opens.toList.flatMap PackageAccess.needed ++
  descriptor.uses.toList.flatMap Symbol.ofClass ++
  (descriptor.provides.values.flatMap fun entry =>
    Symbol.ofClass entry.service ++ entry.toList.flatMap Symbol.ofClass) ++
  descriptor.packages.toList.map (fun name => .utf8 (Name.internal name)) ++
  descriptor.version.toList.map (fun shared => .utf8 shared.version.source) ++
  descriptor.mainClass.toList.flatMap Symbol.ofClass ++
  ([descriptor.platform.osName, descriptor.platform.osArch,
    descriptor.platform.osVersion].filterMap Platform.specified).map .utf8 ++
  descriptor.hashes.toList.flatMap fun hashes =>
    .utf8 hashes.algorithm ::
      hashes.entries.toList.flatMap fun (name, hash) => [.utf8 name, .utf8 hash]

/-- Every table of the descriptor can be counted by a word. Of the services it is the pairs with
an implementation that are counted. -/
structure Countable (descriptor : Descriptor) : Prop where
  requires : descriptor.requires.size ≤ countLimit
  exports : descriptor.exports.size ≤ countLimit
  exportTargets : ∀ access ∈ descriptor.exports.toList, access.targets.size ≤ countLimit
  opens : descriptor.opens.size ≤ countLimit
  openTargets : ∀ access ∈ descriptor.opens.toList, access.targets.size ≤ countLimit
  uses : descriptor.uses.size ≤ countLimit
  provides : (descriptor.provides.values.flatMap Provides.toList).length ≤ countLimit
  packages : descriptor.packages.size ≤ countLimit
  hashes : ∀ hashes, descriptor.hashes = some hashes → hashes.entries.size ≤ countLimit

/-- The attributes that the descriptor needs, in the order of their kinds. -/
def attributes (descriptor : Descriptor) : List Attribute :=
  AttributeKind.all.filterMap (Attribute.ofDescriptor? descriptor)

end Descriptor

/-! ### The symbols of the layouts -/

namespace ModuleTables

theorem symbols_accessRow (access : PackageAccess) :
    (accessRow access).flatMap Item.symbols = access.needed := by
  by_cases qualified : access.isQualified
  · rw [accessRow, if_pos qualified, PackageAccess.needed]
    simp [List.map_eq_flatMap, List.flatMap_assoc, Item.symbols, Field.symbols]
  · rw [accessRow, if_neg qualified, PackageAccess.needed,
      PackageAccess.toList_targets_eq_nil qualified]
    rfl

theorem symbols_providesRows (entry : Provides) :
    (providesRows entry).flatMap Item.symbols =
      Symbol.ofClass entry.service ++ entry.toList.flatMap fun provider =>
        Symbol.ofClass entry.service ++ Symbol.ofClass provider := by
  simp [providesRows, List.flatMap_assoc, Item.symbols, Field.symbols]

theorem symbols_layout (tables : ModuleTables) :
    tables.layout.flatMap Item.symbols =
      tables.requires.toList.map (fun requires => .utf8 requires.name) ++
      tables.exports.toList.flatMap PackageAccess.needed ++
      tables.opens.toList.flatMap PackageAccess.needed ++
      tables.uses.toList.flatMap Symbol.ofClass ++
      (tables.provides.values.flatMap fun entry =>
        Symbol.ofClass entry.service ++ entry.toList.flatMap fun provider =>
          Symbol.ofClass entry.service ++ Symbol.ofClass provider) := by
  have requires : (fun row : Requires => (requiresRow row).flatMap Item.symbols) =
      fun row => [.utf8 row.name] := rfl
  simp only [layout, List.flatMap_append, List.flatMap_cons, List.flatMap_nil, List.flatMap_assoc,
    symbols_accessRow, symbols_providesRows, requires, List.map_eq_flatMap, Item.symbols,
    Field.symbols, List.nil_append, List.append_nil, List.append_assoc]

end ModuleTables

namespace Attribute

variable (descriptor : Descriptor)

/-- The symbols of the record of a kind, if the descriptor needs one. -/
def neededOf (kind : AttributeKind) : List Symbol :=
  ((ofDescriptor? descriptor kind).map fun attr => attr.layout.flatMap Item.symbols).getD []

theorem neededOf_packages : neededOf descriptor .packages =
    descriptor.packages.toList.map fun name => .utf8 (Name.internal name) := by
  rw [neededOf, ofDescriptor?]
  by_cases none : descriptor.packages.isEmpty
  · rw [if_pos none, OrderedSet.isEmpty_iff.mp none]
    rfl
  · rw [if_neg none]
    simp [layout, List.map_eq_flatMap, List.flatMap_assoc, Item.symbols, Field.symbols]

theorem neededOf_version : neededOf descriptor .version =
    descriptor.version.toList.map fun shared => .utf8 shared.version.source := by
  rw [neededOf, ofDescriptor?]
  cases descriptor.version <;> rfl

theorem neededOf_mainClass : neededOf descriptor .mainClass =
    descriptor.mainClass.toList.flatMap Symbol.ofClass := by
  rw [neededOf, ofDescriptor?]
  cases descriptor.mainClass <;> rfl

theorem symbols_optionalUtf8 (field : Option String) :
    Field.optionalUtf8.symbols field = (Platform.specified field).toList.map .utf8 := by
  cases field with
  | none => rfl
  | some text =>
      by_cases empty : text.isEmpty
      · simp [Field.symbols, Platform.specified, Option.filter, empty]
      · simp [Field.symbols, Platform.specified, Option.filter, empty]

theorem neededOf_targetPlatform : neededOf descriptor .targetPlatform =
    ([descriptor.platform.osName, descriptor.platform.osArch,
      descriptor.platform.osVersion].filterMap Platform.specified).map .utf8 := by
  have fields (a b c : Option String) : ([a, b, c].filterMap Platform.specified).map Symbol.utf8 =
      Field.optionalUtf8.symbols a ++ Field.optionalUtf8.symbols b ++
        Field.optionalUtf8.symbols c := by
    rw [symbols_optionalUtf8, symbols_optionalUtf8, symbols_optionalUtf8]
    simp only [List.filterMap_cons, List.filterMap_nil]
    cases Platform.specified a <;> cases Platform.specified b <;> cases Platform.specified c <;> rfl
  rw [neededOf, ofDescriptor?, fields]
  by_cases none : descriptor.platform.isEmpty
  · have any : descriptor.platform.normalize = .any := eq_of_beq none
    have osName := congrArg Platform.osName any
    have osArch := congrArg Platform.osArch any
    have osVersion := congrArg Platform.osVersion any
    simp only [Platform.normalize, Platform.any] at osName osArch osVersion
    rw [if_pos none, symbols_optionalUtf8, symbols_optionalUtf8, symbols_optionalUtf8, osName,
      osArch, osVersion]
    rfl
  · rw [if_neg none]
    simp [layout, Item.symbols]

theorem neededOf_hashes : neededOf descriptor .hashes =
    descriptor.hashes.toList.flatMap fun hashes =>
      .utf8 hashes.algorithm ::
        hashes.entries.toList.flatMap fun (name, hash) => [.utf8 name, .utf8 hash] := by
  rw [neededOf, ofDescriptor?]
  cases descriptor.hashes with
  | none => rfl
  | some table => simp [layout, List.flatMap_assoc, Item.symbols, Field.symbols]

end Attribute

namespace Descriptor

theorem flatMap_attributes {α : Type} (descriptor : Descriptor) (f : Attribute → List α) :
    descriptor.attributes.flatMap f = AttributeKind.all.flatMap fun kind =>
      ((Attribute.ofDescriptor? descriptor kind).map f).getD [] := by
  rw [attributes]
  induction AttributeKind.all with
  | nil => rfl
  | cons kind kinds ih =>
      rw [List.filterMap_cons, List.flatMap_cons, ← ih]
      cases Attribute.ofDescriptor? descriptor kind <;> rfl

/-- The records of the descriptor ask for what the descriptor needs. -/
theorem symbols_attributes (descriptor : Descriptor) :
    AddSame (descriptor.attributes.flatMap fun attr => attr.layout.flatMap Item.symbols)
      descriptor.needed := by
  have module : Attribute.neededOf descriptor .module =
      (ModuleTables.ofDescriptor descriptor).layout.flatMap Item.symbols := rfl
  have kinds : (descriptor.attributes.flatMap fun attr => attr.layout.flatMap Item.symbols) =
      AttributeKind.all.flatMap (Attribute.neededOf descriptor) := descriptor.flatMap_attributes _
  have services : AddSame
      (descriptor.provides.values.flatMap fun entry =>
        Symbol.ofClass entry.service ++ entry.toList.flatMap fun provider =>
          Symbol.ofClass entry.service ++ Symbol.ofClass provider)
      (descriptor.provides.values.flatMap fun entry =>
        Symbol.ofClass entry.service ++ entry.toList.flatMap Symbol.ofClass) :=
    .flatMap (fun entry => addSame_flatMap_append _ _ _) _
  have same (symbols : List Symbol) : AddSame symbols symbols := fun _ => rfl
  rw [kinds, AttributeKind.all]
  simp only [List.flatMap_cons, List.flatMap_nil, List.append_nil, module,
    ModuleTables.symbols_layout, ModuleTables.ofDescriptor, Attribute.neededOf_packages,
    Attribute.neededOf_version, Attribute.neededOf_mainClass, Attribute.neededOf_targetPlatform,
    Attribute.neededOf_hashes, needed, List.append_assoc]
  exact (same _).append ((same _).append ((same _).append ((same _).append
    (services.append (same _)))))

/-! ### The counts of the layouts -/

variable {descriptor : Descriptor}

theorem targets_le_of_fits {tables : ModuleTables} {accesses : List PackageAccess}
    (fits : ∀ table rows, .count table rows ∈ tables.layout → rows ≤ countLimit)
    (inside : ∀ access ∈ accesses, ∀ item ∈ ModuleTables.accessRow access, item ∈ tables.layout) :
    ∀ access ∈ accesses, access.targets.size ≤ countLimit := by
  intro access member
  by_cases qualified : access.isQualified
  · refine fits "targets" _ (inside access member _ ?_)
    rw [ModuleTables.accessRow, if_pos qualified]
    simp
  · rw [OrderedSet.size, PackageAccess.toList_targets_eq_nil qualified]
    exact Nat.zero_le _

theorem Fits.countable (fits : descriptor.Fits) : descriptor.Countable := by
  have module : ∀ table rows,
      .count table rows ∈ (ModuleTables.ofDescriptor descriptor).layout → rows ≤ countLimit :=
    fits .module _ rfl
  exact {
    requires := module "requires" _ (by simp [ModuleTables.layout, ModuleTables.ofDescriptor])
    exports := module "exports" _ (by simp [ModuleTables.layout, ModuleTables.ofDescriptor])
    exportTargets := targets_le_of_fits module fun access member item row => by
      simp only [ModuleTables.layout, List.mem_append, List.mem_cons, List.mem_flatMap]
      exact .inl (.inl (.inl (.inr (.inr ⟨access, member, row⟩))))
    opens := module "opens" _ (by simp [ModuleTables.layout, ModuleTables.ofDescriptor])
    openTargets := targets_le_of_fits module fun access member item row => by
      simp only [ModuleTables.layout, List.mem_append, List.mem_cons, List.mem_flatMap]
      exact .inl (.inl (.inr (.inr ⟨access, member, row⟩)))
    uses := module "uses" _ (by simp [ModuleTables.layout, ModuleTables.ofDescriptor])
    provides := module "provides" _ (by
      simp [ModuleTables.layout, ModuleTables.ofDescriptor, ModuleTables.pairCount])
    packages := by
      by_cases none : descriptor.packages.isEmpty
      · rw [OrderedSet.size, OrderedSet.isEmpty_iff.mp none]
        exact Nat.zero_le _
      · exact fits .packages _ (if_neg none) "packages" _ List.mem_cons_self
    hashes := by
      intro hashes given
      have needed : Attribute.ofDescriptor? descriptor .hashes = some (.hashes hashes) := by
        rw [Attribute.ofDescriptor?, given]
        rfl
      exact fits .hashes _ needed "module hashes" _
        (List.mem_cons_of_mem _ List.mem_cons_self) }

theorem Countable.fits_module (countable : descriptor.Countable) :
    (ModuleTables.ofDescriptor descriptor).Fits where
  requires := countable.requires
  exports := countable.exports
  exportTargets := countable.exportTargets
  opens := countable.opens
  openTargets := countable.openTargets
  uses := countable.uses
  provides := countable.provides

theorem Countable.fits (countable : descriptor.Countable) : descriptor.Fits := by
  intro kind attr needed table rows member
  cases kind with
  | module =>
      cases needed
      exact countable.fits_module.count_mem_layout member
  | packages =>
      obtain ⟨-, same⟩ := Option.ite_none_left_eq_some.mp needed
      cases same
      obtain ⟨-, counted⟩ : table = "packages" ∧ rows = descriptor.packages.size := by
        simpa [Attribute.layout] using member
      rw [counted]
      exact countable.packages
  | hashes =>
      obtain ⟨hashes, held, same⟩ := Option.map_eq_some_iff.mp needed
      cases same
      obtain ⟨-, counted⟩ : table = "module hashes" ∧ rows = hashes.entries.size := by
        simpa [Attribute.layout] using member
      rw [counted]
      exact countable.hashes hashes held
  | version =>
      obtain ⟨shared, -, same⟩ := Option.map_eq_some_iff.mp needed
      cases same
      simp [Attribute.layout] at member
  | mainClass =>
      obtain ⟨name, -, same⟩ := Option.map_eq_some_iff.mp needed
      cases same
      simp [Attribute.layout] at member
  | targetPlatform =>
      obtain ⟨-, same⟩ := Option.ite_none_left_eq_some.mp needed
      cases same
      simp [Attribute.layout] at member

/-- The counts that the records write are those of the tables. -/
theorem fits_iff_countable : descriptor.Fits ↔ descriptor.Countable :=
  ⟨Fits.countable, Countable.fits⟩

theorem mem_counts_attributes {table : String} {rows : Nat} :
    (table, rows) ∈ (descriptor.attributes.flatMap fun attr => attr.layout.flatMap Item.counts) ↔
      ∃ kind attr, Attribute.ofDescriptor? descriptor kind = some attr ∧
        .count table rows ∈ attr.layout := by
  simp only [List.mem_flatMap, attributes, List.mem_filterMap]
  constructor
  · rintro ⟨attr, ⟨kind, -, needed⟩, counted⟩
    exact ⟨kind, attr, needed, Item.mem_counts.mp (List.mem_flatMap.mpr counted)⟩
  · rintro ⟨kind, attr, needed, member⟩
    exact ⟨attr, ⟨kind, AttributeKind.mem_all kind, needed⟩,
      List.mem_flatMap.mp (Item.mem_counts.mpr member)⟩

/-! ### Small descriptors -/

theorem size_le_of_accesses (accesses : OrderedSet PackageAccess)
    (small : (accesses.toList.flatMap PackageAccess.needed).length ≤ countLimit) :
    accesses.size ≤ countLimit ∧ ∀ access ∈ accesses.toList, access.targets.size ≤ countLimit := by
  constructor
  · have rows : accesses.size ≤ (accesses.toList.flatMap PackageAccess.needed).length :=
      length_le_flatMap fun _ _ => Nat.succ_pos _
    exact Nat.le_trans rows small
  · intro access member
    have part := ((List.singleton_sublist.mpr member).flatMap PackageAccess.needed).length_le
    rw [List.flatMap_singleton, PackageAccess.needed, List.length_cons, List.length_map] at part
    exact Nat.le_trans (Nat.le_of_succ_le part) small

/-- Every row of a table needs a symbol, so there are no more rows than symbols. -/
theorem countable_of_length_needed (small : descriptor.needed.length ≤ countLimit) :
    descriptor.Countable := by
  simp only [needed, List.length_append, List.length_map] at small
  have exports := size_le_of_accesses descriptor.exports (by omega)
  have opens := size_le_of_accesses descriptor.opens (by omega)
  have uses : descriptor.uses.toList.length ≤
      (descriptor.uses.toList.flatMap Symbol.ofClass).length :=
    length_le_flatMap fun _ _ => Nat.succ_pos 1
  have pairs : (descriptor.provides.values.flatMap Provides.toList).length ≤
      (descriptor.provides.values.flatMap fun entry =>
        Symbol.ofClass entry.service ++ entry.toList.flatMap Symbol.ofClass).length := by
    refine length_flatMap_le fun entry _ => ?_
    rw [List.length_append]
    exact Nat.le_add_left_of_le (length_le_flatMap fun _ _ => Nat.succ_pos 1)
  exact {
    requires := by
      rw [OrderedSet.size]
      omega
    exports := exports.1
    exportTargets := exports.2
    opens := opens.1
    openTargets := opens.2
    uses := Nat.le_trans uses (by omega)
    provides := Nat.le_trans pairs (by omega)
    packages := by
      rw [OrderedSet.size]
      omega
    hashes := by
      intro hashes given
      have entries : hashes.entries.toList.length ≤ (hashes.entries.toList.flatMap fun entry =>
          [Symbol.utf8 entry.1, .utf8 entry.2]).length :=
        length_le_flatMap fun _ _ => Nat.succ_pos 1
      rw [given, Option.toList_some, List.flatMap_singleton, List.length_cons] at small
      exact Nat.le_trans entries (by omega) }

end Descriptor

end DescriptorCodec
