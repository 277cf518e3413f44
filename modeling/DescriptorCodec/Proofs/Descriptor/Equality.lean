import DescriptorCodec.Proofs.Collection.Equality
import DescriptorCodec.Proofs.Descriptor.Calls
import DescriptorCodec.Proofs.RecordSet.Canonical
import DescriptorCodec.Proofs.Version.Equality

/-!
# What descriptors are compared by

`Descriptor.content` leaves out of a descriptor all that `==` does not look at: the order of its
tables, except among the providers of a service, how its version was written and the ticket of
that version. Descriptors are equal exactly if their contents are, so `==` is an equivalence.

Descriptors are compared field by field, and tables by counting and looking one way, which is
`Descriptor.matched`. What is given to a builder in another order makes the same content.
-/

namespace DescriptorCodec

open Collection

namespace Version

/-- What a version is compared by: its tokens without the zeros at the ends of its lists, and
whether it has a pre-release. -/
def value (version : Version) : (List Token × List Token × List Token) × Bool :=
  (version.fingerprint, version.isPreRelease)

theorem beq_iff_value {a b : Version} (properA : a.Proper) (properB : b.Proper) :
    (a == b) = true ↔ a.value = b.value := by
  have phase : (a.pre = [] ↔ b.pre = []) ↔ a.isPreRelease = b.isPreRelease := by
    rw [isPreRelease, isPreRelease, Bool.not_inj_iff, Bool.eq_iff_iff, List.isEmpty_iff,
      List.isEmpty_iff]
  rw [beq_iff properA properB, alike_iff, phase]
  exact Iff.intro (fun same => Prod.ext same.1 same.2) fun same =>
    ⟨congrArg Prod.fst same, congrArg Prod.snd same⟩

end Version

namespace PackageAccess

/-- What an access is compared by, with its target modules as a set. -/
def content (access : PackageAccess) : String × UInt16 × Finset String :=
  (access.source, access.modifiers, access.targets.image id)

theorem beq_iff_content (a b : PackageAccess) : (a == b) = true ↔ a.content = b.content := by
  rw [beq_iff, OrderedSet.beq_iff_image_id, content, content, Prod.mk.injEq, Prod.mk.injEq]

/-- Compares the target modules by counting. -/
def matched (a b : PackageAccess) : Bool :=
  a.source == b.source && a.modifiers == b.modifiers &&
    Collection.matched (· == ·) a.targets.toList b.targets.toList

theorem matched_eq_beq (a b : PackageAccess) : a.matched b = (a == b) := by
  rw [matched, OrderedSet.matched_beq_eq_beq]
  rfl

/-- The same access, with its target modules given in another order. -/
structure Reorders (a b : PackageAccess) : Prop where
  source : a.source = b.source
  modifiers : a.modifiers = b.modifiers
  targets : ∃ names names' : List String, names.Perm names' ∧ a.targets = .ofList names ∧
    b.targets = .ofList names'

/-- The same rows in another order, each with its target modules in another order. -/
def RowsReorder (rows rows' : List PackageAccess) : Prop :=
  ∃ between, List.Forall₂ Reorders rows between ∧ between.Perm rows'

end PackageAccess

namespace Descriptor

/-- What a descriptor is compared by. -/
@[ext]
structure Content where
  name : String
  isOpen : Bool
  isAutomatic : Bool
  isSynthetic : Bool
  requires : Finset Requires
  exports : Finset (String × UInt16 × Finset String)
  opens : Finset (String × UInt16 × Finset String)
  packages : Finset String
  uses : Finset String
  /-- The providers of each service, in order. -/
  provides : String → Option (List String)
  version : Option ((List Token × List Token × List Token) × Bool)
  mainClass : Option String
  platform : Platform
  /-- The algorithm of the hashes, if there are hashes. -/
  algorithm : Option String
  /-- The hash of each module. -/
  hashes : String → Option String

def content (descriptor : Descriptor) : Content where
  name := descriptor.name
  isOpen := descriptor.isOpen
  isAutomatic := descriptor.isAutomatic
  isSynthetic := descriptor.isSynthetic
  requires := descriptor.requires.image id
  exports := descriptor.exports.image PackageAccess.content
  opens := descriptor.opens.image PackageAccess.content
  packages := descriptor.packages.image id
  uses := descriptor.uses.image id
  provides service := (descriptor.provides.get? service).map Provides.toList
  version := descriptor.version.map fun shared => shared.version.value
  mainClass := descriptor.mainClass
  platform := descriptor.platform
  algorithm := descriptor.hashes.map ModuleHashes.algorithm
  hashes := descriptor.hashFor?

variable {a b c : Descriptor}

/-! ### Field by field -/

/-- What is found for a service has its name, so that only the implementations can differ. -/
theorem provides_beq_iff (keyed : a.provides.KeyedBy Provides.service)
    (keyed' : b.provides.KeyedBy Provides.service) :
    (a.provides == b.provides) = true ↔ a.content.provides = b.content.provides := by
  rw [OrderedMap.beq_iff_get?, funext_iff]
  refine forall_congr' fun service => ⟨congrArg (Option.map Provides.toList), fun same => ?_⟩
  simp only [content] at same
  cases given : a.provides.get? service with
  | none =>
      rw [given] at same
      exact (Option.map_eq_none_iff.mp same.symm).symm
  | some entry =>
      rw [given, Option.map_some] at same
      obtain ⟨entry', given', listed⟩ := Option.map_eq_some_iff.mp same.symm
      have named : service = entry.service := keyed _ (OrderedMap.get?_eq_some_iff.mp given)
      have named' : service = entry'.service := keyed' _ (OrderedMap.get?_eq_some_iff.mp given')
      rw [given', Provides.ext_toList (named.symm.trans named') listed.symm]

theorem hashes_beq_iff :
    (a.hashes == b.hashes) = true ↔
      a.content.algorithm = b.content.algorithm ∧ a.content.hashes = b.content.hashes := by
  simp only [content, hashFor?, funext_iff]
  cases a.hashes with
  | none => cases b.hashes <;> simp
  | some table =>
      cases b.hashes with
      | none => simp
      | some table' =>
          have fields : (table == table') =
              (table.algorithm == table'.algorithm && table.entries == table'.entries) := rfl
          simp only [Option.some_beq_some, fields, Bool.and_eq_true, beq_iff_eq,
            OrderedMap.beq_iff_get?, Option.map_some, Option.some.injEq, Option.bind_some]
          exact Iff.rfl

theorem version_beq_iff (wellFormed : a.WellFormed) (wellFormed' : b.WellFormed) :
    (a.version == b.version) = true ↔ a.content.version = b.content.version := by
  simp only [content]
  cases given : a.version with
  | none => cases b.version <;> simp
  | some shared =>
      cases given' : b.version with
      | none => simp
      | some shared' =>
          have proper := Version.proper_of_parse (wellFormed.version shared given)
          have proper' := Version.proper_of_parse (wellFormed'.version shared' given')
          rw [Option.some_beq_some, Option.map_some, Option.map_some, Option.some.injEq,
            ← Version.beq_iff_value proper proper']
          exact Iff.rfl

theorem accesses_beq_iff {as bs : OrderedSet PackageAccess} :
    (as == bs) = true ↔ as.image PackageAccess.content = bs.image PackageAccess.content :=
  OrderedSet.beq_iff_image PackageAccess.beq_iff_content

/-- Descriptors are equal exactly if their contents are. -/
theorem beq_iff_content (wellFormed : a.WellFormed) (wellFormed' : b.WellFormed) :
    (a == b) = true ↔ a.content = b.content := by
  change (a.name == b.name && a.isOpen == b.isOpen && a.isAutomatic == b.isAutomatic &&
    a.isSynthetic == b.isSynthetic && a.requires == b.requires && a.exports == b.exports &&
    a.opens == b.opens && a.packages == b.packages && a.uses == b.uses &&
    a.provides == b.provides && a.version == b.version && a.mainClass == b.mainClass &&
    a.platform == b.platform && a.hashes == b.hashes) = true ↔ _
  simp only [Bool.and_eq_true, and_assoc, OrderedSet.beq_iff_image_id, accesses_beq_iff,
    provides_beq_iff wellFormed.keyed wellFormed'.keyed, version_beq_iff wellFormed wellFormed',
    hashes_beq_iff, beq_iff_eq, Content.ext_iff]
  exact Iff.rfl

/-! ### Counting -/

/-- Compares the tables of hashes by counting. -/
def matchedHashes : Option ModuleHashes → Option ModuleHashes → Bool
  | none, none => true
  | some table, some table' =>
    table.algorithm == table'.algorithm && table.entries.matched table'.entries
  | _, _ => false

/-- Compares the descriptors field by field, each table by its length and one way only. -/
def matched (a b : Descriptor) : Bool :=
  a.name == b.name && a.isOpen == b.isOpen && a.isAutomatic == b.isAutomatic &&
  a.isSynthetic == b.isSynthetic &&
  Collection.matched (· == ·) a.requires.toList b.requires.toList &&
  Collection.matched PackageAccess.matched a.exports.toList b.exports.toList &&
  Collection.matched PackageAccess.matched a.opens.toList b.opens.toList &&
  Collection.matched (· == ·) a.packages.toList b.packages.toList &&
  Collection.matched (· == ·) a.uses.toList b.uses.toList &&
  a.provides.matched b.provides && a.version == b.version && a.mainClass == b.mainClass &&
  a.platform == b.platform && matchedHashes a.hashes b.hashes

theorem matchedHashes_eq_beq (tables tables' : Option ModuleHashes) :
    matchedHashes tables tables' = (tables == tables') := by
  cases tables with
  | none => cases tables' <;> rfl
  | some table =>
      cases tables' with
      | none => rfl
      | some table' =>
          rw [matchedHashes, OrderedMap.matched_eq_beq]
          rfl

/-- Counting and looking one way is enough, since no table has repeats. -/
theorem matched_eq_beq (a b : Descriptor) : a.matched b = (a == b) := by
  have accesses (as bs : OrderedSet PackageAccess) :
      Collection.matched PackageAccess.matched as.toList bs.toList = (as == bs) :=
    OrderedSet.matched_eq_beq PackageAccess.beq_iff_content PackageAccess.matched_eq_beq as bs
  rw [matched, accesses, accesses, OrderedSet.matched_beq_eq_beq, OrderedSet.matched_beq_eq_beq,
    OrderedSet.matched_beq_eq_beq, OrderedMap.matched_eq_beq, matchedHashes_eq_beq]
  rfl

end Descriptor

namespace Builder

/-! ### Input in another order -/

/-- What calls give for a setting is given in another order, as far as the setting does not depend
on it: the rows of a table in any order, with their target modules in any order, and the entries of
a mapping in any order as long as those of one key keep theirs. -/
def Setting.Reorders : (setting : Setting) → List setting.Value → List setting.Value → Prop
  | .requires, before, after => List.Forall₂ List.Perm before after
  | .exports, before, after => List.Forall₂ PackageAccess.RowsReorder before after
  | .opens, before, after => List.Forall₂ PackageAccess.RowsReorder before after
  | .packages, before, after => List.Forall₂ List.Perm before after
  | .uses, before, after => List.Forall₂ List.Perm before after
  | .provides, before, after => List.Forall₂ (Shuffled Provides.service) before after
  | .hashes, before, after => Shuffled Prod.fst before after
  | _, before, after => before = after

/-- What is set last is reordered, or nothing is set either time. -/
theorem getLastD_of_forall₂ {α : Type} {related : α → α → Prop} {before after : List α}
    (all : List.Forall₂ related before after) {initial initial' : α}
    (base : related initial initial') :
    related (before.getLastD initial) (after.getLastD initial') := by
  induction all generalizing initial initial' with
  | nil => exact base
  | cons first _ ih =>
      rw [List.getLastD_cons, List.getLastD_cons]
      exact ih first

theorem image_of_perm {α : Type} [DecidableEq α] [Hashable α] {rows rows' : List α}
    (perm : rows.Perm rows') :
    (OrderedSet.ofList rows).image id = (OrderedSet.ofList rows').image id := by
  have agree (x y : α) : (x == y) = true ↔ id x = id y := beq_iff_eq
  rw [OrderedSet.image_ofList agree, OrderedSet.image_ofList agree]
  exact List.toFinset_eq_of_perm _ _ (perm.map id)

theorem content_of_reorders {access access' : PackageAccess} (reorders : access.Reorders access') :
    access.content = access'.content := by
  obtain ⟨names, names', perm, targets, targets'⟩ := reorders.targets
  rw [PackageAccess.content, PackageAccess.content, reorders.source, reorders.modifiers, targets,
    targets', image_of_perm perm]

theorem image_of_rowsReorder {rows rows' : List PackageAccess}
    (reorders : PackageAccess.RowsReorder rows rows') :
    (OrderedSet.ofList rows).image PackageAccess.content =
      (OrderedSet.ofList rows').image PackageAccess.content := by
  obtain ⟨between, each, perm⟩ := reorders
  have same : rows.map PackageAccess.content = between.map PackageAccess.content := by
    rw [← List.forall₂_eq_eq_eq, List.forall₂_map_left_iff, List.forall₂_map_right_iff]
    exact each.imp fun _ _ => content_of_reorders
  rw [OrderedSet.image_ofList PackageAccess.beq_iff_content,
    OrderedSet.image_ofList PackageAccess.beq_iff_content, same]
  exact List.toFinset_eq_of_perm _ _ (perm.map _)

/-- What the provided services are given by. -/
theorem provides_get?_ofCalls (name : String) (calls : List Call) (service : String) :
    (ofCalls name calls).descriptor.provides.get? service =
      lastValue? service (((given calls .provides).getLastD []).map fun entry =>
        (entry.service, entry)) :=
  OrderedMap.get?_ofList _ service

theorem shuffled_entries {rows rows' : List Provides}
    (shuffled : Shuffled Provides.service rows rows') :
    Shuffled Prod.fst (rows.map fun entry => (entry.service, entry))
      (rows'.map fun entry => (entry.service, entry)) := by
  intro service
  rw [List.filter_map, List.filter_map]
  exact congrArg _ (shuffled service)

variable {name : String} {calls calls' : List Call}

theorem hashes_ofCalls (name : String) (calls : List Call) :
    (ofCalls name calls).descriptor.hashes =
      (given calls .algorithm).getLast?.map fun algorithm =>
        .ofList algorithm (given calls .hashes) := by
  have collected : ((ofCalls name calls).hashes.getD #[]).toList = given calls .hashes := by
    unfold ofCalls
    cases given calls .hashes <;> rfl
  rw [descriptor, finalHashes, collected]
  rfl

/-- The hashes are looked up among those that were given, if an algorithm was named. -/
theorem hashFor?_ofCalls (name : String) (calls : List Call) (key : String) :
    (ofCalls name calls).descriptor.hashFor? key =
      (given calls .algorithm).getLast?.bind fun _ => lastValue? key (given calls .hashes) := by
  rw [Descriptor.hashFor?, hashes_ofCalls]
  cases (given calls .algorithm).getLast? with
  | none => rfl
  | some algorithm => exact OrderedMap.get?_ofList (given calls .hashes) key

/-- Input that is given in another order makes the same content. -/
theorem content_ofCalls_of_reorders
    (reorders : ∀ setting : Setting,
      setting.Reorders (given calls setting) (given calls' setting)) :
    (ofCalls name calls).descriptor.content = (ofCalls name calls').descriptor.content := by
  ext1
  case name => rfl
  case isOpen => exact congrArg (List.getLastD · false) (reorders .isOpen)
  case isAutomatic => exact congrArg (List.getLastD · false) (reorders .isAutomatic)
  case isSynthetic => exact congrArg (List.getLastD · false) (reorders .isSynthetic)
  case requires => exact image_of_perm (getLastD_of_forall₂ (reorders .requires) (.refl []))
  case exports =>
    exact image_of_rowsReorder (getLastD_of_forall₂ (reorders .exports) ⟨[], .nil, .refl []⟩)
  case opens =>
    exact image_of_rowsReorder (getLastD_of_forall₂ (reorders .opens) ⟨[], .nil, .refl []⟩)
  case packages => exact image_of_perm (getLastD_of_forall₂ (reorders .packages) (.refl []))
  case uses => exact image_of_perm (getLastD_of_forall₂ (reorders .uses) (.refl []))
  case provides =>
    have shuffled := shuffled_entries <|
      getLastD_of_forall₂ (reorders .provides) (Shuffled.refl Provides.service [])
    funext service
    simp only [Descriptor.content, provides_get?_ofCalls, shuffled.lastValue?_eq service]
  case version =>
    have same : given calls .version = given calls' .version := reorders .version
    simp only [Descriptor.content, descriptor, ofCalls, same]
  case mainClass => exact congrArg List.head? (reorders .mainClass)
  case platform =>
    have osName : given calls .osName = given calls' .osName := reorders .osName
    have osArch : given calls .osArch = given calls' .osArch := reorders .osArch
    have osVersion : given calls .osVersion = given calls' .osVersion := reorders .osVersion
    simp only [Descriptor.content, descriptor, ofCalls, osName, osArch, osVersion]
  case algorithm =>
    have algorithm : given calls .algorithm = given calls' .algorithm := reorders .algorithm
    simp only [Descriptor.content, hashes_ofCalls, algorithm, Option.map_map]
    rfl
  case hashes =>
    have algorithm : given calls .algorithm = given calls' .algorithm := reorders .algorithm
    funext key
    simp only [Descriptor.content, hashFor?_ofCalls, algorithm,
      Shuffled.lastValue?_eq (reorders .hashes) key]

theorem WellFormed.after {builder : Builder} (wellFormed : builder.WellFormed) {turns : List Turn}
    (proper : ∀ turn ∈ turns, turn.call.Proper) : (builder.after turns).WellFormed := by
  induction turns using List.reverseRecOn with
  | nil => exact wellFormed
  | append_singleton turns turn ih =>
      rw [List.forall_mem_append, List.forall_mem_singleton] at proper
      have before := ih proper.1
      rw [after_append_singleton, Turn.next]
      cases done : turn.result (builder.after turns) with
      | ok made => exact (before.call turn.call proper.2).of_ok turn.sound done
      | error e => exact before

end Builder

namespace Descriptor

variable {a b c : Descriptor}

/-- What builders build, whatever they were called with, and what records are decoded to. A version
that is handed to a builder has been parsed. -/
inductive Producible : Descriptor → Prop
  | built (name : String) (cache : Option CacheId) {turns : List Builder.Turn}
      (proper : ∀ turn ∈ turns, turn.call.Proper) (log : Array Event) :
      Producible (((Builder.new name cache).after turns).build.run log).1
  | decoded {set : RecordSet} {name : String} {pool : Pool} {cache : Option CacheId}
      {store : VersionStore} (parsed : store.Reachable) {log : Array Event}
      {descriptor : Descriptor}
      (done : (set.decode name pool cache).result store log = .ok descriptor) :
      Producible descriptor

theorem Producible.wellFormed (h : a.Producible) : a.WellFormed := by
  cases h with
  | built name cache proper log =>
      rw [Builder.value_build]
      exact ((Builder.wellFormed_new name cache).after proper).descriptor
  | decoded parsed done =>
      have canonical := (RecordSet.decode_canonical_spec _ _ _ _).of_ok parsed.sound done
      exact canonical.2.1.toWellFormed

theorem content_untagged (descriptor : Descriptor) :
    descriptor.untagged.content = descriptor.content := by
  simp only [content, untagged, Option.map_map]
  rfl

/-- What is built has the content that the calls say. -/
theorem content_build (name : String) (cache : Option CacheId) (turns : List Builder.Turn)
    (log : Array Event) :
    (((Builder.new name cache).after turns).build.run log).1.content =
      (Builder.ofCalls name (turns.map Builder.Turn.call)).descriptor.content := by
  rw [Builder.value_build, ← content_untagged, ← Builder.untagged_descriptor,
    Builder.untagged_after]

/-- On what is built and what is decoded, `==` is an equivalence, and it is computed by counting.
It compares contents, which are unequal if a service has its providers in another order and equal
if builders are given their input in another order. -/
theorem beq_producible {a b c : Descriptor} (ha : a.Producible) (hb : b.Producible)
    (hc : c.Producible) :
    (a == a) = true ∧ (b == a) = (a == b) ∧
      ((a == b) = true → (b == c) = true → (a == c) = true) ∧
      (a == b) = a.matched b ∧
      ((a == b) = true ↔ a.content = b.content) ∧
      (∀ service providers providers', a.provides.get? service = some providers →
        b.provides.get? service = some providers' → providers.toList ≠ providers'.toList →
        (a == b) = false) ∧
      ∀ name cache cache' turns turns', (∀ turn ∈ turns ++ turns', turn.call.Proper) →
        (∀ setting : Builder.Setting, setting.Reorders
          (Builder.given (turns.map Builder.Turn.call) setting)
          (Builder.given (turns'.map Builder.Turn.call) setting)) →
        ∀ log log',
          ((((Builder.new name cache).after turns).build.run log).1 ==
            (((Builder.new name cache').after turns').build.run log').1) = true := by
  have same {a b : Descriptor} (ha : a.Producible) (hb : b.Producible) :
      (a == b) = true ↔ a.content = b.content :=
    beq_iff_content ha.wellFormed hb.wellFormed
  constructor
  · exact (same ha ha).mpr rfl
  constructor
  · rw [Bool.eq_iff_iff, same hb ha, same ha hb]
    exact eq_comm
  constructor
  · intro first second
    exact (same ha hc).mpr (((same ha hb).mp first).trans ((same hb hc).mp second))
  constructor
  · exact (matched_eq_beq a b).symm
  constructor
  · exact same ha hb
  constructor
  · -- Providers are part of the content as a list, unlike everything else in a table.
    intro service providers providers' given given' differ
    by_contra equal
    rw [Bool.not_eq_false, same ha hb] at equal
    have listed := congrFun (congrArg Content.provides equal) service
    simp only [content, given, given', Option.map_some, Option.some.injEq] at listed
    exact differ listed
  · intro name cache cache' turns turns' proper reorders log log'
    rw [List.forall_mem_append] at proper
    rw [same (.built name cache proper.1 log) (.built name cache' proper.2 log'), content_build,
      content_build]
    exact Builder.content_ofCalls_of_reorders reorders

theorem provides_get?_build (name : String) (cache : Option CacheId) (turns : List Builder.Turn)
    (log : Array Event) (service : String) :
    (((Builder.new name cache).after turns).build.run log).1.provides.get? service =
      lastValue? service (((Builder.given (turns.map Builder.Turn.call) .provides).getLastD []).map
        fun entry => (entry.service, entry)) := by
  rw [Builder.value_build, ← Builder.provides_get?_ofCalls name,
    ← Builder.untagged_after name cache]
  rfl

/-- Every table in another order, and then the providers of a service as well. -/
theorem beq_producible_reordered :
    let turnOf (call : Builder.Call) : Builder.Turn :=
      ⟨call, .empty, VersionStore.sound_empty, #[]⟩
    let calls (providers : List String) : List Builder.Call := [.requires [⟨"a", 0⟩, ⟨"b", 32⟩],
      .exports [⟨"p", 0, .ofList ["x", "y"]⟩, ⟨"q", 0, .ofList []⟩],
      .provides [⟨"s", .ofList providers⟩, ⟨"t", .ofList ["k"]⟩],
      .algorithm "SHA-256", .hash "m" "1", .hash "n" "2"]
    let calls' : List Builder.Call := [.hash "n" "2", .requires [⟨"b", 32⟩, ⟨"a", 0⟩],
      .exports [⟨"q", 0, .ofList []⟩, ⟨"p", 0, .ofList ["y", "x"]⟩], .algorithm "SHA-256",
      .provides [⟨"t", .ofList ["k"]⟩, ⟨"s", .ofList ["i", "j"]⟩], .hash "m" "1"]
    let built (calls : List Builder.Call) : Descriptor :=
      (((Builder.new "d").after (calls.map turnOf)).build.run #[]).1
    (built (calls ["i", "j"]) == built calls') = true ∧
      (built calls' == built (calls ["j", "i"])) = false := by
  intro turnOf calls calls' built
  have made (calls : List Builder.Call) : (calls.map turnOf).map Builder.Turn.call = calls := by
    rw [List.map_map]
    exact List.map_id' calls
  have proper {calls : List Builder.Call} (plain : ∀ call ∈ calls, call.Proper) :
      ∀ turn ∈ calls.map turnOf, turn.call.Proper := by
    intro turn member
    obtain ⟨call, listed, rfl⟩ := List.mem_map.mp member
    exact plain call listed
  have plain (providers : List String) : ∀ call ∈ calls providers, call.Proper := by
    simp [calls, Builder.Call.Proper]
  have plain' : ∀ call ∈ calls', call.Proper := by
    simp [calls', Builder.Call.Proper]
  have reordered (setting : Builder.Setting) : setting.Reorders
      (Builder.given (calls ["i", "j"]) setting) (Builder.given calls' setting) := by
    cases setting with
    | requires => exact .cons (.swap _ _ _) .nil
    | exports =>
        refine .cons ⟨[⟨"p", 0, .ofList ["y", "x"]⟩, ⟨"q", 0, .ofList []⟩], ?_, .swap _ _ _⟩ .nil
        exact .cons ⟨rfl, rfl, _, _, .swap _ _ _, rfl, rfl⟩
          (.cons ⟨rfl, rfl, _, _, .refl _, rfl, rfl⟩ .nil)
    | opens => exact .nil
    | packages => exact .nil
    | uses => exact .nil
    | provides => exact .cons (Shuffled.of_perm (.swap _ _ _) (by decide)) .nil
    | hashes => exact Shuffled.of_perm (.swap _ _ _) (by decide)
    | _ => rfl
  obtain ⟨-, -, -, -, -, differ, reorders⟩ := beq_producible
    (.built "d" (some .shared) (proper plain') #[])
    (.built "d" (some .shared) (proper (plain ["j", "i"])) #[])
    (.built "d" (some .shared) (proper plain') #[])
  constructor
  · refine reorders "d" (some .shared) (some .shared) _ _ ?_ (by rwa [made, made]) #[] #[]
    exact List.forall_mem_append.mpr ⟨proper (plain _), proper plain'⟩
  · refine differ "s" (.new "s" ["i", "j"]) (.new "s" ["j", "i"]) ?_ ?_ ?_
    · rw [provides_get?_build, made]
      rfl
    · rw [provides_get?_build, made]
      rfl
    · rw [Provides.toList_new, Provides.toList_new, firstOccurrences_eq_eraseDups,
        firstOccurrences_eq_eraseDups]
      decide

end Descriptor

end DescriptorCodec
