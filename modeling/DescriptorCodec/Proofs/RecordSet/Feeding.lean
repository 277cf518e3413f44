import DescriptorCodec.Proofs.Attribute.Footprint
import DescriptorCodec.Proofs.Attribute.Rows
import DescriptorCodec.Proofs.Collection.Equality
import DescriptorCodec.Proofs.RecordSet.Comparison

/-!
# Records in any order

A builder is fed with records one after another: each is decoded, and the builder is handed what
was decoded. What a record means does not depend on caches, up to tickets, so feeding merges the
meanings of the records into the builder, whatever it has. The records of a set are of different
kinds, and then the order in which they are fed does not matter. Decoding the set is feeding a new
builder in the order of the kinds.
-/

namespace DescriptorCodec

namespace Attribute

/-- The attribute that the record of a kind holds, without a ticket, if it can be decoded. -/
def meaning? (pool : Pool) (entry : AttributeKind × Bytes) : Option Attribute :=
  match (decode entry.1 entry.2 pool none).result .empty #[] with
  | .ok attr => some attr.untagged
  | .error _ => none

/-- The attribute is decoded from the record, through some cache. -/
def Decodes (pool : Pool) (entry : AttributeKind × Bytes) (attr : Attribute) : Prop :=
  ∃ cache store log, VersionStore.Reachable store ∧
    (decode entry.1 entry.2 pool cache).result store log = .ok attr

variable {pool : Pool} {entry : AttributeKind × Bytes} {attr : Attribute}

/-- Whatever the caches hold, a record is decoded to what it means. -/
theorem decode_meaning (pool : Pool) (entry : AttributeKind × Bytes) (cache : Option CacheId) :
    (decode entry.1 entry.2 pool cache).Spec
      (fun attr => attr.kind = entry.1 ∧ meaning? pool entry = some attr.untagged)
      fun _ => meaning? pool entry = none := by
  intro store sound log
  have agrees : pool.Agrees (fun _ => False) pool := .refl _ _
  have follows := decode_follows agrees entry.1 entry.2 cache none store .empty sound
    VersionStore.sound_empty log #[]
  rcases follows with ⟨_, -, impossible⟩ | ⟨sound', -, related⟩
  · cases impossible
  · refine ⟨sound', ?_⟩
    unfold meaning?
    generalize (decode entry.1 entry.2 pool cache).result store log = here at related ⊢
    generalize (decode entry.1 entry.2 pool none).result .empty #[] = there at related ⊢
    cases related with
    | ok same => exact ⟨same.1, congrArg some same.2.symm⟩
    | error e => rfl

theorem Decodes.meaning? (decodes : Decodes pool entry attr) :
    Attribute.meaning? pool entry = some attr.untagged := by
  obtain ⟨cache, store, log, parsed, decoded⟩ := decodes
  exact ((decode_meaning pool entry cache).of_ok parsed.sound decoded).2

theorem exists_decodes_of_meaning? (means : meaning? pool entry = some attr) :
    ∃ decoded, Decodes pool entry decoded ∧ attr = decoded.untagged ∧ attr.kind = entry.1 := by
  unfold meaning? at means
  split at means
  · next decoded result =>
    cases means
    have own := (decode_meaning pool entry none).of_ok VersionStore.sound_empty result
    refine ⟨decoded, ⟨none, .empty, #[], .empty, result⟩, rfl, ?_⟩
    rw [kind_untagged, own.1]
  · cases means

end Attribute

namespace RecordSet

open Attribute (meaning? Decodes)

variable {pool : Pool} {records : List (AttributeKind × Bytes)} {attrs : List Attribute}

/-- Decodes a record and hands it to a builder. -/
def feed (pool : Pool) (cache : Option CacheId) (builder : Builder)
    (entry : AttributeKind × Bytes) : CacheM Builder := do
  let attr ← Attribute.decode entry.1 entry.2 pool cache
  MonadExcept.ofExcept (attr.apply builder)

def feedAll (pool : Pool) (cache : Option CacheId) (builder : Builder)
    (records : List (AttributeKind × Bytes)) : CacheM Builder :=
  records.foldlM (feed pool cache) builder

/-- What the records mean, in order. -/
def meanings (pool : Pool) (records : List (AttributeKind × Bytes)) : List Attribute :=
  records.filterMap (meaning? pool)

/-- What comes of a builder that accepts the attributes and is fed with them. -/
structure Fed (builder : Builder) (attrs : List Attribute) (fed : Builder) : Prop where
  accepts : ∀ attr ∈ attrs, builder.Accepts attr
  untagged_eq : fed.untagged = attrs.foldl Builder.merge builder.untagged
  get_eq : ∀ part, (∀ attr ∈ attrs, part ∉ attr.covered) → fed.get part = builder.get part

/-- The builder has something already that one of the attributes would set. -/
def Refused (builder : Builder) (attrs : List Attribute) (error : Error) : Prop :=
  (∃ attr ∈ attrs, ¬ builder.Accepts attr) ∧ ∃ field, error = .alreadySet field

theorem meanings_cons {entry : AttributeKind × Bytes} {attr : Attribute}
    (means : meaning? pool entry = some attr) (records : List (AttributeKind × Bytes)) :
    meanings pool (entry :: records) = attr :: meanings pool records :=
  List.filterMap_cons_some means

/-- Records that can be decoded mean attributes of their kinds. -/
theorem map_kind_meanings (decodes : ∀ entry ∈ records, meaning? pool entry ≠ none) :
    (meanings pool records).map Attribute.kind = records.map Prod.fst := by
  induction records with
  | nil => rfl
  | cons entry records ih =>
      obtain ⟨attr, means⟩ := Option.ne_none_iff_exists'.mp (decodes entry List.mem_cons_self)
      obtain ⟨-, -, -, kind⟩ := Attribute.exists_decodes_of_meaning? means
      rw [meanings_cons means, List.map_cons, List.map_cons, kind]
      rw [ih fun other member => decodes other (List.mem_cons_of_mem _ member)]

theorem meanings_of_decodes (decodes : List.Forall₂ (Decodes pool) records attrs) :
    meanings pool records = attrs.map Attribute.untagged := by
  induction decodes with
  | nil => rfl
  | cons head _ ih => rw [meanings_cons head.meaning?, ih, List.map_cons]

theorem exists_decodes_of_mem (decodes : List.Forall₂ (Decodes pool) records attrs) :
    ∀ entry ∈ records, ∃ attr, Decodes pool entry attr := by
  induction decodes with
  | nil => exact fun _ member => absurd member List.not_mem_nil
  | cons head _ ih => exact List.forall_mem_cons.mpr ⟨⟨_, head⟩, ih⟩

/-- Feeding one record merges what it means into the builder, or is refused. -/
theorem feed_spec (cache : Option CacheId) (builder : Builder) {entry : AttributeKind × Bytes}
    {means : Attribute} (meant : meaning? pool entry = some means) :
    (feed pool cache builder entry).Spec
      (fun fed => ∃ attr, attr.untagged = means ∧ builder.Accepts attr ∧ fed = builder.merge attr)
      fun e => ¬ builder.Accepts means ∧ ∃ field, e = .alreadySet field := by
  have decoded : (Attribute.decode entry.1 entry.2 pool cache).Spec
      (fun attr => attr.untagged = means)
      fun e => ¬ builder.Accepts means ∧ ∃ field, e = .alreadySet field := by
    refine (Attribute.decode_meaning pool entry cache).mono ?_ ?_
    · rintro attr ⟨-, same⟩
      exact Option.some.inj (same.symm.trans meant)
    · intro e nothing
      rw [meant] at nothing
      cases nothing
  refine decoded.bind fun attr same => ?_
  by_cases accepts : builder.Accepts attr
  · rw [accepts.apply]
    exact CacheM.Spec.pure ⟨attr, same, accepts, rfl⟩
  · obtain ⟨field, refused⟩ := Builder.exists_apply_of_not_accepts accepts
    rw [refused]
    refine CacheM.Spec.throw ⟨?_, field, rfl⟩
    rwa [← same, Builder.accepts_untagged]

theorem Fed.cons {builder fed : Builder} {attr : Attribute} (accepts : builder.Accepts attr)
    (others : ∀ other ∈ attrs, attr.kind ≠ other.kind) (rest : Fed (builder.merge attr) attrs fed) :
    Fed builder (attr.untagged :: attrs) fed where
  accepts := by
    intro other member
    rcases List.mem_cons.mp member with rfl | member
    · exact Builder.accepts_untagged.mpr accepts
    · exact (Builder.accepts_merge (others other member)).mp (rest.accepts other member)
  untagged_eq := by
    rw [List.foldl_cons, ← Builder.untagged_merge]
    exact rest.untagged_eq
  get_eq := by
    intro part uncovered
    have own := uncovered _ List.mem_cons_self
    rw [Builder.covered_untagged] at own
    rw [rest.get_eq part fun other member => uncovered other (List.mem_cons_of_mem _ member)]
    exact Builder.get_merge own

theorem Refused.cons {builder : Builder} {attr : Attribute} {e : Error}
    (others : ∀ other ∈ attrs, attr.kind ≠ other.kind)
    (rest : Refused (builder.merge attr) attrs e) : Refused builder (attr.untagged :: attrs) e := by
  obtain ⟨⟨other, member, refused⟩, field⟩ := rest
  refine ⟨⟨other, List.mem_cons_of_mem _ member, ?_⟩, field⟩
  rwa [Builder.accepts_merge (others other member)] at refused

/-- Feeding records of different kinds merges all they mean into the builder, unless the builder
has something already. -/
theorem feedAll_spec (cache : Option CacheId) (builder : Builder)
    (distinct : (records.map Prod.fst).Nodup)
    (decodes : ∀ entry ∈ records, meaning? pool entry ≠ none) :
    (feedAll pool cache builder records).Spec (Fed builder (meanings pool records))
      (Refused builder (meanings pool records)) := by
  induction records generalizing builder with
  | nil => exact CacheM.Spec.pure ⟨nofun, rfl, fun _ _ => rfl⟩
  | cons entry records ih =>
      obtain ⟨fresh, distinct⟩ := List.nodup_cons.mp distinct
      obtain ⟨means, meant⟩ := Option.ne_none_iff_exists'.mp (decodes entry List.mem_cons_self)
      have decodes' : ∀ other ∈ records, meaning? pool other ≠ none :=
        fun other member => decodes other (List.mem_cons_of_mem _ member)
      -- The builder may have changed since, but not where the other kinds are concerned.
      have others {attr : Attribute} (same : attr.untagged = means) :
          ∀ other ∈ meanings pool records, attr.kind ≠ other.kind := by
        intro other member equal
        obtain ⟨-, -, -, own⟩ := Attribute.exists_decodes_of_meaning? meant
        rw [← same, Attribute.kind_untagged, equal] at own
        have kinds := List.mem_map_of_mem (f := Attribute.kind) member
        rw [map_kind_meanings decodes', own] at kinds
        exact fresh kinds
      rw [meanings_cons meant, feedAll, List.foldlM_cons]
      have refused {e : Error} (h : ¬ builder.Accepts means ∧ ∃ field, e = .alreadySet field) :
          Refused builder (means :: meanings pool records) e :=
        ⟨⟨means, List.mem_cons_self, h.1⟩, h.2⟩
      refine ((feed_spec cache builder meant).mono (fun _ fed => fed) fun _ h => refused h).bind ?_
      rintro _ ⟨attr, same, accepts, rfl⟩
      subst same
      exact (ih (builder.merge attr) distinct decodes').mono
        (fun fed rest => rest.cons accepts (others rfl)) fun e rest => rest.cons (others rfl)

/-! ### The records of a set -/

/-- The records of the kinds, in order. -/
def byKind (set : RecordSet) (kinds : List AttributeKind) : List (AttributeKind × Bytes) :=
  kinds.filterMap fun kind => (set.get? kind).map fun record => (kind, record)

variable {set : RecordSet}

theorem mem_byKind {kinds : List AttributeKind} {kind : AttributeKind} {record : Bytes} :
    (kind, record) ∈ set.byKind kinds ↔ kind ∈ kinds ∧ set.get? kind = some record := by
  simp [byKind]

theorem nodup_kinds (set : RecordSet) : set.kinds.Nodup :=
  set.records.distinct.imp fun other same => by simp [same] at other

theorem mem_toList_iff {kind : AttributeKind} {record : Bytes} :
    (kind, record) ∈ set.toList ↔ set.get? kind = some record :=
  OrderedMap.get?_eq_some_iff.symm

/-- A set has its records in some order of their kinds. -/
theorem byKind_perm (set : RecordSet) : (set.byKind AttributeKind.all).Perm set.toList := by
  have nodup : (set.byKind AttributeKind.all).Nodup := by
    have all : AttributeKind.all.Nodup := by decide
    refine all.filterMap fun kind kind' entry own own' => ?_
    obtain ⟨_, -, rfl⟩ := Option.map_eq_some_iff.mp own
    obtain ⟨_, -, same⟩ := Option.map_eq_some_iff.mp own'
    exact (congrArg Prod.fst same).symm
  refine (List.perm_ext_iff_of_nodup nodup (set.nodup_kinds.of_map _)).mpr ?_
  rintro ⟨kind, record⟩
  rw [mem_byKind]
  exact (and_iff_right kind.mem_all).trans mem_toList_iff.symm

/-- Decoding a set merges what its records mean into a new builder, in the order of the kinds. -/
theorem decode_merges (decodes : ∀ entry ∈ set.toList, meaning? pool entry ≠ none)
    (module : set.get? .module ≠ none) (name : String) (cache : Option CacheId) :
    (set.decode name pool cache).Spec
      (fun descriptor => ∃ builder : Builder, descriptor = builder.descriptor ∧
        builder.untagged = (meanings pool (set.byKind AttributeKind.all)).foldl Builder.merge
          (Builder.new name cache).untagged)
      fun _ => False := by
  let final := (meanings pool (set.byKind AttributeKind.all)).foldl Builder.merge
    (Builder.new name cache).untagged
  -- What is still to be merged always leads to the same end.
  let inv (kinds : List AttributeKind) (builder : Builder) : Prop :=
    builder.Awaits kinds ∧
      (meanings pool (set.byKind kinds)).foldl Builder.merge builder.untagged = final
  have decoded : (set.decode name pool cache).Spec
      (fun descriptor => ∃ builder, inv [] builder ∧ descriptor = builder.descriptor)
      fun _ => False := by
    apply decode_spec
    · exact ⟨Builder.awaits_new _ _, rfl⟩
    · intro kind kinds builder absent holds
      obtain ⟨awaits, rest⟩ := holds
      have same : set.byKind (kind :: kinds) = set.byKind kinds :=
        List.filterMap_cons_none (by rw [absent]; rfl)
      exact ⟨awaits.skip, same ▸ rest⟩
    · intro kind kinds builder record found holds
      obtain ⟨awaits, rest⟩ := holds
      have same : set.byKind (kind :: kinds) = (kind, record) :: set.byKind kinds :=
        List.filterMap_cons_some (by rw [found]; rfl)
      refine (Attribute.decode_meaning pool (kind, record) cache).mono ?_ ?_
      · rintro attr ⟨own, means⟩
        rw [same, meanings_cons means, List.foldl_cons, ← Builder.untagged_merge] at rest
        cases own
        have lacks := awaits.lacks _ List.mem_cons_self
        obtain ⟨applied, awaits⟩ := awaits.apply
        rw [Builder.Lacks.merge_eq_give lacks] at rest
        exact ⟨_, applied, awaits, rest⟩
      · intro e nothing
        exact decodes _ (mem_toList_iff.mpr found) nothing
    · exact module
  refine decoded.mono ?_ fun _ impossible => impossible
  rintro _ ⟨builder, ⟨-, rest⟩, rfl⟩
  exact ⟨builder, rfl, rest⟩

/-! ### Orders -/

theorem perm_meanings (pool : Pool) {records' : List (AttributeKind × Bytes)}
    (order : records.Perm records') : (meanings pool records).Perm (meanings pool records') :=
  order.filterMap _

section Orders

variable (decodes : ∀ entry ∈ set.toList, ∃ attr, Decodes pool entry attr)
  (order : records.Perm set.toList)

include decodes order

theorem meaning?_ne_none_of_perm : ∀ entry ∈ records, meaning? pool entry ≠ none := by
  intro entry member
  obtain ⟨attr, decodes⟩ := decodes entry (order.mem_iff.mp member)
  rw [decodes.meaning?]
  exact Option.some_ne_none _

theorem feedAll_spec_of_perm (cache : Option CacheId) (builder : Builder) :
    (feedAll pool cache builder records).Spec (Fed builder (meanings pool records))
      (Refused builder (meanings pool records)) := by
  have distinct : (records.map Prod.fst).Nodup :=
    (order.map Prod.fst).nodup_iff.mpr set.nodup_kinds
  exact feedAll_spec cache builder distinct (meaning?_ne_none_of_perm decodes order)

/-- A builder that accepts what the records of a set mean can be fed with them in any order. -/
theorem exists_fed (cache : Option CacheId) {builder : Builder}
    (accepts : ∀ attr ∈ meanings pool set.toList, builder.Accepts attr) {store : VersionStore}
    (parsed : store.Reachable) (log : Array Event) :
    ∃ fed, (feedAll pool cache builder records).result store log = .ok fed ∧
      Fed builder (meanings pool records) fed := by
  have spec := feedAll_spec_of_perm decodes order cache builder
  refine (spec.mono (fun _ fed => fed) fun e refused => ?_).exists_ok parsed.sound log
  obtain ⟨⟨attr, member, refused⟩, -⟩ := refused
  exact refused (accepts attr ((perm_meanings pool order).mem_iff.mp member))

/-- In any order the same is merged. -/
theorem foldl_merge_meanings (builder : Builder) :
    (meanings pool records).foldl Builder.merge builder =
      (meanings pool set.toList).foldl Builder.merge builder := by
  refine Builder.foldl_merge_of_perm (perm_meanings pool order) ?_ builder
  rw [map_kind_meanings (meaning?_ne_none_of_perm decodes order)]
  exact (order.map Prod.fst).nodup_iff.mpr set.nodup_kinds

omit decodes in
theorem Fed.get_eq_of_perm {builder fed : Builder} (h : Fed builder (meanings pool records) fed)
    {part : Builder.Part}
    (uncovered : ∀ entry ∈ set.toList, ∀ attr, Decodes pool entry attr → part ∉ attr.covered) :
    fed.get part = builder.get part := by
  refine h.get_eq part fun attr member => ?_
  obtain ⟨entry, fed, means⟩ := List.mem_filterMap.mp member
  obtain ⟨decoded, decodes, rfl, -⟩ := Attribute.exists_decodes_of_meaning? means
  rw [Builder.covered_untagged]
  exact uncovered entry (order.mem_iff.mp fed) decoded decodes

end Orders

/-- A set whose records can be decoded is decoded to what their attributes make of a new builder. -/
theorem exists_decode (decodes : List.Forall₂ (Decodes pool) set.toList attrs)
    (module : set.get? .module ≠ none) (name : String) (cache : Option CacheId)
    {store : VersionStore} (parsed : store.Reachable) (log : Array Event) :
    ∃ descriptor, (set.decode name pool cache).result store log = .ok descriptor ∧
      descriptor.untagged =
        (attrs.foldl Builder.merge (Builder.new name none)).descriptor.untagged := by
  have each := exists_decodes_of_mem decodes
  have means := meaning?_ne_none_of_perm each (.refl _)
  obtain ⟨_, decoded, builder, rfl, merged⟩ :=
    (decode_merges means module name cache).exists_ok parsed.sound log
  refine ⟨_, decoded, ?_⟩
  rw [← Builder.untagged_descriptor, ← Builder.untagged_descriptor, merged,
    foldl_merge_meanings each set.byKind_perm, meanings_of_decodes decodes,
    Builder.untagged_foldl_merge]
  rfl

/-- It does not matter in which order the records of a set are fed to a builder, and through which
caches they are decoded. If nothing is refused in one order, nothing is refused in another one,
what is built is the same, and the parts that no record covers are as before. A new builder refuses
nothing, and with a record of the tables, what is built is what the set is decoded to. -/
theorem feedAll_of_perm {pool : Pool} {set : RecordSet}
    (decodes : ∀ entry ∈ set.toList, ∃ attr, Decodes pool entry attr)
    {records records' : List (AttributeKind × Bytes)} (order : records.Perm set.toList)
    (order' : records'.Perm set.toList) (cache cache' : Option CacheId)
    {store store' : VersionStore} (parsed : store.Reachable) (parsed' : store'.Reachable)
    (log log' : Array Event) :
    (∀ builder : Builder,
      (∀ field, (feedAll pool cache builder records).result store log ≠
        .error (.alreadySet field)) →
      ∃ fed fed' : Builder,
        (feedAll pool cache builder records).result store log = .ok fed ∧
        (feedAll pool cache' builder records').result store' log' = .ok fed' ∧
        (fed.build.run log).1.untagged = (fed'.build.run log').1.untagged ∧
        ∀ part, (∀ entry ∈ set.toList, ∀ attr, Decodes pool entry attr → part ∉ attr.covered) →
          fed.get part = builder.get part ∧ fed'.get part = builder.get part) ∧
    (set.get? .module ≠ none → ∀ name own,
      ∃ (fed : Builder) (descriptor : Descriptor),
        (feedAll pool cache (Builder.new name own) records).result store log = .ok fed ∧
        (set.decode name pool cache').result store' log' = .ok descriptor ∧
        (fed.build.run log).1.untagged = descriptor.untagged) := by
  constructor
  · intro builder unrefused
    have outcome :=
      (feedAll_spec_of_perm decodes order cache builder store parsed.sound log).2
    cases given : (feedAll pool cache builder records).result store log with
    | error e =>
        rw [given] at outcome
        obtain ⟨-, field, rfl⟩ := outcome
        exact absurd given (unrefused field)
    | ok fed =>
        rw [given] at outcome
        have accepts : ∀ attr ∈ meanings pool set.toList, builder.Accepts attr :=
          fun attr member => outcome.accepts attr ((perm_meanings pool order).mem_iff.mpr member)
        obtain ⟨fed', given', outcome'⟩ := exists_fed decodes order' cache' accepts parsed' log'
        refine ⟨fed, fed', rfl, given', ?_, fun part uncovered => ?_⟩
        · rw [Builder.value_build, Builder.value_build, ← Builder.untagged_descriptor,
            ← Builder.untagged_descriptor, outcome.untagged_eq, outcome'.untagged_eq,
            foldl_merge_meanings decodes order, foldl_merge_meanings decodes order']
        · exact ⟨outcome.get_eq_of_perm order uncovered, outcome'.get_eq_of_perm order' uncovered⟩
  · intro module name own
    have accepts : ∀ attr ∈ meanings pool set.toList, (Builder.new name own).Accepts attr :=
      fun attr _ => Builder.accepts_new name own attr
    obtain ⟨fed, given, outcome⟩ := exists_fed decodes order cache accepts parsed log
    have means := meaning?_ne_none_of_perm decodes (.refl _)
    obtain ⟨_, decoded, last, rfl, merged⟩ :=
      (decode_merges means module name cache').exists_ok parsed'.sound log'
    refine ⟨fed, _, given, decoded, ?_⟩
    rw [Builder.value_build, ← Builder.untagged_descriptor, ← Builder.untagged_descriptor,
      outcome.untagged_eq, merged, foldl_merge_meanings decodes order,
      foldl_merge_meanings decodes set.byKind_perm]
    rfl

/-- A builder that has a main class and a part of its platform is fed with the rest of the platform,
with packages and with tables, in two orders. -/
theorem feedAll_of_perm_platform :
    ∃ (pool : Pool) (set : RecordSet) (builder fed fed' new : Builder) (descriptor : Descriptor),
      set.toList = [(.targetPlatform, [0, 1, 0, 0, 0, 0]), (.packages, [0, 1, 0, 3]),
        (.module, [0x80, 0x01, 0, 1, 0, 5, 0, 0x20, 0, 0, 0, 0, 0, 0, 0, 0])] ∧
      builder.mainClass = some "a" ∧ builder.platform = ⟨none, some "x86", none⟩ ∧
      builder.isOpen = false ∧
      (feedAll pool none builder set.toList).result .empty #[] = .ok fed ∧
      (feedAll pool none builder set.toList.reverse).result .empty #[] = .ok fed' ∧
      (fed.build.run #[]).1.untagged = (fed'.build.run #[]).1.untagged ∧
      fed.platform = ⟨some "linux", some "x86", none⟩ ∧ fed.packages.toList = ["p.q"] ∧
      fed.isOpen = true ∧ fed.requires.toList = [⟨"base", 0x0020⟩] ∧
      fed.mainClass = some "a" ∧ fed'.mainClass = some "a" ∧
      (feedAll pool none (.new "m" none) set.toList).result .empty #[] = .ok new ∧
      (set.decode "m" pool none).result .empty #[] = .ok descriptor ∧
      (new.build.run #[]).1.untagged = descriptor.untagged := by
  let platform : Bytes := [0, 1, 0, 0, 0, 0]
  let names : Bytes := [0, 1, 0, 3]
  let tables : Bytes := [0x80, 0x01, 0, 1, 0, 5, 0, 0x20, 0, 0, 0, 0, 0, 0, 0, 0]
  have distinct : Collection.Distinct
      [AttributeKind.targetPlatform, AttributeKind.packages, AttributeKind.module] :=
    List.pairwise_cons.mpr ⟨by decide, List.pairwise_pair.mpr rfl⟩
  let set : RecordSet :=
    ⟨⟨[(.targetPlatform, platform), (.packages, names), (.module, tables)], distinct⟩⟩
  let builder : Builder :=
    { Builder.new "m" none with mainClass := some "a", platform := ⟨none, some "x86", none⟩ }
  let rows : ModuleRows := ⟨0x8001, [("base", 0x0020)], [], [], [], []⟩
  let attrs : List Attribute :=
    [.targetPlatform ⟨some "linux", none, none⟩, .packages (.ofList ["p.q"]), .module rows.tables]
  obtain ⟨pool, reachable, symbols⟩ :=
    Pool.exists_symbols_eq ["linux", "p/q", "base"] (by decide +kernel)
  have os : Field.optionalUtf8.Says pool 1 (some "linux") :=
    ⟨by decide, reachable.symbolAt?_of_idxOf symbols (by decide +kernel) (by decide +kernel)⟩
  have nothing : Field.optionalUtf8.Says pool 0 none := rfl
  have package : Field.packageName.Says pool 3 "p.q" :=
    ⟨"p/q", reachable.symbolAt?_of_idxOf symbols (by decide +kernel) (by decide +kernel),
      by decide +kernel⟩
  have base : Field.utf8.Says pool 5 "base" :=
    reachable.symbolAt?_of_idxOf symbols (by decide +kernel) (by decide +kernel)
  have read : Attribute.readPlatform.decode pool platform = .ok ⟨some "linux", none, none⟩ :=
    Reading.decode_eq_ok_iff.mpr ⟨[1, 0, 0], List.prefix_rfl,
      .ask os (.ask nothing (.ask nothing (.done _)))⟩
  have listed : (⟨["p.q"]⟩ : PackageRows).SpelledBy pool names :=
    ⟨[1, 3], [], rfl, 1, [[3]], rfl, rfl, .cons ⟨3, rfl, package⟩ .nil⟩
  have spelled : rows.SpelledBy pool tables :=
    ⟨[1, 5, 0x0020], [0], [0], [0], [0], [], rfl,
      ⟨1, [[5, 0x0020]], rfl, rfl, .cons ⟨5, 0x0020, rfl, base, rfl⟩ .nil⟩,
      ⟨0, [], rfl, rfl, .nil⟩, ⟨0, [], rfl, rfl, .nil⟩, ⟨0, [], rfl, rfl, .nil⟩,
      ⟨0, [], rfl, rfl, .nil⟩⟩
  have first : Decodes pool (.targetPlatform, platform)
      (.targetPlatform ⟨some "linux", none, none⟩) := by
    refine ⟨none, .empty, #[], .empty, (Attribute.result_map_read _ _ _ _ _ _).trans ?_⟩
    rw [read]
    rfl
  have second : Decodes pool (.packages, names) (.packages (.ofList ["p.q"])) :=
    ⟨none, .empty, #[], .empty, Attribute.decode_packages_eq_ok_iff.mpr ⟨_, listed, rfl⟩⟩
  have third : Decodes pool (.module, tables) (.module rows.tables) :=
    ⟨none, .empty, #[], .empty, Attribute.decode_module_eq_ok_iff.mpr ⟨rows, spelled, rfl⟩⟩
  have decodes : List.Forall₂ (Decodes pool) set.toList attrs :=
    .cons first (.cons second (.cons third .nil))
  have each := exists_decodes_of_mem decodes
  have meant := meanings_of_decodes decodes
  have accepts : ∀ attr ∈ meanings pool set.toList, builder.Accepts attr := by
    rw [meant]
    simp [attrs, Attribute.untagged, Builder.Accepts, Builder.Vacant, builder, Builder.new]
  obtain ⟨fed, given, outcome⟩ := exists_fed each (.refl _) none accepts .empty #[]
  have merged : fed.untagged = (attrs.foldl Builder.merge builder).untagged := by
    rw [outcome.untagged_eq, meant, Builder.untagged_foldl_merge]
  have orders := feedAll_of_perm each (.refl _) set.toList.reverse_perm none none .empty .empty
    #[] #[]
  obtain ⟨_, fed', given₁, given', same, kept⟩ := orders.1 builder fun field refused => by
    rw [given] at refused
    cases refused
  obtain rfl := Except.ok.inj (given.symm.trans given₁)
  have apart : ∀ attr ∈ attrs, .mainClass ∉ attr.covered := by
    simp [attrs, Attribute.covered]
  have uncovered : ∀ entry ∈ set.toList, ∀ attr, Decodes pool entry attr →
      .mainClass ∉ attr.covered := by
    intro entry member attr decodes
    have listed : attr.untagged ∈ meanings pool set.toList :=
      List.mem_filterMap.mpr ⟨entry, member, decodes.meaning?⟩
    rw [meant] at listed
    obtain ⟨other, there, same⟩ := List.mem_map.mp listed
    rw [← Builder.covered_untagged, ← same, Builder.covered_untagged]
    exact apart other there
  obtain ⟨mainClass, mainClass'⟩ := kept .mainClass uncovered
  obtain ⟨new, descriptor, given₂, decoded, built⟩ :=
    orders.2 (Option.some_ne_none tables) "m" none
  refine ⟨pool, set, builder, fed, fed', new, descriptor, rfl, rfl, rfl, rfl, given, given', same,
    congrArg Builder.platform merged, ?_, (congrArg Builder.isOpen merged).trans (by decide), ?_,
    mainClass, mainClass', given₂, decoded, built⟩
  · rw [show fed.packages = .ofList ["p.q"] from congrArg Builder.packages merged]
    exact Collection.firstOccurrences_eq_eraseDups _
  · rw [show fed.requires = rows.tables.requires from congrArg Builder.requires merged]
    refine (Collection.firstOccurrences_eq_eraseDups _).trans ?_
    decide +kernel

end RecordSet

end DescriptorCodec
