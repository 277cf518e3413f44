import DescriptorCodec.Proofs.Attribute.Canonical
import DescriptorCodec.Proofs.Descriptor.Plain
import DescriptorCodec.Proofs.RecordSet.Coalescing

/-!
# Encoding what was decoded

Whatever records are decoded, the descriptor is canonical and fits. So it can be encoded into any
pool that has the room, and since it is its own normal form it is decoded to itself again.
-/

namespace DescriptorCodec

namespace Builder

theorem canonical_new (name : String) (cache : Option CacheId) :
    (new name cache).descriptor.Canonical where
  toWellFormed := (wellFormed_new name cache).descriptor
  not_automatic := rfl
  not_synthetic := rfl
  requires _ member := by cases member
  exports _ member := by cases member
  opens _ member := by cases member
  packages _ member := by cases member
  uses _ member := by cases member
  provides _ member := by cases member
  mainClass _ given := by cases given

theorem fits_new (name : String) (cache : Option CacheId) : (new name cache).descriptor.Fits := by
  intro kind attr needed
  cases kind with
  | module =>
      cases needed
      intro table rows member
      have fits : (ModuleTables.ofDescriptor (new name cache).descriptor).Fits := {
        requires := Nat.zero_le _
        exports := Nat.zero_le _
        exportTargets := fun _ member => by cases member
        opens := Nat.zero_le _
        openTargets := fun _ member => by cases member
        uses := Nat.zero_le _
        provides := Nat.zero_le _ }
      exact fits.count_mem_layout member
  | _ => cases needed

end Builder

namespace RecordSet

/-- What is decoded is canonical and can be written, whatever the records hold. -/
theorem decode_canonical_spec (set : RecordSet) (name : String) (pool : Pool)
    (cache : Option CacheId) :
    (set.decode name pool cache).Spec
      (fun decoded => decoded.name = name ∧ decoded.Canonical ∧ decoded.Fits) fun _ => True := by
  let inv (kinds : List AttributeKind) (builder : Builder) : Prop :=
    builder.Awaits kinds ∧ builder.name = name ∧ builder.descriptor.Canonical ∧
      builder.descriptor.Fits
  have decoded : (set.decode name pool cache).Spec
      (fun decoded => ∃ builder, inv [] builder ∧ decoded = builder.descriptor)
      fun _ => True := by
    apply decode_spec
    · exact ⟨Builder.awaits_new _ _, rfl, Builder.canonical_new _ _, Builder.fits_new _ _⟩
    · intro kind kinds builder _ holds
      exact ⟨holds.1.skip, holds.2⟩
    · intro kind kinds builder record _ holds
      obtain ⟨awaits, named, canonical, fits⟩ := holds
      refine (Attribute.decode_canonical kind record pool cache).mono ?_ fun _ _ => trivial
      intro attr holds
      obtain ⟨rfl, canonical', fits'⟩ := holds
      obtain ⟨applied, awaits⟩ := awaits.apply
      refine ⟨_, applied, awaits, ?_, Builder.canonical_give canonical canonical',
        Builder.fits_give fits canonical' fits'⟩
      rw [Builder.name_give, named]
    · intro _
      trivial
  refine decoded.mono ?_ fun _ _ => trivial
  intro _ holds
  obtain ⟨builder, ⟨-, holds⟩, rfl⟩ := holds
  exact holds

/-- A descriptor that fits can only fail to be written for want of room in the pool. -/
theorem Fault.outOfRoom {descriptor : Descriptor} (fits : descriptor.Fits) {pool : Pool}
    {error : Error} (fault : Fault descriptor pool error) : pool.OutOfRoom error := by
  obtain ⟨kind, attr, needed, full | ⟨table, rows, member, excess, -⟩⟩ := fault
  · exact full
  · have counted := fits kind attr needed table rows member
    exact absurd counted (Nat.not_le_of_lt excess)

/-- Records that can be decoded at all are decoded to a canonical descriptor. Encoding it into
any pool succeeds unless the pool has no room, and what was encoded is decoded to the descriptor
itself, through any cache. -/
theorem decode_encode_decode {set : RecordSet} {name : String} {pool : Pool}
    {cache : Option CacheId} {store : VersionStore} (parsed : store.Reachable)
    {log : Array Event} {descriptor : Descriptor}
    (decoded : (set.decode name pool cache).result store log = .ok descriptor) :
    descriptor.Canonical ∧
      ∀ other : Pool, other.Reachable → ∀ log',
        match (((encode descriptor).run other).run log').1 with
        | (.error error, left) => left.OutOfRoom error
        | (.ok set', left) =>
          ∀ (cache' : Option CacheId) (store' : VersionStore), store'.Reachable → ∀ log'',
            ∃ again, (set'.decode name left cache').result store' log'' = .ok again ∧
              again.untagged = descriptor.untagged := by
  obtain ⟨rfl, canonical, fits⟩ :=
    (decode_canonical_spec set name pool cache).of_ok parsed.sound decoded
  refine ⟨canonical, ?_⟩
  intro other reachable log'
  rw [value_encode]
  obtain ⟨-, -, outcome⟩ := ofDescriptor_spec descriptor other reachable.bounded
  generalize (ofDescriptor descriptor).exec other = execution at outcome
  rcases execution with ⟨error | set', left⟩
  · exact Fault.outOfRoom fits outcome
  · intro cache' store' parsed' log''
    have again := (Records.decode_spec canonical.toWellFormed outcome cache').exists_ok
      parsed'.sound log''
    rw [Descriptor.normalize_of_canonical canonical] at again
    exact again

/-- Rows that repeat one another, bits that mean nothing, names in stored form, and the rows of a
service apart from each other. -/
theorem decode_encode_decode_repeats :
    ∃ (pool left : Pool) (set set' : RecordSet) (descriptor again : Descriptor),
      pool.Reachable ∧
      pool.symbols = ["base", "p/q", "x/S", "x/T", "y/A", "y/B"].flatMap Symbol.ofClass ∧
      set.toList = [(.module, BigEndian.ofWords [0x8021, 2, 1, 0x8020, 1, 0x0020,
        2, 3, 0x8010, 2, 1, 1, 3, 0x0010, 1, 1, 0, 2, 6, 6, 3, 6, 10, 8, 12, 6, 12])] ∧
      (set.decode "m" pool none).result .empty #[] = .ok descriptor ∧
      descriptor.isOpen = true ∧ descriptor.Canonical ∧
      descriptor.requires.toList = [⟨"base", 0x0020⟩] ∧
      (descriptor.exports.toList.map fun access =>
        (access.source, access.modifiers, access.targets.toList)) =
          [("p.q", 0x0010, ["base"])] ∧
      descriptor.uses.toList = ["x.S"] ∧
      (descriptor.provides.toList.map fun entry => (entry.1, entry.2.service, entry.2.toList)) =
        [("x.S", "x.S", ["y.A", "y.B"]), ("x.T", "x.T", ["y.B"])] ∧
      (((encode descriptor).run .empty).run #[]).1 = (.ok set', left) ∧
      (set'.decode "m" left none).result .empty #[] = .ok again ∧
      again.untagged = descriptor.untagged := by
  let record : Bytes := BigEndian.ofWords [0x8021, 2, 1, 0x8020, 1, 0x0020,
    2, 3, 0x8010, 2, 1, 1, 3, 0x0010, 1, 1, 0, 2, 6, 6, 3, 6, 10, 8, 12, 6, 12]
  let set : RecordSet := ⟨⟨[(.module, record)], List.pairwise_singleton _ _⟩⟩
  let symbols : List Symbol :=
    ["base", "p/q", "x/S", "x/T", "y/A", "y/B"].flatMap Symbol.ofClass
  let rows : ModuleRows := {
    flags := 0x8021
    requires := [("base", 0x8020), ("base", 0x0020)]
    exports := [⟨"p.q", 0x8010, ["base", "base"]⟩, ⟨"p.q", 0x0010, ["base"]⟩]
    opens := []
    uses := ["x.S", "x.S"]
    provides := [("x.S", "y.A"), ("x.T", "y.B"), ("x.S", "y.B")] }
  let tables : ModuleTables := {
    flags := 0x0021
    requires := ⟨[⟨"base", 0x0020⟩], List.pairwise_singleton _ _⟩
    exports := ⟨[⟨"p.q", 0x0010, ⟨["base"], List.pairwise_singleton _ _⟩⟩],
      List.pairwise_singleton _ _⟩
    opens := .empty
    uses := ⟨["x.S"], List.pairwise_singleton _ _⟩
    provides := ⟨[("x.S", ⟨"x.S", ⟨["y.A", "y.B"], List.pairwise_pair.mpr rfl⟩⟩),
      ("x.T", ⟨"x.T", ⟨["y.B"], List.pairwise_singleton _ _⟩⟩)], List.pairwise_pair.mpr rfl⟩ }
  obtain ⟨pool, reachable, listed⟩ := Pool.exists_symbols_eq
    ["base", "p/q", "x/S", "x/T", "y/A", "y/B"] (by decide +kernel)
  have listed : pool.symbols = symbols :=
    listed.trans (Collection.eraseDups_eq_self (by decide +kernel))
  have text {index : UInt16} {name : String} (member : Symbol.utf8 name ∈ symbols)
      (place : index.toNat = symbols.idxOf (.utf8 name) + 1) :
      pool.symbolAt? index = some (.utf8 name) :=
    reachable.symbolAt?_of_idxOf listed member place
  have named (stored : String) {index : UInt16} (member : Symbol.classOf stored ∈ symbols)
      (place : index.toNat = symbols.idxOf (.classOf stored) + 1) :
      Field.className.Says pool index (Name.dotted stored) :=
    ⟨stored, reachable.symbolAt?_of_idxOf listed member place, rfl⟩
  have base : Field.utf8.Says pool 1 "base" := text (by decide +kernel) (by decide +kernel)
  have source : Field.packageName.Says pool 3 "p.q" :=
    ⟨"p/q", text (by decide +kernel) (by decide +kernel), by decide +kernel⟩
  have s : Field.className.Says pool 6 "x.S" :=
    named "x/S" (by decide +kernel) (by decide +kernel)
  have t : Field.className.Says pool 8 "x.T" :=
    named "x/T" (by decide +kernel) (by decide +kernel)
  have a : Field.className.Says pool 10 "y.A" :=
    named "y/A" (by decide +kernel) (by decide +kernel)
  have b : Field.className.Says pool 12 "y.B" :=
    named "y/B" (by decide +kernel) (by decide +kernel)
  have target : Field.utf8.SpelledBy pool [1] "base" := ⟨1, rfl, base⟩
  have spelled : rows.SpelledBy pool record := by
    refine ⟨[2, 1, 0x8020, 1, 0x0020], [2, 3, 0x8010, 2, 1, 1, 3, 0x0010, 1, 1], [0], [2, 6, 6],
      [3, 6, 10, 8, 12, 6, 12], [], rfl, ⟨2, [[1, 0x8020], [1, 0x0020]], rfl, rfl, ?_⟩,
      ⟨2, [[3, 0x8010, 2, 1, 1], [3, 0x0010, 1, 1]], rfl, rfl, ?_⟩, ⟨0, [], rfl, rfl, .nil⟩,
      ⟨2, [[6], [6]], rfl, rfl, ?_⟩, ⟨3, [[6, 10], [8, 12], [6, 12]], rfl, rfl, ?_⟩⟩
    · exact .cons ⟨1, 0x8020, rfl, base, rfl⟩ <| .cons ⟨1, 0x0020, rfl, base, rfl⟩ .nil
    · exact .cons ⟨3, [2, 1, 1], rfl, source, 2, [[1], [1]], rfl, rfl,
          .cons target (.cons target .nil)⟩ <|
        .cons ⟨3, [1, 1], rfl, source, 1, [[1]], rfl, rfl, .cons target .nil⟩ .nil
    · exact .cons ⟨6, rfl, s⟩ <| .cons ⟨6, rfl, s⟩ .nil
    · exact .cons ⟨6, 10, rfl, s, a⟩ <| .cons ⟨8, 12, rfl, t, b⟩ <|
        .cons ⟨6, 12, rfl, s, b⟩ .nil
  have collected : rows.tables = tables := by
    have flags : rows.tables.flags = 0x0021 := by decide
    have requires : rows.tables.requires = tables.requires :=
      OrderedSet.ofList_eq (by decide +kernel)
    have targets : OrderedSet.ofList ["base", "base"] = ⟨["base"], List.pairwise_singleton _ _⟩ :=
      OrderedSet.ofList_eq rfl
    have exports : rows.tables.exports = tables.exports := by
      refine OrderedSet.ext ((AccessRow.toList_ofList_access rows.exports).trans ?_)
      change [AccessRow.access ⟨"p.q", 0x8010, ["base", "base"]⟩] = _
      rw [AccessRow.access, targets]
      rfl
    have opens : rows.tables.opens = .empty := OrderedSet.ofList_eq rfl
    have uses : rows.tables.uses = tables.uses := OrderedSet.ofList_eq rfl
    have provides : rows.tables.provides = tables.provides := by
      refine OrderedMap.ext (rows.toList_provides.trans ?_)
      have both : Provides.new "x.S" ["y.A", "y.B"] =
          ⟨"x.S", ⟨["y.A", "y.B"], List.pairwise_pair.mpr rfl⟩⟩ :=
        Provides.ext_toList rfl (Collection.firstOccurrences_eq_eraseDups _)
      have one : Provides.new "x.T" ["y.B"] = ⟨"x.T", ⟨["y.B"], List.pairwise_singleton _ _⟩⟩ :=
        Provides.ext_toList rfl (Collection.firstOccurrences_eq_eraseDups _)
      change [("x.S", Provides.new "x.S" ["y.A", "y.B"]), ("x.T", Provides.new "x.T" ["y.B"])] = _
      rw [both, one]
    calc rows.tables = ⟨rows.tables.flags, rows.tables.requires, rows.tables.exports,
          rows.tables.opens, rows.tables.uses, rows.tables.provides⟩ := rfl
      _ = tables := by
        rw [flags, requires, exports, opens, uses, provides]
  have alone : set.toList = [(.module, record)] := rfl
  obtain ⟨descriptor, decoded, same⟩ :=
    exists_decode_module alone spelled "m" none .empty #[]
  have keyed : tables.provides.KeyedBy Provides.service := by
    simp [OrderedMap.KeyedBy, tables]
  rw [collected, Builder.merge, keyed.keyBy_values] at same
  have small : Pool.empty.symbols.length + descriptor.needed.length ≤ countLimit := by
    rw [← descriptor.needed_untagged, same]
    decide +kernel
  obtain ⟨set', left, encoded, -⟩ := exists_encode descriptor .empty small #[]
  obtain ⟨canonical, reencoded⟩ := decode_encode_decode .empty decoded
  have outcome := reencoded .empty .empty #[]
  rw [encoded] at outcome
  obtain ⟨again, decoded', restored⟩ := outcome none .empty .empty #[]
  exact ⟨pool, left, set, set', descriptor, again, reachable, listed, alone, decoded,
    (congrArg Descriptor.isOpen same).trans (by decide), canonical,
    congrArg (fun descriptor => descriptor.requires.toList) same,
    congrArg (fun descriptor => descriptor.exports.toList.map fun access =>
      (access.source, access.modifiers, access.targets.toList)) same,
    congrArg (fun descriptor => descriptor.uses.toList) same,
    congrArg (fun descriptor => descriptor.provides.toList.map fun entry =>
      (entry.1, entry.2.service, entry.2.toList)) same,
    encoded, decoded', restored⟩

end RecordSet

end DescriptorCodec
