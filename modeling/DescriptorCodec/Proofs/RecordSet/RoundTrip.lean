import DescriptorCodec.Proofs.Attribute.RoundTrip
import DescriptorCodec.Proofs.RecordSet.Room

/-!
# Decoding what was encoded

Decoding hands the attributes of a set to a new builder, kind by kind. `decode_spec` turns an
invariant of the builder, which may depend on the kinds that are still to come, into a statement
about the decoded descriptor.

With the records of a descriptor, decoding never fails, whatever the caches hold, and what is
decoded is the normal form of the descriptor.
-/

namespace DescriptorCodec

/-- The record of a main class that is all there is in the pool. -/
theorem Attribute.exec_encode_mainClass_empty (name : String) :
    ∃ pool, (Attribute.encode (.mainClass name)).exec .empty = (.ok [0, 2], pool) := by
  obtain ⟨pool, interned⟩ := Pool.exec_internClass_empty name
  exists pool
  simp only [encode, layout, Item.encode, List.foldlM_cons, List.foldlM_nil, Item.put,
    Field.intern, PoolM.exec_bind, interned, PoolM.exec_pure]
  rfl

namespace RecordSet

/-- The invariant has to survive a kind without a record, and a kind whose attribute the builder
is given. -/
theorem decode_spec {inv : List AttributeKind → Builder → Prop} {fault : Error → Prop}
    {set : RecordSet} {name : String} {pool : Pool} {cache : Option CacheId}
    (start : inv AttributeKind.all (Builder.new name cache))
    (skip : ∀ {kind kinds builder}, set.get? kind = none → inv (kind :: kinds) builder →
      inv kinds builder)
    (step : ∀ {kind kinds builder record}, set.get? kind = some record →
      inv (kind :: kinds) builder →
      (Attribute.decode kind record pool cache).Spec
        (fun attr => ∃ builder', attr.apply builder = .ok builder' ∧ inv kinds builder') fault)
    (missing : set.get? .module = none → fault (.missingAttribute .module)) :
    (set.decode name pool cache).Spec
      (fun descriptor => ∃ builder, inv [] builder ∧ descriptor = builder.descriptor) fault := by
  have accept {attr : Attribute} {builder : Builder} {kinds : List AttributeKind}
      (h : ∃ builder', attr.apply builder = .ok builder' ∧ inv kinds builder') :
      CacheM.Spec (MonadExcept.ofExcept (attr.apply builder)) (inv kinds) fault := by
    obtain ⟨builder', applied, holds⟩ := h
    rw [applied]
    exact CacheM.Spec.pure holds
  unfold decode
  cases found : set.get? .module with
  | none => exact CacheM.Spec.throw (missing found)
  | some record =>
      refine (CacheM.Spec.report _).bind fun _ _ => ?_
      refine (step found start).bind fun attr first => ?_
      refine (accept first).bind fun builder holds => ?_
      refine CacheM.Spec.bind (CacheM.Spec.foldlM inv ?_ holds) ?_
      · intro kind kinds builder holds
        unfold decodeKind
        cases found : set.get? kind with
        | none => exact CacheM.Spec.pure (skip found holds)
        | some record =>
            refine (CacheM.Spec.report _).bind fun _ _ => ?_
            exact (step found holds).bind fun attr next => accept next
      · intro builder holds
        refine CacheM.Spec.traced fun log => ⟨builder, holds, ?_⟩
        exact builder.value_build log

variable {descriptor : Descriptor} {set : RecordSet} {pool : Pool}

theorem Records.needless (records : set.Records pool descriptor) {kind : AttributeKind}
    (absent : set.get? kind = none) : Attribute.ofDescriptor? descriptor kind = none := by
  have holds := records kind
  unfold Holds at holds
  cases needed : Attribute.ofDescriptor? descriptor kind with
  | none => rfl
  | some attr =>
      rw [needed] at holds
      obtain ⟨record, found, -⟩ := holds
      rw [absent] at found
      cases found

theorem Records.needed (records : set.Records pool descriptor) {kind : AttributeKind}
    {record : Bytes} (found : set.get? kind = some record) :
    ∃ attr, Attribute.ofDescriptor? descriptor kind = some attr ∧
      Item.Written pool attr.layout record := by
  have holds := records kind
  unfold Holds at holds
  cases needed : Attribute.ofDescriptor? descriptor kind with
  | none =>
      rw [needed, found] at holds
      cases holds
  | some attr =>
      rw [needed] at holds
      obtain ⟨record', found', written⟩ := holds
      rw [found] at found'
      cases found'
      exact ⟨attr, rfl, written⟩

/-- Decoding the records of a descriptor gives its normal form. The builder is compared with a
model that is given the normal forms of the attributes themselves. -/
theorem Records.decode_spec (wellFormed : descriptor.WellFormed)
    (records : set.Records pool descriptor) (cache : Option CacheId) :
    (set.decode descriptor.name pool cache).Spec
      (fun decoded => decoded.untagged = descriptor.normalize.untagged) fun _ => False := by
  let final := AttributeKind.all.foldl (fun builder kind => builder.take descriptor kind)
    (Builder.new descriptor.name none)
  let inv (kinds : List AttributeKind) (builder : Builder) : Prop :=
    builder.Awaits kinds ∧ ∃ model : Builder, builder.untagged = model.untagged ∧
      kinds.foldl (fun builder kind => builder.take descriptor kind) model = final
  have decoded : (set.decode descriptor.name pool cache).Spec
      (fun decoded => ∃ builder, inv [] builder ∧ decoded = builder.descriptor)
      fun _ => False := by
    apply RecordSet.decode_spec
    · exact ⟨Builder.awaits_new _ _, Builder.new descriptor.name none, rfl, rfl⟩
    · intro kind kinds builder absent holds
      obtain ⟨awaits, model, same, rest⟩ := holds
      rw [List.foldl_cons, Builder.take, records.needless absent] at rest
      exact ⟨awaits.skip, model, same, rest⟩
    · intro kind kinds builder record found holds
      obtain ⟨awaits, model, same, rest⟩ := holds
      obtain ⟨attr, needed, written⟩ := records.needed found
      rw [List.foldl_cons, Builder.take, needed] at rest
      have own := Attribute.kind_of_ofDescriptor? needed
      subst own
      have parsed := Attribute.parsed_of_ofDescriptor? wellFormed needed
      refine (Attribute.decode_spec parsed written).mono ?_ fun _ impossible => impossible
      intro read normal
      have kind := Attribute.kind_eq_of_untagged normal
      rw [Attribute.kind_normalize] at kind
      rw [← kind] at awaits
      obtain ⟨applied, awaits⟩ := awaits.apply
      refine ⟨_, applied, awaits, _, ?_, rest⟩
      rw [Builder.untagged_give, Builder.untagged_give, same, normal]
    · intro absent
      have needless := records.needless absent
      cases needless
  refine decoded.mono ?_ fun _ impossible => impossible
  intro _ holds
  obtain ⟨builder, ⟨-, model, same, rest⟩, rfl⟩ := holds
  rw [List.foldl_nil] at rest
  subst rest
  rw [← Builder.untagged_descriptor, same, Builder.untagged_descriptor,
    Builder.foldl_take wellFormed]

/-- The records do not say what the module is called, so they are decoded under any name. -/
theorem Records.decode_spec_of_name (wellFormed : descriptor.WellFormed)
    (records : set.Records pool descriptor) (name : String) (cache : Option CacheId) :
    (set.decode name pool cache).Spec
      (fun decoded => decoded.untagged = ({ descriptor with name }).normalize.untagged)
      fun _ => False := by
  have named : ({ descriptor with name } : Descriptor).WellFormed := { __ := wellFormed }
  have same : set.Records pool { descriptor with name } := records
  exact same.decode_spec named cache

/-- Whatever a builder can build and a pool can take is decoded to its normal form, through any
cache. Only the ticket of the version may differ. -/
theorem decode_encode {descriptor : Descriptor} (buildable : descriptor.Buildable) {pool : Pool}
    (reachable : pool.Reachable) {log : Array Event} {set : RecordSet} {pool' : Pool}
    (encoded : (((encode descriptor).run pool).run log).1 = (.ok set, pool'))
    (cache : Option CacheId) {store : VersionStore} (parsed : store.Reachable)
    (log' : Array Event) :
    ∃ decoded, (set.decode descriptor.name pool' cache).result store log' = .ok decoded ∧
      decoded.untagged = descriptor.normalize.untagged := by
  rw [value_encode] at encoded
  obtain ⟨-, -, records⟩ := ofDescriptor_spec descriptor pool reachable.bounded
  rw [encoded] at records
  exact (Records.decode_spec buildable.wellFormed records cache).exists_ok parsed.sound log'

/-- An automatic module comes back as one that is not. Packages and services that are called the
same in written form are merged, and a service without implementations is gone. -/
theorem decode_encode_merging :
    ∃ (descriptor : Descriptor) (set : RecordSet) (pool : Pool) (decoded : Descriptor),
      descriptor.Buildable ∧ descriptor.isAutomatic = true ∧
      descriptor.mainClass = some "a/B" ∧
      (descriptor.exports.toList.map fun access => (access.source, access.modifiers)) =
        [("p/q", 0x8010), ("p.q", 0x0010)] ∧
      (descriptor.provides.toList.map fun entry => (entry.1, entry.2.toList)) =
        [("s/S", ["b.X"]), ("t.T", []), ("s.S", ["b/Y", "b/X"])] ∧
      (((encode descriptor).run .empty).run #[]).1 = (.ok set, pool) ∧
      (set.decode descriptor.name pool none).result .empty #[] = .ok decoded ∧
      decoded.untagged = descriptor.normalize.untagged ∧ decoded.isAutomatic = false ∧
      decoded.mainClass = some "a.B" ∧
      (decoded.exports.toList.map fun access => (access.source, access.modifiers)) =
        [("p.q", 0x0010)] ∧
      (decoded.provides.toList.map fun entry => (entry.1, entry.2.toList)) =
        [("s.S", ["b.X", "b.Y"])] := by
  let accesses : List PackageAccess := [⟨"p/q", 0x8010, .empty⟩, ⟨"p.q", 0x0010, .empty⟩]
  let entries : List Provides := [⟨"s/S", ⟨["b.X"], List.pairwise_singleton _ _⟩⟩,
    ⟨"t.T", ⟨.empty⟩⟩, ⟨"s.S", ⟨["b/Y", "b/X"], List.pairwise_pair.mpr rfl⟩⟩]
  let automatic := (Builder.new "m" none).setAutomatic true
  let named : Builder := { automatic with mainClass := some "a/B" }
  let builder := (named.setExports accesses).setProvides entries
  have reachable : automatic.Reachable :=
    .of_run (.new "m" none) (.isAutomatic true) trivial rfl
  have reachable : named.Reachable := reachable.of_run (.mainClass "a/B") trivial rfl
  have reachable := reachable.of_run (.exports accesses) trivial rfl
  have reachable : builder.Reachable := reachable.of_run (.provides entries) trivial rfl
  have buildable : builder.descriptor.Buildable := ⟨builder, reachable, #[], rfl⟩
  have exports : builder.descriptor.exports.toList = accesses := by
    change (OrderedSet.ofList accesses).toList = _
    rw [OrderedSet.toList_ofList, Collection.firstOccurrences_eq_eraseDups]
    rfl
  have provides : builder.descriptor.provides.toList =
      entries.map fun entry => (entry.service, entry) := by
    change (OrderedMap.ofList (entries.map fun entry => (entry.service, entry))).toList = _
    rw [OrderedMap.toList_ofList, Collection.firstOccurrences_eq_eraseDups]
    rfl
  have values : builder.descriptor.provides.values = entries := by
    rw [OrderedMap.values, provides]
    rfl
  have small : Pool.empty.symbols.length + builder.descriptor.needed.length ≤ countLimit := by
    rw [Descriptor.needed, exports, values]
    decide +kernel
  obtain ⟨set, pool, encoded, -⟩ := exists_encode builder.descriptor .empty small #[]
  obtain ⟨decoded, done, same⟩ := decode_encode buildable .empty encoded none .empty #[]
  refine ⟨builder.descriptor, set, pool, decoded, buildable, rfl, rfl, ?_, ?_, encoded, done, same,
    congrArg Descriptor.isAutomatic same, ?_, ?_, ?_⟩
  · rw [exports]
    rfl
  · rw [provides]
    rfl
  · exact (congrArg Descriptor.mainClass same).trans (by decide +kernel)
  · have exported : decoded.exports.toList = (accesses.map PackageAccess.normalize).eraseDups := by
      rw [← exports]
      exact (congrArg (fun descriptor => descriptor.exports.toList) same).trans
        (Collection.firstOccurrences_eq_eraseDups _)
    rw [exported]
    decide +kernel
  · have provided : decoded.provides.toList =
        (Provides.normalizeTable builder.descriptor.provides).toList :=
      congrArg (fun descriptor => descriptor.provides.toList) same
    rw [provided, Provides.normalizeTable, values, OrderedMap.toList_map, OrderedMap.toList_group,
      Collection.firstOccurrences_eq_eraseDups]
    simp only [List.map_map, Function.comp_def, Provides.toList_new,
      Collection.firstOccurrences_eq_eraseDups]
    decide +kernel

end RecordSet

end DescriptorCodec
