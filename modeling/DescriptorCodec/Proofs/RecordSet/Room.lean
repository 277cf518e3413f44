import DescriptorCodec.Proofs.Descriptor.Needed
import DescriptorCodec.Proofs.RecordSet.Writing

/-!
# Which descriptors can be written

A set lists the records of a descriptor one attribute after another, each of them behind those
that were written before. Writing a descriptor is therefore the same as writing the list of its
attributes, and asks the pool for what the descriptor needs.

That succeeds exactly if every table can be counted and the pool has room for the symbols that it
is missing. The pool then has these at its end, in the order of their first use. A failure is a
limit that is exceeded, and leaves the pool with the first of them.
-/

namespace DescriptorCodec

open Collection

namespace RecordSet

variable {descriptor : Descriptor}

/-! ### Attribute by attribute -/

/-- The record of an attribute, with its kind. -/
def encodeEntry (attr : Attribute) : PoolM (AttributeKind × Bytes) :=
  (attr.kind, ·) <$> attr.encode

/-- The induction is on the kinds that are still to be written; none of them is in the set yet,
so that adding a record never fails. -/
theorem map_toList_foldlM_encodeKind {kinds : List AttributeKind} (nodup : kinds.Nodup)
    {set : RecordSet} (absent : ∀ kind ∈ kinds, set.get? kind = none) :
    toList <$> kinds.foldlM (encodeKind descriptor) set =
      (set.toList ++ ·) <$>
        (kinds.filterMap (Attribute.ofDescriptor? descriptor)).mapM encodeEntry := by
  induction kinds generalizing set with
  | nil => simp
  | cons kind kinds ih =>
      obtain ⟨once, nodup⟩ := List.nodup_cons.mp nodup
      have later : ∀ other ∈ kinds, set.get? other = none :=
        fun other member => absent other (List.mem_cons_of_mem _ member)
      rw [List.foldlM_cons, List.filterMap_cons, encodeKind]
      cases needed : Attribute.ofDescriptor? descriptor kind with
      | none =>
          rw [pure_bind]
          exact ih nodup later
      | some attr =>
          have own := Attribute.kind_of_ofDescriptor? needed
          have entry : ∀ record : Bytes,
              (toList <$> do
                let set ← (MonadExcept.ofExcept (set.insert kind record) : PoolM RecordSet)
                kinds.foldlM (encodeKind descriptor) set) =
              (set.toList ++ (kind, record) :: ·) <$>
                (kinds.filterMap (Attribute.ofDescriptor? descriptor)).mapM encodeEntry := by
            intro record
            obtain ⟨set', inserted, found⟩ := insert_of_absent
              (absent kind List.mem_cons_self) record
            have others : ∀ other ∈ kinds, set'.get? other = none := by
              intro other member
              have different : kind ≠ other := fun same => once (same ▸ member)
              rw [found, if_neg different, later other member]
            rw [inserted]
            change toList <$> (pure set' >>= kinds.foldlM (encodeKind descriptor)) = _
            rw [pure_bind, ih nodup others, toList_of_insert inserted]
            simp only [List.append_assoc, List.singleton_append]
          simp only [List.mapM_cons, encodeEntry, own, map_bind, bind_assoc, bind_map_left,
            map_pure] at entry ⊢
          congr 1
          funext record
          rw [entry, map_eq_pure_bind]

/-- The records of a descriptor are those of its attributes, in order. -/
theorem map_toList_ofDescriptor (descriptor : Descriptor) :
    toList <$> ofDescriptor descriptor = descriptor.attributes.mapM encodeEntry := by
  have nodup : AttributeKind.all.Nodup := by decide
  rw [ofDescriptor, map_toList_foldlM_encodeKind nodup fun _ _ => rfl, Descriptor.attributes]
  exact id_map _

/-! ### What writing takes -/

theorem ofDescriptor_takes (descriptor : Descriptor) :
    (ofDescriptor descriptor).Takes
      (descriptor.attributes.flatMap fun attr => attr.layout.flatMap Item.symbols)
      (descriptor.attributes.flatMap fun attr => attr.layout.flatMap Item.counts) := by
  refine PoolM.Takes.of_map (f := toList) ?_
  rw [map_toList_ofDescriptor]
  exact PoolM.Takes.mapM (fun attr : Attribute => (Item.encode_takes attr.layout).map _) _

/-- The pool is asked for what the descriptor needs. -/
theorem ofDescriptor_takes_needed (descriptor : Descriptor) :
    (ofDescriptor descriptor).Takes descriptor.needed
      (descriptor.attributes.flatMap fun attr => attr.layout.flatMap Item.counts) := by
  intro pool reachable
  obtain ⟨reachable', taken⟩ := ofDescriptor_takes descriptor pool reachable
  exact ⟨reachable', taken.of_addSame descriptor.symbols_attributes⟩

theorem counts_le_iff : (∀ count ∈ descriptor.attributes.flatMap fun attr =>
      attr.layout.flatMap Item.counts, count.2 ≤ countLimit) ↔ descriptor.Countable := by
  rw [← Descriptor.fits_iff_countable]
  constructor
  · intro small kind attr needed table rows counted
    exact small (table, rows) (Descriptor.mem_counts_attributes.mpr ⟨kind, attr, needed, counted⟩)
  · rintro fits ⟨table, rows⟩ member
    obtain ⟨kind, attr, needed, counted⟩ := Descriptor.mem_counts_attributes.mp member
    exact fits kind attr needed table rows counted

section Outcome

variable {pool : Pool} (descriptor : Descriptor) (reachable : pool.Reachable)
include reachable

theorem takes_needed : pool.Takes descriptor.needed
    (descriptor.attributes.flatMap fun attr => attr.layout.flatMap Item.counts)
    ((ofDescriptor descriptor).exec pool) :=
  (ofDescriptor_takes_needed descriptor pool reachable).2

/-- Writing succeeds exactly if the tables can be counted and there is room for the symbols. -/
theorem exists_exec_ofDescriptor_iff :
    (∃ set left, (ofDescriptor descriptor).exec pool = (.ok set, left)) ↔
      descriptor.Countable ∧ pool.HasRoomFor descriptor.needed := by
  obtain ⟨reachable', taken⟩ := ofDescriptor_takes_needed descriptor pool reachable
  rw [taken.exists_ok_iff reachable', counts_le_iff]

/-- A descriptor that needs few symbols can be encoded. -/
theorem exists_encode (small : pool.symbols.length + descriptor.needed.length ≤ countLimit)
    (log : Array Event) :
    ∃ set left, (((encode descriptor).run pool).run log).1 = (.ok set, left) ∧ left.Reachable ∧
      left.symbols = (pool.symbols ++ descriptor.needed).eraseDups ∧
      set.Records left descriptor := by
  have countable := Descriptor.countable_of_length_needed (Nat.le_of_add_left_le small)
  obtain ⟨set, left, written⟩ :=
    (exists_exec_ofDescriptor_iff descriptor reachable).mpr ⟨countable, .of_length small⟩
  obtain ⟨reachable', taken⟩ := ofDescriptor_takes_needed descriptor pool reachable
  obtain ⟨-, -, records⟩ := ofDescriptor_spec descriptor pool reachable.bounded
  rw [written] at reachable' taken records
  exact ⟨set, left, by rw [value_encode, written], reachable', taken.1, records⟩

/-- Encoding succeeds exactly if every table can be counted and the pool has room for what the
descriptor needs. The pool then has the symbols that it was missing at its end; after a failure,
which is a limit that was exceeded, it has the first of them. -/
theorem exec_encode (log : Array Event) :
    ∃ result left, (((encode descriptor).run pool).run log).1 = (result, left) ∧
      left.Reachable ∧ pool ≤ left ∧
      ((∃ set, result = .ok set) ↔
        descriptor.Countable ∧ pool.HasRoomFor descriptor.needed) ∧
      (∀ set, result = .ok set →
        left.symbols = pool.symbols ++ pool.missing descriptor.needed) ∧
      ∀ error, result = .error error →
        (∃ what count, countLimit < count ∧ error = .limitExceeded what count) ∧
        ∃ added, added <+: pool.missing descriptor.needed ∧
          left.symbols = pool.symbols ++ added := by
  have succeeds := exists_exec_ofDescriptor_iff descriptor reachable
  have taken := takes_needed descriptor reachable
  obtain ⟨reachable', -⟩ := ofDescriptor_takes descriptor pool reachable
  obtain ⟨grown, -, -⟩ := ofDescriptor_spec descriptor pool reachable.bounded
  rw [value_encode]
  generalize (ofDescriptor descriptor).exec pool = execution at *
  obtain ⟨result, left⟩ := execution
  refine ⟨result, left, rfl, reachable', grown, ?_, ?_, ?_⟩
  · rw [← succeeds]
    simp
  · rintro set rfl
    rw [taken.1, pool.eraseDups_symbols_append]
  · rintro error rfl
    obtain ⟨first, reason⟩ := taken
    rw [pool.eraseDups_symbols_append] at first
    constructor
    · rcases reason with ⟨⟨full, -⟩, -⟩ | ⟨⟨table, rows⟩, -, excess, same⟩
      · exact ⟨_, _, Nat.lt_succ_self _, full⟩
      · exact ⟨table, rows, excess, same⟩
    · obtain ⟨entries, same⟩ := grown
      have behind := reachable.closed.symbols_of_append same
      refine ⟨_, ?_, behind⟩
      rwa [behind, List.prefix_append_right_inj] at first

end Outcome

/-- A service takes its place in the pool although it has no implementation. -/
theorem exec_encode_service :
    ∃ (descriptor : Descriptor) (set : RecordSet) (left : Pool),
      descriptor.provides.toList = [("a.B", ⟨"a.B", ⟨.empty⟩⟩)] ∧
      Pool.Reachable .empty ∧
      (((encode descriptor).run .empty).run #[]).1 = (.ok set, left) ∧
      left.symbols = [.utf8 "a/B", .classOf "a/B"] := by
  let service : OrderedMap String Provides :=
    ⟨[("a.B", ⟨"a.B", ⟨.empty⟩⟩)], List.pairwise_singleton _ _⟩
  let descriptor : Descriptor := { (Builder.new "m" none).descriptor with provides := service }
  have internal : Name.internal "a.B" = "a/B" := by decide +kernel
  have needed : descriptor.needed = [.utf8 "a/B", .classOf "a/B"] := by
    rw [← internal]
    rfl
  have missing : Pool.empty.missing descriptor.needed = [.utf8 "a/B", .classOf "a/B"] := by
    rw [needed]
    decide
  have small : Pool.empty.symbols.length + descriptor.needed.length ≤ countLimit := by
    rw [needed]
    decide
  have countable := Descriptor.countable_of_length_needed (Nat.le_of_add_left_le small)
  obtain ⟨result, left, run, -, -, succeeds, added, -⟩ := exec_encode descriptor .empty #[]
  obtain ⟨set, rfl⟩ := succeeds.mpr ⟨countable, .of_length small⟩
  refine ⟨descriptor, set, left, rfl, .empty, run, ?_⟩
  rw [added set rfl, missing]
  rfl

end RecordSet

end DescriptorCodec
