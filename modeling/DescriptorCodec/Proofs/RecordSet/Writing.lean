import DescriptorCodec.Attribute.RecordSet
import DescriptorCodec.Proofs.Collection.Grouping
import DescriptorCodec.Proofs.Record.Writing

/-!
# The records that are written

A descriptor is written kind by kind, so that no kind is written twice and adding a record to the
set never fails. What is left are the failures of writing itself. The records that were written
first mean the same in the pool that is left in the end.
-/

namespace DescriptorCodec

namespace RecordSet

/-- The set has the descriptor's record of this kind, for this pool, and none if the descriptor
needs none. -/
def Holds (set : RecordSet) (pool : Pool) (descriptor : Descriptor) (kind : AttributeKind) :
    Prop :=
  match Attribute.ofDescriptor? descriptor kind with
  | none => set.get? kind = none
  | some attr => ∃ record, set.get? kind = some record ∧ Item.Written pool attr.layout record

/-- The set consists of the descriptor's records. -/
def Records (set : RecordSet) (pool : Pool) (descriptor : Descriptor) : Prop :=
  ∀ kind, set.Holds pool descriptor kind

/-- Why the descriptor cannot be written. -/
def Fault (descriptor : Descriptor) (pool : Pool) (error : Error) : Prop :=
  ∃ kind attr, Attribute.ofDescriptor? descriptor kind = some attr ∧
    Item.Fault attr.layout pool error

variable {descriptor : Descriptor}

theorem Holds.of_le {P Q : Pool} (h : P ≤ Q) {set : RecordSet} {kind : AttributeKind}
    (holds : set.Holds P descriptor kind) : set.Holds Q descriptor kind := by
  unfold Holds at holds ⊢
  split at holds
  · exact holds
  · obtain ⟨record, found, written⟩ := holds
    exact ⟨record, found, written.of_le h⟩

theorem Records.of_le {P Q : Pool} (h : P ≤ Q) {set : RecordSet}
    (records : set.Records P descriptor) : set.Records Q descriptor :=
  fun kind => (records kind).of_le h

theorem Holds.congr {pool : Pool} {set set' : RecordSet} {kind : AttributeKind}
    (same : set'.get? kind = set.get? kind) (holds : set.Holds pool descriptor kind) :
    set'.Holds pool descriptor kind := by
  unfold Holds at holds ⊢
  rwa [same]

theorem insert_of_absent {set : RecordSet} {kind : AttributeKind} (absent : set.get? kind = none)
    (record : Bytes) : ∃ set', set.insert kind record = .ok set' ∧
      ∀ other, set'.get? other = if kind = other then some record else set.get? other := by
  obtain ⟨records, inserted, found⟩ := OrderedMap.insertNew?_of_absent absent record
  refine ⟨⟨records⟩, ?_, fun other => ?_⟩
  · rw [insert, inserted]
  · have lookup := found other
    simp only [beq_iff_eq] at lookup
    exact lookup

theorem toList_of_insert {set set' : RecordSet} {kind : AttributeKind} {record : Bytes}
    (inserted : set.insert kind record = .ok set') :
    set'.toList = set.toList ++ [(kind, record)] := by
  rw [insert] at inserted
  split at inserted
  · next records added =>
    cases inserted
    exact OrderedMap.toList_of_insertNew? added
  · cases inserted

theorem encodeKind_spec {set : RecordSet} {kind : AttributeKind} (absent : set.get? kind = none) :
    (encodeKind descriptor set kind).Spec
      (fun pool set' => set'.Holds pool descriptor kind ∧
        ∀ other, kind ≠ other → set'.get? other = set.get? other)
      (Fault descriptor) := by
  unfold encodeKind Holds
  cases needed : Attribute.ofDescriptor? descriptor kind with
  | none => exact PoolM.Spec.pure fun _ _ => ⟨absent, fun _ _ => rfl⟩
  | some attr =>
      refine PoolM.Spec.bind ((Item.encode_spec attr.layout).mono (fun _ _ written => written) ?_)
        (fun h written => written.of_le h) ?_
      · intro pool e fault
        exact ⟨kind, attr, needed, fault⟩
      · intro record _ _
        obtain ⟨set', inserted, found⟩ := insert_of_absent absent record
        rw [inserted]
        refine PoolM.Spec.pure fun pool _ written => ⟨⟨record, ?_, written⟩, ?_⟩
        · rw [found, if_pos rfl]
        · intro other different
          rw [found, if_neg different]

/-- The induction is on the kinds that are still to be written; none of them is in the set yet. -/
theorem foldlM_encodeKind_spec {kinds : List AttributeKind} (nodup : kinds.Nodup)
    {set : RecordSet} (absent : ∀ kind ∈ kinds, set.get? kind = none) :
    (kinds.foldlM (encodeKind descriptor) set).Spec
      (fun pool set' => (∀ kind ∈ kinds, set'.Holds pool descriptor kind) ∧
        ∀ kind, kind ∉ kinds → set'.get? kind = set.get? kind)
      (Fault descriptor) := by
  induction kinds generalizing set with
  | nil =>
      refine PoolM.Spec.pure fun _ _ => ⟨?_, fun _ _ => rfl⟩
      intro kind impossible
      cases impossible
  | cons kind kinds ih =>
      obtain ⟨once, nodup⟩ := List.nodup_cons.mp nodup
      rw [List.foldlM_cons]
      refine (encodeKind_spec (absent kind List.mem_cons_self)).bind ?_ ?_
      · intro P Q set' h written
        exact ⟨written.1.of_le h, written.2⟩
      · intro set' pool written
        have others : ∀ other ∈ kinds, set'.get? other = none := by
          intro other member
          rw [written.2 other fun same => once (same ▸ member)]
          exact absent other (List.mem_cons_of_mem _ member)
        refine (ih nodup others).mono ?_ fun _ _ fault => fault
        intro pool' set'' rest first
        constructor
        · intro other member
          rcases List.mem_cons.mp member with same | member
          · subst same
            exact first.1.congr (rest.2 other once)
          · exact rest.1 other member
        · intro other member
          have different : kind ≠ other := fun same => member (same ▸ List.mem_cons_self)
          have later : other ∉ kinds := fun later => member (List.mem_cons_of_mem _ later)
          rw [rest.2 other later, first.2 other different]

/-- Writing a descriptor gives its records for the pool that is left. -/
theorem ofDescriptor_spec (descriptor : Descriptor) :
    (ofDescriptor descriptor).Spec (fun pool set => set.Records pool descriptor)
      (Fault descriptor) := by
  have nodup : AttributeKind.all.Nodup := by decide
  refine (foldlM_encodeKind_spec nodup fun _ _ => rfl).mono ?_ fun _ _ fault => fault
  intro pool set written kind
  exact written.1 kind (AttributeKind.mem_all kind)

/-- Reporting what was written changes neither the outcome nor the pool. -/
theorem value_encode (descriptor : Descriptor) (pool : Pool) (log : Array Event) :
    (((encode descriptor).run pool).run log).1 = (ofDescriptor descriptor).exec pool := by
  unfold encode PoolM.exec
  rw [ExceptT.run_mk]
  dsimp only
  generalize (ofDescriptor descriptor).run.run pool = execution
  rcases execution with ⟨_ | set, pool'⟩
  · rfl
  · rfl

end RecordSet

end DescriptorCodec
