import DescriptorCodec.Proofs.Descriptor.Format
import DescriptorCodec.Proofs.RecordSet.Room

/-!
# The records are in their format

The records that are written are, word for word, what the descriptor and the pool that is left say
together. Every number in them is the one reference to its symbol, which that pool has.
-/

namespace DescriptorCodec

/-- What holds of a value is kept while the later ones are computed. -/
theorem PoolM.Spec.mapM {α β : Type} {f : α → PoolM β} {post : Pool → α → β → Prop}
    {fault : Pool → Error → Prop}
    (kept : ∀ {P Q : Pool} {x value}, P ≤ Q → post P x value → post Q x value)
    (each : ∀ x, (f x).Spec (fun pool value => post pool x value) fault) (xs : List α) :
    (xs.mapM f).Spec (fun pool values => List.Forall₂ (post pool) xs values) fault := by
  induction xs with
  | nil => exact PoolM.Spec.pure fun _ _ => .nil
  | cons x xs ih =>
      rw [List.mapM_cons]
      refine (each x).bind kept fun value _ _ => ?_
      refine ih.bind (fun grown rest => rest.imp fun _ _ => kept grown) fun values _ _ => ?_
      exact PoolM.Spec.pure fun _ _ rest first => .cons first rest

namespace RecordSet

variable {descriptor : Descriptor} {pool left : Pool} {set : RecordSet}

/-- An entry of the set holds the record of the attribute. -/
def EntryOf (pool : Pool) (attr : Attribute) (entry : AttributeKind × Bytes) : Prop :=
  entry.1 = attr.kind ∧ Item.Written pool attr.layout entry.2

theorem encodeEntry_spec (attr : Attribute) :
    (encodeEntry attr).Spec (fun pool entry => EntryOf pool attr entry) fun _ _ => True := by
  rw [encodeEntry, map_eq_pure_bind]
  refine PoolM.Spec.bind ((Item.encode_spec attr.layout).mono (fun _ _ written => written)
    fun _ _ _ => trivial) (fun grown written => written.of_le grown) ?_
  intro record _ _
  exact PoolM.Spec.pure fun _ _ written => ⟨rfl, written⟩

theorem forall_entryOf (bounded : pool.Bounded)
    (encoded : (ofDescriptor descriptor).exec pool = (.ok set, left)) :
    List.Forall₂ (EntryOf left) descriptor.attributes set.toList := by
  have listed : (descriptor.attributes.mapM encodeEntry).exec pool = (.ok set.toList, left) := by
    rw [← map_toList_ofDescriptor, PoolM.exec_map, encoded]
    rfl
  have entries := PoolM.Spec.mapM (fun grown entry => ⟨entry.1, entry.2.of_le grown⟩)
    encodeEntry_spec descriptor.attributes
  obtain ⟨-, -, each⟩ := entries pool bounded
  rwa [listed] at each

theorem eq_map_of_forall_entryOf (closed : pool.Closed) {attrs : List Attribute}
    {entries : List (AttributeKind × Bytes)}
    (each : List.Forall₂ (EntryOf pool) attrs entries) :
    entries = (attrs.map fun attr => (attr.kind, attr.layout.flatMap (Item.words pool))).map
        (fun (kind, words) => (kind, BigEndian.ofWords words)) ∧
      ∀ attr ∈ attrs, ∀ word ∈ attr.layout.flatMap (Item.words pool), word ≤ countLimit := by
  induction each with
  | nil => exact ⟨rfl, fun _ impossible => absurd impossible List.not_mem_nil⟩
  | @cons attr entry attrs entries first _ ih =>
      obtain ⟨same, small⟩ := ih
      obtain ⟨kind, written⟩ := first
      obtain ⟨record, small'⟩ := written.eq_ofWords closed
      constructor
      · exact congrArg₂ List.cons (Prod.ext kind record) same
      · intro attr member
        rcases List.mem_cons.mp member with rfl | member
        · exact small'
        · exact small attr member

/-- The record of the main class is the number of the class. -/
theorem Records.get?_mainClass {name : String}
    (records : set.Records pool descriptor) (closed : pool.Closed)
    (given : descriptor.mainClass = some name) :
    set.get? .mainClass = some (BigEndian.ofWords [pool.classNumber name]) := by
  have holds := records .mainClass
  rw [Holds, Attribute.ofDescriptor?, given] at holds
  obtain ⟨record, found, written⟩ := holds
  rw [found, (written.eq_ofWords closed).1]
  rfl

/-- What the descriptor needs is in the pool that is left. -/
theorem mem_symbols_of_needed (reachable : pool.Reachable)
    (encoded : (ofDescriptor descriptor).exec pool = (.ok set, left)) {symbol : Symbol}
    (needed : symbol ∈ descriptor.needed) : symbol ∈ left.symbols := by
  have taken := takes_needed descriptor reachable
  rw [encoded] at taken
  rw [taken.1, List.mem_eraseDups]
  exact List.mem_append_right _ needed

/-- An encoded set has the records of the descriptor's format in the order of their kinds. Every
word fits two bytes, and the number of a symbol is the one reference to it. -/
theorem toList_encode (reachable : pool.Reachable) {log : Array Event}
    (encoded : (((encode descriptor).run pool).run log).1 = (.ok set, left)) :
    set.toList =
        (descriptor.records left).map (fun (kind, words) => (kind, BigEndian.ofWords words)) ∧
      (∀ record ∈ descriptor.records left, ∀ word ∈ record.2, word ≤ countLimit) ∧
      (∀ symbol ∈ descriptor.needed,
        0 < left.indexOf symbol ∧ left.indexOf symbol ≤ countLimit ∧
          ∀ index, left.symbolAt? index = some symbol ↔ index.toNat = left.indexOf symbol) ∧
      descriptor.pairs.length =
        (descriptor.provides.toList.map fun entry => entry.2.toList.length).sum ∧
      ∀ access ∈ descriptor.exports.toList ++ descriptor.opens.toList,
        access.targets.size = 0 ↔ access.isQualified = false := by
  rw [value_encode] at encoded
  obtain ⟨reachable', -⟩ := ofDescriptor_takes descriptor pool reachable
  rw [encoded] at reachable'
  have entries := forall_entryOf reachable.bounded encoded
  obtain ⟨same, small⟩ := eq_map_of_forall_entryOf reachable'.closed entries
  rw [Attribute.map_words_attributes] at same
  refine ⟨same, ?_, ?_, descriptor.length_pairs, ?_⟩
  · intro record member
    rw [← Attribute.map_words_attributes] at member
    obtain ⟨attr, needed, rfl⟩ := List.mem_map.mp member
    exact small attr needed
  · intro symbol needed
    exact reachable'.closed.symbolAt?_iff reachable'.bounded
      (mem_symbols_of_needed reachable encoded needed)
  · intro access _
    simp [PackageAccess.isQualified, OrderedSet.isEmpty, OrderedSet.size]

/-- A synthetic open module that exports a package to everyone, byte by byte. -/
theorem toList_encode_open :
    ∃ (descriptor : Descriptor) (set : RecordSet) (left : Pool),
      descriptor.isOpen = true ∧ descriptor.isSynthetic = true ∧
      descriptor.exports.toList = [⟨"a.b", 0x0020, .empty⟩] ∧
      Pool.Reachable .empty ∧
      (((encode descriptor).run .empty).run #[]).1 = (.ok set, left) ∧
      set.toList = [(.module,
        [0x00, 0x21, 0, 0, 0, 1, 0, 1, 0x00, 0x20, 0, 0, 0, 0, 0, 0, 0, 0])] := by
  let exported : OrderedSet PackageAccess :=
    ⟨[⟨"a.b", 0x0020, .empty⟩], List.pairwise_singleton _ _⟩
  let descriptor : Descriptor :=
    { (Builder.new "m" none).descriptor with
      isOpen := true, isSynthetic := true, exports := exported }
  have needed : descriptor.needed = [.utf8 (Name.internal "a.b")] := rfl
  have small : Pool.empty.symbols.length + descriptor.needed.length ≤ countLimit := by
    rw [needed]
    decide
  obtain ⟨set, left, encoded, -, listed, -⟩ := exists_encode descriptor .empty small #[]
  obtain ⟨records, -⟩ := toList_encode .empty encoded
  refine ⟨descriptor, set, left, rfl, rfl, rfl, .empty, encoded, ?_⟩
  have symbols : left.symbols = [.utf8 (Name.internal "a.b")] := by
    rw [listed, needed]
    rfl
  have number : left.packageNumber "a.b" = 1 := by
    rw [Pool.packageNumber, Pool.indexOf, symbols]
    decide
  rw [records]
  change [(AttributeKind.module, BigEndian.ofWords
    [0x0021, 0, 1, left.packageNumber "a.b", 0x0020, 0, 0, 0, 0])] = _
  rw [number]
  rfl

end RecordSet

end DescriptorCodec
