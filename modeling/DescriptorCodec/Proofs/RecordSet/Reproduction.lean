import DescriptorCodec.Proofs.Descriptor.Plain
import DescriptorCodec.Proofs.RecordSet.Canonical
import DescriptorCodec.Proofs.RecordSet.Format
import DescriptorCodec.Proofs.RecordSet.Stability

/-!
# Encoding again

What was encoded once can be encoded again into the pool that is left, or into any pool that this
one grows to, even a full one: the symbols are all there, every number is found again, and the pool
stays as it is, down to its index. So the records are the same, byte for byte.

The descriptor that is decoded from the records need not be the one that was encoded. A service
without implementations has left no row behind, and is gone. If nothing else is lost, the decoded
descriptor has the same records and needs no other symbols, so encoding it gives the same records.
-/

namespace DescriptorCodec

/-! ### Computations that leave a pool alone -/

/-- A computation that adds nothing to a pool leaves it exactly as it is. -/
def PoolM.Steady {α : Type} (action : PoolM α) : Prop :=
  ∀ pool : Pool, (action.exec pool).2 = pool ∨ pool.size < (action.exec pool).2.size

namespace PoolM.Steady

variable {α β : Type} {action : PoolM α}

theorem pure (value : α) : (Pure.pure value : PoolM α).Steady :=
  fun _ => .inl rfl

theorem ofExcept (result : Except Error α) :
    (MonadExcept.ofExcept result : PoolM α).Steady := by
  intro pool
  rw [exec_ofExcept]
  exact .inl rfl

theorem bind {next : α → PoolM β} (first : action.Steady) (second : ∀ value, (next value).Steady) :
    (action >>= next).Steady := by
  intro pool
  have before := first pool
  rw [exec_bind]
  generalize action.exec pool = execution at before
  rcases execution with ⟨error | value, left⟩
  · exact before
  · have after := second value left
    dsimp only at before after ⊢
    rcases before with rfl | grown
    · exact after
    · rcases after with same | grown'
      · rw [same]
        exact .inr grown
      · exact .inr (Nat.lt_trans grown grown')

theorem map (f : α → β) (h : action.Steady) : (f <$> action).Steady := by
  rw [map_eq_pure_bind]
  exact h.bind fun value => pure (f value)

theorem foldlM {step : β → α → PoolM β} (each : ∀ value x, (step value x).Steady) (xs : List α)
    (value : β) : (xs.foldlM step value).Steady := by
  induction xs generalizing value with
  | nil => exact pure value
  | cons x xs ih =>
      rw [List.foldlM_cons]
      exact (each value x).bind ih

end PoolM.Steady

theorem Pool.intern_steady (constant : Constant) : (intern constant).Steady := by
  intro pool
  rcases intern_cases constant pool with ⟨position, -, run⟩ | ⟨-, fresh, run⟩ | ⟨-, run⟩
  · rw [run]
    exact .inl rfl
  · rw [run]
    refine .inr ?_
    rw [size, size, entries_push, Array.size_push]
    exact Nat.lt_succ_self _
  · rw [run]
    exact .inl rfl

theorem Pool.internClass_steady (name : String) : (internClass name).Steady :=
  (intern_steady _).bind fun _ => intern_steady _

theorem Field.intern_steady (field : Field) (value : field.Value) :
    (field.intern value).Steady := by
  cases field with
  | word => exact .pure value
  | utf8 => exact Pool.intern_steady _
  | packageName => exact Pool.intern_steady _
  | className => exact Pool.internClass_steady value
  | optionalUtf8 =>
      cases value with
      | none => exact .pure 0
      | some text =>
          rw [intern]
          split
          · exact .pure 0
          · exact Pool.intern_steady _

theorem Item.put_steady (buffer : Buffer) (item : Item) : (item.put buffer).Steady := by
  cases item with
  | field kind value => exact (kind.intern_steady value).map _
  | count table rows => exact .ofExcept _
  | declare name => exact (Pool.internClass_steady name).map _

theorem Item.encode_steady (layout : List Item) : (encode layout).Steady :=
  (PoolM.Steady.foldlM put_steady layout Buffer.empty).map _

namespace RecordSet

theorem ofDescriptor_steady (descriptor : Descriptor) : (ofDescriptor descriptor).Steady := by
  refine PoolM.Steady.foldlM (fun set kind => ?_) _ _
  rw [encodeKind]
  cases Attribute.ofDescriptor? descriptor kind with
  | none => exact .pure set
  | some attr => exact (Item.encode_steady attr.layout).bind fun record => .ofExcept _

variable {descriptor : Descriptor} {pool left : Pool} {set : RecordSet}

/-- If the pool has what a descriptor needs, and the set consists of records of the same words,
writing the descriptor gives the set and leaves the pool alone. -/
theorem exec_ofDescriptor_of_entries (reachable : pool.Reachable)
    (entries : List.Forall₂ (EntryOf pool) descriptor.attributes set.toList)
    {descriptor' : Descriptor} (countable : descriptor'.Countable)
    (there : ∀ symbol ∈ descriptor'.needed, symbol ∈ pool.symbols)
    (same : descriptor'.records pool = descriptor.records pool) :
    (ofDescriptor descriptor').exec pool = (.ok set, pool) := by
  have nothing : (pool.symbols ++ descriptor'.needed).eraseDups = pool.symbols := by
    rw [Collection.eraseDups_append_of_subset there,
      Collection.eraseDups_eq_self pool.nodup_symbols]
  have room : pool.HasRoomFor descriptor'.needed := by
    rw [Pool.HasRoomFor, nothing, reachable.closed.length_symbols]
    exact reachable.bounded
  obtain ⟨set', left, written⟩ :=
    (exists_exec_ofDescriptor_iff descriptor' reachable).mpr ⟨countable, room⟩
  have kept : left = pool := by
    obtain ⟨reachable', taken⟩ := ofDescriptor_takes_needed descriptor' pool reachable
    have steady := ofDescriptor_steady descriptor' pool
    rw [written] at reachable' taken steady
    have size : left.size = pool.size := by
      rw [← reachable'.closed.length_symbols, taken.1, nothing, reachable.closed.length_symbols]
    exact steady.resolve_right (Nat.not_lt_of_le (Nat.le_of_eq size))
  subst kept
  have entries' := forall_entryOf reachable.bounded written
  have records : set'.toList = set.toList := by
    rw [(eq_map_of_forall_entryOf reachable.closed entries').1,
      (eq_map_of_forall_entryOf reachable.closed entries).1, Attribute.map_words_attributes,
      Attribute.map_words_attributes, same]
  obtain rfl : set' = set := congrArg RecordSet.mk (OrderedMap.ext records)
  exact written

end RecordSet

theorem Pool.GrowsTo.reachable {start pool : Pool} (h : start.GrowsTo pool)
    (reachable : start.Reachable) : pool.Reachable := by
  induction h with
  | refl => exact reachable
  | internUtf8 text _ ih => exact ih.internUtf8 text
  | internClass name _ ih => exact ih.internClass name
  | encode descriptor log _ ih =>
      rw [RecordSet.value_encode]
      exact (RecordSet.ofDescriptor_takes descriptor _ ih).1

namespace RecordSet

variable {descriptor : Descriptor} {pool left grown : Pool} {set : RecordSet} {log : Array Event}

/-- Encoding a descriptor again, into any pool that has grown from the one that was left, gives the
same records and leaves the pool as it is. If the descriptor is plain, the one that is decoded
from the records, under any name and through any cache, is encoded to them too. -/
theorem encode_of_growsTo (reachable : pool.Reachable)
    (encoded : (((encode descriptor).run pool).run log).1 = (.ok set, left))
    (grows : left.GrowsTo grown) :
    (∀ log', (((encode descriptor).run grown).run log').1 = (.ok set, grown)) ∧
    (descriptor.Buildable → descriptor.Plain →
      ∀ (name : String) (cache : Option CacheId) (store : VersionStore), store.Reachable →
        ∀ log', ∃ decoded, (set.decode name grown cache).result store log' = .ok decoded ∧
          ∀ log'', (((encode decoded).run grown).run log'').1 = (.ok set, grown)) := by
  rw [value_encode] at encoded
  obtain ⟨reachable', -⟩ := ofDescriptor_takes descriptor pool reachable
  rw [encoded] at reachable'
  have larger : left ≤ grown := (grows.le reachable'.bounded).1
  have reachable'' := grows.reachable reachable'
  have entries : List.Forall₂ (EntryOf grown) descriptor.attributes set.toList :=
    (forall_entryOf reachable.bounded encoded).imp fun _ _ entry =>
      ⟨entry.1, entry.2.of_le larger⟩
  have there : ∀ symbol ∈ descriptor.needed, symbol ∈ grown.symbols := fun symbol needed =>
    Pool.mem_symbols_of_le larger (mem_symbols_of_needed reachable encoded needed)
  have countable : descriptor.Countable :=
    ((exists_exec_ofDescriptor_iff descriptor reachable).mp ⟨set, left, encoded⟩).1
  constructor
  · intro log'
    rw [value_encode]
    exact exec_ofDescriptor_of_entries reachable'' entries countable there rfl
  · intro buildable plain name cache store parsed log'
    have records : set.Records grown descriptor := by
      obtain ⟨-, -, records⟩ := ofDescriptor_spec descriptor pool reachable.bounded
      rw [encoded] at records
      exact records.of_le larger
    have wellFormed := buildable.wellFormed
    obtain ⟨decoded, done, normal⟩ :=
      (records.decode_spec_of_name wellFormed name cache).exists_ok parsed.sound log'
    obtain ⟨-, -, fits⟩ :=
      (decode_canonical_spec set name grown cache).of_ok parsed.sound done
    have shown : ({ descriptor with name } : Descriptor).normalize =
        { descriptor.shown with name } :=
      congrArg (fun other : Descriptor => { other with name })
        (Descriptor.normalize_of_plain wellFormed plain)
    rw [shown] at normal
    refine ⟨decoded, done, fun log'' => ?_⟩
    rw [value_encode]
    refine exec_ofDescriptor_of_entries reachable'' entries fits.countable ?_ ?_
    · intro symbol needed
      rw [← decoded.needed_untagged, normal, Descriptor.needed_untagged] at needed
      exact there symbol (Descriptor.needed_shown needed)
    · rw [← decoded.records_untagged, normal, Descriptor.records_untagged]
      exact descriptor.records_shown grown

/-- A service without implementations, which is not there when it is encoded again, into a pool
that has grown. -/
theorem encode_of_growsTo_service :
    ∃ (descriptor decoded : Descriptor) (set : RecordSet) (left : Pool),
      let grown := ((Pool.internUtf8 "x").exec left).2
      descriptor.Buildable ∧ descriptor.Plain ∧
      descriptor.provides.toList = [("a.B", ⟨"a.B", ⟨.empty⟩⟩)] ∧
      (((encode descriptor).run .empty).run #[]).1 = (.ok set, left) ∧
      (((encode descriptor).run grown).run #[]).1 = (.ok set, grown) ∧
      (set.decode "m" grown none).result .empty #[] = .ok decoded ∧
      (((encode decoded).run grown).run #[]).1 = (.ok set, grown) := by
  let builder := (Builder.new "m" none).setProvides [⟨"a.B", ⟨.empty⟩⟩]
  have reachable : builder.Reachable :=
    .of_run (.new "m" none) (.provides [⟨"a.B", ⟨.empty⟩⟩]) trivial rfl
  have buildable : builder.descriptor.Buildable := ⟨builder, reachable, #[], rfl⟩
  have provides : builder.descriptor.provides.toList = [("a.B", ⟨"a.B", ⟨.empty⟩⟩)] := by
    change (OrderedMap.ofList [("a.B", (⟨"a.B", ⟨.empty⟩⟩ : Provides))]).toList = _
    rw [OrderedMap.toList_ofList, Collection.firstOccurrences_eq_eraseDups]
    rfl
  have values : builder.descriptor.provides.values = [⟨"a.B", ⟨.empty⟩⟩] := by
    rw [OrderedMap.values, provides]
    rfl
  have plain : builder.descriptor.Plain := {
    not_synthetic := rfl
    requires := fun _ member => absurd member List.not_mem_nil
    exports := fun _ member => absurd member List.not_mem_nil
    opens := fun _ member => absurd member List.not_mem_nil
    packages := fun _ member => absurd member List.not_mem_nil
    uses := fun _ member => absurd member List.not_mem_nil
    services := by
      rw [values]
      simp [Name.IsDotted]
    providers := by
      rw [values]
      simp [Provides.toList, Providers.toList]
    mainClass := fun _ given => by cases given }
  have internal : Name.internal "a.B" = "a/B" := by decide +kernel
  have needed : builder.descriptor.needed = [.utf8 "a/B", .classOf "a/B"] := by
    rw [Descriptor.needed, values, ← internal]
    rfl
  have small : Pool.empty.symbols.length + builder.descriptor.needed.length ≤ countLimit := by
    rw [needed]
    decide
  obtain ⟨set, left, encoded, -⟩ := exists_encode builder.descriptor .empty small #[]
  obtain ⟨again, decodes⟩ := encode_of_growsTo .empty encoded (.internUtf8 "x" .refl)
  obtain ⟨decoded, done, reencoded⟩ := decodes buildable plain "m" none .empty .empty #[]
  exact ⟨builder.descriptor, decoded, set, left, buildable, plain, provides, encoded, again #[],
    done, reencoded #[]⟩

end RecordSet

end DescriptorCodec
