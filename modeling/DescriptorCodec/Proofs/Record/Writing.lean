import DescriptorCodec.Proofs.Pool.Growth
import DescriptorCodec.Record.Layout

/-!
# What a written record holds

A record is written while the pool grows, so each of its words is taken from another pool. Since
pools only grow, all of them mean the same in the pool that is left in the end. `Field.Refers`
says which word stands for what in a fixed pool, and `Item.Written` puts the words of a layout
together; writing gives a record that is `Item.Written` in the final pool.
-/

namespace DescriptorCodec

namespace Field

/-- The word stands for what the field says. -/
def Refers (pool : Pool) (bits : UInt16) : (field : Field) → field.Value → Prop
  | word, value => bits = value
  | utf8, text => pool.get? bits = some (.utf8 text)
  | packageName, name => pool.get? bits = some (.utf8 (Name.internal name))
  | className, name => pool.RefersToClass name bits
  | optionalUtf8, none => bits = 0
  | optionalUtf8, some text =>
    if text.isEmpty then bits = 0 else pool.get? bits = some (.utf8 text)

theorem Refers.of_le {P Q : Pool} (h : P ≤ Q) {bits : UInt16} {field : Field}
    {value : field.Value} (refers : field.Refers P bits value) : field.Refers Q bits value := by
  cases field with
  | word => exact refers
  | utf8 => exact Pool.get?_of_le h refers
  | packageName => exact Pool.get?_of_le h refers
  | className => exact Pool.RefersToClass.of_le h refers
  | optionalUtf8 =>
      cases value with
      | none => exact refers
      | some text =>
          simp only [Refers] at refers ⊢
          split at refers
          · next empty => rwa [if_pos empty]
          · next full =>
            rw [if_neg full]
            exact Pool.get?_of_le h refers

theorem intern_spec (field : Field) (value : field.Value) :
    (field.intern value).Spec (fun pool bits => field.Refers pool bits value)
      Pool.OutOfRoom := by
  cases field with
  | word => exact PoolM.Spec.pure fun _ _ => rfl
  | utf8 => exact Pool.internUtf8_spec value
  | packageName => exact Pool.internUtf8_spec (Name.internal value)
  | className => exact Pool.internClass_spec value
  | optionalUtf8 =>
      cases value with
      | none => exact PoolM.Spec.pure fun _ _ => rfl
      | some text =>
          simp only [intern, Refers]
          by_cases empty : text.isEmpty
          · simp only [empty, if_true]
            exact PoolM.Spec.pure fun _ _ => rfl
          · simp only [empty]
            exact Pool.internUtf8_spec text

end Field

namespace Item

/-- The bytes are the record with this layout, for this pool. -/
inductive Written (pool : Pool) : List Item → Bytes → Prop
  | nil : Written pool [] []
  | field {kind : Field} {value : kind.Value} {bits : UInt16} {items : List Item}
      {bytes : Bytes} (refers : kind.Refers pool bits value) (rest : Written pool items bytes) :
      Written pool (.field kind value :: items)
        (BigEndian.toBytes Width.bits16.size bits.toNat ++ bytes)
  | count {table : String} {rows : Nat} {items : List Item} {bytes : Bytes}
      (fits : rows ≤ countLimit) (rest : Written pool items bytes) :
      Written pool (.count table rows :: items)
        (BigEndian.toBytes Width.bits16.size rows ++ bytes)
  | declare {name : String} {items : List Item} {bytes : Bytes}
      (declared : ∃ bits, pool.RefersToClass name bits) (rest : Written pool items bytes) :
      Written pool (.declare name :: items) bytes

theorem Written.of_le {P Q : Pool} (h : P ≤ Q) {items : List Item} {bytes : Bytes}
    (written : Written P items bytes) : Written Q items bytes := by
  induction written with
  | nil => exact .nil
  | field refers _ ih => exact .field (refers.of_le h) ih
  | count fits _ ih => exact .count fits ih
  | declare declared _ ih =>
      obtain ⟨bits, refers⟩ := declared
      exact .declare ⟨bits, refers.of_le h⟩ ih

theorem Written.append {pool : Pool} {items items' : List Item} {bytes bytes' : Bytes}
    (written : Written pool items bytes) (written' : Written pool items' bytes') :
    Written pool (items ++ items') (bytes ++ bytes') := by
  induction written with
  | nil => exact written'
  | field refers _ ih =>
      rw [List.cons_append, List.append_assoc]
      exact .field refers ih
  | count fits _ ih =>
      rw [List.cons_append, List.append_assoc]
      exact .count fits ih
  | declare declared _ ih => exact .declare declared ih

/-- Why writing the items can fail: the pool is full, or a table has too many rows. -/
def Fault (items : List Item) (pool : Pool) (error : Error) : Prop :=
  pool.OutOfRoom error ∨
    ∃ table rows, .count table rows ∈ items ∧ countLimit < rows ∧
      error = .limitExceeded table rows

theorem put_spec (buffer : Buffer) (item : Item) :
    (item.put buffer).Spec
      (fun pool buffer' => ∃ bytes, buffer'.toBytes = buffer.toBytes ++ bytes ∧
        Written pool [item] bytes) (Fault [item]) := by
  cases item with
  | field kind value =>
      refine PoolM.Spec.bind ((kind.intern_spec value).mono (fun _ _ refers => refers) ?_)
        (fun h refers => refers.of_le h) ?_
      · intro pool e full
        exact .inl full
      · intro bits _ _
        refine PoolM.Spec.pure fun pool _ refers => ?_
        refine ⟨BigEndian.toBytes Width.bits16.size bits.toNat, Buffer.toBytes_put .., ?_⟩
        simpa using Written.field refers .nil
  | count table rows =>
      refine PoolM.Spec.ofExcept ?_ ?_
      · intro buffer' ok pool _
        rw [Buffer.putCount_eq] at ok
        split at ok
        · next fits =>
          cases ok
          refine ⟨BigEndian.toBytes Width.bits16.size rows, Buffer.toBytes_put .., ?_⟩
          simpa using Written.count fits .nil
        · cases ok
      · intro e failed pool
        rw [Buffer.putCount_eq] at failed
        split at failed
        · cases failed
        · next excess =>
          cases failed
          exact .inr ⟨table, rows, by simp, Nat.lt_of_not_le excess, rfl⟩
  | declare name =>
      refine PoolM.Spec.bind ((Pool.internClass_spec name).mono (fun _ _ refers => refers) ?_)
        (fun h refers => refers.of_le h) ?_
      · intro pool e full
        exact .inl full
      · intro bits _ _
        refine PoolM.Spec.pure fun pool _ refers => ?_
        exact ⟨[], by simp, .declare ⟨bits, refers⟩ .nil⟩

/-- The induction is on the items that are still to be written; what has been written so far
stays written while the pool grows. -/
theorem foldlM_put_spec (items : List Item) (buffer : Buffer) :
    (items.foldlM put buffer).Spec
      (fun pool buffer' => ∃ bytes, buffer'.toBytes = buffer.toBytes ++ bytes ∧
        Written pool items bytes) (Fault items) := by
  induction items generalizing buffer with
  | nil => exact PoolM.Spec.pure fun _ _ => ⟨[], by simp, .nil⟩
  | cons item items ih =>
      rw [List.foldlM_cons]
      refine PoolM.Spec.bind ((put_spec buffer item).mono (fun _ _ written => written) ?_) ?_ ?_
      · intro pool e fault
        rcases fault with full | ⟨table, rows, member, excess, same⟩
        · exact .inl full
        · rw [List.mem_singleton] at member
          exact .inr ⟨table, rows, member ▸ List.mem_cons_self, excess, same⟩
      · intro P Q value h holds
        obtain ⟨bytes, same, written⟩ := holds
        exact ⟨bytes, same, written.of_le h⟩
      · intro buffer' _ _
        refine (ih buffer').mono ?_ ?_
        · intro pool buffer'' later earlier
          obtain ⟨bytes', same', written'⟩ := later
          obtain ⟨bytes, same, written⟩ := earlier
          refine ⟨bytes ++ bytes', ?_, written.append written'⟩
          rw [same', same, List.append_assoc]
        · intro pool e fault
          rcases fault with full | ⟨table, rows, member, excess, same⟩
          · exact .inl full
          · exact .inr ⟨table, rows, List.mem_cons_of_mem _ member, excess, same⟩

/-- Writing gives the record of the layout for the pool it leaves. -/
theorem encode_spec (layout : List Item) :
    (encode layout).Spec (fun pool bytes => Written pool layout bytes) (Fault layout) := by
  refine PoolM.Spec.bind (foldlM_put_spec layout .empty) ?_ ?_
  · intro P Q value h holds
    obtain ⟨bytes, same, written⟩ := holds
    exact ⟨bytes, same, written.of_le h⟩
  · intro buffer _ _
    refine PoolM.Spec.pure ?_
    intro pool _ holds
    obtain ⟨bytes, same, written⟩ := holds
    rw [Buffer.toBytes_empty, List.nil_append] at same
    rwa [same]

end Item

end DescriptorCodec
