import DescriptorCodec.Proofs.RecordSet.RoundTrip

/-!
# Decoding side by side

A set of records is decoded twice, against two pools and through two caches. If whatever is read
off a record is the same for both pools, then so is what is decoded, up to tickets. The pools may
differ where the first one ends the reading with an error that is `lost`.
-/

namespace DescriptorCodec

/-- What is read against the second pool is what was read against the first one, unless that was
an error that is lost. -/
def Pool.Agrees (lost : Error → Prop) (P Q : Pool) : Prop :=
  ∀ (α : Type) (reading : Reading α) (record : Bytes),
    (∃ e, reading.decode P record = .error e ∧ lost e) ∨
      reading.decode Q record = reading.decode P record

theorem Pool.Agrees.refl (lost : Error → Prop) (pool : Pool) : pool.Agrees lost pool :=
  fun _ _ _ => .inr rfl

variable {lost : Error → Prop} {P Q : Pool}

namespace Attribute

theorem read_follows {α : Type} (agrees : P.Agrees lost Q) (reading : Reading α)
    (record : Bytes) :
    (read reading P record).Follows lost (fun a b => a = b) (read reading Q record) := by
  apply CacheM.Follows.ofExcept
  rcases agrees α reading record with lose | same
  · exact .inl lose
  · rw [same]
    exact .inr (.refl _)

/-- Whatever caches are used, the same attribute is decoded. -/
theorem decode_follows (agrees : P.Agrees lost Q) (kind : AttributeKind) (record : Bytes)
    (cache cache' : Option CacheId) :
    (decode kind record P cache).Follows lost
      (fun a b => a.kind = kind ∧ a.untagged = b.untagged) (decode kind record Q cache') := by
  cases kind with
  | module =>
      refine (read_follows agrees ModuleTables.reading record).map ?_
      intro tables _ equal
      subst equal
      exact ⟨rfl, rfl⟩
  | packages =>
      refine (read_follows agrees (Reading.table (Reading.field .packageName)) record).bind ?_
      intro names _ equal
      subst equal
      exact CacheM.Follows.pure ⟨rfl, rfl⟩
  | version =>
      refine (read_follows agrees (Reading.field .utf8) record).bind ?_
      intro text _ equal
      subst equal
      refine (SharedVersion.parse_follows lost cache cache' text).map ?_
      intro a b same
      exact ⟨rfl, congrArg version same⟩
  | mainClass =>
      refine (read_follows agrees (Reading.field .className) record).map ?_
      intro name _ equal
      subst equal
      exact ⟨rfl, rfl⟩
  | targetPlatform =>
      refine (read_follows agrees readPlatform record).map ?_
      intro platform _ equal
      subst equal
      exact ⟨rfl, rfl⟩
  | hashes =>
      refine (read_follows agrees readHashes record).map ?_
      intro table _ equal
      subst equal
      exact ⟨rfl, rfl⟩

end Attribute

namespace RecordSet

variable {b c : Builder} {kind : AttributeKind} {kinds : List AttributeKind}

/-- Both builders wait for these kinds and have the same so far. -/
def Alike (kinds : List AttributeKind) (b c : Builder) : Prop :=
  b.Awaits kinds ∧ c.Awaits kinds ∧ b.untagged = c.untagged

theorem accept_follows {attr attr' : Attribute} (alike : Alike (kind :: kinds) b c)
    (same : attr.kind = kind ∧ attr.untagged = attr'.untagged) :
    CacheM.Follows lost (Alike kinds) (MonadExcept.ofExcept (attr.apply b))
      (MonadExcept.ofExcept (attr'.apply c)) := by
  obtain ⟨rfl, same⟩ := same
  obtain ⟨awaits, awaits', untagged⟩ := alike
  rw [Attribute.kind_eq_of_untagged same] at awaits'
  obtain ⟨applied, awaits⟩ := awaits.apply
  obtain ⟨applied', awaits'⟩ := awaits'.apply
  rw [applied, applied']
  refine CacheM.Follows.pure ⟨awaits, ?_, ?_⟩
  · exact awaits'
  · rw [Builder.untagged_give, Builder.untagged_give, untagged, same]

theorem decodeKind_follows (agrees : P.Agrees lost Q) (set : RecordSet) (name : String)
    (cache cache' : Option CacheId) (alike : Alike (kind :: kinds) b c) :
    (set.decodeKind name P cache b kind).Follows lost (Alike kinds)
      (set.decodeKind name Q cache' c kind) := by
  unfold decodeKind
  cases set.get? kind with
  | none => exact CacheM.Follows.pure ⟨alike.1.skip, alike.2.1.skip, alike.2.2⟩
  | some record =>
      refine (CacheM.Follows.report _ _).bind fun _ _ _ => ?_
      have decoded := Attribute.decode_follows agrees kind record cache cache'
      exact decoded.bind fun attr attr' same => accept_follows alike same

/-- Whatever caches are used, the same descriptor is decoded. -/
theorem decode_follows_of_agrees (agrees : P.Agrees lost Q) (set : RecordSet) (name : String)
    (cache cache' : Option CacheId) :
    (set.decode name P cache).Follows lost
      (fun a b => a.untagged = b.untagged) (set.decode name Q cache') := by
  unfold decode
  cases set.get? .module with
  | none => exact CacheM.Follows.throw _
  | some record =>
      have start : Alike AttributeKind.all (Builder.new name cache) (Builder.new name cache') :=
        ⟨Builder.awaits_new _ _, Builder.awaits_new _ _, rfl⟩
      have decoded := Attribute.decode_follows agrees .module record cache cache'
      refine (CacheM.Follows.report _ _).bind fun _ _ _ => ?_
      refine decoded.bind fun attr attr' same => ?_
      refine (accept_follows start same).bind fun b c alike => ?_
      refine CacheM.Follows.bind (CacheM.Follows.foldlM Alike ?_ alike) ?_
      · intro kind kinds b c alike
        exact decodeKind_follows agrees set name cache cache' alike
      · intro b c holds
        obtain ⟨-, -, untagged⟩ := holds
        refine CacheM.Follows.traced fun log log' => ?_
        rw [Builder.value_build, Builder.value_build, ← Builder.untagged_descriptor, untagged,
          Builder.untagged_descriptor]

end RecordSet

end DescriptorCodec
