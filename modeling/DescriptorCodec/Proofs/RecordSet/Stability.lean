import DescriptorCodec.Proofs.Record.Stability
import DescriptorCodec.Proofs.RecordSet.Comparison
import DescriptorCodec.Proofs.RecordSet.Format

/-!
# Decoding while the pool grows

Pools grow by interning and by encoding, whether these succeed or stop halfway. What a set of
records is decoded to stays the same all the while, and so does the error if there is one, as long
as it is no dangling reference. In particular, what was encoded stays decodable while other
descriptors are encoded into the same pool.
-/

namespace DescriptorCodec

/-- The pools that interning and encoding make of a pool, whether they succeed or fail. -/
inductive Pool.GrowsTo (start : Pool) : Pool → Prop
  | refl : GrowsTo start start
  | internUtf8 (text : String) {pool : Pool} (h : GrowsTo start pool) :
      GrowsTo start ((Pool.internUtf8 text).exec pool).2
  | internClass (name : String) {pool : Pool} (h : GrowsTo start pool) :
      GrowsTo start ((Pool.internClass name).exec pool).2
  | encode (descriptor : Descriptor) (log : Array Event) {pool : Pool}
      (h : GrowsTo start pool) :
      GrowsTo start (((RecordSet.encode descriptor).run pool).run log).1.2

theorem Pool.GrowsTo.le {start pool : Pool} (bounded : start.Bounded)
    (h : GrowsTo start pool) : start ≤ pool ∧ pool.Bounded := by
  induction h with
  | refl => exact ⟨le_refl start, bounded⟩
  | internUtf8 text _ ih =>
      obtain ⟨grown, bounded', -⟩ := internUtf8_spec text _ ih.2
      exact ⟨le_trans ih.1 grown, bounded'⟩
  | internClass name _ ih =>
      obtain ⟨grown, bounded', -⟩ := internClass_spec name _ ih.2
      exact ⟨le_trans ih.1 grown, bounded'⟩
  | encode descriptor log _ ih =>
      rw [RecordSet.value_encode]
      obtain ⟨grown, bounded', -⟩ := RecordSet.ofDescriptor_spec descriptor _ ih.2
      exact ⟨le_trans ih.1 grown, bounded'⟩

theorem Pool.Agrees.of_le {P Q : Pool} (h : P ≤ Q) : P.Agrees Error.Dangling Q :=
  fun _ reading record => reading.decode_of_le h record

namespace RecordSet

theorem decode_follows {P Q : Pool} (h : P ≤ Q) (set : RecordSet) (name : String)
    (cache cache' : Option CacheId) :
    (set.decode name P cache).Follows Error.Dangling
      (fun a b => a.untagged = b.untagged) (set.decode name Q cache') :=
  decode_follows_of_agrees (.of_le h) set name cache cache'

/-- While a pool grows, a set of records is decoded to the same descriptor or fails with the same
error, unless the error was a dangling reference. So what was encoded into a pool is decoded to
the same descriptor after anything else that is encoded into it. Only tickets may differ. -/
theorem decode_of_growsTo {pool : Pool} (reachable : pool.Reachable) :
    (∀ grown, pool.GrowsTo grown →
      ∀ (set : RecordSet) (name : String) (cache : Option CacheId) (store store' : VersionStore),
        store.Reachable → store'.Reachable → ∀ log log',
          match (set.decode name pool cache).result store log with
          | .ok descriptor =>
            ∃ again, (set.decode name grown cache).result store' log' = .ok again ∧
              again.untagged = descriptor.untagged
          | .error error =>
            ¬ error.Dangling → (set.decode name grown cache).result store' log' = .error error) ∧
    ∀ (descriptor : Descriptor) (log : Array Event) (set : RecordSet) (pool' : Pool),
      descriptor.Buildable →
      (((encode descriptor).run pool).run log).1 = (.ok set, pool') →
      ∀ grown, pool'.GrowsTo grown →
        ∀ (cache : Option CacheId) (store store' : VersionStore),
          store.Reachable → store'.Reachable → ∀ log log', ∃ before after,
            (set.decode descriptor.name pool' cache).result store log = .ok before ∧
            (set.decode descriptor.name grown cache).result store' log' = .ok after ∧
            after.untagged = before.untagged := by
  constructor
  · intro grown grows set name cache store store' parsed parsed' log log'
    obtain ⟨le, -⟩ := grows.le reachable.bounded
    have follows := decode_follows le set name cache cache store store' parsed.sound
      parsed'.sound log log'
    rcases follows with ⟨e, failed, dangling⟩ | ⟨-, -, related⟩
    · rw [failed]
      intro other
      exact absurd dangling other
    · generalize (set.decode name pool cache).result store log = x at related
      generalize (set.decode name grown cache).result store' log' = y at related
      cases related with
      | ok same => exact ⟨_, rfl, same.symm⟩
      | error e => exact fun _ => rfl
  · intro descriptor log set pool' buildable encoded grown grows cache store store' parsed parsed'
      log₁ log₂
    rw [value_encode] at encoded
    obtain ⟨-, bounded, records⟩ := ofDescriptor_spec descriptor pool reachable.bounded
    rw [encoded] at bounded records
    obtain ⟨le, -⟩ := grows.le bounded
    have wellFormed := buildable.wellFormed
    obtain ⟨before, decoded, normal⟩ :=
      (Records.decode_spec wellFormed records cache).exists_ok parsed.sound log₁
    obtain ⟨after, decoded', normal'⟩ :=
      (Records.decode_spec wellFormed (records.of_le le) cache).exists_ok parsed'.sound log₂
    exact ⟨before, after, decoded, decoded', normal'.trans normal.symm⟩

/-- A main class stays what it was while another main class is encoded behind it. -/
theorem decode_of_growsTo_mainClass :
    ∃ (a b before after other other' : Descriptor) (set set' : RecordSet) (left grown : Pool),
      a.mainClass = some "a.B" ∧ b.mainClass = some "c.D" ∧
      (((encode a).run .empty).run #[]).1 = (.ok set, left) ∧
      set.get? .mainClass = some [0, 2] ∧ left.symbols = [.utf8 "a/B", .classOf "a/B"] ∧
      (((encode b).run left).run #[]).1 = (.ok set', grown) ∧
      set'.get? .mainClass = some [0, 4] ∧
      grown.symbols = [.utf8 "a/B", .classOf "a/B", .utf8 "c/D", .classOf "c/D"] ∧
      (set.decode "m" left none).result .empty #[] = .ok before ∧
      before.mainClass = some "a.B" ∧
      (set.decode "m" grown none).result .empty #[] = .ok after ∧
      after.untagged = before.untagged ∧
      (set.decode "n" left none).result .empty #[] = .ok other ∧ other.mainClass = some "a.B" ∧
      (set.decode "n" grown none).result .empty #[] = .ok other' ∧
      other'.untagged = other.untagged := by
  let named (name : String) : Builder := { Builder.new "m" none with mainClass := some name }
  have buildable (name : String) : (named name).descriptor.Buildable :=
    ⟨named name, .of_run (.new "m" none) (.mainClass name) trivial rfl, #[], rfl⟩
  have needed (name : String) : (named name).descriptor.needed =
      [.utf8 (Name.internal name), .classOf (Name.internal name)] := rfl
  have small : Pool.empty.symbols.length + (named "a.B").descriptor.needed.length ≤
      countLimit := by
    rw [needed]
    decide
  have internalA : Name.internal "a.B" = "a/B" := by decide +kernel
  have internalB : Name.internal "c.D" = "c/D" := by decide +kernel
  obtain ⟨set, left, encoded, reachable, symbols, records⟩ :=
    exists_encode (named "a.B").descriptor .empty small #[]
  have symbols : left.symbols = [.utf8 "a/B", .classOf "a/B"] := by
    rw [symbols, needed, internalA]
    rfl
  have small' : left.symbols.length + (named "c.D").descriptor.needed.length ≤ countLimit := by
    rw [symbols, needed]
    decide
  obtain ⟨set', grown, encoded', reachable', symbols', records'⟩ :=
    exists_encode (named "c.D").descriptor reachable small' #[]
  have symbols' : grown.symbols = [.utf8 "a/B", .classOf "a/B", .utf8 "c/D", .classOf "c/D"] := by
    rw [symbols', symbols, needed, internalB]
    decide
  have number : left.classNumber "a.B" = 2 := by
    rw [Pool.classNumber, internalA, Pool.indexOf, symbols]
    decide
  have number' : grown.classNumber "c.D" = 4 := by
    rw [Pool.classNumber, internalB, Pool.indexOf, symbols']
    decide
  have grows : left.GrowsTo grown := by
    have step := Pool.GrowsTo.encode (named "c.D").descriptor #[] (.refl : left.GrowsTo left)
    rwa [encoded'] at step
  have written {decoded : Descriptor} {name : String}
      (normal : decoded.untagged = ({ (named "a.B").descriptor with name }).normalize.untagged) :
      decoded.mainClass = some "a.B" :=
    (congrArg Descriptor.mainClass normal).trans
      (show some (Name.dotted "a.B") = some "a.B" by decide +kernel)
  have decodes (name : String) := (records.decode_spec_of_name (buildable "a.B").wellFormed name
    none).exists_ok VersionStore.sound_empty #[]
  obtain ⟨before, after, decoded, decoded', same⟩ := (decode_of_growsTo .empty).2 _ #[] set left
    (buildable "a.B") encoded grown grows none .empty .empty .empty .empty #[] #[]
  obtain ⟨before', decoded₁, normal⟩ := decodes "m"
  obtain rfl := Except.ok.inj (decoded.symm.trans decoded₁)
  obtain ⟨other, decoded₂, normal'⟩ := decodes "n"
  have kept := (decode_of_growsTo reachable).1 grown grows set "n" none .empty .empty .empty .empty
    #[] #[]
  rw [decoded₂] at kept
  obtain ⟨other', decoded₃, same'⟩ := kept
  refine ⟨_, _, before, after, other, other', set, set', left, grown, rfl, rfl, encoded, ?_,
    symbols, encoded', ?_, symbols', decoded, written normal, decoded', same, decoded₂,
    written normal', decoded₃, same'⟩
  · rw [records.get?_mainClass reachable.closed rfl, number]
    rfl
  · rw [records'.get?_mainClass reachable'.closed rfl, number']
    rfl

end RecordSet

end DescriptorCodec
