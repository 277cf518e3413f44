import DescriptorCodec.Proofs.Record.Extent
import DescriptorCodec.Proofs.Record.Room
import DescriptorCodec.Proofs.RecordSet.Failure

/-!
# Records that are cut off or go on

A record of any kind is read first, and what is read decides all the rest: whether the text of a
version can be parsed is asked only when the record has been read. So a record that is cut off is
out of bounds, whatever the caches hold, and nothing has happened by then. Bytes behind the last
word are never looked at. A record that was encoded has no such bytes, for any pool in which it
can be decoded.
-/

namespace DescriptorCodec

open Record

namespace Attribute

/-- Decoding a record of the kind is reading it, in a format of its own, and going on with what
was read. All layouts of the kind can be read. -/
structure ReadBy {α : Type} (kind : AttributeKind) (reading : Reading α) (pieces : List Piece) :
    Prop where
  decode : ∃ next : Option CacheId → α → CacheM Attribute, ∀ record pool cache,
    decode kind record pool cache = read reading pool record >>= next cache
  keeps : ∀ pool : Pool, pool.Grounded → reading.Keeps pool pieces
  reads : ∀ attr : Attribute, attr.kind = kind → ∃ value, reading.Reads attr.layout value

theorem exists_readBy (kind : AttributeKind) :
    ∃ (α : Type) (reading : Reading α) (pieces : List Piece), ReadBy kind reading pieces := by
  cases kind with
  | module =>
      refine ⟨_, ModuleTables.reading, _, ⟨_, fun _ _ _ => map_eq_pure_bind _ _⟩,
        fun _ grounded => ModuleTables.reading_keeps grounded, fun attr own => ?_⟩
      cases attr <;> cases own
      next tables => exact ⟨_, tables.reading_reads⟩
  | packages =>
      refine ⟨_, Reading.table (Reading.field .packageName), _, ⟨_, fun _ _ _ => rfl⟩,
        fun _ grounded => .table grounded (.field grounded .packageName), fun attr own => ?_⟩
      cases attr <;> cases own
      next names => exact ⟨_, .column "packages" .packageName names.toList⟩
  | version =>
      refine ⟨_, Reading.field .utf8, _, ⟨_, fun _ _ _ => rfl⟩,
        fun _ grounded => .field grounded .utf8, fun attr own => ?_⟩
      cases attr <;> cases own
      next shared => exact ⟨_, .ofField .utf8 shared.version.source⟩
  | mainClass =>
      refine ⟨_, Reading.field .className, _, ⟨_, fun _ _ _ => map_eq_pure_bind _ _⟩,
        fun _ grounded => .field grounded .className, fun attr own => ?_⟩
      cases attr <;> cases own
      next name => exact ⟨_, .ofField .className name⟩
  | targetPlatform =>
      refine ⟨_, readPlatform, _, ⟨_, fun _ _ _ => map_eq_pure_bind _ _⟩,
        fun _ grounded => readPlatform_keeps grounded, fun attr own => ?_⟩
      cases attr <;> cases own
      next platform => exact ⟨_, readPlatform_reads platform⟩
  | hashes =>
      refine ⟨_, readHashes, _, ⟨_, fun _ _ _ => map_eq_pure_bind _ _⟩,
        fun _ grounded => readHashes_keeps grounded, fun attr own => ?_⟩
      cases attr <;> cases own
      next table => exact ⟨_, readHashes_reads table⟩

variable {kind : AttributeKind} {pool : Pool} {record : Bytes}

/-- So many bytes of the record decide what it is decoded to, and none of them can be missing. -/
structure Extent (kind : AttributeKind) (pool : Pool) (record : Bytes) (length : Nat) : Prop where
  le : length ≤ record.length
  longer : ∀ other : Bytes, other.take length = record.take length → ∀ cache,
    decode kind other pool cache = decode kind record pool cache
  shorter : ∀ k < length, ∀ cache store log,
    (decode kind (record.take k) pool cache).exec store log = ((.error .outOfBounds, store), log)

namespace ReadBy

variable {α : Type} {reading : Reading α} {pieces : List Piece}

theorem exists_run (readBy : ReadBy kind reading pieces) {cache : Option CacheId}
    {store : VersionStore} {log : Array Event} {attr : Attribute}
    (decoded : (Attribute.decode kind record pool cache).result store log = .ok attr) :
    ∃ value left, reading.run pool record = .ok (value, left) := by
  obtain ⟨next, same⟩ := readBy.decode
  rw [same, CacheM.result, CacheM.exec_bind, read, CacheM.exec_ofExcept, Reading.decode] at decoded
  cases ran : reading.run pool record with
  | error e =>
      rw [ran] at decoded
      cases decoded
  | ok outcome => exact ⟨outcome.1, outcome.2, rfl⟩

/-- The bytes that the reading takes are what counts. -/
theorem extent (readBy : ReadBy kind reading pieces) {used left : Bytes} {value : α}
    (consumes : reading.Consumes pool used value) :
    Extent kind pool (used ++ left) used.length := by
  obtain ⟨next, same⟩ := readBy.decode
  have found (more : Bytes) : read reading pool (used ++ more) = pure value := by
    rw [read, Reading.decode, consumes.longer more]
    rfl
  refine ⟨?_, ?_, ?_⟩
  · rw [List.length_append]
    exact Nat.le_add_right _ _
  · intro other agrees cache
    rw [List.take_left] at agrees
    have front := List.take_append_drop used.length other
    rw [agrees] at front
    rw [← front, same, same, found, found]
  · intro k short cache store log
    rw [List.take_append_of_le_length (Nat.le_of_lt short), same, CacheM.exec_bind, read,
      CacheM.exec_ofExcept, Reading.decode, consumes.shorter k short]
    rfl

/-- A record that was written is read to its end, so it has two bytes for each step. -/
theorem length_of_written (readBy : ReadBy kind reading pieces) (grounded : pool.Grounded)
    {attr : Attribute} (own : attr.kind = kind) (written : Item.Written pool attr.layout record) :
    record.length = 2 * (steps (words record) pieces).length := by
  obtain ⟨value, reads⟩ := readBy.reads attr own
  have ran := reads.run written []
  rw [List.append_nil] at ran
  obtain ⟨used, whole, length, -⟩ := (readBy.keeps pool grounded).exists_consumes ran
  rw [List.append_nil] at whole
  rw [← length, whole]

end ReadBy

/-- A record that is decoded has a length that decides: what agrees with it so far is decoded
alike, and what is cut off before is out of bounds. For a record that was encoded, into any pool,
it is the whole length. -/
theorem exists_extent (reachable : pool.Reachable) {cache : Option CacheId} {store : VersionStore}
    {log : Array Event} {attr : Attribute}
    (decoded : (decode kind record pool cache).result store log = .ok attr) :
    ∃ length, Extent kind pool record length ∧
      ∀ (source : Attribute) (start left : Pool), source.kind = kind → start.Reachable →
        source.encode.exec start = (.ok record, left) → length = record.length := by
  obtain ⟨α, reading, pieces, readBy⟩ := exists_readBy kind
  obtain ⟨value, left, ran⟩ := readBy.exists_run decoded
  obtain ⟨used, rfl, length, consumes⟩ :=
    (readBy.keeps pool reachable.grounded).exists_consumes ran
  refine ⟨used.length, readBy.extent consumes, ?_⟩
  intro source start final own startReachable encoded
  obtain ⟨finalReachable, -⟩ := Item.encode_takes source.layout start startReachable
  obtain ⟨-, -, written⟩ := Item.encode_spec source.layout start startReachable.bounded
  rw [← encode, encoded] at finalReachable written
  rw [length]
  exact (readBy.length_of_written finalReachable.grounded own written).symm

/-- Without its last byte, the record of a main class is out of bounds; with a byte more, it is
decoded as it was. -/
theorem exists_extent_mainClass :
    ∃ (pool : Pool) (record : Bytes), pool.Reachable ∧
      (encode (.mainClass "a.B")).exec .empty = (.ok record, pool) ∧
      (decode .mainClass record pool none).result .empty #[] = .ok (.mainClass "a.B") ∧
      (decode .mainClass (record ++ [7]) pool none).result .empty #[] = .ok (.mainClass "a.B") ∧
      (decode .mainClass record.dropLast pool none).result .empty #[] = .error .outOfBounds := by
  obtain ⟨pool, encoded⟩ := exec_encode_mainClass_empty "a.B"
  obtain ⟨reachable, -⟩ := Item.encode_takes (layout (.mainClass "a.B")) .empty .empty
  obtain ⟨-, -, written⟩ := Item.encode_spec (layout (.mainClass "a.B")) .empty Pool.bounded_empty
  rw [← encode, encoded] at reachable written
  have decoded : (decode .mainClass [0, 2] pool none).result .empty #[] =
      .ok (.mainClass "a.B") := by
    have reads := Reading.Reads.ofField .className "a.B"
    rw [decode, read, reads.decode written]
    rfl
  obtain ⟨length, extent, whole⟩ := exists_extent reachable decoded
  obtain rfl := whole (.mainClass "a.B") .empty pool rfl .empty encoded
  refine ⟨pool, [0, 2], reachable, encoded, decoded, ?_, ?_⟩
  · rw [extent.longer ([0, 2] ++ [7]) rfl none]
    exact decoded
  · have cut := extent.shorter 1 (by decide) none .empty #[]
    exact congrArg (fun outcome => outcome.1.1) cut

end Attribute

end DescriptorCodec
