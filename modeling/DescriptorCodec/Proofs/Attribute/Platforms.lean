import DescriptorCodec.Proofs.Attribute.RoundTrip
import DescriptorCodec.Proofs.Record.Room
import DescriptorCodec.Proofs.Record.Words

/-!
# Platform records

A platform record has a word for each of three texts, and the word is zero where nothing is said.
The empty text says nothing either, so a platform is written as its normal form is, and nothing
else is lost: the words of texts are references, which are not zero and differ for different
texts, however much the pool grows.
-/

namespace DescriptorCodec

namespace Platform

theorem isEmpty_iff {platform : Platform} : platform.isEmpty = true ↔ platform.normalize = any :=
  beq_iff_eq

/-- Only the empty text is left out. -/
theorem specified_cases (field : Option String) :
    specified field = field ∨ field = some "" ∧ specified field = none := by
  cases field with
  | none => exact .inl rfl
  | some text =>
      by_cases empty : text = ""
      · subst empty
        exact .inr ⟨rfl, rfl⟩
      · exact .inl (Option.filter_some_pos (by simpa using empty))

end Platform

namespace Field

/-- The empty text is written as no text is. -/
theorem intern_specified (text : Option String) :
    intern .optionalUtf8 (Platform.specified text) = intern .optionalUtf8 text := by
  rcases Platform.specified_cases text with same | ⟨rfl, nothing⟩
  · rw [same]
  · rw [nothing]
    rfl

theorem number_specified (pool : Pool) (text : Option String) :
    number pool .optionalUtf8 (Platform.specified text) = number pool .optionalUtf8 text := by
  rcases Platform.specified_cases text with same | ⟨rfl, nothing⟩
  · rw [same]
  · rw [nothing]
    rfl

end Field

namespace Attribute

variable {pool left : Pool} {platform other : Platform} {bytes : Bytes}

/-- A platform is written as its normal form is. -/
theorem encode_normalize (platform : Platform) :
    encode (.targetPlatform platform.normalize) = encode (.targetPlatform platform) := by
  have put (buffer : Buffer) (text : Option String) :
      Item.put buffer (.field .optionalUtf8 (Platform.specified text)) =
        Item.put buffer (.field .optionalUtf8 text) := by
    rw [Item.put, Item.put, Field.intern_specified]
  simp only [encode, layout, Platform.normalize, Item.encode, List.foldlM_cons, put]

/-- Nothing is written as zeros, and the pool is not asked for anything. -/
theorem exec_encode_of_isEmpty (empty : platform.isEmpty = true) (pool : Pool) :
    (encode (.targetPlatform platform)).exec pool = (.ok (List.replicate 6 0), pool) := by
  rw [← encode_normalize, Platform.isEmpty_iff.mp empty]
  rfl

/-- What was written refers to the pool that writing it leaves. -/
theorem written_of_exec_encode {attr : Attribute} (reachable : pool.Reachable)
    (done : (encode attr).exec pool = (.ok bytes, left)) :
    pool ≤ left ∧ left.Reachable ∧ Item.Written left attr.layout bytes := by
  obtain ⟨grown, -, written⟩ := Item.encode_spec attr.layout pool reachable.bounded
  obtain ⟨reachable', -⟩ := Item.encode_takes attr.layout pool reachable
  rw [encode] at done
  rw [done] at grown reachable' written
  exact ⟨grown, reachable', written⟩

theorem readPlatform_of_written
    (written : Item.Written pool (targetPlatform platform).layout bytes) :
    readPlatform.decode pool bytes = .ok platform.normalize :=
  (readPlatform_reads platform).decode written

theorem length_of_written (closed : pool.Closed)
    (written : Item.Written pool (targetPlatform platform).layout bytes) : bytes.length = 6 := by
  rw [(written.eq_ofWords closed).1]
  rfl

/-- In one pool two platforms have the same record exactly if they have the same normal form. -/
theorem eq_iff_of_written (closed : pool.Closed) {bytes' : Bytes}
    (written : Item.Written pool (targetPlatform platform).layout bytes)
    (written' : Item.Written pool (targetPlatform other).layout bytes') :
    bytes' = bytes ↔ other.normalize = platform.normalize := by
  constructor
  · rintro rfl
    have decoded := readPlatform_of_written written
    rw [readPlatform_of_written written'] at decoded
    exact Except.ok.inj decoded
  · intro same
    have words (platform : Platform) :
        (targetPlatform platform.normalize).layout.flatMap (Item.words pool) =
          (targetPlatform platform).layout.flatMap (Item.words pool) := by
      simp only [layout, Platform.normalize, List.flatMap_cons, Item.words, Field.number_specified]
    rw [(written.eq_ofWords closed).1, (written'.eq_ofWords closed).1, ← words other, same,
      words platform]

/-- A record of zeros says nothing, whatever pool it refers to. -/
theorem zeros_iff_of_written (reachable : pool.Reachable)
    (written : Item.Written pool (targetPlatform platform).layout bytes) :
    (∀ byte ∈ bytes, byte = 0) ↔ platform.isEmpty = true := by
  have nothing : Platform.any.isEmpty = true := rfl
  obtain ⟨-, -, zeros⟩ := written_of_exec_encode reachable (exec_encode_of_isEmpty nothing pool)
  have same := eq_iff_of_written reachable.closed zeros written
  rw [List.eq_replicate_iff] at same
  rw [Platform.isEmpty_iff]
  constructor
  · intro zero
    exact same.mp ⟨length_of_written reachable.closed written, zero⟩
  · intro nothing
    exact (same.mpr nothing).2

/-- A platform that says nothing is written as zeros, and the pool stays as it is. Whatever is
written, it is six bytes, which say the normal form of the platform while the pool grows. They are
zeros only if the platform says nothing. Another platform that is written after it has the same
bytes exactly if it has the same normal form. -/
theorem encode_targetPlatform (reachable : pool.Reachable) (platform : Platform) :
    (platform.isEmpty = true →
      (encode (.targetPlatform platform)).exec pool = (.ok (List.replicate 6 0), pool)) ∧
    ∀ bytes left, (encode (.targetPlatform platform)).exec pool = (.ok bytes, left) →
      bytes.length = 6 ∧
      (∀ larger cache, left ≤ larger →
        decode .targetPlatform bytes larger cache = pure (.targetPlatform platform.normalize)) ∧
      ((∀ byte ∈ bytes, byte = 0) ↔ platform.isEmpty = true) ∧
      ∀ other bytes' left', (encode (.targetPlatform other)).exec left = (.ok bytes', left') →
        (bytes' = bytes ↔ other.normalize = platform.normalize) := by
  refine ⟨fun empty => exec_encode_of_isEmpty empty pool, ?_⟩
  intro bytes left done
  obtain ⟨-, reachable', written⟩ := written_of_exec_encode reachable done
  constructor
  · exact length_of_written reachable'.closed written
  constructor
  · intro larger cache grown
    rw [decode, read, readPlatform_of_written (written.of_le grown)]
    rfl
  constructor
  · exact zeros_iff_of_written reachable' written
  · intro other bytes' left' done'
    obtain ⟨grown, reachable'', written'⟩ := written_of_exec_encode reachable' done'
    exact eq_iff_of_written reachable''.closed (written.of_le grown) written'

/-- Where the pool has room for the texts, writing a platform does not fail. -/
theorem exists_exec_encode (reachable : pool.Reachable) (platform : Platform)
    (room : (pool.symbols ++ (targetPlatform platform).layout.flatMap Item.symbols).eraseDups.length
      ≤ countLimit) :
    ∃ bytes left, (encode (.targetPlatform platform)).exec pool = (.ok bytes, left) ∧
      left.symbols =
        (pool.symbols ++ (targetPlatform platform).layout.flatMap Item.symbols).eraseDups := by
  obtain ⟨-, taken⟩ := Item.encode_takes (targetPlatform platform).layout pool reachable
  rw [encode]
  generalize (Item.encode (targetPlatform platform).layout).exec pool = execution at taken ⊢
  rcases execution with ⟨error | bytes, left⟩
  · rcases taken.2 with ⟨-, excess⟩ | ⟨count, member, -⟩
    · exact absurd room (Nat.not_le_of_lt excess)
    · exact absurd member List.not_mem_nil
  · exact ⟨bytes, left, rfl, taken.1⟩

/-- The same text for the name and the version of a system, and then an empty architecture. -/
theorem encode_targetPlatform_shared :
    ∃ bytes left, (encode (.targetPlatform ⟨some "x", none, some "x"⟩)).exec .empty =
        (.ok bytes, left) ∧
      bytes.length = 6 ∧ (¬ ∀ byte ∈ bytes, byte = 0) ∧
      ∃ left', (encode (.targetPlatform ⟨some "x", some "", some "x"⟩)).exec left =
        (.ok bytes, left') := by
  obtain ⟨-, laws⟩ := encode_targetPlatform .empty ⟨some "x", none, some "x"⟩
  obtain ⟨bytes, left, done, symbols⟩ :=
    exists_exec_encode .empty ⟨some "x", none, some "x"⟩ (by decide)
  obtain ⟨length, -, zeros, same⟩ := laws bytes left done
  obtain ⟨-, reachable, -⟩ := written_of_exec_encode .empty done
  obtain ⟨bytes', left', done', -⟩ :=
    exists_exec_encode reachable ⟨some "x", some "", some "x"⟩ (by rw [symbols]; decide)
  obtain rfl := (same _ bytes' left' done').mpr rfl
  exact ⟨bytes', left, done, length, fun zero => absurd (zeros.mp zero) (by decide), left', done'⟩

end Attribute

end DescriptorCodec
