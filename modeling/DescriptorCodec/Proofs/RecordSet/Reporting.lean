import DescriptorCodec.Proofs.Record.Steps
import DescriptorCodec.Proofs.RecordSet.Feeding
import DescriptorCodec.Proofs.Version.Reporting

/-!
# What decoding and encoding a set report

Decoding reports a set if it has a record of the tables, and then the other records one by one in
the order of their kinds, each of them before it is decoded. So the last record that is reported is
the first that cannot be decoded, if there is one. Only the version is looked up in a cache, and it
is looked up before its text is parsed.

A builder can report that it drops hashes, but not here: the hashes that decoding hands to it come
with their algorithm.
-/

namespace DescriptorCodec

namespace Attribute

variable {pool : Pool} {cache : Option CacheId} {kind : AttributeKind} {record : Bytes}

def decodable (pool : Pool) (cache : Option CacheId) (store : VersionStore)
    (entry : AttributeKind × Bytes) : Bool :=
  ((decode entry.1 entry.2 pool cache).result store #[]).isOk

/-- The text that the first word of a record refers to. -/
def referredText? (pool : Pool) (record : Bytes) : Option String :=
  (Record.words record).head?.bind fun word => (pool.resolveUtf8 word).toOption

/-- The lines for decoding a record. A version is looked up if the record refers to a text. -/
def decodeLines (pool : Pool) (cache : Option CacheId) (store : VersionStore)
    (entry : AttributeKind × Bytes) : List Event.Line :=
  match entry.1, referredText? pool entry.2 with
  | .version, some text => store.lookupLines cache text
  | _, _ => []

/-- A record that is only read leaves the store and the log as they are. -/
theorem read_reports {α : Type} (reading : Reading α) (make : α → Attribute)
    (own : ∀ value, (make value).kind = kind) :
    ∃ outcome, (∀ store, (make <$> read reading pool record).Reports store outcome store []) ∧
      ∀ attr, outcome = .ok attr → attr.kind = kind := by
  refine ⟨(reading.decode pool record).map make,
    fun store => (CacheM.Reports.ofExcept rfl store).map make, ?_⟩
  intro attr made
  cases decoded : reading.decode pool record with
  | error e =>
      rw [decoded] at made
      cases made
  | ok value =>
      rw [decoded] at made
      cases made
      exact own value

theorem decode_reports_of_ne_version (other : kind ≠ .version) (record : Bytes) (pool : Pool)
    (cache : Option CacheId) :
    ∃ outcome, (∀ store, (decode kind record pool cache).Reports store outcome store []) ∧
      ∀ attr, outcome = .ok attr → attr.kind = kind := by
  cases kind with
  | module => exact read_reports ModuleTables.reading module fun _ => rfl
  | packages =>
      exact read_reports (Reading.table (Reading.field .packageName))
        (fun names => packages (.ofList names)) fun _ => rfl
  | version => exact absurd rfl other
  | mainClass => exact read_reports (Reading.field .className) mainClass fun _ => rfl
  | targetPlatform => exact read_reports readPlatform targetPlatform fun _ => rfl
  | hashes => exact read_reports readHashes hashes fun _ => rfl

theorem referredText?_eq (pool : Pool) (record : Bytes) :
    referredText? pool record = ((Reading.field .utf8).decode pool record).toOption := by
  rw [referredText?, Reading.decode_field]
  cases Record.words record with
  | nil => rfl
  | cons word words => rfl

/-- The lookup comes before the text is parsed, so it is reported in either case. -/
theorem decode_version_reports (record : Bytes) (pool : Pool) (cache : Option CacheId)
    (store : VersionStore) :
    ∃ outcome left,
      (decode .version record pool cache).Reports store outcome left
        (decodeLines pool cache store (.version, record)) ∧
      ∀ attr, outcome = .ok attr → attr.kind = .version := by
  rw [decodeLines, referredText?_eq]
  cases decoded : (Reading.field .utf8).decode pool record with
  | error e =>
      exact ⟨.error e, store, (CacheM.Reports.ofExcept decoded store).bind_error _, nofun⟩
  | ok text =>
      obtain ⟨outcome, left, parsed⟩ := SharedVersion.parse_reports cache text store
      have looked := CacheM.Reports.ofExcept decoded store
      refine ⟨outcome.map version, left, looked.bind (parsed.map version), ?_⟩
      intro attr made
      cases outcome with
      | error e => cases made
      | ok shared =>
          cases made
          rfl

/-- Decoding a record reports a lookup of its version at most. It makes no difference what the
caches hold, unless the record is that of the version. -/
theorem decode_reports (pool : Pool) (cache : Option CacheId) (entry : AttributeKind × Bytes)
    {store here : VersionStore} (same : entry.1 = .version → here = store) :
    ∃ outcome left,
      (decode entry.1 entry.2 pool cache).Reports here outcome left
        (decodeLines pool cache store entry) ∧
      outcome.isOk = decodable pool cache store entry ∧
      (entry.1 ≠ .version → left = here) ∧
      ∀ attr, outcome = .ok attr → attr.kind = entry.1 := by
  obtain ⟨kind, record⟩ := entry
  by_cases version : kind = .version
  · subst version
    obtain rfl := same rfl
    obtain ⟨outcome, left, reports, own⟩ := decode_version_reports record pool cache here
    refine ⟨outcome, left, reports, ?_, fun other => absurd rfl other, own⟩
    rw [decodable, reports.result_eq]
  · obtain ⟨outcome, reports, own⟩ := decode_reports_of_ne_version version record pool cache
    have none : decodeLines pool cache store (kind, record) = [] := by
      unfold decodeLines
      split
      · next text same _ => exact absurd same version
      · rfl
    refine ⟨outcome, here, none ▸ reports here, ?_, fun _ => rfl, own⟩
    rw [decodable, (reports store).result_eq]

end Attribute

/-- The builder has no hashes without an algorithm, and so none to drop. -/
def Builder.NothingToDrop (builder : Builder) : Prop :=
  builder.algorithm = none → builder.hashes = none

namespace Builder.NothingToDrop

variable {builder : Builder}

theorem give (h : builder.NothingToDrop) (attr : Attribute) :
    (builder.give attr).NothingToDrop := by
  cases attr with
  | module tables =>
      rw [NothingToDrop, Builder.give, ModuleTables.apply_eq]
      exact h
  | hashes table =>
      intro impossible
      cases impossible
  | _ => exact h

theorem build_reports (h : builder.NothingToDrop) (store : VersionStore) :
    CacheM.Reports (liftM builder.build) store (.ok builder.descriptor) store [] := by
  have silent (log : Array Event) : builder.build.run log = (builder.descriptor, log) := by
    unfold build
    cases named : builder.algorithm with
    | none =>
        rw [h named]
        rfl
    | some algorithm => rfl
  intro log
  change (Except.ok (builder.build.run log).1, store) = _ ∧
    linesOf (builder.build.run log).2 = _
  rw [silent, List.append_nil]
  exact ⟨rfl, rfl⟩

end Builder.NothingToDrop

namespace RecordSet

open Attribute (decodable)

variable {pool : Pool} {cache : Option CacheId} {store : VersionStore}

/-- The records that decoding gets to: all of them, or those up to the first that cannot be
decoded. -/
def attempted (pool : Pool) (cache : Option CacheId) (store : VersionStore)
    (records : List (AttributeKind × Bytes)) : List (AttributeKind × Bytes) :=
  records.takeWhile (decodable pool cache store) ++
    (records.dropWhile (decodable pool cache store)).take 1

/-- The lines for a record: that it is being decoded, and what decoding it reports. -/
def recordLines (name : String) (pool : Pool) (cache : Option CacheId) (store : VersionStore)
    (entry : AttributeKind × Bytes) : List Event.Line :=
  (.trace, "decoding attribute", [("module", .text name), ("attribute", .text entry.1.name),
    ("len", .number entry.2.length)]) :: Attribute.decodeLines pool cache store entry

def decodeLines (set : RecordSet) (name : String) (pool : Pool) (cache : Option CacheId)
    (store : VersionStore) : List Event.Line :=
  match set.get? .module with
  | none => []
  | some tables =>
    (.debug, "decoding module attributes", [("module", .text name),
      ("attributes", .number set.size)]) ::
    if decodable pool cache store (.module, tables) then
      (attempted pool cache store (set.byKind AttributeKind.all.tail)).flatMap
        (recordLines name pool cache store)
    else []

theorem attempted_cons_of_decodable {entry : AttributeKind × Bytes}
    (h : decodable pool cache store entry = true) (records : List (AttributeKind × Bytes)) :
    attempted pool cache store (entry :: records) =
      entry :: attempted pool cache store records := by
  rw [attempted, List.takeWhile_cons_of_pos h, List.dropWhile_cons_of_pos h]
  rfl

theorem attempted_cons_of_not_decodable {entry : AttributeKind × Bytes}
    (h : decodable pool cache store entry = false) (records : List (AttributeKind × Bytes)) :
    attempted pool cache store (entry :: records) = [entry] := by
  have failed : ¬ decodable pool cache store entry = true := by simp [h]
  rw [attempted, List.takeWhile_cons_of_neg failed, List.dropWhile_cons_of_neg failed]
  rfl

section Builder

variable {builder : Builder} {kind : AttributeKind} {kinds : List AttributeKind}
  {here : VersionStore}

/-- A builder that waits for a record takes what the record is decoded to. -/
theorem feed_reports (pool : Pool) (cache : Option CacheId) (record : Bytes)
    (awaits : builder.Awaits (kind :: kinds)) (nothing : builder.NothingToDrop)
    (same : kind = .version → here = store) :
    ∃ outcome left,
      (feed pool cache builder (kind, record)).Reports here outcome left
        (Attribute.decodeLines pool cache store (kind, record)) ∧
      outcome.isOk = decodable pool cache store (kind, record) ∧
      (kind ≠ .version → left = here) ∧
      ∀ fed, outcome = .ok fed → fed.Awaits kinds ∧ fed.NothingToDrop := by
  obtain ⟨outcome, left, decoded, success, kept, own⟩ :=
    Attribute.decode_reports pool cache (kind, record) same
  cases outcome with
  | error e =>
      refine ⟨.error e, left, decoded.bind_error _, success, kept, ?_⟩
      rintro _ ⟨⟩
  | ok attr =>
      obtain rfl := own attr rfl
      obtain ⟨applied, awaits'⟩ := awaits.apply
      refine ⟨.ok (builder.give attr), left, ?_, success, kept, ?_⟩
      · rw [← List.append_nil (Attribute.decodeLines _ _ _ _)]
        exact decoded.bind (CacheM.Reports.ofExcept applied left)
      · rintro _ ⟨⟩
        exact ⟨awaits', nothing.give attr⟩

theorem decodeKind_reports {set : RecordSet} {record : Bytes}
    (found : set.get? kind = some record) (name : String) (pool : Pool) (cache : Option CacheId)
    (awaits : builder.Awaits (kind :: kinds)) (nothing : builder.NothingToDrop)
    (same : kind = .version → here = store) :
    ∃ outcome left,
      (set.decodeKind name pool cache builder kind).Reports here outcome left
        (recordLines name pool cache store (kind, record)) ∧
      outcome.isOk = decodable pool cache store (kind, record) ∧
      (kind ≠ .version → left = here) ∧
      ∀ fed, outcome = .ok fed → fed.Awaits kinds ∧ fed.NothingToDrop := by
  obtain ⟨outcome, left, fed, rest⟩ := feed_reports pool cache record awaits nothing same
  refine ⟨outcome, left, ?_, rest⟩
  rw [decodeKind, found]
  exact (CacheM.Reports.event (.decodingRecord name kind record.length) here).bind fed

/-- As long as the version is still to come, the caches hold what they held at first. -/
theorem foldlM_decodeKind_reports (set : RecordSet) (name : String) (pool : Pool)
    (cache : Option CacheId) (awaits : builder.Awaits kinds) (nothing : builder.NothingToDrop)
    (same : .version ∈ kinds → here = store) :
    ∃ outcome left,
      CacheM.Reports (kinds.foldlM (set.decodeKind name pool cache) builder) here outcome left
        ((attempted pool cache store (set.byKind kinds)).flatMap
          (recordLines name pool cache store)) ∧
      outcome.isOk = (set.byKind kinds).all (decodable pool cache store) ∧
      ∀ fed, outcome = .ok fed → fed.NothingToDrop := by
  induction kinds generalizing builder here with
  | nil =>
      refine ⟨.ok builder, here, .pure builder here, rfl, ?_⟩
      rintro _ ⟨⟩
      exact nothing
  | cons kind kinds ih =>
      have later : .version ∈ kinds → here = store :=
        fun member => same (List.mem_cons_of_mem _ member)
      rw [List.foldlM_cons]
      cases found : set.get? kind with
      | none =>
          have skipped : set.byKind (kind :: kinds) = set.byKind kinds :=
            List.filterMap_cons_none (by rw [found]; rfl)
          obtain ⟨outcome, left, rest, all, last⟩ := ih awaits.skip nothing later
          rw [skipped, decodeKind, found]
          exact ⟨outcome, left, (CacheM.Reports.pure builder here).bind rest, all, last⟩
      | some record =>
          have first : set.byKind (kind :: kinds) = (kind, record) :: set.byKind kinds :=
            List.filterMap_cons_some (by rw [found]; rfl)
          obtain ⟨outcome, left, fed, success, kept, next⟩ :=
            decodeKind_reports found name pool cache awaits nothing
              fun version => same (version ▸ List.mem_cons_self)
          rw [first, List.all_cons, ← success]
          cases outcome with
          | error e =>
              rw [attempted_cons_of_not_decodable success.symm, List.flatMap_singleton]
              refine ⟨.error e, left, fed.bind_error _, rfl, ?_⟩
              rintro _ ⟨⟩
          | ok builder' =>
              obtain ⟨awaits', nothing'⟩ := next builder' rfl
              have other (member : .version ∈ kinds) : kind ≠ .version := by
                rintro rfl
                exact (List.nodup_cons.mp awaits.nodup).1 member
              obtain ⟨outcome, last, rest, all, final⟩ := ih awaits' nothing' fun member =>
                (kept (other member)).trans (later member)
              rw [attempted_cons_of_decodable success.symm, List.flatMap_cons]
              exact ⟨outcome, last, fed.bind rest, all, final⟩

end Builder

theorem decode_eq_feed {set : RecordSet} {tables : Bytes} (found : set.get? .module = some tables)
    (name : String) (pool : Pool) (cache : Option CacheId) :
    set.decode name pool cache = (do
      report (.decodingRecords name set.size)
      let builder ← feed pool cache (Builder.new name cache) (.module, tables)
      let builder ← AttributeKind.all.tail.foldlM (set.decodeKind name pool cache) builder
      builder.build) := by
  rw [decode, found]
  simp only [feed, bind_assoc]

/-- The hashes that decoding hands to the builder never have to be dropped, so building the
descriptor reports nothing. -/
theorem decode_reports (set : RecordSet) (name : String) (pool : Pool) (cache : Option CacheId)
    (store : VersionStore) :
    ∃ outcome left,
      (set.decode name pool cache).Reports store outcome left
        (set.decodeLines name pool cache store) ∧
      outcome.isOk = ((set.get? .module).isSome &&
        (set.byKind AttributeKind.all).all (decodable pool cache store)) := by
  rw [decodeLines]
  cases found : set.get? .module with
  | none =>
      rw [decode, found]
      refine ⟨.error (.missingAttribute .module), store, fun log => ?_, rfl⟩
      exact ⟨rfl, (List.append_nil _).symm⟩
  | some tables =>
      have first : set.byKind AttributeKind.all =
          (.module, tables) :: set.byKind AttributeKind.all.tail :=
        List.filterMap_cons_some (by rw [found]; rfl)
      have waits : (Builder.new name cache).Awaits (.module :: AttributeKind.all.tail) :=
        Builder.awaits_new name cache
      have start : (Builder.new name cache).NothingToDrop := fun _ => rfl
      have same : AttributeKind.module = .version → store = store := fun _ => rfl
      have announced := CacheM.Reports.event (.decodingRecords name set.size) store
      obtain ⟨outcome, left, fed, success, kept, next⟩ :=
        feed_reports pool cache tables waits start same
      rw [decode_eq_feed found, first, List.all_cons, Option.isSome_some, Bool.true_and]
      dsimp only
      rw [← success]
      cases outcome with
      | error e =>
          have failed : ¬ (Except.error e : Except Error Builder).isOk = true :=
            Bool.false_ne_true
          rw [if_neg failed]
          exact ⟨.error e, left, announced.bind (fed.bind_error _), rfl⟩
      | ok builder =>
          obtain ⟨awaits, nothing⟩ := next builder rfl
          obtain ⟨outcome, last, rest, all, final⟩ :=
            foldlM_decodeKind_reports set name pool cache awaits nothing fun _ => kept nofun
          have succeeded : (Except.ok builder : Except Error Builder).isOk = true := rfl
          rw [if_pos succeeded, ← all]
          cases outcome with
          | error e =>
              exact ⟨.error e, last, announced.bind (fed.bind (rest.bind_error _)), rfl⟩
          | ok builder =>
              have built := (final builder rfl).build_reports last
              refine ⟨.ok builder.descriptor, last, ?_, rfl⟩
              rw [← List.append_nil (List.flatMap _ _)]
              exact announced.bind (fed.bind (rest.bind built))

theorem message_of_mem_lookupLines {text : String} {line : Event.Line}
    (member : line ∈ store.lookupLines cache text) :
    line.2.1 ∈ ["version cache hit", "version cache miss"] := by
  unfold VersionStore.lookupLines at member
  split at member
  · cases member
  · split at member
    · cases List.mem_singleton.mp member
      simp
    · cases List.mem_singleton.mp member
      simp

/-- The messages that decoding a set can report. -/
theorem message_of_mem_decodeLines {set : RecordSet} {name : String} {line : Event.Line}
    (member : line ∈ set.decodeLines name pool cache store) :
    line.2.1 ∈ ["decoding module attributes", "decoding attribute", "version cache hit",
      "version cache miss"] := by
  unfold decodeLines at member
  split at member
  · cases member
  · rcases List.mem_cons.mp member with rfl | member
    · simp
    · split at member
      · obtain ⟨entry, -, member⟩ := List.mem_flatMap.mp member
        rcases List.mem_cons.mp member with rfl | member
        · simp
        · unfold Attribute.decodeLines at member
          split at member
          · exact List.mem_of_mem_tail (List.mem_of_mem_tail (message_of_mem_lookupLines member))
          · cases member
      · cases member

/-! ### Encoding -/

/-- Encoding reports a set when it is done, and nothing if it fails. -/
theorem linesOf_encode (descriptor : Descriptor) (pool : Pool) (log : Array Event) :
    linesOf (((encode descriptor).run pool).run log).2 = linesOf log ++
      match (((encode descriptor).run pool).run log).1.1 with
      | .ok set => [(.debug, "encoded module attributes",
          [("module", .text descriptor.name), ("attributes", .number set.size)])]
      | .error _ => [] := by
  unfold encode
  rw [ExceptT.run_mk]
  dsimp only
  generalize (ofDescriptor descriptor).run.run pool = execution
  rcases execution with ⟨_ | set, pool'⟩
  · exact (List.append_nil _).symm
  · exact linesOf_push log _

/-- A log tells what decoding did. Without a record of the tables there is nothing new in it.
Otherwise it has the number of records, and then, unless the record of the tables cannot be decoded,
the other records in the order of their kinds, up to the first that cannot be decoded; and the
lookup of the version, if there is a cache and a text to look up. Hashes are never dropped. Encoding
adds the number of records at the end, and nothing if it fails. -/
theorem linesOf_decode_and_encode (set : RecordSet) (name : String) (pool : Pool)
    (cache : Option CacheId) (store : VersionStore) (descriptor : Descriptor)
    (log : Array Event) :
    (linesOf ((set.decode name pool cache).exec store log).2 =
      linesOf log ++ set.decodeLines name pool cache store) ∧
    ((∃ decoded, (set.decode name pool cache).result store log = .ok decoded) ↔
      set.get? .module ≠ none ∧
        ∀ entry ∈ set.byKind AttributeKind.all, decodable pool cache store entry = true) ∧
    (∀ line ∈ set.decodeLines name pool cache store,
      line.2.1 ≠ "dropping module hashes without an algorithm") ∧
    let encoded := ((encode descriptor).run pool).run log
    linesOf encoded.2 = linesOf log ++
      match encoded.1.1 with
      | .ok set => [(.debug, "encoded module attributes",
          [("module", .text descriptor.name), ("attributes", .number set.size)])]
      | .error _ => [] := by
  obtain ⟨outcome, left, reports, success⟩ := decode_reports set name pool cache store
  refine ⟨(reports log).2, ?_, ?_, linesOf_encode descriptor pool log⟩
  · have done : (∃ decoded, outcome = .ok decoded) ↔ outcome.isOk = true := by
      cases outcome <;> simp [Except.isOk, Except.toBool]
    rw [reports.result_eq, done, success, Bool.and_eq_true, Option.isSome_iff_ne_none,
      List.all_eq_true]
  · intro line member dropped
    have known := message_of_mem_decodeLines member
    rw [dropped] at known
    exact absurd known (by decide)

/-- A version is looked up although its text cannot be parsed, and the record of hashes is not
reached. -/
theorem linesOf_decode_unreadable_version :
    ∃ (set : RecordSet) (pool : Pool),
      set.kinds = [.hashes, .version, .module] ∧
      linesOf ((set.decode "m" pool (some .shared)).exec .empty #[]).2 =
        [(.debug, "decoding module attributes", [("module", .text "m"), ("attributes", .number 3)]),
          (.trace, "decoding attribute",
            [("module", .text "m"), ("attribute", .text "Version"), ("len", .number 2)]),
          (.trace, "version cache miss", [("version", .text "")])] := by
  let pool := Pool.empty.push (.utf8 "") (by simp [Pool.empty])
  let tables : Bytes := [0, 0, 0, 0, 0, 0, 0, 0, 0, 0, 0, 0]
  let set : RecordSet := ⟨⟨[(.hashes, [0, 1, 0, 0]), (.version, [0, 1]), (.module, tables)],
    by simp [Collection.Distinct]⟩⟩
  refine ⟨set, pool, rfl, ?_⟩
  have first : decodable pool (some .shared) .empty (.module, tables) = true := rfl
  have version : decodable pool (some .shared) .empty (.version, [0, 1]) = false := by
    have means := (Attribute.decode_meaning pool (.version, [0, 1]) (some .shared) .empty
      VersionStore.sound_empty #[]).2
    unfold decodable
    split at means
    · cases means.2
    · next e failed =>
      rw [failed]
      rfl
  have present : set.byKind AttributeKind.all.tail =
      [(.version, [0, 1]), (.hashes, [0, 1, 0, 0])] := rfl
  have told := (linesOf_decode_and_encode set "m" pool (some .shared) .empty
    (Builder.new "m" none).descriptor #[]).1
  have missed : VersionStore.empty.lookupLines (some .shared) "" =
      [(.trace, "version cache miss", [("version", .text "")])] := by
    simp [VersionStore.lookupLines]
  have lines : recordLines "m" pool (some .shared) .empty (.version, [0, 1]) =
      (.trace, "decoding attribute",
        [("module", .text "m"), ("attribute", .text "Version"), ("len", .number 2)]) ::
      VersionStore.empty.lookupLines (some .shared) "" := rfl
  have module : set.get? .module = some tables := rfl
  rw [told, decodeLines, module, present, attempted_cons_of_not_decodable version]
  dsimp only
  rw [if_pos first, List.flatMap_singleton, lines, missed]
  rfl

end RecordSet

end DescriptorCodec
