import DescriptorCodec.Proofs.Record.Steps
import DescriptorCodec.Proofs.RecordSet.RoundTrip

/-!
# How decoding a set fails

The records of a set are decoded in the order of their kinds, each of them word by word. So the
words of all records, taken in this order, are the steps of the whole set, and decoding fails as
the first step that fails. Nothing else can go wrong once the record of the tables is there: a
builder is given an attribute of a kind only once, so it never has one already.
-/

namespace DescriptorCodec

open Record

/-! ### The formats -/

/-- A row of a table of packages: the package, its flags and the table of its targets. -/
def Piece.access : List Piece :=
  [.one .text, .one .plain, .table [.one .text]]

/-- What the record of a kind is made of. -/
def AttributeKind.pieces : AttributeKind → List Piece
  | module => [.one .plain, .table [.one .text, .one .plain], .table Piece.access,
      .table Piece.access, .table [.one .className], .table [.one .className, .one .className]]
  | packages => [.table [.one .text]]
  | version => [.one .version]
  | mainClass => [.one .className]
  | targetPlatform => [.one .optionalText, .one .optionalText, .one .optionalText]
  | hashes => [.one .text, .table [.one .text, .one .text]]

def AttributeKind.steps (kind : AttributeKind) (record : Bytes) : List Step :=
  Record.steps (words record) kind.pieces

section Formats

variable {pool : Pool} (grounded : pool.Grounded)

include grounded

theorem ModuleTables.readRequires_keeps :
    readRequires.Keeps pool [.one .text, .one .plain] :=
  .bind (.field grounded .utf8) fun _ => .bind (.field grounded .word) fun _ => .done _

theorem ModuleTables.readAccess_keeps : readAccess.Keeps pool Piece.access :=
  .bind (.field grounded .packageName) fun _ => .bind (.field grounded .word) fun _ =>
    .bind (.table grounded (.field grounded .utf8)) fun _ => .done _

theorem ModuleTables.readProvides_keeps :
    readProvides.Keeps pool [.one .className, .one .className] :=
  .bind (.field grounded .className) fun _ => .bind (.field grounded .className) fun _ => .done _

theorem ModuleTables.reading_keeps : reading.Keeps pool AttributeKind.module.pieces := by
  refine .bind (.field grounded .word) fun flags => ?_
  refine .bind (.table grounded (readRequires_keeps grounded)) fun requires => ?_
  refine .bind (.table grounded (readAccess_keeps grounded)) fun exports => ?_
  refine .bind (.table grounded (readAccess_keeps grounded)) fun opens => ?_
  refine .bind (.table grounded (.field grounded .className)) fun uses => ?_
  exact .bind (.table grounded (readProvides_keeps grounded)) fun provides => .done _

theorem Attribute.readPlatform_keeps :
    readPlatform.Keeps pool AttributeKind.targetPlatform.pieces :=
  .bind (.field grounded .optionalUtf8) fun _ => .bind (.field grounded .optionalUtf8) fun _ =>
    .bind (.field grounded .optionalUtf8) fun _ => .done _

theorem Attribute.readHashes_keeps : readHashes.Keeps pool AttributeKind.hashes.pieces := by
  refine .bind (.field grounded .utf8) fun algorithm => ?_
  refine .bind (.table grounded ?_) fun entries => .done _
  exact .bind (.field grounded .utf8) fun _ => .bind (.field grounded .utf8) fun _ => .done _

end Formats

namespace Attribute

variable {pool : Pool} {kind : AttributeKind} {record : Bytes}

/-- What is made of a record. It is an attribute of the kind, unless a step of the record fails. -/
def Stepwise (pool : Pool) (kind : AttributeKind) (record : Bytes) (action : CacheM Attribute) :
    Prop :=
  action.Spec (fun attr => attr.kind = kind ∧ firstFault? pool (kind.steps record) = none)
    fun e => firstFault? pool (kind.steps record) = some e

theorem read_stepwise {α : Type} {reading : Reading α} (keeps : reading.Keeps pool kind.pieces)
    (make : α → Attribute) (own : ∀ value, (make value).kind = kind) :
    Stepwise pool kind record (make <$> read reading pool record) := by
  have same := keeps.errorOf_decode record
  have values : (read reading pool record).Spec
      (fun _ => firstFault? pool (kind.steps record) = none)
      fun e => firstFault? pool (kind.steps record) = some e := by
    apply CacheM.Spec.ofExcept
    · intro value decoded
      rw [decoded] at same
      exact same.symm
    · intro e decoded
      rw [decoded] at same
      exact same.symm
  exact values.map fun value none => ⟨own value, none⟩

/-- The text of a version is looked up first, and if that does not fail, it is parsed. -/
theorem firstFault?_version (pool : Pool) (record : Bytes) :
    firstFault? pool (AttributeKind.version.steps record) =
      match (Reading.field .utf8).decode pool record with
      | .ok text => versionFault? text
      | .error e => some e := by
  rw [Reading.decode_field, AttributeKind.steps, AttributeKind.pieces]
  cases words record with
  | nil => rfl
  | cons word words =>
      rw [steps, firstFault?_cons, steps_nil, Step.fault?_some]
      simp only [Role.fault?, Field.resolve, Pool.resolveUtf8]
      rcases pool.get? word with _ | ⟨text | _⟩
      · rfl
      · exact Option.or_none
      · rfl

theorem version_stepwise (cache : Option CacheId) :
    Stepwise pool .version record (decode .version record pool cache) := by
  have steps := firstFault?_version pool record
  have looked : (read (Reading.field .utf8) pool record).Spec
      (fun text => firstFault? pool (AttributeKind.version.steps record) = versionFault? text)
      fun e => firstFault? pool (AttributeKind.version.steps record) = some e := by
    apply CacheM.Spec.ofExcept
    · intro text decoded
      rw [steps, decoded]
    · intro e decoded
      rw [steps, decoded]
  refine looked.bind fun text same => ?_
  rw [versionFault?_eq] at same
  refine ((SharedVersion.parse_spec cache text).mono ?_ ?_).map fun shared none => ⟨rfl, none⟩
  · intro shared parsed
    rw [same, parsed]
    rfl
  · intro e parsed
    rw [same, parsed]
    rfl

theorem decode_stepwise (grounded : pool.Grounded) (kind : AttributeKind) (record : Bytes)
    (cache : Option CacheId) : Stepwise pool kind record (decode kind record pool cache) := by
  cases kind with
  | module => exact read_stepwise (ModuleTables.reading_keeps grounded) module fun _ => rfl
  | packages =>
      have keeps := Reading.Keeps.table grounded (.field grounded .packageName)
      exact read_stepwise keeps (fun names => packages (.ofList names)) fun _ => rfl
  | version => exact version_stepwise cache
  | mainClass => exact read_stepwise (.field grounded .className) mainClass fun _ => rfl
  | targetPlatform => exact read_stepwise (readPlatform_keeps grounded) targetPlatform fun _ => rfl
  | hashes => exact read_stepwise (readHashes_keeps grounded) hashes fun _ => rfl

end Attribute

namespace RecordSet

/-- The steps of the record of a kind, if the set has it. -/
def stepsOf (set : RecordSet) (kind : AttributeKind) : List Step :=
  (set.get? kind).elim [] kind.steps

/-- The steps of a set: those of its records, in the order of their kinds. -/
def steps (set : RecordSet) : List Step :=
  AttributeKind.all.flatMap set.stepsOf

/-- The error that decoding ends with, if it does. -/
def fault? (set : RecordSet) (pool : Pool) : Option Error :=
  match set.get? .module with
  | none => some (.missingAttribute .module)
  | some _ => firstFault? pool set.steps

variable {set : RecordSet} {pool : Pool}

theorem stepsOf_of_get? {kind : AttributeKind} {record : Bytes}
    (found : set.get? kind = some record) : set.stepsOf kind = kind.steps record := by
  rw [stepsOf, found]
  rfl

/-- The builder always waits for the kinds that are still to come, and their steps are all that
can still fail. -/
theorem decode_stepwise (grounded : pool.Grounded) (set : RecordSet) (name : String)
    (cache : Option CacheId) :
    (set.decode name pool cache).Spec (fun _ => set.fault? pool = none)
      fun e => set.fault? pool = some e := by
  unfold fault?
  cases module : set.get? .module with
  | none =>
      unfold decode
      rw [module]
      exact CacheM.Spec.throw rfl
  | some tables =>
      let inv (kinds : List AttributeKind) (builder : Builder) : Prop :=
        builder.Awaits kinds ∧
          firstFault? pool set.steps = firstFault? pool (kinds.flatMap set.stepsOf)
      have decoded : (set.decode name pool cache).Spec
          (fun descriptor => ∃ builder, inv [] builder ∧ descriptor = builder.descriptor)
          fun e => firstFault? pool set.steps = some e := by
        apply decode_spec
        · exact ⟨Builder.awaits_new _ _, rfl⟩
        · intro kind kinds builder absent holds
          obtain ⟨awaits, same⟩ := holds
          refine ⟨awaits.skip, ?_⟩
          rw [same, List.flatMap_cons, stepsOf, absent]
          rfl
        · intro kind kinds builder record found holds
          obtain ⟨awaits, same⟩ := holds
          -- The first step that fails is one of this record, or else one of those behind it.
          have ahead : firstFault? pool set.steps =
              (firstFault? pool (kind.steps record)).or
                (firstFault? pool (kinds.flatMap set.stepsOf)) := by
            rw [same, List.flatMap_cons, stepsOf_of_get? found, firstFault?, List.findSome?_append]
            rfl
          refine (Attribute.decode_stepwise grounded kind record cache).mono ?_ ?_
          · rintro attr ⟨rfl, none⟩
            obtain ⟨applied, awaits⟩ := awaits.apply
            refine ⟨_, applied, awaits, ?_⟩
            rw [ahead, none, Option.none_or]
          · intro e fault
            rw [ahead, fault, Option.some_or]
        · intro absent
          rw [module] at absent
          cases absent
      refine decoded.mono ?_ fun _ fault => fault
      rintro _ ⟨builder, ⟨-, none⟩, -⟩
      exact none

theorem errorOf_decode (reachable : pool.Reachable) {store : VersionStore}
    (parsed : store.Reachable) (set : RecordSet) (name : String) (cache : Option CacheId)
    (log : Array Event) :
    errorOf ((set.decode name pool cache).result store log) = set.fault? pool := by
  have outcome := (decode_stepwise reachable.grounded set name cache store parsed.sound log).2
  cases given : (set.decode name pool cache).result store log with
  | ok descriptor =>
      rw [given] at outcome
      exact outcome.symm
  | error e =>
      rw [given] at outcome
      exact outcome.symm

/-- Every step of a set looks at a word of one of its records, if at any. -/
theorem mem_words_of_mem_steps {step : Step} {word : UInt16} (member : step ∈ set.steps)
    (looks : step.word? = some word) :
    ∃ kind record, set.get? kind = some record ∧ word ∈ words record := by
  obtain ⟨kind, -, own⟩ := List.mem_flatMap.mp member
  cases found : set.get? kind with
  | none =>
      rw [stepsOf, found] at own
      cases own
  | some record =>
      rw [stepsOf_of_get? found] at own
      exact ⟨kind, record, found, Record.mem_words_of_mem_steps own looks⟩

/-- What a set fails with comes from its steps, if it has the record of the tables. -/
theorem fault?_eq_some_iff {e : Error} :
    set.fault? pool = some e ↔
      (set.get? .module = none ∧ e = .missingAttribute .module) ∨
      (set.get? .module ≠ none ∧ ∃ before step after, set.steps = before ++ step :: after ∧
        step.fault? pool = some e ∧ ∀ earlier ∈ before, earlier.fault? pool = none) := by
  unfold fault?
  cases set.get? .module with
  | none => simp [eq_comm]
  | some tables => simp [firstFault?, List.findSome?_eq_some_iff]

theorem fault?_ne_none_iff :
    set.fault? pool ≠ none ↔
      set.get? .module = none ∨ ∃ step ∈ set.steps, step.fault? pool ≠ none := by
  unfold fault?
  cases set.get? .module with
  | none => simp
  | some tables => simp [firstFault?, List.findSome?_eq_none_iff]

/-- The causes for which decoding a set can fail. -/
theorem fault?_cases {e : Error} (fault : set.fault? pool = some e) :
    e = .missingAttribute .module ∨ e = .outOfBounds ∨
      (∃ index expected, e = .invalidSymbol index expected ∧
        ∃ kind record, set.get? kind = some record ∧ index ∈ words record) ∨
      ∃ text reason, e = .invalidVersion text reason := by
  rcases fault?_eq_some_iff.mp fault with ⟨-, missing⟩ | ⟨-, before, step, after, all, fails, -⟩
  · exact .inl missing
  · right
    rcases Step.fault?_cases fails with bounds | ⟨index, expected, same, looks⟩ | version
    · exact .inl bounds
    · have member : step ∈ set.steps := by
        rw [all]
        exact List.mem_append_right _ List.mem_cons_self
      exact .inr (.inl ⟨index, expected, same, mem_words_of_mem_steps member looks⟩)
    · exact .inr (.inr version)

/-- Decoding a set fails exactly if the record of the tables is missing or a step fails, and then
with the error of the first step that fails. A field is never set twice and nothing is ever too
large, and an index that an error names is a word of one of the records. The texts at fault are
those that cannot be read part by part. -/
theorem decode_eq_error_iff (reachable : pool.Reachable) {store : VersionStore}
    (parsed : store.Reachable) (set : RecordSet) (name : String) (cache : Option CacheId)
    (log : Array Event) :
    let result := (set.decode name pool cache).result store log
    (∀ e, result = .error e ↔
      (set.get? .module = none ∧ e = .missingAttribute .module) ∨
      (set.get? .module ≠ none ∧ ∃ before step after, set.steps = before ++ step :: after ∧
        step.fault? pool = some e ∧ ∀ earlier ∈ before, earlier.fault? pool = none)) ∧
    ((∃ e, result = .error e) ↔
      set.get? .module = none ∨ ∃ step ∈ set.steps, step.fault? pool ≠ none) ∧
    (∀ field, result ≠ .error (.alreadySet field)) ∧
    (∀ what count, result ≠ .error (.limitExceeded what count)) ∧
    (∀ index expected, result = .error (.invalidSymbol index expected) →
      ∃ kind record, set.get? kind = some record ∧ index ∈ words record) ∧
    ∀ text, versionFault? text = none ↔ ∃ version, Version.split text = .ok version := by
  intro result
  have errors (e : Error) : result = .error e ↔ set.fault? pool = some e := by
    rw [← errorOf_decode reachable parsed set name cache log, errorOf_eq_some_iff]
  have causes {e : Error} (failed : result = .error e) := fault?_cases ((errors e).mp failed)
  refine ⟨fun e => ?_, ?_, fun field failed => ?_, fun what count failed => ?_,
    fun index expected failed => ?_, versionFault?_eq_none_iff⟩
  · rw [errors, fault?_eq_some_iff]
  · rw [← fault?_ne_none_iff, Option.ne_none_iff_exists']
    exact exists_congr errors
  · simpa using causes failed
  · simpa using causes failed
  · have occurs := causes failed
    simp only [reduceCtorEq, false_or, or_false, exists_false] at occurs
    obtain ⟨_, _, same, occurs⟩ := occurs
    cases same
    exact occurs

/-- A reference that points at nothing fails although words are missing behind it. -/
theorem decode_eq_error_dangling :
    ∃ (set : RecordSet) (index : UInt16), index ≠ 0 ∧
      (set.decode "m" .empty none).result .empty #[] = .error (.invalidSymbol index .utf8) := by
  let record : Bytes := [0, 0, 0, 1, 0, 9]
  let set : RecordSet := ⟨⟨[(.module, record)], List.pairwise_singleton _ _⟩⟩
  have errors := (decode_eq_error_iff .empty .empty set "m" none #[]).1
  refine ⟨set, 9, by decide, (errors _).mpr (.inr ⟨by decide, ?_⟩)⟩
  refine ⟨[⟨.plain, some 0⟩, ⟨.plain, some 1⟩], ⟨.text, some 9⟩, [⟨.plain, none⟩], rfl, rfl, ?_⟩
  intro earlier member
  simp only [List.mem_cons, List.not_mem_nil, or_false] at member
  rcases member with rfl | rfl <;> rfl

end RecordSet

end DescriptorCodec
