import Mathlib.Data.List.Induction
import DescriptorCodec.Proofs.Attribute.Applying

/-!
# Which calls decide a descriptor

A builder is called in any order, and some of the calls fail. Each of its settings is decided by the
calls for that setting alone: the last one of them if it is replaced each time, the first one with
a value if it is set once, and all of them if it collects what it is given.

`Builder.given` lists what the calls give for a setting, and `Builder.outcome` says from that what
comes of the next call. `Builder.ofCalls` is the builder that is put together from the lists; the
calls lead to it step by step, whatever caches the versions are parsed through.
-/

namespace DescriptorCodec

namespace Collection

theorem isNone_head? {α : Type} (values : List α) : values.head?.isNone = values.isEmpty := by
  cases values <;> rfl

variable {κ ν : Type} [BEq κ]

/-- One entry for each key, at the place of its first entry and with the value of its last. -/
def lastEntries (entries : List (κ × ν)) : List (κ × ν) :=
  (entries.map Prod.fst).eraseDups.filterMap fun key =>
    entries.reverse.find? fun entry => entry.1 == key

/-- Every key has a last entry. -/
theorem map_fst_lastEntries [LawfulBEq κ] (entries : List (κ × ν)) :
    (lastEntries entries).map Prod.fst = (entries.map Prod.fst).eraseDups := by
  rw [lastEntries, List.map_filterMap]
  refine (List.filterMap_congr fun key listed => ?_).trans List.filterMap_some
  obtain ⟨entry, member, rfl⟩ := List.mem_map.mp (List.mem_eraseDups.mp listed)
  cases found : entries.reverse.find? fun other => other.1 == entry.1 with
  | none =>
      have different := List.find?_eq_none.mp found entry (List.mem_reverse.mpr member)
      exact absurd (beq_self_eq_true entry.1) different
  | some last =>
      have own := List.find?_some found
      rw [Option.map_some, beq_iff_eq.mp own]

theorem find?_of_mem_lastEntries [LawfulBEq κ] {entries : List (κ × ν)} {entry : κ × ν}
    (member : entry ∈ lastEntries entries) :
    (entries.reverse.find? fun other => other.1 == entry.1) = some entry := by
  obtain ⟨key, -, found⟩ := List.mem_filterMap.mp member
  have own := List.find?_some found
  rwa [← beq_iff_eq.mp own] at found

theorem find?_reverse_key [LawfulBEq κ] (key : κ) (entries : List (κ × ν)) :
    (entries.reverse.find? fun entry => entry.1 == key) =
      (lastValue? key entries).map fun value => (key, value) := by
  induction entries with
  | nil => rfl
  | cons entry rest ih =>
      rw [List.reverse_cons, List.find?_append, ih, lastValue?_cons]
      cases lastValue? key rest with
      | some value => rfl
      | none =>
          by_cases own : entry.1 = key
          · subst own
            simp
          · simp [own]

end Collection

theorem OrderedMap.toList_ofList_eq {κ ν : Type} [BEq κ] [Hashable κ] [LawfulBEq κ]
    [LawfulHashable κ] (entries : List (κ × ν)) :
    (ofList entries).toList = Collection.lastEntries entries := by
  rw [toList_ofList, Collection.firstOccurrences_eq_eraseDups, Collection.lastEntries]
  exact List.filterMap_congr fun key _ => (Collection.find?_reverse_key key entries).symm

theorem Platform.specified_eq_filter (field : Option String) :
    specified field = field.filter (· ≠ "") := by
  unfold specified
  congr 1
  funext text
  rw [Bool.eq_iff_iff]
  simp

namespace Builder

/-- The settings of a builder, each of which has calls of its own. -/
inductive Setting where
  | isOpen
  | isAutomatic
  | isSynthetic
  | requires
  | exports
  | opens
  | packages
  | uses
  | provides
  | version
  | mainClass
  | osName
  | osArch
  | osVersion
  | algorithm
  | hashes
  deriving DecidableEq, Repr

abbrev Setting.Value : Setting → Type
  | isOpen | isAutomatic | isSynthetic => Bool
  | requires => List Requires
  | exports | opens => List PackageAccess
  | packages | uses => List String
  | provides => List Provides
  | version => Version
  | mainClass | osName | osArch | osVersion | algorithm => String
  | hashes => String × String

/-- The setting that errors name by its field. It is set once. -/
def Setting.ofField : ScalarField → Setting
  | .version => version
  | .mainClass => mainClass
  | .osName => osName
  | .osArch => osArch
  | .osVersion => osVersion

namespace Call

/-- What the call gives for the setting, if it is a call for it. A text that is no version gives
nothing. -/
def given? : (setting : Setting) → Call → Option setting.Value
  | .isOpen, isOpen value => some value
  | .isAutomatic, isAutomatic value => some value
  | .isSynthetic, isSynthetic value => some value
  | .requires, requires rows => some rows
  | .exports, exports rows => some rows
  | .opens, opens rows => some rows
  | .packages, packages names => some names
  | .uses, uses names => some names
  | .provides, provides rows => some rows
  | .version, version text => (Version.parse text).toOption
  | .version, sharedVersion shared => some shared.version
  | .mainClass, mainClass name => some name
  | .osName, osName name => some name
  | .osArch, osArch arch => some arch
  | .osVersion, osVersion text => some text
  | .algorithm, algorithm name => some name
  | .hashes, hash name value => some (name, value)
  | _, _ => none

/-- The field that the call sets, if it is one that is set once. -/
def field? : Call → Option ScalarField
  | version _ | sharedVersion _ => some .version
  | mainClass _ => some .mainClass
  | osName _ => some .osName
  | osArch _ => some .osArch
  | osVersion _ => some .osVersion
  | _ => none

/-- Whether the call can be answered at all, which only the text of a version can prevent. -/
def check : Call → Except Error Unit
  | version text => (Version.parse text).map fun _ => ()
  | _ => .ok ()

end Call

/-- What the calls give for a setting, in order. -/
def given (calls : List Call) (setting : Setting) : List setting.Value :=
  calls.filterMap (Call.given? setting)

/-- What comes of a call after others: a field that is set once and has been given a value refuses
any other, and looks at it only if it has not. -/
def outcome (calls : List Call) (call : Call) : Except Error Unit :=
  match call.field? with
  | none => .ok ()
  | some field =>
    if (given calls (.ofField field)).isEmpty then call.check else .error (.alreadySet field)

/-- The builder that is put together from what the calls give for each setting. -/
def ofCalls (name : String) (calls : List Call) : Builder where
  name := name
  cache := none
  isOpen := (given calls .isOpen).getLastD false
  isAutomatic := (given calls .isAutomatic).getLastD false
  isSynthetic := (given calls .isSynthetic).getLastD false
  requires := .ofList ((given calls .requires).getLastD [])
  exports := .ofList ((given calls .exports).getLastD [])
  opens := .ofList ((given calls .opens).getLastD [])
  packages := .ofList ((given calls .packages).getLastD [])
  uses := .ofList ((given calls .uses).getLastD [])
  provides := .keyBy Provides.service ((given calls .provides).getLastD [])
  version := (given calls .version).head?.map fun version => ⟨version, 0⟩
  mainClass := (given calls .mainClass).head?
  platform := ⟨(given calls .osName).head?, (given calls .osArch).head?,
    (given calls .osVersion).head?⟩
  algorithm := (given calls .algorithm).getLast?
  hashes :=
    if (given calls .hashes).isEmpty then none else some (given calls .hashes).toArray

theorem given_append_singleton (calls : List Call) (call : Call) (setting : Setting) :
    given (calls ++ [call]) setting = given calls setting ++ (call.given? setting).toList := by
  rw [given, List.filterMap_append, List.filterMap_cons]
  cases call.given? setting <;> rfl

theorem untagged_new (name : String) (cache : Option CacheId) :
    (new name cache).untagged = ofCalls name [] := rfl

/-! ### One call -/

/-- Whether a field that is set once is free. -/
def vacant (builder : Builder) : ScalarField → Bool
  | .version => builder.version.isNone
  | .mainClass => builder.mainClass.isNone
  | .osName => builder.platform.osName.isNone
  | .osArch => builder.platform.osArch.isNone
  | .osVersion => builder.platform.osVersion.isNone

namespace Call

/-- What comes of the call, given the builder. -/
def answer (builder : Builder) (call : Call) : Except Error Unit :=
  match call.field? with
  | none => .ok ()
  | some field => if builder.vacant field then call.check else .error (.alreadySet field)

/-- The builder with what the call gives, if that still counts. -/
def extend (builder : Builder) : Call → Builder
  | version text =>
    { builder with
      version := builder.version.or <|
        (Version.parse text).toOption.map fun version => ⟨version, 0⟩ }
  | sharedVersion shared => { builder with version := builder.version.or (some shared.untagged) }
  | mainClass name => { builder with mainClass := builder.mainClass.or (some name) }
  | osName name =>
    { builder with platform.osName := builder.platform.osName.or (some name) }
  | osArch arch =>
    { builder with platform.osArch := builder.platform.osArch.or (some arch) }
  | osVersion text =>
    { builder with platform.osVersion := builder.platform.osVersion.or (some text) }
  | isOpen value => builder.setOpen value
  | isAutomatic value => builder.setAutomatic value
  | isSynthetic value => builder.setSynthetic value
  | requires rows => builder.setRequires rows
  | exports rows => builder.setExports rows
  | opens rows => builder.setOpens rows
  | packages names => builder.setPackages names
  | uses names => builder.setUses names
  | provides rows => builder.setProvides rows
  | algorithm name => builder.setAlgorithm name
  | hash name value => builder.addHash name value

end Call

/-- What another call gives for its setting goes behind what the calls gave before. A field that is
set once has its first value still. -/
theorem ofCalls_append_singleton (name : String) (calls : List Call) (call : Call) :
    ofCalls name (calls ++ [call]) = call.extend (ofCalls name calls) := by
  cases call with
  | version text =>
      simp [ofCalls, given_append_singleton, Call.given?, Call.extend, Option.map_or]
  | sharedVersion shared =>
      cases earlier : given calls .version <;>
        simp [ofCalls, given_append_singleton, Call.given?, Call.extend, earlier,
          SharedVersion.untagged]
  | hash key value =>
      simp only [ofCalls, given_append_singleton, Call.given?, Call.extend, addHash]
      cases given calls .hashes <;> simp
  | _ =>
      simp [ofCalls, given_append_singleton, Call.given?, Call.extend, setOpen, setAutomatic,
        setSynthetic, setRequires, setExports, setOpens, setPackages, setUses, setProvides,
        setAlgorithm]

theorem vacant_untagged (builder : Builder) (field : ScalarField) :
    builder.untagged.vacant field = builder.vacant field := by
  cases field with
  | version => exact Option.isNone_map
  | _ => rfl

theorem vacant_ofCalls (name : String) (calls : List Call) (field : ScalarField) :
    (ofCalls name calls).vacant field = (given calls (.ofField field)).isEmpty := by
  cases field with
  | version =>
      rw [vacant, ofCalls, Setting.ofField, Option.isNone_map]
      exact Collection.isNone_head? _
  | _ => exact Collection.isNone_head? _

theorem answer_eq_outcome {builder : Builder} {name : String} {calls : List Call}
    (made : builder.untagged = ofCalls name calls) (call : Call) :
    call.answer builder = outcome calls call := by
  unfold Call.answer outcome
  cases call.field? with
  | none => rfl
  | some field =>
      dsimp only
      rw [← vacant_untagged, made, vacant_ofCalls]

/-- The action comes out as the call is answered, and leaves the builder with what the call gives.
A failure leaves the builder as it is, and then there is nothing that the call gives. -/
def Call.MetBy (call : Call) (builder : Builder) (action : CacheM Builder) : Prop :=
  action.Spec
    (fun made => call.answer builder = .ok () ∧ made.untagged = call.extend builder.untagged)
    fun e => call.answer builder = .error e ∧ builder.untagged = call.extend builder.untagged

/-- A setter of a field that is set once. The field has the value that was there first. -/
theorem metBy_once {α : Type} {builder : Builder} {call : Call} {field : ScalarField}
    {present : Option α} {value : α} {update : Option α → Builder}
    (names : call.field? = some field) (proper : call.check = .ok ())
    (free : builder.vacant field = present.isNone)
    (extended : call.extend builder.untagged = (update (present.or (some value))).untagged)
    (same : update present = builder) :
    call.MetBy builder (MonadExcept.ofExcept
      (once field present value >>= fun set => pure (update set))) := by
  rw [Call.MetBy, extended, Call.answer, names]
  dsimp only
  rw [free, proper]
  cases present with
  | none => exact CacheM.Spec.pure ⟨rfl, rfl⟩
  | some held => exact CacheM.Spec.throw ⟨rfl, congrArg untagged same.symm⟩

/-- The text of a version is looked at only if there is no version yet. -/
theorem metBy_setVersion (builder : Builder) (text : String) :
    (Call.version text).MetBy builder (builder.setVersion text) := by
  unfold setVersion
  cases held : builder.version with
  | some shared =>
      refine CacheM.Spec.throw ⟨?_, ?_⟩
      · simp [Call.answer, Call.field?, vacant, held]
      · simp [Call.extend, untagged, held]
  | none =>
      have answered : (Call.version text).answer builder =
          (Version.parse text).map fun _ => () := by
        simp [Call.answer, Call.field?, vacant, Call.check, held]
      have extended : (Call.version text).extend builder.untagged =
          { builder.untagged with
            version := (Version.parse text).toOption.map fun version => ⟨version, 0⟩ } := by
        simp [Call.extend, untagged, held]
      rw [Call.MetBy, answered, extended]
      refine ((SharedVersion.parse_spec builder.cache text).mono (fun _ parsed => parsed)
        fun e failed => ?_).bind fun shared parsed => ?_
      · rw [failed]
        exact ⟨rfl, by simp [untagged, held, Except.toOption]⟩
      · have set : builder.setSharedVersion shared =
            .ok { builder with version := some shared } := by
          rw [setSharedVersion, held]
          rfl
        rw [set, parsed]
        exact CacheM.Spec.pure ⟨rfl, rfl⟩

theorem metBy_run (builder : Builder) (call : Call) : call.MetBy builder (call.run builder) := by
  cases call with
  | version text => exact metBy_setVersion builder text
  | sharedVersion shared =>
      refine metBy_once rfl rfl rfl ?_ rfl
      cases held : builder.version <;> simp [Call.extend, untagged, held]
  | mainClass name => exact metBy_once rfl rfl rfl rfl rfl
  | osName name => exact metBy_once rfl rfl rfl rfl rfl
  | osArch arch => exact metBy_once rfl rfl rfl rfl rfl
  | osVersion text => exact metBy_once rfl rfl rfl rfl rfl
  | _ => exact CacheM.Spec.pure ⟨rfl, rfl⟩

/-! ### All calls -/

/-- A call, and what the caches hold and what has been reported when it is made. -/
structure Turn where
  call : Call
  store : VersionStore
  sound : store.Sound
  log : Array Event

namespace Turn

def result (builder : Builder) (turn : Turn) : Except Error Builder :=
  (turn.call.run builder).result turn.store turn.log

/-- The builder after the call, which is as before if the call failed. -/
def next (builder : Builder) (turn : Turn) : Builder :=
  match turn.result builder with
  | .ok made => made
  | .error _ => builder

theorem map_result (builder : Builder) (turn : Turn) :
    (turn.result builder).map (fun _ => ()) = turn.call.answer builder := by
  have outcome := (metBy_run builder turn.call turn.store turn.sound turn.log).2
  unfold result
  split at outcome
  · next made same => rw [same, outcome.1, Except.map]
  · next e same => rw [same, outcome.1, Except.map]

theorem untagged_next (builder : Builder) (turn : Turn) :
    (turn.next builder).untagged = turn.call.extend builder.untagged := by
  have outcome := (metBy_run builder turn.call turn.store turn.sound turn.log).2
  unfold next result
  split at outcome
  · next made same =>
    rw [same]
    exact outcome.2
  · next e same =>
    rw [same]
    exact outcome.2

end Turn

def after (builder : Builder) (turns : List Turn) : Builder :=
  turns.foldl Turn.next builder

theorem after_append_singleton (builder : Builder) (turns : List Turn) (turn : Turn) :
    builder.after (turns ++ [turn]) = turn.next (builder.after turns) := by
  rw [after, List.foldl_append]
  rfl

/-- The induction takes the last call off. -/
theorem untagged_after (name : String) (cache : Option CacheId) (turns : List Turn) :
    ((new name cache).after turns).untagged = ofCalls name (turns.map Turn.call) := by
  induction turns using List.reverseRecOn with
  | nil => exact untagged_new name cache
  | append_singleton turns turn ih =>
      rw [after_append_singleton, Turn.untagged_next, ih, List.map_append]
      exact (ofCalls_append_singleton name _ turn.call).symm

/-- What the calls say the descriptor is, up to the ticket of its version. -/
structure Settled (name : String) (calls : List Call) (descriptor : Descriptor) : Prop where
  name : descriptor.name = name
  isOpen : descriptor.isOpen = (given calls .isOpen).getLastD false
  isAutomatic : descriptor.isAutomatic = (given calls .isAutomatic).getLastD false
  isSynthetic : descriptor.isSynthetic = (given calls .isSynthetic).getLastD false
  requires : descriptor.requires.toList = ((given calls .requires).getLastD []).eraseDups
  exports : descriptor.exports.toList = ((given calls .exports).getLastD []).eraseDups
  opens : descriptor.opens.toList = ((given calls .opens).getLastD []).eraseDups
  packages : descriptor.packages.toList = ((given calls .packages).getLastD []).eraseDups
  uses : descriptor.uses.toList = ((given calls .uses).getLastD []).eraseDups
  provides : descriptor.provides.toList =
    Collection.lastEntries (((given calls .provides).getLastD []).map fun entry =>
      (entry.service, entry))
  version : descriptor.version.map SharedVersion.version = (given calls .version).head?
  mainClass : descriptor.mainClass = (given calls .mainClass).head?
  osName : descriptor.platform.osName = (given calls .osName).head?.filter (· ≠ "")
  osArch : descriptor.platform.osArch = (given calls .osArch).head?.filter (· ≠ "")
  osVersion : descriptor.platform.osVersion = (given calls .osVersion).head?.filter (· ≠ "")
  hashes : (descriptor.hashes.map fun hashes => (hashes.algorithm, hashes.entries.toList)) =
    (given calls .algorithm).getLast?.map fun algorithm =>
      (algorithm, Collection.lastEntries (given calls .hashes))

theorem settled_ofCalls (name : String) (calls : List Call) :
    Settled name calls (ofCalls name calls).descriptor where
  name := rfl
  isOpen := rfl
  isAutomatic := rfl
  isSynthetic := rfl
  requires := Collection.firstOccurrences_eq_eraseDups _
  exports := Collection.firstOccurrences_eq_eraseDups _
  opens := Collection.firstOccurrences_eq_eraseDups _
  packages := Collection.firstOccurrences_eq_eraseDups _
  uses := Collection.firstOccurrences_eq_eraseDups _
  provides := OrderedMap.toList_ofList_eq _
  version := by
    change Option.map _ (Option.map _ _) = _
    rw [Option.map_map]
    exact Option.map_id'
  mainClass := rfl
  osName := Platform.specified_eq_filter _
  osArch := Platform.specified_eq_filter _
  osVersion := Platform.specified_eq_filter _
  hashes := by
    have collected : ((ofCalls name calls).hashes.getD #[]).toList = given calls .hashes := by
      unfold ofCalls
      cases given calls .hashes <;> rfl
    rw [descriptor, finalHashes, collected, Option.map_map]
    refine Option.map_congr fun algorithm _ => ?_
    rw [Function.comp_apply, ModuleHashes.ofList, OrderedMap.toList_ofList_eq]

/-- Tickets do not matter. -/
theorem Settled.of_untagged {name : String} {calls : List Call} {descriptor : Descriptor}
    (settled : Settled name calls descriptor.untagged) : Settled name calls descriptor where
  __ := settled
  version := by
    rw [← settled.version, Descriptor.untagged, Option.map_map]
    rfl

theorem ofCalls_congr (name : String) {calls calls' : List Call}
    (same : ∀ setting, given calls setting = given calls' setting) :
    ofCalls name calls = ofCalls name calls' := by
  simp only [ofCalls, same]

/-- After any calls, made on a new builder whatever the caches hold each time, what comes of
another call and what is built are decided for each setting by the calls for it. So calls in
another order, through another cache, build the same descriptor if they give the same for each
setting, up to the ticket of its version. -/
theorem build_after (name : String) (cache : Option CacheId) (turns : List Turn) :
    let calls := turns.map Turn.call
    let builder := (new name cache).after turns
    (∀ turn : Turn, (turn.result builder).map (fun _ => ()) = outcome calls turn.call) ∧
    (∀ log, Settled name calls (builder.build.run log).1) ∧
    ∀ cache' turns', (∀ setting, given (turns'.map Turn.call) setting = given calls setting) →
      ∀ log log', ((((new name cache').after turns').build).run log').1.untagged =
        (builder.build.run log).1.untagged := by
  intro calls builder
  have made : builder.untagged = ofCalls name calls := untagged_after name cache turns
  refine ⟨fun turn => ?_, fun log => ?_, ?_⟩
  · rw [turn.map_result, answer_eq_outcome made]
  · rw [value_build]
    refine Settled.of_untagged ?_
    rw [← untagged_descriptor, made]
    exact settled_ofCalls name calls
  · intro cache' turns' same log log'
    have made' := untagged_after name cache' turns'
    rw [value_build, value_build, ← untagged_descriptor, ← untagged_descriptor, made, made',
      ofCalls_congr name same]

/-- A text that is no version leaves the field free and an empty one takes it, and an algorithm
counts for the hashes before it. -/
theorem build_after_interleaved :
    let turn (call : Call) : Turn := ⟨call, .empty, VersionStore.sound_empty, #[]⟩
    let calls : List Call := [.version "x", .osName "", .hash "a" "1", .version "1", .isOpen true,
      .algorithm "SHA-256", .hash "b" "2", .hash "a" "3"]
    let calls' : List Call := [.algorithm "SHA-256", .isOpen true, .hash "a" "1", .hash "b" "2",
      .version "1", .hash "a" "3", .osName ""]
    let builder := (new "m").after (calls.map turn)
    let builder' := (new "m" none).after (calls'.map turn)
    ((turn (.version "?")).result builder).map (fun _ => ()) = .error (.alreadySet .version) ∧
    ((turn (.osName "linux")).result builder).map (fun _ => ()) = .error (.alreadySet .osName) ∧
    (builder.build.run #[]).1.platform.osName = none ∧
    ((builder.build.run #[]).1.hashes.map fun hashes => hashes.entries.toList) =
      some [("a", "3"), ("b", "2")] ∧
    (∀ setting, given calls' setting = given calls setting) ∧
    (builder'.build.run #[]).1.untagged = (builder.build.run #[]).1.untagged := by
  intro turn calls calls' builder builder'
  have made (calls : List Call) : (calls.map turn).map Turn.call = calls := by
    rw [List.map_map]
    exact List.map_id' calls
  have same (setting : Setting) : given calls' setting = given calls setting := by
    cases setting <;> rfl
  obtain ⟨results, settled, alike⟩ := build_after "m" (some .shared) (calls.map turn)
  rw [made] at results settled alike
  refine ⟨results _, results _, (settled #[]).osName, ?_, same, ?_⟩
  · have hashes := congrArg (Option.map Prod.snd) (settled #[]).hashes
    rw [Option.map_map] at hashes
    exact hashes.trans (by decide)
  · exact alike none (calls'.map turn) (by rw [made]; exact same) #[] #[]

end Builder

end DescriptorCodec
