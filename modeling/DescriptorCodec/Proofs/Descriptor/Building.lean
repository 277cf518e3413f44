import DescriptorCodec.Proofs.Descriptor.Normalize

/-!
# What a builder can build

A builder is reached from a new one by successful calls of its setters; a call that fails leaves
the builder as it was. Versions enter by being parsed, through the builder's own cache or by
whoever hands them over, and the caches may hold anything that was parsed before. Every descriptor
built on the way is well formed.
-/

namespace DescriptorCodec

namespace Builder

/-- A call of a setter. -/
inductive Call where
  | isOpen (value : Bool)
  | isAutomatic (value : Bool)
  | isSynthetic (value : Bool)
  | requires (requires : List Requires)
  | exports (exports : List PackageAccess)
  | opens (opens : List PackageAccess)
  | packages (packages : List String)
  | uses (uses : List String)
  | provides (provides : List Provides)
  | version (text : String)
  | sharedVersion (version : SharedVersion)
  | mainClass (name : String)
  | osName (name : String)
  | osArch (arch : String)
  | osVersion (version : String)
  | algorithm (algorithm : String)
  | hash (name hash : String)

namespace Call

def run (builder : Builder) : Call → CacheM Builder
  | .isOpen value => pure (builder.setOpen value)
  | .isAutomatic value => pure (builder.setAutomatic value)
  | .isSynthetic value => pure (builder.setSynthetic value)
  | .requires rows => pure (builder.setRequires rows)
  | .exports rows => pure (builder.setExports rows)
  | .opens rows => pure (builder.setOpens rows)
  | .packages names => pure (builder.setPackages names)
  | .uses names => pure (builder.setUses names)
  | .provides rows => pure (builder.setProvides rows)
  | .version text => builder.setVersion text
  | .sharedVersion shared => MonadExcept.ofExcept (builder.setSharedVersion shared)
  | .mainClass name => MonadExcept.ofExcept (builder.setMainClass name)
  | .osName name => MonadExcept.ofExcept (builder.setOsName name)
  | .osArch arch => MonadExcept.ofExcept (builder.setOsArch arch)
  | .osVersion text => MonadExcept.ofExcept (builder.setOsVersion text)
  | .algorithm name => pure (builder.setAlgorithm name)
  | .hash name value => pure (builder.addHash name value)

/-- A version that is handed over has been parsed. -/
def Proper : Call → Prop
  | .sharedVersion shared => Version.parse shared.version.source = .ok shared.version
  | _ => True

end Call

/-- The builders that successful calls make of a new one. -/
inductive Reachable : Builder → Prop
  | new (name : String) (cache : Option CacheId) : Reachable (new name cache)
  | call {builder builder' : Builder} (h : Reachable builder) (call : Call) (proper : call.Proper)
      {store : VersionStore} (parsed : store.Reachable) {log : Array Event}
      (ok : (call.run builder).result store log = .ok builder') : Reachable builder'

/-- A call that does not fail, whatever the caches hold. -/
theorem Reachable.of_run {builder builder' : Builder} (h : builder.Reachable) (call : Call)
    (proper : call.Proper) (run : call.run builder = pure builder') : builder'.Reachable := by
  have ok : (call.run builder).result .empty #[] = .ok builder' :=
    congrArg (·.result .empty #[]) run
  exact .call h call proper .empty ok

/-- The version of the builder is what its text is parsed to, and its services are looked up by the
names that are in their entries. -/
structure WellFormed (builder : Builder) : Prop where
  version : ∀ shared, builder.version = some shared →
    Version.parse shared.version.source = .ok shared.version
  keyed : builder.provides.KeyedBy Provides.service

theorem wellFormed_new (name : String) (cache : Option CacheId) : (new name cache).WellFormed where
  version _ given := by cases given
  keyed := OrderedMap.keyedBy_empty

theorem once_eq_ok {α : Type} {field : ScalarField} {present : Option α} {value : α}
    {set : Option α} (h : once field present value = .ok set) : set = some value := by
  cases present with
  | none =>
      cases h
      rfl
  | some present => cases h

/-- A setter that assigns one field gives the builder with that field assigned. -/
theorem assign_eq_ok {α : Type} {assigned : Except Error (Option α)} {update : Option α → Builder}
    {builder' : Builder} (h : (assigned >>= fun value => pure (update value)) = .ok builder') :
    ∃ value, assigned = .ok value ∧ builder' = update value := by
  cases assigned with
  | ok value =>
      cases h
      exact ⟨value, rfl, rfl⟩
  | error e => cases h

section Calls

variable {builder builder' : Builder}

theorem WellFormed.setSharedVersion (wellFormed : builder.WellFormed) {shared : SharedVersion}
    (parsed : Version.parse shared.version.source = .ok shared.version)
    (h : builder.setSharedVersion shared = .ok builder') : builder'.WellFormed := by
  obtain ⟨version, set, rfl⟩ := assign_eq_ok h
  refine ⟨fun given same => ?_, wellFormed.keyed⟩
  rw [once_eq_ok set] at same
  cases same
  exact parsed

theorem WellFormed.assign {α : Type} (wellFormed : builder.WellFormed)
    {assigned : Except Error (Option α)} {update : Option α → Builder}
    (h : (assigned >>= fun value => pure (update value)) = .ok builder')
    (version : ∀ value, (update value).version = builder.version)
    (provides : ∀ value, (update value).provides = builder.provides) : builder'.WellFormed := by
  obtain ⟨value, -, rfl⟩ := assign_eq_ok h
  exact ⟨version value ▸ wellFormed.version, provides value ▸ wellFormed.keyed⟩

theorem WellFormed.setVersion (wellFormed : builder.WellFormed) (text : String) :
    (builder.setVersion text).Spec WellFormed fun _ => True := by
  unfold Builder.setVersion
  cases builder.version with
  | some version => exact CacheM.Spec.throw trivial
  | none =>
      have parse : (SharedVersion.parse builder.cache text).Spec
          (fun shared => Version.parse text = .ok shared.version) fun _ => True :=
        (SharedVersion.parse_spec builder.cache text).mono (fun _ parsed => parsed)
          fun _ _ => trivial
      refine parse.bind fun shared parsed => ?_
      have source := Version.source_of_parse parsed
      refine CacheM.Spec.ofExcept (fun builder' ok => ?_) fun _ _ => trivial
      exact wellFormed.setSharedVersion (by rw [source, parsed]) ok

/-- A setter that cannot fail leaves the builder well formed unless it sets the services, which are
then entered under their names. -/
theorem WellFormed.call (wellFormed : builder.WellFormed) (call : Call) (proper : call.Proper) :
    (call.run builder).Spec WellFormed fun _ => True := by
  cases call with
  | version text => exact wellFormed.setVersion text
  | sharedVersion shared =>
      exact CacheM.Spec.ofExcept (fun _ ok => wellFormed.setSharedVersion proper ok)
        fun _ _ => trivial
  | mainClass name =>
      exact CacheM.Spec.ofExcept (fun _ ok => wellFormed.assign ok (fun _ => rfl) fun _ => rfl)
        fun _ _ => trivial
  | osName name =>
      exact CacheM.Spec.ofExcept (fun _ ok => wellFormed.assign ok (fun _ => rfl) fun _ => rfl)
        fun _ _ => trivial
  | osArch arch =>
      exact CacheM.Spec.ofExcept (fun _ ok => wellFormed.assign ok (fun _ => rfl) fun _ => rfl)
        fun _ _ => trivial
  | osVersion version =>
      exact CacheM.Spec.ofExcept (fun _ ok => wellFormed.assign ok (fun _ => rfl) fun _ => rfl)
        fun _ _ => trivial
  | provides rows =>
      exact CacheM.Spec.pure ⟨wellFormed.version, OrderedMap.keyedBy_keyBy Provides.service rows⟩
  | _ => exact CacheM.Spec.pure ⟨wellFormed.version, wellFormed.keyed⟩

theorem Reachable.wellFormed (h : builder.Reachable) : builder.WellFormed := by
  induction h with
  | new name cache => exact wellFormed_new name cache
  | call _ call proper store ok ih =>
      exact (ih.call call proper).of_ok store.sound ok

theorem WellFormed.descriptor (wellFormed : builder.WellFormed) :
    builder.descriptor.WellFormed where
  version := wellFormed.version
  keyed := wellFormed.keyed
  osName _ given := Platform.nonempty_of_specified given
  osArch _ given := Platform.nonempty_of_specified given
  osVersion _ given := Platform.nonempty_of_specified given

end Calls

theorem value_build (builder : Builder) (log : Array Event) :
    (builder.build.run log).1 = builder.descriptor := by
  unfold build
  rcases builder.algorithm with _ | algorithm
  · rcases builder.hashes with _ | hashes
    · rfl
    · rfl
  · rfl

end Builder

namespace Descriptor

/-- Some builder builds the descriptor. -/
def Buildable (descriptor : Descriptor) : Prop :=
  ∃ builder : Builder, builder.Reachable ∧ ∃ log, (builder.build.run log).1 = descriptor

theorem Buildable.wellFormed {descriptor : Descriptor} (h : descriptor.Buildable) :
    descriptor.WellFormed := by
  obtain ⟨builder, reachable, log, rfl⟩ := h
  rw [Builder.value_build]
  exact reachable.wellFormed.descriptor

end Descriptor

end DescriptorCodec
