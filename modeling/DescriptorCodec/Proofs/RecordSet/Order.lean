import DescriptorCodec.Proofs.Pool.Permanence
import DescriptorCodec.Proofs.RecordSet.Format
import DescriptorCodec.Proofs.RecordSet.RoundTrip

/-!
# Encoding several descriptors in any order

Descriptors that are encoded one after another into one pool take their symbols from it in that
order, and in another order they get other numbers. But a pool has room for symbols or not, in
whatever order they are asked for, and a table can be counted or not. So either all descriptors can
be encoded in any order, or there is a failure in every order.

If there is none, the pools that are left list the same symbols, each in its own order. Every
descriptor is decoded from its own records against the pool that is left in the end, and comes
back as its normal form, which no pool has a say in.
-/

namespace DescriptorCodec

namespace Pool

variable {pool : Pool}

theorem hasRoomFor_of_perm {needed needed' : List Symbol} (perm : needed.Perm needed') :
    pool.HasRoomFor needed ↔ pool.HasRoomFor needed' := by
  rw [HasRoomFor, HasRoomFor, (Collection.eraseDups_perm (perm.append_left _)).length_eq]

theorem exists_symbolAt?_iff (reachable : pool.Reachable) {symbol : Symbol} :
    (∃ index, pool.symbolAt? index = some symbol) ↔ symbol ∈ pool.symbols := by
  constructor
  · rintro ⟨index, points⟩
    exact mem_symbols_of_symbolAt? points
  · intro listed
    obtain ⟨-, small, points⟩ := reachable.closed.symbolAt?_iff reachable.bounded listed
    have value : (UInt16.ofNat (pool.indexOf symbol)).toNat = pool.indexOf symbol :=
      UInt16.toNat_ofNat_of_lt' (Nat.lt_of_le_of_lt small (by decide))
    exact ⟨_, (points _).mpr value⟩

/-- The texts that can be resolved are those that are listed. -/
theorem exists_resolveUtf8_iff (reachable : pool.Reachable) {text : String} :
    (∃ index, pool.resolveUtf8 index = .ok text) ↔ .utf8 text ∈ pool.symbols := by
  rw [← exists_symbolAt?_iff reachable]
  refine exists_congr fun index => ⟨fun resolved => ?_, fun points => (resolve_of_utf8 points).1⟩
  rw [symbolAt?, Field.resolveUtf8_eq_ok_iff.mp resolved]
  rfl

/-- The class names that can be resolved are those that are listed, in written form. -/
theorem exists_resolveClass_iff (reachable : pool.Reachable) {name : String} :
    (∃ index, pool.resolveClass index = .ok name) ↔
      ∃ stored, .classOf stored ∈ pool.symbols ∧ Name.dotted stored = name := by
  constructor
  · rintro ⟨index, resolved⟩
    unfold resolveClass at resolved
    split at resolved
    · next nameIndex found =>
      cases text : pool.resolveUtf8 nameIndex with
      | error e =>
          rw [text] at resolved
          cases resolved
      | ok stored =>
          rw [text] at resolved
          cases resolved
          refine ⟨stored, (exists_symbolAt?_iff reachable).mp ⟨index, ?_⟩, rfl⟩
          rw [symbolAt?, found]
          exact symbol?_classRef (Field.resolveUtf8_eq_ok_iff.mp text)
    · cases resolved
  · rintro ⟨stored, listed, rfl⟩
    obtain ⟨index, points⟩ := (exists_symbolAt?_iff reachable).mpr listed
    exact ⟨index, (resolve_of_classOf points).1⟩

end Pool

namespace RecordSet

/-- The first computation does what the second one does, and only reports besides. -/
def Reporting {α : Type} (action : ExceptT Error (StateT Pool Traced) α) (silent : PoolM α) :
    Prop :=
  ∀ pool log, ((action.run pool).run log).1 = silent.exec pool

namespace Reporting

variable {α β : Type}

theorem pure (value : α) : Reporting (Pure.pure value) (Pure.pure value) :=
  fun _ _ => rfl

theorem bind {action : ExceptT Error (StateT Pool Traced) α} {silent : PoolM α}
    {next : α → ExceptT Error (StateT Pool Traced) β} {next' : α → PoolM β}
    (first : Reporting action silent) (second : ∀ value, Reporting (next value) (next' value)) :
    Reporting (action >>= next) (silent >>= next') := by
  intro pool log
  have step : ((action.run.run pool).run log).1 = silent.exec pool := first pool log
  change (((action >>= next).run.run pool).run log).1 = _
  rw [PoolM.exec_bind, ← step]
  simp only [ExceptT.run_bind, StateT.run_bind]
  rcases (action.run.run pool).run log with ⟨⟨error | value, left⟩, log'⟩
  · rfl
  · exact second value left log'

theorem mapM {f : α → ExceptT Error (StateT Pool Traced) β} {g : α → PoolM β}
    (each : ∀ x, Reporting (f x) (g x)) (xs : List α) : Reporting (xs.mapM f) (xs.mapM g) := by
  induction xs with
  | nil => exact pure []
  | cons x xs ih =>
      rw [List.mapM_cons, List.mapM_cons]
      exact (each x).bind fun _ => ih.bind fun _ => pure _

end Reporting

/-! ### All descriptors -/

variable {descriptors descriptors' : List Descriptor} {pool left left' : Pool}
  {sets sets' : List RecordSet}

/-- Every set has the records of its own descriptor, for the pool that is left in the end. -/
theorem forall_records (bounded : pool.Bounded)
    (encoded : (descriptors.mapM ofDescriptor).exec pool = (.ok sets, left)) :
    List.Forall₂ (fun descriptor set => set.Records left descriptor) descriptors sets := by
  have each (descriptor : Descriptor) : (ofDescriptor descriptor).Spec
      (fun pool set => set.Records pool descriptor) fun _ _ => True :=
    (ofDescriptor_spec descriptor).mono (fun _ _ records => records) fun _ _ _ => trivial
  obtain ⟨-, -, records⟩ :=
    PoolM.Spec.mapM (fun grown records => records.of_le grown) each descriptors pool bounded
  rwa [encoded] at records

theorem mapM_ofDescriptor_takes (descriptors : List Descriptor) :
    (descriptors.mapM ofDescriptor).Takes (descriptors.flatMap Descriptor.needed)
      (descriptors.flatMap fun descriptor =>
        descriptor.attributes.flatMap fun attr => attr.layout.flatMap Item.counts) :=
  PoolM.Takes.mapM ofDescriptor_takes_needed descriptors

/-- It is what all descriptors need together that there has to be room for. -/
theorem exists_exec_mapM_iff (descriptors : List Descriptor) (reachable : pool.Reachable) :
    (∃ sets left, (descriptors.mapM ofDescriptor).exec pool = (.ok sets, left)) ↔
      (∀ descriptor ∈ descriptors, descriptor.Countable) ∧
        pool.HasRoomFor (descriptors.flatMap Descriptor.needed) := by
  obtain ⟨reachable', taken⟩ := mapM_ofDescriptor_takes descriptors pool reachable
  rw [taken.exists_ok_iff reachable', List.forall_mem_flatMap]
  simp only [counts_le_iff]

theorem symbols_of_exec_mapM (reachable : pool.Reachable)
    (encoded : (descriptors.mapM ofDescriptor).exec pool = (.ok sets, left)) :
    left.Reachable ∧
      left.symbols = (pool.symbols ++ descriptors.flatMap Descriptor.needed).eraseDups := by
  obtain ⟨reachable', taken⟩ := mapM_ofDescriptor_takes descriptors pool reachable
  rw [encoded] at reachable' taken
  exact ⟨reachable', taken.1⟩

/-- Descriptors are encoded one after another into one pool. If all of them can be encoded in one
order, they can be in every other order. The pools that are left have the same size and resolve
references to the same texts and class names, and each descriptor is decoded to the same from its
own records, under any name and through any caches. Only tickets may differ. -/
theorem mapM_encode_of_perm (perm : descriptors.Perm descriptors') (reachable : pool.Reachable)
    (log log' : Array Event) :
    ((∃ sets left, (((descriptors.mapM encode).run pool).run log).1 = (.ok sets, left)) ↔
      ∃ sets left, (((descriptors'.mapM encode).run pool).run log').1 = (.ok sets, left)) ∧
    ∀ sets left sets' left',
      (((descriptors.mapM encode).run pool).run log).1 = (.ok sets, left) →
      (((descriptors'.mapM encode).run pool).run log').1 = (.ok sets', left') →
      left.size = left'.size ∧
      (∀ text, (∃ index, left.resolveUtf8 index = .ok text) ↔
        ∃ index, left'.resolveUtf8 index = .ok text) ∧
      (∀ name, (∃ index, left.resolveClass index = .ok name) ↔
        ∃ index, left'.resolveClass index = .ok name) ∧
      sets.length = descriptors.length ∧ sets'.length = descriptors'.length ∧
      ∀ descriptor set set', (descriptor, set) ∈ descriptors.zip sets →
        (descriptor, set') ∈ descriptors'.zip sets' → descriptor.Buildable →
        ∀ (name : String) (cache cache' : Option CacheId) (store store' : VersionStore),
          store.Reachable → store'.Reachable → ∀ log log', ∃ decoded decoded',
            (set.decode name left cache).result store log = .ok decoded ∧
            (set'.decode name left' cache').result store' log' = .ok decoded' ∧
            decoded.untagged = decoded'.untagged := by
  have silent (descriptors : List Descriptor) (log : Array Event) :
      (((descriptors.mapM encode).run pool).run log).1 =
        (descriptors.mapM ofDescriptor).exec pool :=
    Reporting.mapM value_encode descriptors pool log
  have needed : (descriptors.flatMap Descriptor.needed).Perm
      (descriptors'.flatMap Descriptor.needed) := perm.flatMap_right _
  have succeeds : (∃ sets left, (descriptors.mapM ofDescriptor).exec pool = (.ok sets, left)) ↔
      ∃ sets left, (descriptors'.mapM ofDescriptor).exec pool = (.ok sets, left) := by
    rw [exists_exec_mapM_iff _ reachable, exists_exec_mapM_iff _ reachable,
      Pool.hasRoomFor_of_perm needed]
    simp only [perm.mem_iff]
  simp only [silent]
  refine ⟨succeeds, ?_⟩
  intro sets left sets' left' encoded encoded'
  obtain ⟨reachable', listed⟩ := symbols_of_exec_mapM reachable encoded
  obtain ⟨reachable'', listed'⟩ := symbols_of_exec_mapM reachable encoded'
  have symbols : left.symbols.Perm left'.symbols := by
    rw [listed, listed']
    exact Collection.eraseDups_perm (needed.append_left _)
  have records := forall_records reachable.bounded encoded
  have records' := forall_records reachable.bounded encoded'
  refine ⟨?_, fun text => ?_, fun name => ?_, records.length_eq.symm, records'.length_eq.symm, ?_⟩
  · rw [← reachable'.closed.length_symbols, ← reachable''.closed.length_symbols,
      symbols.length_eq]
  · rw [Pool.exists_resolveUtf8_iff reachable', Pool.exists_resolveUtf8_iff reachable'',
      symbols.mem_iff]
  · simp only [Pool.exists_resolveClass_iff reachable', Pool.exists_resolveClass_iff reachable'',
      symbols.mem_iff]
  · intro descriptor set set' member member' buildable name cache cache' store store' parsed
      parsed' log log'
    have own := (List.forall₂_iff_zip.mp records).2 member
    have own' := (List.forall₂_iff_zip.mp records').2 member'
    obtain ⟨decoded, done, same⟩ :=
      (own.decode_spec_of_name buildable.wellFormed name cache).exists_ok parsed.sound log
    obtain ⟨decoded', done', same'⟩ :=
      (own'.decode_spec_of_name buildable.wellFormed name cache').exists_ok parsed'.sound log'
    exact ⟨decoded, decoded', done, done', same.trans same'.symm⟩

/-- Main classes that have other numbers in the other order, and so other records. -/
theorem mapM_encode_of_perm_mainClass :
    ∃ (a b decoded decoded' : Descriptor) (setA setA' setB setB' : RecordSet) (left left' : Pool),
      a.mainClass = some "A" ∧ b.mainClass = some "B" ∧
      ((([a, b].mapM encode).run .empty).run #[]).1 = (.ok [setA, setB], left) ∧
      ((([b, a].mapM encode).run .empty).run #[]).1 = (.ok [setB', setA'], left') ∧
      setA.get? .mainClass = some [0, 2] ∧ setA'.get? .mainClass = some [0, 4] ∧
      left.size = left'.size ∧
      (setA.decode "m" left none).result .empty #[] = .ok decoded ∧
      (setA'.decode "m" left' none).result .empty #[] = .ok decoded' ∧
      decoded.untagged = decoded'.untagged := by
  let named (name : String) : Builder := { Builder.new "m" none with mainClass := some name }
  have buildable (name : String) : (named name).descriptor.Buildable :=
    ⟨named name, .of_run (.new "m" none) (.mainClass name) trivial rfl, #[], rfl⟩
  have countable (name : String) : (named name).descriptor.Countable :=
    Descriptor.countable_of_length_needed (show 2 ≤ countLimit by decide)
  have internalA : Name.internal "A" = "A" := by decide +kernel
  have internalB : Name.internal "B" = "B" := by decide +kernel
  have needed (x y : String) (storedX : Name.internal x = x) (storedY : Name.internal y = y) :
      [(named x).descriptor, (named y).descriptor].flatMap Descriptor.needed =
        [.utf8 x, .classOf x, .utf8 y, .classOf y] := by
    change Symbol.ofClass x ++ Symbol.ofClass y = _
    rw [Symbol.ofClass, Symbol.ofClass, storedX, storedY]
    rfl
  have perm : [(named "A").descriptor, (named "B").descriptor].Perm
      [(named "B").descriptor, (named "A").descriptor] := .swap _ _ _
  obtain ⟨succeeds, same⟩ := mapM_encode_of_perm perm .empty #[] #[]
  have room : Pool.empty.HasRoomFor
      ([(named "A").descriptor, (named "B").descriptor].flatMap Descriptor.needed) := by
    rw [needed "A" "B" internalA internalB, Pool.HasRoomFor]
    decide
  have written := (exists_exec_mapM_iff _ .empty).mpr ⟨by simp [countable], room⟩
  obtain ⟨sets, left, run⟩ := written
  have encoded := (Reporting.mapM value_encode _ .empty #[]).trans run
  obtain ⟨sets', left', encoded'⟩ := succeeds.mp ⟨sets, left, encoded⟩
  have run' := (Reporting.mapM value_encode _ .empty #[]).symm.trans encoded'
  obtain ⟨setA, setB, rfl⟩ :=
    List.length_eq_two.mp (forall_records Pool.bounded_empty run).length_eq.symm
  obtain ⟨setB', setA', rfl⟩ :=
    List.length_eq_two.mp (forall_records Pool.bounded_empty run').length_eq.symm
  have recordsA : setA.Records left (named "A").descriptor :=
    (List.forall₂_cons.mp (forall_records Pool.bounded_empty run)).1
  have recordsA' : setA'.Records left' (named "A").descriptor :=
    (List.forall₂_cons.mp (List.forall₂_cons.mp (forall_records Pool.bounded_empty run')).2).1
  obtain ⟨reachable, symbols⟩ := symbols_of_exec_mapM .empty run
  obtain ⟨reachable', symbols'⟩ := symbols_of_exec_mapM .empty run'
  have number : left.classNumber "A" = 2 := by
    rw [Pool.classNumber, internalA, Pool.indexOf, symbols, needed "A" "B" internalA internalB]
    decide
  have number' : left'.classNumber "A" = 4 := by
    rw [Pool.classNumber, internalA, Pool.indexOf, symbols', needed "B" "A" internalB internalA]
    decide
  obtain ⟨size, -, -, -, -, decodes⟩ := same _ _ _ _ encoded encoded'
  obtain ⟨decoded, decoded', done, done', alike⟩ := decodes (named "A").descriptor setA setA'
    (by simp) (by simp) (buildable "A") "m" none none .empty .empty .empty .empty #[] #[]
  refine ⟨_, _, decoded, decoded', setA, setA', setB, setB', left, left', rfl, rfl, encoded,
    encoded', ?_, ?_, size, done, done', alike⟩
  · rw [recordsA.get?_mainClass reachable.closed rfl, number]
    rfl
  · rw [recordsA'.get?_mainClass reachable'.closed rfl, number']
    rfl

end RecordSet

end DescriptorCodec
