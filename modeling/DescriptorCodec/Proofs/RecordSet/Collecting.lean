import Mathlib.Data.List.Induction
import DescriptorCodec.Proofs.RecordSet.Feeding

/-!
# Collecting records from a container

A container stores the attributes of a module among others, in any order. Those of a module are
collected into a set, which is refused as soon as one of them comes a second time; the others are
passed over.

A set is decoded by looking its records up, kind by kind. So two containers that store the same
attributes of a module are decoded alike, whatever the order and whatever else they store.
-/

namespace DescriptorCodec

namespace RecordSet

/-- The record that a stored attribute is, with its kind, if it is one of a module's. -/
def recordOf? (stored : String × Bytes) : Option (AttributeKind × Bytes) :=
  (AttributeKind.ofName? stored.1).map fun kind => (kind, stored.2)

/-- Whether a stored attribute is one of a module's. -/
def isRecord (stored : String × Bytes) : Bool :=
  (AttributeKind.ofName? stored.1).isSome

/-- The records among stored attributes, in order. -/
def recordsOf (stored : List (String × Bytes)) : List (AttributeKind × Bytes) :=
  stored.filterMap recordOf?

/-- What comes of collecting the records, whatever was reported before. -/
def collected (stored : List (String × Bytes)) (log : Array Event) : Except Error RecordSet :=
  ((ofNamed stored).run.run log).1

/-- Adds the record that a stored attribute is, and reports nothing. -/
def collect (set : RecordSet) (stored : String × Bytes) : Except Error RecordSet :=
  match recordOf? stored with
  | none => .ok set
  | some entry => set.insert entry.1 entry.2

/-- No attribute of a module is stored twice. -/
def Unrepeated (stored : List (String × Bytes)) : Prop :=
  ∀ kind : AttributeKind, (stored.map Prod.fst).count kind.name ≤ 1

/-- The attribute of this kind is stored a second time, before any other one is. -/
def RepeatsFirst (stored : List (String × Bytes)) (kind : AttributeKind) : Prop :=
  ∃ before record after, stored = before ++ (kind.name, record) :: after ∧
    kind.name ∈ before.map Prod.fst ∧ Unrepeated before

/-! ### The records among stored attributes -/

theorem recordOf?_eq_some_iff {stored : String × Bytes} {entry : AttributeKind × Bytes} :
    recordOf? stored = some entry ↔ stored = (entry.1.name, entry.2) := by
  obtain ⟨name, record⟩ := stored
  obtain ⟨kind, record'⟩ := entry
  simp only [recordOf?, Option.map_eq_some_iff, AttributeKind.ofName?_eq_some_iff,
    Prod.mk.injEq]
  constructor
  · rintro ⟨_, rfl, rfl, rfl⟩
    exact ⟨rfl, rfl⟩
  · rintro ⟨rfl, rfl⟩
    exact ⟨kind, rfl, rfl, rfl⟩

theorem recordOf?_name (kind : AttributeKind) (record : Bytes) :
    recordOf? (kind.name, record) = some (kind, record) :=
  recordOf?_eq_some_iff.mpr rfl

theorem mem_recordsOf {stored : List (String × Bytes)} {entry : AttributeKind × Bytes} :
    entry ∈ recordsOf stored ↔ (entry.1.name, entry.2) ∈ stored := by
  rw [recordsOf, List.mem_filterMap]
  simp only [recordOf?_eq_some_iff]
  exact ⟨fun ⟨_, member, same⟩ => same ▸ member, fun member => ⟨_, member, rfl⟩⟩

theorem mem_kinds_recordsOf {stored : List (String × Bytes)} {kind : AttributeKind} :
    kind ∈ (recordsOf stored).map Prod.fst ↔ kind.name ∈ stored.map Prod.fst := by
  simp only [List.mem_map, mem_recordsOf]
  constructor
  · rintro ⟨entry, member, rfl⟩
    exact ⟨_, member, rfl⟩
  · rintro ⟨⟨_, record⟩, member, rfl⟩
    exact ⟨(kind, record), member, rfl⟩

/-- Other attributes are no records. -/
theorem recordsOf_filter_isRecord (stored : List (String × Bytes)) :
    recordsOf (stored.filter isRecord) = recordsOf stored := by
  rw [recordsOf, List.filterMap_filter, recordsOf]
  refine List.filterMap_congr fun other _ => ?_
  unfold isRecord recordOf?
  cases AttributeKind.ofName? other.1 <;> rfl

theorem unrepeated_append_singleton {stored : List (String × Bytes)} {last : String × Bytes} :
    Unrepeated (stored ++ [last]) ↔
      Unrepeated stored ∧ ∀ kind : AttributeKind, last.1 = kind.name →
        kind.name ∉ stored.map Prod.fst := by
  simp only [Unrepeated, List.map_append, List.map_cons, List.map_nil, List.count_append,
    List.count_singleton, beq_iff_eq]
  constructor
  · intro once
    refine ⟨fun kind => Nat.le_trans (Nat.le_add_right _ _) (once kind), fun kind own there => ?_⟩
    have both := once kind
    rw [if_pos own] at both
    have one := List.count_pos_iff.mpr there
    omega
  · rintro ⟨once, fresh⟩ kind
    by_cases own : last.1 = kind.name
    · rw [if_pos own, List.count_eq_zero.mpr (fresh kind own)]
    · rw [if_neg own]
      exact once kind

/-- The induction takes the last attribute off, which is a second one of its kind or is not. -/
theorem unrepeated_or_exists_repeatsFirst (stored : List (String × Bytes)) :
    Unrepeated stored ∨ ∃ kind, RepeatsFirst stored kind := by
  induction stored using List.reverseRecOn with
  | nil => exact .inl fun _ => Nat.zero_le _
  | append_singleton stored last ih =>
      rcases ih with once | ⟨kind, before, record, after, rfl, there, once⟩
      · by_cases again : ∃ kind : AttributeKind, last.1 = kind.name ∧
            kind.name ∈ stored.map Prod.fst
        · obtain ⟨kind, own, there⟩ := again
          exact .inr ⟨kind, stored, last.2, [], by rw [← own], there, once⟩
        · refine .inl (unrepeated_append_singleton.mpr ⟨once, fun kind own there => ?_⟩)
          exact again ⟨kind, own, there⟩
      · exact .inr ⟨kind, before, record, after ++ [last], by simp, there, once⟩

/-! ### Collecting -/

theorem result_insertNamed (set : RecordSet) (stored : String × Bytes) (log : Array Event) :
    ((insertNamed set stored).run.run log).1 = collect set stored := by
  unfold insertNamed collect recordOf?
  cases AttributeKind.ofName? stored.1 with
  | none => rfl
  | some kind =>
      dsimp only [Option.map_some]
      cases set.insert kind stored.2 <;> rfl

/-- Reports do not change what is collected. -/
theorem collected_eq (stored : List (String × Bytes)) (log : Array Event) :
    collected stored log = stored.foldlM collect empty := by
  unfold collected ofNamed
  generalize empty = set
  induction stored generalizing set log with
  | nil => rfl
  | cons first rest ih =>
      have step := result_insertNamed set first log
      rw [List.foldlM_cons, List.foldlM_cons, ExceptT.run_bind, StateT.run_bind, ← step]
      rcases (insertNamed set first).run.run log with ⟨_ | next, log'⟩
      · rfl
      · exact ih log' next

variable {stored : List (String × Bytes)} {set : RecordSet}

theorem insert_of_mem_kinds {kind : AttributeKind} (there : kind ∈ set.kinds) (record : Bytes) :
    set.insert kind record = .error (.duplicateAttribute kind) := by
  obtain ⟨entry, member, rfl⟩ := List.mem_map.mp there
  have held : set.records.toList.any (fun other => other.1 == entry.1) = true :=
    List.any_eq_true.mpr ⟨entry, member, beq_self_eq_true entry.1⟩
  rw [insert, OrderedMap.insertNew?, dif_pos held]

theorem get?_eq_none_of_not_mem_kinds {kind : AttributeKind} (absent : kind ∉ set.kinds) :
    set.get? kind = none := by
  cases found : set.get? kind with
  | none => rfl
  | some record => exact absurd (List.mem_map_of_mem (mem_toList_iff.mpr found)) absent

/-- The records are collected in the order in which they are stored. -/
theorem foldlM_collect_of_unrepeated (once : Unrepeated stored) :
    ∃ set, stored.foldlM collect empty = .ok set ∧ set.toList = recordsOf stored := by
  induction stored using List.reverseRecOn with
  | nil => exact ⟨empty, rfl, rfl⟩
  | append_singleton stored last ih =>
      obtain ⟨once, fresh⟩ := unrepeated_append_singleton.mp once
      obtain ⟨set, done, same⟩ := ih once
      rw [List.foldlM_append, done, recordsOf, List.filterMap_append]
      change ∃ set', collect set last >>= pure = .ok set' ∧ _
      rw [bind_pure, collect]
      cases found : recordOf? last with
      | none =>
          refine ⟨set, rfl, ?_⟩
          rw [same, List.filterMap_cons_none found, List.filterMap_nil, List.append_nil, recordsOf]
      | some entry =>
          have named := recordOf?_eq_some_iff.mp found
          have absent : entry.1 ∉ set.kinds := by
            rw [kinds, OrderedMap.keys, ← toList, same, mem_kinds_recordsOf]
            exact fresh entry.1 (congrArg Prod.fst named)
          obtain ⟨set', inserted, -⟩ :=
            insert_of_absent (get?_eq_none_of_not_mem_kinds absent) entry.2
          refine ⟨set', inserted, ?_⟩
          rw [toList_of_insert inserted, same, List.filterMap_cons_some found, List.filterMap_nil,
            recordsOf]

/-- The second record of a kind is refused, and what is stored behind it does not matter. -/
theorem foldlM_collect_of_repeatsFirst {kind : AttributeKind} (again : RepeatsFirst stored kind) :
    stored.foldlM collect empty = .error (.duplicateAttribute kind) := by
  obtain ⟨before, record, after, rfl, there, once⟩ := again
  obtain ⟨set, done, same⟩ := foldlM_collect_of_unrepeated once
  have held : kind ∈ set.kinds := by
    rw [kinds, OrderedMap.keys, ← toList, same, mem_kinds_recordsOf]
    exact there
  rw [List.foldlM_append, done]
  change ((kind.name, record) :: after).foldlM collect set = _
  rw [List.foldlM_cons, collect, recordOf?_name]
  dsimp only
  rw [insert_of_mem_kinds held]
  rfl

theorem two_le_count_of_repeatsFirst {kind : AttributeKind} (again : RepeatsFirst stored kind) :
    2 ≤ (stored.map Prod.fst).count kind.name := by
  obtain ⟨before, record, after, rfl, there, -⟩ := again
  have one := List.count_pos_iff.mpr there
  simp only [List.map_append, List.map_cons, List.count_append, List.count_cons_self]
  omega

theorem Unrepeated.of_perm (once : Unrepeated stored) {stored' : List (String × Bytes)}
    (order : (stored'.filter isRecord).Perm (stored.filter isRecord)) : Unrepeated stored' := by
  intro kind
  have kept (attributes : List (String × Bytes)) :
      (attributes.map Prod.fst).count kind.name =
        ((attributes.filter isRecord).map Prod.fst).count kind.name := by
    rw [List.count_eq_countP, List.count_eq_countP, List.countP_map, List.countP_map,
      List.countP_filter]
    refine List.countP_congr fun other _ => ?_
    rw [Bool.and_eq_true, iff_self_and, Function.comp_apply, beq_iff_eq]
    intro own
    rw [isRecord, own, AttributeKind.ofName?_name]
    rfl
  rw [kept, (order.map Prod.fst).count_eq, ← kept]
  exact once kind

/-! ### Decoding -/

/-- Only what is found for a kind, and the number of records, matters to decoding. -/
theorem decode_congr {set set' : RecordSet} (size : set'.size = set.size)
    (found : ∀ kind, set'.get? kind = set.get? kind) (name : String) (pool : Pool)
    (cache : Option CacheId) : set'.decode name pool cache = set.decode name pool cache := by
  have each : set'.decodeKind name pool cache = set.decodeKind name pool cache := by
    funext builder kind
    rw [decodeKind, decodeKind, found]
  rw [decode, decode, found, size, each]

theorem decode_of_toList_perm {set set' : RecordSet} (order : set'.toList.Perm set.toList)
    (name : String) (pool : Pool) (cache : Option CacheId) :
    set'.decode name pool cache = set.decode name pool cache := by
  refine decode_congr order.length_eq (fun kind => ?_) name pool cache
  refine Option.ext fun record => ?_
  rw [← mem_toList_iff, ← mem_toList_iff, order.mem_iff]

/-- Collecting fails if an attribute of a module is stored twice, and the one whose second
occurrence comes first is reported. Otherwise the set has the records in the order in which they
are stored. If the same attributes of a module are stored in another order, among others, then
they are collected too, and decoded alike. -/
theorem collected_of_perm (stored : List (String × Bytes)) (log : Array Event) :
    ((∃ e, collected stored log = .error e) ↔
      ∃ kind : AttributeKind, 2 ≤ (stored.map Prod.fst).count kind.name) ∧
    (∀ e, collected stored log = .error e ↔
      ∃ kind, RepeatsFirst stored kind ∧ e = .duplicateAttribute kind ∧
        e.message = "Duplicate " ++ kind.name ++ " attribute") ∧
    ∀ set, collected stored log = .ok set →
      set.toList = recordsOf stored ∧
      (∀ kind record, set.get? kind = some record ↔ (kind.name, record) ∈ stored) ∧
      ∀ stored', (stored'.filter isRecord).Perm (stored.filter isRecord) → ∀ log',
        ∃ set', collected stored' log' = .ok set' ∧
          ∀ name pool cache, set'.decode name pool cache = set.decode name pool cache := by
  simp only [collected_eq]
  rcases unrepeated_or_exists_repeatsFirst stored with once | ⟨kind, again⟩
  · obtain ⟨set, done, same⟩ := foldlM_collect_of_unrepeated once
    have unrefused (kind : AttributeKind) : ¬ RepeatsFirst stored kind := fun again =>
      absurd (once kind) (Nat.not_le_of_lt (two_le_count_of_repeatsFirst again))
    rw [done]
    refine ⟨⟨nofun, ?_⟩, fun e => ⟨nofun, ?_⟩, ?_⟩
    · rintro ⟨kind, twice⟩
      exact absurd (once kind) (Nat.not_le_of_lt twice)
    · rintro ⟨kind, again, -⟩
      exact absurd again (unrefused kind)
    · rintro _ ⟨⟩
      refine ⟨same, fun kind record => ?_, fun stored' order log' => ?_⟩
      · rw [← mem_toList_iff, same, mem_recordsOf]
      · obtain ⟨set', done', same'⟩ := foldlM_collect_of_unrepeated (once.of_perm order)
        have records := order.filterMap recordOf?
        rw [← recordsOf, ← recordsOf, recordsOf_filter_isRecord, recordsOf_filter_isRecord,
          ← same, ← same'] at records
        exact ⟨set', done', decode_of_toList_perm records⟩
  · have twice := two_le_count_of_repeatsFirst again
    rw [foldlM_collect_of_repeatsFirst again]
    refine ⟨⟨fun _ => ⟨kind, twice⟩, fun _ => ⟨_, rfl⟩⟩, fun e => ⟨?_, ?_⟩, nofun⟩
    · rintro ⟨⟩
      exact ⟨kind, again, rfl, rfl⟩
    · rintro ⟨other, again', rfl, -⟩
      have refused := foldlM_collect_of_repeatsFirst again'
      rw [← refused, foldlM_collect_of_repeatsFirst again]

/-- The main class comes a second time before the tables do. In the other container nothing comes
twice, and the order of its records does not matter. -/
theorem collected_of_perm_mainClass :
    let tables : Bytes := [0, 1, 0, 0, 0, 0, 0, 0, 0, 0, 0, 0]
    let repeated := [("Module", tables), ("MainClass", [0, 1]), ("MainClass", []),
      ("Module", tables)]
    let stored := [("Module", tables), ("Code", []), ("MainClass", [0, 1])]
    let reordered := [("SourceFile", []), ("MainClass", [0, 1]), ("Module", tables)]
    (RepeatsFirst repeated .mainClass ∧
      collected repeated #[] = .error (.duplicateAttribute .mainClass)) ∧
    ∃ set set', collected stored #[] = .ok set ∧ collected reordered #[] = .ok set' ∧
      set.kinds = [.module, .mainClass] ∧ set'.kinds = [.mainClass, .module] ∧
      ∀ name pool cache, set'.decode name pool cache = set.decode name pool cache := by
  intro tables repeated stored reordered
  have again : RepeatsFirst repeated .mainClass :=
    ⟨[("Module", tables), ("MainClass", [0, 1])], [], [("Module", tables)], rfl, by decide,
      fun kind => by cases kind <;> decide⟩
  have refused := ((collected_of_perm repeated #[]).2.1 _).mpr ⟨.mainClass, again, rfl, rfl⟩
  have accepted : collected stored #[] = .ok _ := rfl
  have accepted' : collected reordered #[] = .ok _ := rfl
  have order : (reordered.filter isRecord).Perm (stored.filter isRecord) := .swap _ _ _
  obtain ⟨-, -, alike⟩ := (collected_of_perm stored #[]).2.2 _ accepted
  obtain ⟨set', done, same⟩ := alike reordered order #[]
  rw [accepted'] at done
  cases done
  exact ⟨⟨again, refused⟩, _, _, accepted, accepted', rfl, rfl, same⟩

end RecordSet

end DescriptorCodec
