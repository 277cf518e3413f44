import Mathlib.Data.List.Basic
import DescriptorCodec.Collection.OrderedMap
import DescriptorCodec.Collection.OrderedSet

/-!
# Keys, groups and first occurrences

A table of pairs is written group by group and collected by key when it is read. Spreading the
values of each entry over rows and grouping the rows again is the same as grouping the entries
and appending their values, provided that no entry is without values: an entry without values
leaves no row behind.

Where no key repeats, both ways to make a map of a list change nothing. A key that a map does not
have can be added at the end. `KeyedBy` says that every value of a map stands under the key that it
has in it.
-/

namespace DescriptorCodec

namespace Collection

variable {α κ ν : Type}

/-- What is kept stands in the order in which it stood. -/
theorem eraseDups_sublist [BEq α] (xs : List α) : xs.eraseDups.Sublist xs := by
  match xs with
  | [] => exact List.Sublist.slnil
  | y :: ys =>
      rw [List.eraseDups_cons]
      have shorter := eraseDups_sublist (ys.filter fun z => !z == y)
      exact (shorter.trans List.filter_sublist).cons_cons y
termination_by xs.length
decreasing_by
  exact Nat.lt_succ_of_le (List.length_filter_le _ ys)

theorem length_eraseDups_le [BEq α] (xs : List α) : xs.eraseDups.length ≤ xs.length :=
  (eraseDups_sublist xs).length_le

section Occurrences

variable [BEq α] [Hashable α] [EquivBEq α] [LawfulHashable α]

theorem firstOccurrences_sublist (xs : List α) : (firstOccurrences xs).Sublist xs := by
  rw [firstOccurrences_eq_eraseDups]
  exact eraseDups_sublist xs

theorem length_firstOccurrences_le (xs : List α) :
    (firstOccurrences xs).length ≤ xs.length :=
  (firstOccurrences_sublist xs).length_le

end Occurrences

section Repeats

variable [BEq α] [LawfulBEq α]

theorem eraseDups_eq_self {xs : List α} (nodup : xs.Nodup) : xs.eraseDups = xs := by
  induction xs with
  | nil => rfl
  | cons x xs ih =>
      obtain ⟨fresh, nodup⟩ := List.nodup_cons.mp nodup
      have kept : xs.filter (fun y => !y == x) = xs := by
        refine List.filter_eq_self.mpr fun y member => ?_
        have other : y ≠ x := fun same => fresh (same ▸ member)
        simpa using other
      rw [List.eraseDups_cons, kept, ih nodup]

theorem nodup_eraseDups (xs : List α) : xs.eraseDups.Nodup := by
  match xs with
  | [] => exact List.nodup_nil
  | x :: xs =>
      rw [List.eraseDups_cons, List.nodup_cons]
      refine ⟨?_, nodup_eraseDups _⟩
      rw [List.mem_eraseDups, List.mem_filter]
      rintro ⟨-, other⟩
      simp at other
termination_by xs.length
decreasing_by
  exact Nat.lt_succ_of_le (List.length_filter_le _ xs)

/-- Repeats may be dropped from the front part first. -/
theorem eraseDups_eraseDups_append (xs ys : List α) :
    (xs.eraseDups ++ ys).eraseDups = (xs ++ ys).eraseDups := by
  have removed : ys.removeAll xs.eraseDups = ys.removeAll xs := by
    simp only [List.removeAll, List.elem_eq_mem, List.mem_eraseDups]
  rw [List.eraseDups_append, List.eraseDups_append, removed, eraseDups_eq_self (nodup_eraseDups xs)]

theorem eraseDups_prefix_append (xs ys : List α) : xs.eraseDups <+: (xs ++ ys).eraseDups := by
  rw [List.eraseDups_append]
  exact List.prefix_append _ _

/-- What is there already adds nothing. -/
theorem eraseDups_append_of_subset {xs ys : List α} (h : ys ⊆ xs) :
    (xs ++ ys).eraseDups = xs.eraseDups := by
  have nothing : ys.removeAll xs = [] := by
    refine List.filter_eq_nil_iff.mpr fun y member => ?_
    simpa using h member
  rw [List.eraseDups_append, nothing, List.eraseDups_nil, List.append_nil]

theorem eraseDups_perm {xs ys : List α} (perm : xs.Perm ys) : xs.eraseDups.Perm ys.eraseDups := by
  rw [List.perm_ext_iff_of_nodup (nodup_eraseDups xs) (nodup_eraseDups ys)]
  intro x
  rw [List.mem_eraseDups, List.mem_eraseDups, perm.mem_iff]

/-- Behind any other list, the two lists leave the same when repeats are dropped. -/
def AddSame (ys zs : List α) : Prop :=
  ∀ xs : List α, (xs ++ ys).eraseDups = (xs ++ zs).eraseDups

theorem AddSame.append {ys zs ys' zs' : List α} (h : AddSame ys zs) (h' : AddSame ys' zs') :
    AddSame (ys ++ ys') (zs ++ zs') := by
  intro xs
  calc (xs ++ (ys ++ ys')).eraseDups
      = ((xs ++ ys).eraseDups ++ ys').eraseDups := by
        rw [eraseDups_eraseDups_append, List.append_assoc]
    _ = ((xs ++ zs).eraseDups ++ ys').eraseDups := by rw [h xs]
    _ = (xs ++ zs ++ ys').eraseDups := eraseDups_eraseDups_append _ _
    _ = (xs ++ zs ++ zs').eraseDups := h' _
    _ = (xs ++ (zs ++ zs')).eraseDups := by rw [List.append_assoc]

theorem AddSame.flatMap {f g : κ → List α} (h : ∀ x, AddSame (f x) (g x)) (xs : List κ) :
    AddSame (xs.flatMap f) (xs.flatMap g) := by
  induction xs with
  | nil => exact fun _ => rfl
  | cons x xs ih =>
      rw [List.flatMap_cons, List.flatMap_cons]
      exact (h x).append ih

/-- What stands in front of a list need not be repeated in each part of it. -/
theorem addSame_flatMap_append (ys : List α) (f : κ → List α) (xs : List κ) :
    AddSame (ys ++ xs.flatMap fun x => ys ++ f x) (ys ++ xs.flatMap f) := by
  have absorbed (front : List α) (inside : ys ⊆ front) :
      (front ++ xs.flatMap fun x => ys ++ f x).eraseDups = (front ++ xs.flatMap f).eraseDups := by
    induction xs generalizing front with
    | nil => rfl
    | cons x xs ih =>
        have further := ih (front ++ f x) fun _ member => List.mem_append_left _ (inside member)
        rw [List.flatMap_cons, List.flatMap_cons, List.append_assoc, ← List.append_assoc,
          ← eraseDups_eraseDups_append, eraseDups_append_of_subset inside,
          eraseDups_eraseDups_append, ← List.append_assoc, further, List.append_assoc]
  intro front
  have whole := absorbed (front ++ ys) (List.subset_append_right front ys)
  rwa [List.append_assoc, List.append_assoc] at whole

end Repeats

theorem length_flatMap_le {f : κ → List α} {g : κ → List ν} {xs : List κ}
    (each : ∀ x ∈ xs, (f x).length ≤ (g x).length) :
    (xs.flatMap f).length ≤ (xs.flatMap g).length := by
  induction xs with
  | nil => exact Nat.le_refl 0
  | cons x xs ih =>
      obtain ⟨first, rest⟩ := List.forall_mem_cons.mp each
      rw [List.flatMap_cons, List.flatMap_cons, List.length_append, List.length_append]
      exact Nat.add_le_add first (ih rest)

theorem length_le_flatMap {f : κ → List α} {xs : List κ} (each : ∀ x ∈ xs, 0 < (f x).length) :
    xs.length ≤ (xs.flatMap f).length := by
  have rows := length_flatMap_le (f := fun x => [x]) (g := f) each
  rwa [List.flatMap_singleton'] at rows

/-- What contributes nothing can be left out. -/
theorem flatMap_filter_of_nil {keep : κ → Bool} {f : κ → List α} {xs : List κ}
    (nothing : ∀ x ∈ xs, keep x = false → f x = []) :
    (xs.filter keep).flatMap f = xs.flatMap f := by
  induction xs with
  | nil => rfl
  | cons x xs ih =>
      have rest := ih fun y member => nothing y (List.mem_cons_of_mem _ member)
      cases kept : keep x with
      | true => rw [List.filter_cons_of_pos kept, List.flatMap_cons, List.flatMap_cons, rest]
      | false =>
          rw [List.filter_cons_of_neg (by simp [kept]), List.flatMap_cons, rest,
            nothing x List.mem_cons_self kept, List.nil_append]

/-- If a function has a value everywhere, no value is left out. -/
theorem map_some_filterMap {f : κ → Option ν} {xs : List κ}
    (defined : ∀ x ∈ xs, ∃ y, f x = some y) : (xs.filterMap f).map some = xs.map f := by
  induction xs with
  | nil => rfl
  | cons x xs ih =>
      obtain ⟨y, value⟩ := defined x List.mem_cons_self
      have rest := ih fun other member => defined other (List.mem_cons_of_mem _ member)
      rw [List.filterMap_cons, value, List.map_cons, List.map_cons, rest, value]

theorem filter_flatMap_keys (p : κ → Bool) (entries : List (κ × List ν)) :
    (entries.flatMap fun entry => entry.2.map fun _ => entry.1).filter p =
      (entries.filter fun entry => p entry.1).flatMap fun entry =>
        entry.2.map fun _ => entry.1 := by
  induction entries with
  | nil => rfl
  | cons entry rest ih =>
      rw [List.flatMap_cons, List.filter_append, ih, List.filter_cons]
      by_cases h : p entry.1 <;> simp [h]

section Keys

variable [BEq κ]

theorem valuesOf_append (key : κ) (entries entries' : List (κ × ν)) :
    valuesOf key (entries ++ entries') = valuesOf key entries ++ valuesOf key entries' :=
  List.filterMap_append ..

theorem valuesOf_map_pair [EquivBEq κ] (key key' : κ) (values : List ν) :
    valuesOf key (values.map fun value => (key', value)) =
      if key' == key then values else [] := by
  induction values with
  | nil => simp
  | cons value values ih =>
      rw [List.map_cons, valuesOf_cons, ih]
      by_cases same : key' == key <;> simp [same]

/-- The values of a key, spread over rows, are the values of its entries one after another. -/
theorem valuesOf_flatMap [EquivBEq κ] (key : κ) (entries : List (κ × List ν)) :
    valuesOf key (entries.flatMap fun entry => entry.2.map fun value => (entry.1, value)) =
      (valuesOf key entries).flatten := by
  induction entries with
  | nil => rfl
  | cons entry rest ih =>
      rw [List.flatMap_cons, valuesOf_append, valuesOf_map_pair, valuesOf_cons, ih]
      by_cases same : entry.1 == key <;> simp [same]

theorem valuesOf_eq_nil {key : κ} {entries : List (κ × ν)}
    (absent : ∀ entry ∈ entries, (entry.1 == key) = false) : valuesOf key entries = [] := by
  induction entries with
  | nil => rfl
  | cons entry rest ih =>
      have first := absent entry List.mem_cons_self
      rw [valuesOf_cons, first]
      exact ih fun other member => absent other (List.mem_cons_of_mem _ member)

theorem lastValue?_eq_none {key : κ} {entries : List (κ × ν)}
    (absent : ∀ entry ∈ entries, (entry.1 == key) = false) : lastValue? key entries = none := by
  induction entries with
  | nil => rfl
  | cons entry rest ih =>
      have first := absent entry List.mem_cons_self
      have later := fun other member => absent other (List.mem_cons_of_mem _ member)
      rw [lastValue?_cons, first, ih later]
      rfl

theorem mem_valuesOf [EquivBEq κ] {key : κ} {value : ν} {entries : List (κ × ν)} :
    value ∈ valuesOf key entries ↔
      ∃ entry ∈ entries, (entry.1 == key) = true ∧ entry.2 = value := by
  simp [valuesOf]

theorem absent_of_lastValue?_eq_none {key : κ} {entries : List (κ × ν)}
    (h : lastValue? key entries = none) : ∀ entry ∈ entries, (entry.1 == key) = false := by
  induction entries with
  | nil =>
      intro entry member
      cases member
  | cons first rest ih =>
      rw [lastValue?_cons, Option.or_eq_none_iff] at h
      obtain ⟨later, own⟩ := h
      intro entry member
      rcases List.mem_cons.mp member with rfl | member
      · simpa using own
      · exact ih later entry member

theorem lastValue?_append_singleton (key : κ) (entries : List (κ × ν)) (entry : κ × ν) :
    lastValue? key (entries ++ [entry]) =
      if entry.1 == key then some entry.2 else lastValue? key entries := by
  induction entries with
  | nil => simp [lastValue?_cons]
  | cons first rest ih =>
      rw [List.cons_append, lastValue?_cons, ih, lastValue?_cons]
      by_cases own : entry.1 == key
      · simp [own]
      · simp [own]

theorem mem_of_lastValue? [LawfulBEq κ] {key : κ} {value : ν} {entries : List (κ × ν)}
    (found : lastValue? key entries = some value) : (key, value) ∈ entries := by
  induction entries with
  | nil => cases found
  | cons entry rest ih =>
      rw [lastValue?_cons, Option.or_eq_some_iff] at found
      rcases found with later | ⟨-, own⟩
      · exact List.mem_cons_of_mem _ (ih later)
      · obtain ⟨same, last⟩ := Option.ite_none_right_eq_some.mp own
        rw [← eq_of_beq same, ← Option.some.inj last]
        exact List.mem_cons_self

/-- Without repeats, the keys with their last values are the entries. -/
theorem filterMap_lastValue? [EquivBEq κ] {entries : List (κ × ν)}
    (distinct : Distinct (entries.map Prod.fst)) :
    ((entries.map Prod.fst).filterMap fun key =>
      (lastValue? key entries).map fun value => (key, value)) = entries := by
  induction entries with
  | nil => rfl
  | cons entry rest ih =>
      obtain ⟨fresh, distinct⟩ := List.pairwise_cons.mp distinct
      have later : lastValue? entry.1 rest = none := by
        refine lastValue?_eq_none fun other member => ?_
        rw [BEq.comm]
        exact fresh other.1 (List.mem_map_of_mem member)
      have first : lastValue? entry.1 (entry :: rest) = some entry.2 := by
        rw [lastValue?_cons, later]
        simp
      have others : ∀ key ∈ rest.map Prod.fst,
          lastValue? key (entry :: rest) = lastValue? key rest := by
        intro key member
        rw [lastValue?_cons, fresh key member]
        simp
      rw [List.map_cons, List.filterMap_cons, first]
      simp only [Option.map_some]
      rw [List.filterMap_congr fun key member => by rw [others key member], ih distinct]

/-- Without repeats, every key has the one value of its entry. -/
theorem map_valuesOf [EquivBEq κ] {entries : List (κ × ν)}
    (distinct : Distinct (entries.map Prod.fst)) :
    ((entries.map Prod.fst).map fun key => (key, valuesOf key entries)) =
      entries.map fun entry => (entry.1, [entry.2]) := by
  induction entries with
  | nil => rfl
  | cons entry rest ih =>
      obtain ⟨fresh, distinct⟩ := List.pairwise_cons.mp distinct
      have later : valuesOf entry.1 rest = [] := by
        refine valuesOf_eq_nil fun other member => ?_
        rw [BEq.comm]
        exact fresh other.1 (List.mem_map_of_mem member)
      have first : valuesOf entry.1 (entry :: rest) = [entry.2] := by
        rw [valuesOf_cons, later]
        simp
      have others : ∀ key ∈ rest.map Prod.fst,
          valuesOf key (entry :: rest) = valuesOf key rest := by
        intro key member
        rw [valuesOf_cons, fresh key member]
        simp
      rw [List.map_cons, List.map_cons, List.map_cons, first, ← ih distinct]
      rw [List.map_congr_left fun key member => by rw [others key member]]

/-- Dropping the entries of another key leaves the values of a key alone. -/
theorem valuesOf_filter [EquivBEq κ] {key other : κ} (different : (key == other) = false)
    (entries : List (κ × ν)) :
    valuesOf key (entries.filter fun entry => !entry.1 == other) = valuesOf key entries := by
  induction entries with
  | nil => rfl
  | cons entry rest ih =>
      rw [List.filter_cons, valuesOf_cons]
      by_cases own : entry.1 == key
      · have kept : (entry.1 == other) = false := by
          rw [BEq.congr_left own]
          exact different
        simp [kept, valuesOf_cons, own, ih]
      · by_cases dropped : entry.1 == other
        · simp [dropped, own, ih]
        · simp [dropped, valuesOf_cons, own, ih]

theorem length_valuesOf_add (key : κ) (entries : List (κ × ν)) :
    (valuesOf key entries).length + (entries.filter fun entry => !entry.1 == key).length =
      entries.length := by
  induction entries with
  | nil => rfl
  | cons entry rest ih =>
      rw [valuesOf_cons, List.filter_cons]
      by_cases own : entry.1 == key
      · simp [own]
        omega
      · simp [own]
        omega

end Keys

section Rows

variable [BEq κ] [Hashable κ] [EquivBEq κ] [LawfulHashable κ]

/-- Rows of one key beside each other count once. The induction drops the first entry and all
later ones with its key. -/
theorem firstOccurrences_flatMap_keys (entries : List (κ × List ν))
    (full : ∀ entry ∈ entries, entry.2 ≠ []) :
    firstOccurrences (entries.flatMap fun entry => entry.2.map fun _ => entry.1) =
      firstOccurrences (entries.map Prod.fst) := by
  match entries with
  | [] => rfl
  | entry :: rest =>
      obtain ⟨value, values, same⟩ := List.exists_cons_of_ne_nil (full entry List.mem_cons_self)
      have own : (values.map fun _ => entry.1).filter (fun key => !key == entry.1) = [] := by
        simp
      have ih := firstOccurrences_flatMap_keys (rest.filter fun other => !other.1 == entry.1)
        fun other member => full other (List.mem_cons_of_mem _ (List.mem_filter.mp member).1)
      rw [List.flatMap_cons, same, List.map_cons, List.cons_append, firstOccurrences_cons,
        List.filter_append, own, List.nil_append, filter_flatMap_keys, ih, List.map_cons,
        firstOccurrences_cons, List.filter_map]
      rfl
termination_by entries.length
decreasing_by
  exact Nat.lt_succ_of_le (List.length_filter_le _ rest)

/-- Every pair is in the group of one key. The induction is as in
`firstOccurrences_flatMap_keys`. -/
theorem length_flatMap_valuesOf (pairs : List (κ × ν)) :
    ((firstOccurrences (pairs.map Prod.fst)).flatMap fun key => valuesOf key pairs).length =
      pairs.length := by
  match pairs with
  | [] => rfl
  | pair :: rest =>
      have keys : (rest.map Prod.fst).filter (fun key => !key == pair.1) =
          (rest.filter fun other => !other.1 == pair.1).map Prod.fst := by
        rw [List.filter_map]
        rfl
      have others : ∀ key ∈ firstOccurrences
          ((rest.filter fun other => !other.1 == pair.1).map Prod.fst),
          valuesOf key (pair :: rest) =
            valuesOf key (rest.filter fun other => !other.1 == pair.1) := by
        intro key member
        have member := mem_of_mem_firstOccurrences _ member
        rw [← keys] at member
        have different : (key == pair.1) = false := by
          simpa using (List.mem_filter.mp member).2
        rw [valuesOf_filter different, valuesOf_cons, BEq.comm, different,
          if_neg Bool.false_ne_true]
      have ih := length_flatMap_valuesOf (rest.filter fun other => !other.1 == pair.1)
      have own := length_valuesOf_add pair.1 rest
      rw [List.map_cons, firstOccurrences_cons, keys, List.flatMap_cons, List.length_append,
        List.flatMap_congr others, ih, valuesOf_cons, if_pos BEq.rfl, List.length_cons,
        List.length_cons]
      omega
termination_by pairs.length
decreasing_by
  exact Nat.lt_succ_of_le (List.length_filter_le _ rest)

end Rows

end Collection

/-- The set of a list without its repeats. -/
theorem OrderedSet.ofList_eq {α : Type} [BEq α] [Hashable α] [EquivBEq α] [LawfulHashable α]
    {xs : List α} {set : OrderedSet α} (kept : xs.eraseDups = set.toList) : ofList xs = set :=
  ext ((Collection.firstOccurrences_eq_eraseDups xs).trans kept)

namespace OrderedMap

open Collection

variable {κ ν : Type} [BEq κ] [Hashable κ] [EquivBEq κ] [LawfulHashable κ]

omit [Hashable κ] [EquivBEq κ] [LawfulHashable κ] in
/-- A key that the map does not have can be added, which changes what is found for that key. -/
theorem insertNew?_of_absent {map : OrderedMap κ ν} {key : κ} (absent : map.get? key = none)
    (value : ν) : ∃ map', map.insertNew? key value = some map' ∧
      ∀ other, map'.get? other = if key == other then some value else map.get? other := by
  have fresh : ¬ map.toList.any (fun entry => entry.1 == key) = true := by
    rw [List.any_eq_true]
    intro holds
    obtain ⟨entry, member, same⟩ := holds
    rw [absent_of_lastValue?_eq_none absent entry member] at same
    cases same
  refine ⟨_, dif_neg fresh, fun other => ?_⟩
  exact lastValue?_append_singleton other map.toList (key, value)

omit [Hashable κ] [EquivBEq κ] [LawfulHashable κ] in
theorem toList_of_insertNew? {map map' : OrderedMap κ ν} {key : κ} {value : ν}
    (inserted : map.insertNew? key value = some map') :
    map'.toList = map.toList ++ [(key, value)] := by
  rw [insertNew?] at inserted
  split at inserted
  · cases inserted
  · cases inserted
    rfl

@[simp] theorem ofList_toList (map : OrderedMap κ ν) : ofList map.toList = map := by
  refine ext ?_
  rw [toList_ofList, firstOccurrences_eq_self map.distinct]
  exact filterMap_lastValue? map.distinct

theorem size_ofList_le (entries : List (κ × ν)) : (ofList entries).size ≤ entries.length := by
  rw [size, toList_ofList]
  have keys := length_firstOccurrences_le (entries.map Prod.fst)
  rw [List.length_map] at keys
  exact Nat.le_trans (List.length_filterMap_le _ _) keys

/-- Spreading entries over rows and grouping the rows is grouping the entries. -/
theorem group_flatMap (entries : List (κ × List ν)) (full : ∀ entry ∈ entries, entry.2 ≠ []) :
    group (entries.flatMap fun entry => entry.2.map fun value => (entry.1, value)) =
      (group entries).map fun _ => List.flatten := by
  have keys : (entries.flatMap fun entry => entry.2.map fun value => (entry.1, value)).map
      Prod.fst = entries.flatMap fun entry => entry.2.map fun _ => entry.1 := by
    rw [List.map_flatMap]
    simp only [List.map_map]
    rfl
  refine ext ?_
  rw [toList_group, toList_map, toList_group, keys, firstOccurrences_flatMap_keys _ full,
    List.map_map]
  refine List.map_congr_left fun key _ => ?_
  rw [valuesOf_flatMap]
  rfl

/-- Entries without repeated keys are groups of one. -/
theorem toList_group_of_distinct {entries : List (κ × ν)}
    (distinct : Distinct (entries.map Prod.fst)) :
    (group entries).toList = entries.map fun entry => (entry.1, [entry.2]) := by
  rw [toList_group, firstOccurrences_eq_self distinct, map_valuesOf distinct]

end OrderedMap

/-! ### Values under their own keys -/

namespace OrderedMap

open Collection

variable {κ ν μ : Type} [BEq κ] {key : ν → κ} {map : OrderedMap κ ν}

/-- Every value stands under its own key. -/
def KeyedBy (key : ν → κ) (map : OrderedMap κ ν) : Prop :=
  ∀ entry ∈ map.toList, entry.1 = key entry.2

theorem keyedBy_empty : (empty : OrderedMap κ ν).KeyedBy key :=
  fun _ member => absurd member List.not_mem_nil

theorem keyedBy_map {key : μ → κ} {f : κ → ν → μ} (own : ∀ k value, key (f k value) = k)
    (map : OrderedMap κ ν) : (map.map f).KeyedBy key := by
  intro entry member
  obtain ⟨⟨k, value⟩, -, rfl⟩ := List.mem_map.mp member
  exact (own k value).symm

theorem KeyedBy.toList_eq (keyed : map.KeyedBy key) :
    map.toList = map.values.map fun value => (key value, value) := by
  rw [values, List.map_map]
  refine (List.map_id' map.toList).symm.trans (List.map_congr_left fun entry member => ?_)
  exact Prod.ext (keyed entry member) rfl

theorem KeyedBy.distinct (keyed : map.KeyedBy key) : Distinct (map.values.map key) := by
  have distinct := map.distinct
  rwa [keyed.toList_eq, List.map_map] at distinct

variable [Hashable κ] [LawfulBEq κ] [LawfulHashable κ]

theorem keyedBy_keyBy (key : ν → κ) (values : List ν) : (keyBy key values).KeyedBy key := by
  intro entry member
  rw [keyBy, toList_ofList] at member
  obtain ⟨k, -, found⟩ := List.mem_filterMap.mp member
  obtain ⟨value, last, rfl⟩ := Option.map_eq_some_iff.mp found
  obtain ⟨_, -, same⟩ := List.mem_map.mp (mem_of_lastValue? last)
  cases same
  rfl

/-- Nothing changes when the values are entered under their keys once more. -/
theorem KeyedBy.keyBy_values (keyed : map.KeyedBy key) : keyBy key map.values = map := by
  rw [keyBy, ← keyed.toList_eq, ofList_toList]

end OrderedMap

end DescriptorCodec
