import Mathlib.Data.Finset.Dedup
import Mathlib.Data.List.Induction
import DescriptorCodec.Collection.OrderedSet
import DescriptorCodec.Proofs.Collection.Grouping

/-!
# Equality regardless of order

Two collections without repeats are equal as soon as they have as many elements and every element
of the first has an equal in the second. That is what `matched` checks, and it looks one way only;
counting shows that nothing of the second is left over.

Where `==` is having the same image under some function, an ordered set is equal to another one
exactly if the images of their elements make the same finite set. An ordered map is equal to
another one exactly if both have the same value for every key.
-/

namespace DescriptorCodec

namespace Collection

variable {α β κ ν : Type}

/-- There are as many elements, and each element of the first list has an equal in the second. -/
def matched (same : α → α → Bool) (xs ys : List α) : Bool :=
  xs.length == ys.length && xs.all fun x => ys.any (same x)

/-- A list without repeats leaves nothing over of a list that is not longer and has all of it. -/
theorem perm_of_subset {xs ys : List β} (nodup : xs.Nodup) (sub : xs ⊆ ys)
    (length : xs.length = ys.length) : xs.Perm ys :=
  (List.subperm_of_subset nodup sub).perm_of_length_le (Nat.le_of_eq length.symm)

section Matched

variable {same : α → α → Bool} {f : α → β} (agree : ∀ x y, same x y = true ↔ f x = f y)
  {xs ys : List α}

include agree

theorem matched_iff_subset :
    matched same xs ys = true ↔ xs.length = ys.length ∧ xs.map f ⊆ ys.map f := by
  rw [matched, Bool.and_eq_true, beq_iff_eq, List.all_eq_true]
  refine and_congr_right fun _ => ?_
  constructor
  · intro found image member
    obtain ⟨x, listed, rfl⟩ := List.mem_map.mp member
    obtain ⟨y, listed', equal⟩ := List.any_eq_true.mp (found x listed)
    rw [(agree x y).mp equal]
    exact List.mem_map_of_mem listed'
  · intro sub x member
    obtain ⟨y, member', equal⟩ := List.mem_map.mp (sub (List.mem_map_of_mem member))
    exact List.any_eq_true.mpr ⟨y, member', (agree x y).mpr equal.symm⟩

/-- Looking one way is enough where nothing is repeated. -/
theorem matched_iff [DecidableEq β] (nodup : (xs.map f).Nodup) (nodup' : (ys.map f).Nodup) :
    matched same xs ys = true ↔ (xs.map f).toFinset = (ys.map f).toFinset := by
  rw [matched_iff_subset agree]
  constructor
  · rintro ⟨length, sub⟩
    have perm := perm_of_subset nodup sub (by rw [List.length_map, List.length_map, length])
    exact List.toFinset_eq_of_perm _ _ perm
  · intro equal
    have perm := List.perm_of_nodup_nodup_toFinset_eq nodup nodup' equal
    have length := perm.length_eq
    rw [List.length_map, List.length_map] at length
    exact ⟨length, perm.subset⟩

end Matched

section Shuffled

variable [BEq κ]

/-- The elements of each key are the same ones, in the same order. -/
def Shuffled (key : α → κ) (xs ys : List α) : Prop :=
  ∀ k, (xs.filter fun x => key x == k) = ys.filter fun y => key y == k

theorem Shuffled.refl (key : α → κ) (xs : List α) : Shuffled key xs xs :=
  fun _ => rfl

/-- Where no key repeats, any permutation will do. -/
theorem Shuffled.of_perm [LawfulBEq κ] {key : α → κ} {xs ys : List α} (perm : xs.Perm ys)
    (nodup : (xs.map key).Nodup) : Shuffled key xs ys := by
  intro k
  have filtered := perm.filter fun x => key x == k
  have unrepeated : ((xs.filter fun x => key x == k).map key).Nodup :=
    nodup.sublist (List.filter_sublist.map key)
  have own : ∀ x ∈ xs.filter fun x => key x == k, key x = k :=
    fun x member => eq_of_beq (List.mem_filter.mp member).2
  generalize (xs.filter fun x => key x == k) = kept at filtered unrepeated own
  match kept with
  | [] => exact filtered.nil_eq
  | [x] => exact List.singleton_perm.mp filtered
  | x :: y :: _ =>
      -- Both have the key, so it is repeated.
      have first := own x List.mem_cons_self
      have second := own y (List.mem_cons_of_mem x List.mem_cons_self)
      simp [first, second] at unrepeated

/-- The value of a key is the last one among the entries of that key. -/
theorem lastValue?_eq_getLast? (key : κ) (entries : List (κ × ν)) :
    lastValue? key entries =
      ((entries.filter fun entry => entry.1 == key).getLast?).map Prod.snd := by
  induction entries using List.reverseRecOn with
  | nil => rfl
  | append_singleton entries entry ih =>
      rw [lastValue?_append_singleton, List.filter_append, ih]
      cases own : entry.1 == key with
      | true => simp [own]
      | false => simp [own]

theorem Shuffled.lastValue?_eq {xs ys : List (κ × ν)} (shuffled : Shuffled Prod.fst xs ys)
    (key : κ) : lastValue? key xs = lastValue? key ys := by
  rw [lastValue?_eq_getLast?, lastValue?_eq_getLast?, shuffled key]

end Shuffled

end Collection

namespace OrderedSet

open Collection

variable {α β : Type} [BEq α] [DecidableEq β]

def image (f : α → β) (set : OrderedSet α) : Finset β :=
  (set.toList.map f).toFinset

variable {f : α → β} (agree : ∀ x y : α, (x == y) = true ↔ f x = f y) {a b : OrderedSet α}

include agree

omit [DecidableEq β] in
theorem nodup_map (set : OrderedSet α) : (set.toList.map f).Nodup := by
  rw [List.Nodup, List.pairwise_map]
  refine set.distinct.imp fun {x y} differ same => ?_
  rw [(agree x y).mpr same] at differ
  cases differ

omit [DecidableEq β] in
theorem contains_iff_mem_map {xs : List α} {x : α} :
    xs.contains x = true ↔ f x ∈ xs.map f := by
  rw [List.contains_iff_exists_mem_beq, List.mem_map]
  exact exists_congr fun y => and_congr_right fun _ => (agree x y).trans eq_comm

/-- Sets are equal as computed by counting exactly if they have the same images. -/
theorem matched_iff_image {same : α → α → Bool} (equal : ∀ x y, same x y = (x == y)) :
    matched same a.toList b.toList = true ↔ a.image f = b.image f :=
  matched_iff (fun x y => by rw [equal, agree]) (nodup_map agree a) (nodup_map agree b)

variable [Hashable α] [EquivBEq α] [LawfulHashable α]

theorem beq_iff_image : (a == b) = true ↔ a.image f = b.image f := by
  rw [beq_def, Bool.and_eq_true, subset_iff, subset_iff]
  have sub (a b : OrderedSet α) : (∀ x, a.contains x = true → b.contains x = true) ↔
      ∀ image ∈ a.toList.map f, image ∈ b.toList.map f := by
    simp only [OrderedSet.contains, contains_iff_mem_map agree]
    constructor
    · intro all image member
      obtain ⟨x, -, rfl⟩ := List.mem_map.mp member
      exact all x member
    · exact fun all x => all (f x)
  rw [sub, sub, image, image, Finset.ext_iff]
  simp only [List.mem_toFinset]
  exact forall_and.symm.trans (forall_congr' fun _ => iff_iff_implies_and_implies.symm)

/-- Counting and looking one way comes to the same as looking both ways. -/
theorem matched_eq_beq {same : α → α → Bool} (equal : ∀ x y, same x y = (x == y))
    (a b : OrderedSet α) : matched same a.toList b.toList = (a == b) := by
  rw [Bool.eq_iff_iff, matched_iff_image agree equal, beq_iff_image agree]

/-- Dropping repeats loses no image. -/
theorem image_ofList (xs : List α) : (ofList xs).image f = (xs.map f).toFinset := by
  ext image
  rw [OrderedSet.image, toList_ofList, List.mem_toFinset, List.mem_toFinset]
  constructor
  · intro member
    obtain ⟨x, listed, rfl⟩ := List.mem_map.mp member
    exact List.mem_map_of_mem (mem_of_mem_firstOccurrences xs listed)
  · intro member
    obtain ⟨x, listed, rfl⟩ := List.mem_map.mp member
    rw [← contains_iff_mem_map agree, contains_firstOccurrences]
    exact (contains_iff_mem_map agree).mpr member

omit agree in
theorem beq_iff_image_id {α : Type} [DecidableEq α] [Hashable α] {a b : OrderedSet α} :
    (a == b) = true ↔ a.image id = b.image id :=
  beq_iff_image fun _ _ => beq_iff_eq

omit agree in
theorem matched_beq_eq_beq {α : Type} [DecidableEq α] [Hashable α] (a b : OrderedSet α) :
    matched (· == ·) a.toList b.toList = (a == b) :=
  matched_eq_beq (f := id) (fun _ _ => beq_iff_eq) (fun _ _ => rfl) a b

end OrderedSet

namespace OrderedMap

open Collection

variable {κ ν : Type} [BEq κ] [LawfulBEq κ] {a b : OrderedMap κ ν}

theorem get?_eq_some_iff {map : OrderedMap κ ν} {key : κ} {value : ν} :
    map.get? key = some value ↔ (key, value) ∈ map.toList := by
  obtain ⟨entries, distinct⟩ := map
  change lastValue? key entries = some value ↔ (key, value) ∈ entries
  induction entries with
  | nil => simp
  | cons entry rest ih =>
      obtain ⟨fresh, distinct⟩ := List.pairwise_cons.mp distinct
      rw [lastValue?_cons, List.mem_cons, ← ih distinct]
      cases own : entry.1 == key with
      | true =>
          obtain rfl := eq_of_beq own
          have later : lastValue? entry.1 rest = none := by
            refine lastValue?_eq_none fun other member => ?_
            rw [BEq.comm]
            exact fresh other.1 (List.mem_map_of_mem member)
          simp [later, Prod.ext_iff, eq_comm]
      | false =>
          have other : (key, value) ≠ entry := by
            rintro rfl
            simp at own
          simp [other]

theorem nodup_toList (map : OrderedMap κ ν) : map.toList.Nodup := by
  refine List.Nodup.of_map Prod.fst ?_
  exact map.distinct.imp fun differ same => by simp [same] at differ

/-- Whether there are as many entries, and each entry of the first map is in the second. -/
def matched [BEq ν] (a b : OrderedMap κ ν) : Bool :=
  a.size == b.size && a.toList.all fun entry => b.get? entry.1 == some entry.2

theorem forall_get?_iff_subset [BEq ν] [LawfulBEq ν] :
    (∀ entry ∈ a.toList, (b.get? entry.1 == some entry.2) = true) ↔ a.toList ⊆ b.toList := by
  simp only [beq_iff_eq, get?_eq_some_iff]
  exact Iff.rfl

theorem forall_get?_eq_iff :
    (∀ key, a.get? key = b.get? key) ↔ a.toList ⊆ b.toList ∧ b.toList ⊆ a.toList := by
  constructor
  · intro same
    constructor
    · intro entry member
      rw [← get?_eq_some_iff, ← same]
      exact get?_eq_some_iff.mpr member
    · intro entry member
      rw [← get?_eq_some_iff, same]
      exact get?_eq_some_iff.mpr member
  · rintro ⟨sub, sub'⟩ key
    refine Option.ext fun value => ?_
    rw [get?_eq_some_iff, get?_eq_some_iff]
    exact Iff.intro (fun member => sub member) fun member => sub' member

/-- Maps are equal as computed by counting exactly if every key has the same value in both. -/
theorem matched_iff [BEq ν] [LawfulBEq ν] :
    a.matched b = true ↔ ∀ key, a.get? key = b.get? key := by
  rw [matched, Bool.and_eq_true, beq_iff_eq, List.all_eq_true, forall_get?_iff_subset,
    forall_get?_eq_iff]
  constructor
  · rintro ⟨length, sub⟩
    exact ⟨sub, (perm_of_subset a.nodup_toList sub length).symm.subset⟩
  · rintro ⟨sub, sub'⟩
    have shorter := (List.subperm_of_subset a.nodup_toList sub).length_le
    have longer := (List.subperm_of_subset b.nodup_toList sub').length_le
    exact ⟨Nat.le_antisymm shorter longer, sub⟩

variable [Hashable κ] [LawfulHashable κ]

theorem beq_iff_get? [BEq ν] [LawfulBEq ν] :
    (a == b) = true ↔ ∀ key, a.get? key = b.get? key := by
  rw [beq_def, Bool.and_eq_true, subset_iff, subset_iff, forall_get?_iff_subset,
    forall_get?_iff_subset, forall_get?_eq_iff]

theorem matched_eq_beq [BEq ν] [LawfulBEq ν] (a b : OrderedMap κ ν) : a.matched b = (a == b) := by
  rw [Bool.eq_iff_iff, matched_iff, beq_iff_get?]

theorem get?_ofList (entries : List (κ × ν)) (key : κ) :
    (ofList entries).get? key = lastValue? key entries := by
  ext value
  rw [get?_eq_some_iff, toList_ofList, List.mem_filterMap]
  constructor
  · rintro ⟨other, -, found⟩
    obtain ⟨value', last, same⟩ := Option.map_eq_some_iff.mp found
    cases same
    exact last
  · intro last
    refine ⟨key, ?_, by rw [last]; rfl⟩
    have listed : key ∈ entries.map Prod.fst := by
      by_contra absent
      have nothing : lastValue? key entries = none := by
        refine lastValue?_eq_none fun entry member => ?_
        rw [beq_eq_false_iff_ne]
        rintro rfl
        exact absent (List.mem_map_of_mem member)
      rw [nothing] at last
      cases last
    rw [← List.contains_iff_mem, contains_firstOccurrences, List.contains_iff_mem]
    exact listed

end OrderedMap

end DescriptorCodec
