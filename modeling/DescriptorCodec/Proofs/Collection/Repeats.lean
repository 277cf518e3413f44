import Mathlib.Data.List.Nodup
import DescriptorCodec.Proofs.Collection.Grouping

/-!
# Which elements are repeats

`withoutRepeats` looks at every element with all that stand before it, kept or not, and leaves out
those that repeat one of them. When repeating is being equal, these are the first occurrences.

Pairs that are grouped by their first component, without repeats within a group, are the distinct
pairs in another order, and the pairs of a group stand together.
-/

namespace DescriptorCodec

namespace Collection

variable {α κ ν : Type}

/-- The elements that repeat none of those in front of them, where `before` is in front of all. -/
def withoutRepeats (repeats : α → α → Bool) (before : List α) : List α → List α
  | [] => []
  | x :: xs =>
    if before.any fun earlier => repeats earlier x then withoutRepeats repeats (before ++ [x]) xs
    else x :: withoutRepeats repeats (before ++ [x]) xs

theorem withoutRepeats_cons (repeats : α → α → Bool) (before : List α) (x : α) (xs : List α) :
    withoutRepeats repeats before (x :: xs) =
      if before.any fun earlier => repeats earlier x then
        withoutRepeats repeats (before ++ [x]) xs
      else x :: withoutRepeats repeats (before ++ [x]) xs := rfl

/-- Whether an image is a repeat can be told before mapping. -/
theorem withoutRepeats_map {β : Type} (repeats : β → β → Bool) (f : α → β) (before xs : List α) :
    withoutRepeats repeats (before.map f) (xs.map f) =
      (withoutRepeats (fun a b => repeats (f a) (f b)) before xs).map f := by
  induction xs generalizing before with
  | nil => rfl
  | cons x xs ih =>
      have rest := ih (before ++ [x])
      rw [List.map_append, List.map_singleton] at rest
      rw [List.map_cons, withoutRepeats_cons, withoutRepeats_cons, List.any_map, rest,
        apply_ite (List.map f), List.map_cons]
      rfl

theorem withoutRepeats_subset (repeats : α → α → Bool) (before xs : List α) :
    withoutRepeats repeats before xs ⊆ xs := by
  induction xs generalizing before with
  | nil => exact List.Subset.refl _
  | cons x xs ih =>
      rw [withoutRepeats_cons]
      split
      · exact List.subset_cons_of_subset x (ih _)
      · exact List.cons_subset_cons x (ih _)

/-- Every element is kept, or it repeats one that is, or one in front of all. -/
theorem exists_mem_withoutRepeats {repeats : α → α → Bool} (refl : ∀ x, repeats x x = true)
    (trans : ∀ x y z, repeats x y = true → repeats y z = true → repeats x z = true)
    {before xs : List α} {x : α} (member : x ∈ xs) :
    (∃ earlier ∈ before, repeats earlier x = true) ∨
      ∃ kept ∈ withoutRepeats repeats before xs, repeats kept x = true := by
  induction xs generalizing before with
  | nil => cases member
  | cons y ys ih =>
      rw [withoutRepeats_cons]
      by_cases old : before.any fun earlier => repeats earlier y
      · rw [if_pos old]
        obtain ⟨earlier, there, repeated⟩ := List.any_eq_true.mp old
        rcases List.mem_cons.mp member with rfl | member
        · exact .inl ⟨earlier, there, repeated⟩
        · rcases @ih (before ++ [y]) member with ⟨first, there', again⟩ | kept
          · rcases List.mem_append.mp there' with there' | last
            · exact .inl ⟨first, there', again⟩
            · obtain rfl := List.mem_singleton.mp last
              exact .inl ⟨earlier, there, trans _ _ _ repeated again⟩
          · exact .inr kept
      · rw [if_neg old]
        rcases List.mem_cons.mp member with rfl | member
        · exact .inr ⟨x, List.mem_cons_self, refl x⟩
        · rcases @ih (before ++ [y]) member with ⟨first, there, again⟩ | ⟨kept, there, again⟩
          · rcases List.mem_append.mp there with there | last
            · exact .inl ⟨first, there, again⟩
            · obtain rfl := List.mem_singleton.mp last
              exact .inr ⟨first, List.mem_cons_self, again⟩
          · exact .inr ⟨kept, List.mem_cons_of_mem y there, again⟩

section Equality

variable [BEq α] [EquivBEq α]

/-- What equals nothing in front is left, and then only its first occurrences. -/
theorem withoutRepeats_beq (before xs : List α) :
    withoutRepeats (fun a b => a == b) before xs =
      (xs.filter fun x => !before.any fun earlier => earlier == x).eraseDups := by
  induction xs generalizing before with
  | nil => rfl
  | cons x xs ih =>
      have longer (y : α) : ((before ++ [x]).any fun earlier => earlier == y) =
          ((before.any fun earlier => earlier == y) || x == y) := by
        rw [List.any_append, List.any_cons, List.any_nil, Bool.or_false]
      rw [withoutRepeats_cons, ih, List.filter_cons]
      by_cases old : (before.any fun earlier => earlier == x) = true
      · have nothing (y : α) (same : (x == y) = true) :
            (before.any fun earlier => earlier == y) = true := by
          obtain ⟨earlier, there, equal⟩ := List.any_eq_true.mp old
          exact List.any_eq_true.mpr ⟨earlier, there, BEq.trans equal same⟩
        rw [if_pos old, if_neg (by simp [old])]
        congr 1
        refine List.filter_congr fun y _ => ?_
        rw [longer]
        cases same : x == y with
        | false => rw [Bool.or_false]
        | true => rw [nothing y same, Bool.or_true]
      · rw [if_neg old, if_pos (by simp [old]), List.eraseDups_cons, List.filter_filter]
        congr 2
        refine List.filter_congr fun y _ => ?_
        rw [longer, Bool.not_or, Bool.and_comm, BEq.comm]

theorem firstOccurrences_eq_withoutRepeats [Hashable α] [LawfulHashable α] (xs : List α) :
    firstOccurrences xs = withoutRepeats (fun a b => a == b) [] xs := by
  rw [firstOccurrences_eq_eraseDups, withoutRepeats_beq, List.filter_eq_self.mpr]
  intro x _
  rfl

end Equality

section Pairs

variable [DecidableEq κ] [DecidableEq ν]

/-- What is paired with the key, in order and without repeats. -/
def partnersOf (key : κ) (pairs : List (κ × ν)) : List ν :=
  ((pairs.filter fun pair => pair.1 = key).map Prod.snd).eraseDups

/-- The pairs key by key, without repeats. -/
def groupedPairs (pairs : List (κ × ν)) : List (κ × ν) :=
  (pairs.map Prod.fst).eraseDups.flatMap fun key => (partnersOf key pairs).map fun value =>
    (key, value)

variable {pairs : List (κ × ν)} {key : κ} {value : ν}

theorem mem_partnersOf : value ∈ partnersOf key pairs ↔ (key, value) ∈ pairs := by
  simp [partnersOf]

theorem nodup_partnersOf : (partnersOf key pairs).Nodup := nodup_eraseDups _

theorem partnersOf_ne_nil (listed : key ∈ pairs.map Prod.fst) : partnersOf key pairs ≠ [] := by
  obtain ⟨pair, member, rfl⟩ := List.mem_map.mp listed
  exact List.ne_nil_of_mem (mem_partnersOf.mpr member)

theorem eraseDups_valuesOf (key : κ) (pairs : List (κ × ν)) :
    (valuesOf key pairs).eraseDups = partnersOf key pairs := by
  rw [partnersOf, valuesOf, ← List.filterMap_eq_map, List.filterMap_filter]
  simp only [beq_iff_eq, decide_eq_true_eq, Function.comp_apply]

theorem mem_groupedPairs {pair : κ × ν} : pair ∈ groupedPairs pairs ↔ pair ∈ pairs := by
  obtain ⟨key, value⟩ := pair
  simp only [groupedPairs, List.mem_flatMap, List.mem_eraseDups, List.mem_map, mem_partnersOf]
  constructor
  · rintro ⟨_, -, _, member, ⟨⟩⟩
    exact member
  · intro member
    exact ⟨key, ⟨_, member, rfl⟩, value, member, rfl⟩

theorem nodup_groupedPairs (pairs : List (κ × ν)) : (groupedPairs pairs).Nodup := by
  refine List.nodup_flatMap.mpr ⟨fun key _ => ?_, ?_⟩
  · exact nodup_partnersOf.map fun _ _ same => (Prod.mk.inj same).2
  · refine (nodup_eraseDups (pairs.map Prod.fst)).imp fun {key other} differ => ?_
    intro pair first second
    obtain ⟨_, -, rfl⟩ := List.mem_map.mp first
    obtain ⟨_, -, same⟩ := List.mem_map.mp second
    exact differ (congrArg Prod.fst same).symm

/-- Grouping neither loses nor invents a pair. -/
theorem groupedPairs_perm (pairs : List (κ × ν)) : (groupedPairs pairs).Perm pairs.eraseDups := by
  rw [List.perm_ext_iff_of_nodup (nodup_groupedPairs pairs) (nodup_eraseDups pairs)]
  intro pair
  rw [mem_groupedPairs, List.mem_eraseDups]

/-- The pairs of a key stand together. -/
theorem exists_groupedPairs_eq (pairs : List (κ × ν)) (key : κ) :
    ∃ before after, groupedPairs pairs =
        before ++ ((partnersOf key pairs).map fun value => (key, value)) ++ after ∧
      ∀ pair ∈ before ++ after, pair.1 ≠ key := by
  by_cases listed : key ∈ (pairs.map Prod.fst).eraseDups
  · obtain ⟨front, back, split⟩ := List.append_of_mem listed
    have nodup := nodup_eraseDups (pairs.map Prod.fst)
    rw [split, List.nodup_append, List.nodup_cons] at nodup
    obtain ⟨-, ⟨absent, -⟩, apart⟩ := nodup
    refine ⟨front.flatMap fun key => (partnersOf key pairs).map fun value => (key, value),
      back.flatMap fun key => (partnersOf key pairs).map fun value => (key, value), ?_, ?_⟩
    · rw [groupedPairs, split, List.flatMap_append, List.flatMap_cons, List.append_assoc]
    · intro pair member same
      rw [← List.flatMap_append, List.mem_flatMap] at member
      obtain ⟨other, there, member⟩ := member
      obtain ⟨_, -, rfl⟩ := List.mem_map.mp member
      subst same
      rcases List.mem_append.mp there with there | there
      · exact apart _ there _ List.mem_cons_self rfl
      · exact absent there
  · have nothing : partnersOf key pairs = [] := by
      refine List.eq_nil_iff_forall_not_mem.mpr fun value member => listed ?_
      rw [List.mem_eraseDups]
      exact List.mem_map_of_mem (mem_partnersOf.mp member)
    refine ⟨groupedPairs pairs, [], by simp [nothing], ?_⟩
    intro pair member same
    rw [List.append_nil, mem_groupedPairs] at member
    rw [List.mem_eraseDups] at listed
    exact listed (same ▸ List.mem_map_of_mem member)

end Pairs

end Collection

end DescriptorCodec
