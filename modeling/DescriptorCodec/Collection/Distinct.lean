import Std.Data.HashSet

/-!
# Lists without repeats

`firstOccurrences` keeps the first of each class of equal elements and drops the rest. It runs in
one pass with a hash set of what has been kept; `firstOccurrences_eq_eraseDups` says that it is
the library's `eraseDups`, whose recursion equation is the one that proofs use.

Equality is `==`, which may be coarser than `=`: for collections that are compared regardless of
order, the element kept is the one that came first.
-/

namespace DescriptorCodec

namespace Collection

/-- Texts are what most collections hold or are keyed by. -/
instance equivBEq_string : EquivBEq String := inferInstance

instance lawfulHashable_string : LawfulHashable String := inferInstance

variable {α : Type} [BEq α] [Hashable α]

/-- No element is equal to a later one. -/
def Distinct (xs : List α) : Prop :=
  xs.Pairwise fun a b => (a == b) = false

omit [Hashable α] in
theorem distinct_nil : Distinct ([] : List α) := List.Pairwise.nil

/-- Keeps an element unless an equal one has been kept. -/
def keep (state : Std.HashSet α × Array α) (x : α) : Std.HashSet α × Array α :=
  if state.1.contains x then state else (state.1.insert x, state.2.push x)

/-- The list without its later repeats. -/
def firstOccurrences (xs : List α) : List α :=
  (xs.foldl keep (∅, #[])).2.toList

@[simp] theorem firstOccurrences_nil : firstOccurrences ([] : List α) = [] := rfl

section Laws

variable [EquivBEq α] [LawfulHashable α]

theorem foldl_keep (xs : List α) (seen : Std.HashSet α) (kept : Array α) :
    (xs.foldl keep (seen, kept)).2.toList =
      kept.toList ++ (xs.filter fun x => !seen.contains x).eraseDups := by
  induction xs generalizing seen kept with
  | nil => simp
  | cons x xs ih =>
    rw [List.foldl_cons, keep]
    cases h : seen.contains x with
    | true => simp [ih, h]
    | false =>
      simp only [Bool.false_eq_true, ↓reduceIte, ih, Array.toList_push, List.append_assoc,
        List.filter_cons, h, Bool.not_false, List.eraseDups_cons, List.filter_filter,
        List.singleton_append, Std.HashSet.contains_insert]
      congr 3
      refine List.filter_congr fun y _ => ?_
      rw [Bool.not_or, BEq.comm]

/-- Keeping first occurrences is erasing duplicates. -/
theorem firstOccurrences_eq_eraseDups (xs : List α) : firstOccurrences xs = xs.eraseDups := by
  rw [firstOccurrences, foldl_keep, List.filter_eq_self.mpr]
  · simp
  · simp

/-- The first element is kept, and everything equal to it is dropped from the rest. -/
theorem firstOccurrences_cons (x : α) (xs : List α) :
    firstOccurrences (x :: xs) = x :: firstOccurrences (xs.filter fun y => !y == x) := by
  rw [firstOccurrences_eq_eraseDups, firstOccurrences_eq_eraseDups, List.eraseDups_cons]

theorem mem_of_mem_firstOccurrences {x : α} (xs : List α) (h : x ∈ firstOccurrences xs) :
    x ∈ xs := by
  match xs with
  | [] => exact h
  | y :: ys =>
    rw [firstOccurrences_cons, List.mem_cons] at h
    rcases h with rfl | h
    · exact List.mem_cons_self
    · exact List.mem_cons_of_mem _ (List.mem_filter.mp (mem_of_mem_firstOccurrences _ h)).1
termination_by xs.length
decreasing_by
  exact Nat.lt_succ_of_le (List.length_filter_le _ ys)

/-- Nothing that is kept equals anything kept later. -/
theorem distinct_firstOccurrences (xs : List α) : Distinct (firstOccurrences xs) := by
  match xs with
  | [] => exact List.Pairwise.nil
  | y :: ys =>
    rw [firstOccurrences_cons]
    refine List.Pairwise.cons (fun z hz => ?_) (distinct_firstOccurrences _)
    have hz := (List.mem_filter.mp (mem_of_mem_firstOccurrences _ hz)).2
    rw [BEq.comm]
    simpa using hz
termination_by xs.length
decreasing_by
  exact Nat.lt_succ_of_le (List.length_filter_le _ ys)

/-- Every element of the list has an equal that is kept. -/
theorem contains_firstOccurrences (xs : List α) (x : α) :
    (firstOccurrences xs).contains x = xs.contains x := by
  match xs with
  | [] => rfl
  | y :: ys =>
    rw [firstOccurrences_cons, List.contains_cons, List.contains_cons,
      contains_firstOccurrences]
    cases h : x == y with
    | true => simp
    | false =>
      simp only [Bool.false_or, List.contains_eq_any_beq, List.any_filter]
      congr 1
      funext z
      cases hz : x == z with
      | false => simp
      | true =>
        have : (z == y) = false := by
          rw [← BEq.congr_left hz]
          exact h
        simp [this]
termination_by xs.length
decreasing_by
  exact Nat.lt_succ_of_le (List.length_filter_le _ ys)

/-- A list without repeats stays as it is. -/
theorem firstOccurrences_eq_self {xs : List α} (h : Distinct xs) : firstOccurrences xs = xs := by
  induction xs with
  | nil => rfl
  | cons x xs ih =>
    obtain ⟨hx, hxs⟩ := List.pairwise_cons.mp h
    rw [firstOccurrences_cons, List.filter_eq_self.mpr, ih hxs]
    intro y hy
    have := hx y hy
    rw [BEq.comm] at this
    simp [this]

end Laws

end Collection

end DescriptorCodec
