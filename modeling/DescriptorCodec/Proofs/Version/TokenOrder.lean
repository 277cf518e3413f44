import DescriptorCodec.Version.Order

/-!
# The order of tokens

Among the tokens that a version can have, a number and a text never print alike, and where they
differ is their first character. So the three ways to compare tokens fit together into one linear
order: texts that sort below the digits, then the numbers, then all other texts.
-/

namespace DescriptorCodec

namespace Token

open Std

/-- A token that a version can have: a text is not empty and has no digit in front. -/
def Proper : Token → Prop
  | number _ => True
  | text run => ∃ c cs, run.toList = c :: cs ∧ c.isDigit = false

theorem proper_number (value : Nat) : (number value).Proper := trivial

/-- Where the token stands: below the numbers, among them, or above them. -/
def tier : Token → Nat
  | number _ => 1
  | text run => if run < "0" then 0 else 2

/-- The value of a number. -/
def value : Token → Nat
  | number value => value
  | text _ => 0

/-- The characters of a text. -/
def run : Token → String
  | number _ => ""
  | text run => run

/-- Compares by tier, and within a tier by value or by code points. -/
def rank : Token → Token → Ordering :=
  compareLex (compareOn tier) (compareLex (compareOn value) (compareOn run))

instance : TransCmp rank :=
  inferInstanceAs (TransCmp (compareLex (compareOn tier) (compareLex (compareOn value)
    (compareOn run))))

theorem tier_text_ne (run : String) : (text run).tier ≠ 1 := by
  rw [tier]
  by_cases low : run < "0"
  · rw [if_pos low]
    decide
  · rw [if_neg low]
    decide

theorem rank_eq_eq_iff {a b : Token} : rank a b = .eq ↔ a = b := by
  constructor
  · intro h
    simp only [rank, compareLex_eq_eq, compareOn, LawfulEqOrd.compare_eq_iff_eq] at h
    obtain ⟨sameTier, sameValue, sameRun⟩ := h
    cases a with
    | number a =>
        cases b with
        | number b => exact congrArg number sameValue
        | text b => exact absurd sameTier.symm (tier_text_ne b)
    | text a =>
        cases b with
        | number b => exact absurd sameTier (tier_text_ne a)
        | text b => exact congrArg text sameRun
  · rintro rfl
    exact ReflCmp.compare_self

instance : LawfulEqCmp rank where
  eq_of_compare := rank_eq_eq_iff.mp

theorem compare_eq_lt {s t : String} (h : s < t) : Ord.compare s t = .lt :=
  compareOfLessAndEq_eq_lt.mpr h

theorem compare_eq_gt {s t : String} (h : t < s) : Ord.compare s t = .gt :=
  OrientedCmp.gt_of_lt (compare_eq_lt h)

theorem isLE_compare {s t : String} (h : ¬ t < s) : (Ord.compare s t).isLE = true := by
  rw [Ordering.isLE_iff_ne_gt]
  intro greater
  have less : Ord.compare t s = .lt := OrientedCmp.lt_of_gt greater
  exact h (compareOfLessAndEq_eq_lt.mp less)

theorem lt_of_first_lt {s t : String} {c d : Char} {cs ds : List Char} (hs : s.toList = c :: cs)
    (ht : t.toList = d :: ds) (h : c < d) : s < t := by
  rw [String.lt_iff, hs, ht, List.cons_lt_cons_iff]
  exact .inl h

theorem exists_toList_repr (value : Nat) :
    ∃ d ds, value.repr.toList = d :: ds ∧ d.isDigit = true := by
  have nonempty : Nat.toDigits 10 value ≠ [] := Nat.toDigits_ne_nil
  obtain ⟨d, ds, digits⟩ := List.exists_cons_of_ne_nil nonempty
  have member : d ∈ Nat.toDigits 10 value := by
    rw [digits]
    exact List.mem_cons_self
  refine ⟨d, ds, ?_, Nat.isDigit_of_mem_toDigits (by decide) (by decide) member⟩
  rw [Nat.toList_repr, digits]

/-- How a number compares with a text that has no digit in front: the first character decides. -/
theorem compare_repr_text (value : Nat) {run : String} (proper : (text run).Proper) :
    Ord.compare value.repr run = if run < "0" then .gt else .lt := by
  obtain ⟨c, cs, same, other⟩ := proper
  obtain ⟨d, ds, printed, digit⟩ := exists_toList_repr value
  have zero : "0".toList = ['0'] := rfl
  rw [Char.isDigit_iff_toNat] at digit
  have other : ¬ ('0'.toNat ≤ c.toNat ∧ c.toNat ≤ '9'.toNat) := by
    rw [← Char.isDigit_iff_toNat, other]
    exact Bool.false_ne_true
  by_cases low : c.toNat < '0'.toNat
  · have below : run < value.repr :=
      lt_of_first_lt same printed (Nat.lt_of_lt_of_le low digit.1)
    rw [if_pos (lt_of_first_lt same zero low), compare_eq_gt below]
  · have high : '9'.toNat < c.toNat := by omega
    have above : value.repr < run :=
      lt_of_first_lt printed same (Nat.lt_of_le_of_lt digit.2 high)
    have positive : "0" < run :=
      lt_of_first_lt zero same (Nat.lt_of_le_of_lt (Nat.le_trans digit.1 digit.2) high)
    have least : ¬ run < "0" := by
      intro less
      have impossible := compare_eq_gt positive
      rw [compare_eq_lt less] at impossible
      cases impossible
    rw [if_neg least, compare_eq_lt above]

theorem compare_number_text (value : Nat) {run : String} (proper : (text run).Proper) :
    compare (number value) (text run) = rank (number value) (text run) := by
  change Ord.compare value.repr run = _
  rw [compare_repr_text value proper, rank, compareLex, compareOn, tier, tier]
  by_cases low : run < "0"
  · rw [if_pos low, if_pos low]
    rfl
  · rw [if_neg low, if_neg low]
    rfl

theorem compare_swap (a b : Token) : compare b a = (compare a b).swap := by
  cases a with
  | number a =>
      cases b with
      | number b =>
          change Ord.compare b a = (Ord.compare a b).swap
          exact OrientedOrd.eq_swap
      | text b =>
          change Ord.compare b a.repr = (Ord.compare a.repr b).swap
          exact OrientedOrd.eq_swap
  | text a =>
      cases b with
      | number b =>
          change Ord.compare b.repr a = (Ord.compare a b.repr).swap
          exact OrientedOrd.eq_swap
      | text b =>
          change Ord.compare b a = (Ord.compare a b).swap
          exact OrientedOrd.eq_swap

theorem compare_text_text (a b : String) :
    compare (text a) (text b) = rank (text a) (text b) := by
  change Ord.compare a b = _
  rw [rank, compareLex, compareOn, tier, tier]
  by_cases lowA : a < "0"
  · by_cases lowB : b < "0"
    · rw [if_pos lowA, if_pos lowB]
      rfl
    · rw [if_pos lowA, if_neg lowB]
      exact TransCmp.lt_of_lt_of_isLE (compare_eq_lt lowA) (isLE_compare lowB)
  · by_cases lowB : b < "0"
    · rw [if_neg lowA, if_pos lowB]
      have less := TransCmp.lt_of_lt_of_isLE (compare_eq_lt lowB) (isLE_compare lowA)
      exact OrientedCmp.gt_of_lt less
    · rw [if_neg lowA, if_neg lowB]
      rfl

/-- On tokens that a version can have, the comparison is a linear order. -/
theorem compare_eq_rank {a b : Token} (properA : a.Proper) (properB : b.Proper) :
    compare a b = rank a b := by
  cases a with
  | number a =>
      cases b with
      | number b =>
          change Ord.compare a b = (Ord.compare a b).then .eq
          rw [Ordering.then_eq]
      | text b => exact compare_number_text a properB
  | text a =>
      cases b with
      | number b =>
          rw [compare_swap, compare_number_text b properA]
          exact OrientedCmp.eq_swap.symm
      | text b => exact compare_text_text a b

end Token

end DescriptorCodec
