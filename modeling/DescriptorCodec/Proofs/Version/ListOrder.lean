import Mathlib.Data.List.Basic
import DescriptorCodec.Proofs.Version.TokenOrder

/-!
# The order of token lists

Lists that differ in zeros at their ends only are equal, and all other lists compare as words do,
where the end of a list comes before everything that could follow. The two do not fit together:
a text that sorts below the digits comes after the end of a list but before a zero. So a list that
goes on with such a text can come between two lists that are equal.

`Splits` describes this situation. Lists of which none splits two others are in order.
-/

namespace DescriptorCodec

namespace Token

open Std

theorem significant_cons (token : Token) (tokens : List Token) :
    significant (token :: tokens) =
      if significant tokens = [] then (if token.isZero then [] else [token])
      else token :: significant tokens := by
  rw [significant, List.reverse_cons, List.dropWhile_append]
  by_cases zeros : significant tokens = []
  · have dropped : tokens.reverse.dropWhile isZero = [] := List.reverse_eq_nil_iff.mp zeros
    rw [if_pos zeros, dropped]
    by_cases zero : token.isZero <;> simp [zero]
  · have kept : ¬ (tokens.reverse.dropWhile isZero).isEmpty = true := by
      rw [List.isEmpty_iff]
      exact fun dropped => zeros (List.reverse_eq_nil_iff.mpr dropped)
    rw [if_neg kept, if_neg zeros, List.reverse_append]
    rfl

theorem significant_eq_nil_iff {tokens : List Token} :
    significant tokens = [] ↔ tokens.all isZero = true := by
  induction tokens with
  | nil => exact Iff.intro (fun _ => rfl) fun _ => rfl
  | cons token tokens ih =>
      rw [significant_cons, List.all_cons, Bool.and_eq_true, ← ih]
      by_cases zeros : significant tokens = []
      · by_cases zero : token.isZero <;> simp [zeros, zero]
      · simp [zeros]

/-- Only zeros are left out, so the first token stays unless it is one. -/
theorem significant_cons_cases (token : Token) (tokens : List Token) :
    (significant (token :: tokens) = [] ∧ token = number 0) ∨
      ∃ rest, significant (token :: tokens) = token :: rest := by
  rw [significant_cons]
  by_cases zeros : significant tokens = []
  · by_cases zero : token.isZero
    · rw [if_pos zeros, if_pos zero]
      exact .inl ⟨rfl, isZero_iff.mp zero⟩
    · rw [if_pos zeros, if_neg zero]
      exact .inr ⟨[], rfl⟩
  · rw [if_neg zeros]
    exact .inr ⟨significant tokens, rfl⟩

theorem significant_append_zeros (tokens : List Token) (count : Nat) :
    significant (tokens ++ List.replicate count (number 0)) = significant tokens := by
  induction count with
  | zero => rw [List.replicate_zero, List.append_nil]
  | succ count ih =>
      rw [List.replicate_succ', ← List.append_assoc, significant_append_singleton]
      exact ih

theorem compareLists_nil_right_ne_lt (as : List Token) : compareLists as [] ≠ .lt := by
  rw [compareLists_nil_right]
  by_cases zeros : as.all isZero
  · rw [if_pos zeros]
    exact Ordering.noConfusion
  · rw [if_neg zeros]
    exact Ordering.noConfusion

/-- Lists with the same first token agree up to zeros exactly if their rests do. -/
theorem significant_cons_inj {token : Token} {as bs : List Token} :
    significant (token :: as) = significant (token :: bs) ↔ significant as = significant bs := by
  rw [significant_cons, significant_cons]
  by_cases zerosA : significant as = []
  · by_cases zerosB : significant bs = []
    · simp [zerosA, zerosB]
    · by_cases zero : token.isZero <;> simp [zerosA, zerosB, zero, Ne.symm zerosB]
  · by_cases zerosB : significant bs = []
    · by_cases zero : token.isZero <;> simp [zerosA, zerosB, zero]
    · simp [zerosA, zerosB]

theorem head_eq_of_significant {a b : Token} {as bs : List Token}
    (same : significant (a :: as) = significant (b :: bs)) : a = b := by
  rcases significant_cons_cases a as with ⟨noneA, zeroA⟩ | ⟨restA, keptA⟩
  · rcases significant_cons_cases b bs with ⟨-, zeroB⟩ | ⟨restB, keptB⟩
    · rw [zeroA, zeroB]
    · rw [noneA, keptB] at same
      cases same
  · rcases significant_cons_cases b bs with ⟨noneB, -⟩ | ⟨restB, keptB⟩
    · rw [keptA, noneB] at same
      cases same
    · rw [keptA, keptB] at same
      exact (List.cons.inj same).1

theorem compare_self (token : Token) : compare token token = .eq := by
  cases token with
  | number value =>
      change Ord.compare value value = .eq
      exact ReflOrd.compare_self
  | text run =>
      change Ord.compare run run = .eq
      exact ReflOrd.compare_self

theorem compareLists_swap (as bs : List Token) :
    compareLists bs as = (compareLists as bs).swap := by
  induction as generalizing bs with
  | nil =>
      rw [compareLists_nil_left, compareLists_nil_right]
      by_cases zeros : bs.all isZero
      · rw [if_pos zeros, if_pos zeros]
        rfl
      · rw [if_neg zeros, if_neg zeros]
        rfl
  | cons a as ih =>
      cases bs with
      | nil =>
          rw [compareLists_nil_left, compareLists_nil_right]
          by_cases zeros : (a :: as).all isZero
          · rw [if_pos zeros, if_pos zeros]
            rfl
          · rw [if_neg zeros, if_neg zeros]
            rfl
      | cons b bs =>
          rw [compareLists_cons_cons, compareLists_cons_cons, compare_swap a b, ih,
            Ordering.swap_then]

theorem compareLists_append_left (common as bs : List Token) :
    compareLists (common ++ as) (common ++ bs) = compareLists as bs := by
  induction common with
  | nil => rfl
  | cons token common ih =>
      rw [List.cons_append, List.cons_append, compareLists_cons_cons, compare_self, ih]
      rfl

/-- Up to zeros at the end, lists compare as words. -/
theorem compareLists_eq {as bs : List Token} (properA : ∀ token ∈ as, token.Proper)
    (properB : ∀ token ∈ bs, token.Proper) :
    compareLists as bs =
      if significant as = significant bs then .eq else List.compareLex rank as bs := by
  induction as generalizing bs with
  | nil =>
      cases bs with
      | nil => rfl
      | cons b bs =>
          rw [compareLists_nil_left, significant_nil, List.compareLex_nil_cons]
          simp only [eq_comm (a := ([] : List Token)), significant_eq_nil_iff]
  | cons a as ih =>
      cases bs with
      | nil =>
          rw [compareLists_nil_right, significant_nil, List.compareLex_cons_nil]
          simp only [significant_eq_nil_iff]
      | cons b bs =>
          have properAs := List.forall_mem_of_forall_mem_cons properA
          have properBs := List.forall_mem_of_forall_mem_cons properB
          rw [compareLists_cons_cons, List.compareLex_cons_cons,
            compare_eq_rank (properA a List.mem_cons_self) (properB b List.mem_cons_self)]
          by_cases same : a = b
          · subst same
            simp only [significant_cons_inj, rank_eq_eq_iff.mpr, Ordering.eq_then]
            exact ih properAs properBs
          · have differ : ¬ significant (a :: as) = significant (b :: bs) :=
              fun agree => same (head_eq_of_significant agree)
            have decided : rank a b ≠ .eq := fun equal => same (rank_eq_eq_iff.mp equal)
            rw [if_neg differ]
            cases order : rank a b with
            | eq => exact absurd order decided
            | lt => rfl
            | gt => rfl

/-- `zs` goes on after some of the zeros that `ys` has and `xs` lacks, with a text that sorts
below the digits. -/
def Splits (zs xs ys : List Token) : Prop :=
  ∃ (zeros more : Nat) (run : String) (rest : List Token), run < "0" ∧
    zs = xs ++ (List.replicate zeros (number 0) ++ text run :: rest) ∧
    ys = xs ++ List.replicate (zeros + 1 + more) (number 0)

theorem eq_replicate_of_all_isZero {tokens : List Token} (zeros : tokens.all isZero = true) :
    tokens = List.replicate tokens.length (number 0) := by
  refine List.eq_replicate_of_mem fun token member => ?_
  exact isZero_iff.mp (List.all_eq_true.mp zeros token member)

/-- A list that splits two lists comes between them, and they are equal. -/
theorem Splits.lt {zs xs ys : List Token} (h : Splits zs xs ys) :
    significant xs = significant ys ∧ compareLists xs zs = .lt ∧ compareLists zs ys = .lt := by
  obtain ⟨zeros, more, run, rest, low, rfl, rfl⟩ := h
  constructor
  · exact (significant_append_zeros xs _).symm
  constructor
  · have surplus := compareLists_append_left xs []
      (List.replicate zeros (number 0) ++ text run :: rest)
    rw [List.append_nil] at surplus
    rw [surplus, compareLists_nil_left, if_neg]
    simp
  · have below : compare (text run) (number 0) = .lt := compare_eq_lt low
    rw [compareLists_append_left, Nat.add_assoc, ← List.replicate_append_replicate,
      compareLists_append_left, Nat.add_comm, List.replicate_succ, compareLists_cons_cons, below]
    rfl

/-- What is below zero is a text that sorts below the digits. -/
theorem exists_text_of_compare_zero {token : Token} (below : compare token (number 0) = .lt) :
    ∃ run, run < "0" ∧ token = text run := by
  cases token with
  | number value =>
      have below : Ord.compare value 0 = .lt := below
      rw [Nat.compare_eq_lt] at below
      exact absurd below (Nat.not_lt_zero value)
  | text run =>
      have below : Ord.compare run "0" = .lt := below
      exact ⟨run, compareOfLessAndEq_eq_lt.mp below, rfl⟩

theorem eq_of_compare_eq_eq {a b : Token} (properA : a.Proper) (properB : b.Proper)
    (same : compare a b = .eq) : a = b := by
  rw [compare_eq_rank properA properB] at same
  exact rank_eq_eq_iff.mp same

/-- What comes between the empty list and a list of zeros. -/
theorem splits_nil_of_lt {zs ys : List Token} (proper : ∀ token ∈ zs, token.Proper)
    (zeros : ys.all isZero = true) (above : compareLists [] zs = .lt)
    (below : compareLists zs ys = .lt) : Splits zs [] ys := by
  induction ys generalizing zs with
  | nil =>
      exact absurd below (compareLists_nil_right_ne_lt zs)
  | cons y ys ih =>
      rw [List.all_cons, Bool.and_eq_true] at zeros
      obtain ⟨zero, zeros⟩ := zeros
      have zero := isZero_iff.mp zero
      subst zero
      cases zs with
      | nil => cases above
      | cons z zs =>
          rw [compareLists_cons_cons, Ordering.then_eq_lt] at below
          rcases below with first | ⟨same, below⟩
          · obtain ⟨run, low, rfl⟩ := exists_text_of_compare_zero first
            have rest := eq_replicate_of_all_isZero zeros
            refine ⟨0, ys.length, run, zs, low, rfl, ?_⟩
            rw [Nat.zero_add, Nat.add_comm, List.replicate_succ, ← rest]
            rfl
          · have zero := eq_of_compare_eq_eq (proper z List.mem_cons_self) (proper_number 0) same
            subst zero
            have above : compareLists [] zs = .lt := by
              rw [compareLists_nil_left] at above ⊢
              exact above
            have properZs := List.forall_mem_of_forall_mem_cons proper
            obtain ⟨count, more, run, rest, low, rfl, rfl⟩ := ih properZs zeros above below
            refine ⟨count + 1, more, run, rest, low, rfl, ?_⟩
            have total : count + 1 + 1 + more = count + 1 + more + 1 := by omega
            rw [total, List.replicate_succ]
            rfl

theorem Splits.cons {zs xs ys : List Token} (token : Token) (h : Splits zs xs ys) :
    Splits (token :: zs) (token :: xs) (token :: ys) := by
  obtain ⟨zeros, more, run, rest, low, rfl, rfl⟩ := h
  exact ⟨zeros, more, run, rest, low, rfl, rfl⟩

/-- Whatever comes between two equal lists splits them. -/
theorem splits_of_lt {xs zs ys : List Token} (properX : ∀ token ∈ xs, token.Proper)
    (properZ : ∀ token ∈ zs, token.Proper) (same : significant xs = significant ys)
    (above : compareLists xs zs = .lt) (below : compareLists zs ys = .lt) : Splits zs xs ys := by
  induction xs generalizing zs ys with
  | nil =>
      rw [significant_nil] at same
      exact splits_nil_of_lt properZ (significant_eq_nil_iff.mp same.symm) above below
  | cons x xs ih =>
      cases zs with
      | nil =>
          exact absurd above (compareLists_nil_right_ne_lt (x :: xs))
      | cons z zs =>
          cases ys with
          | nil =>
              exact absurd below (compareLists_nil_right_ne_lt (z :: zs))
          | cons y ys =>
              have first := head_eq_of_significant same
              subst first
              rw [significant_cons_inj] at same
              rw [compareLists_cons_cons, Ordering.then_eq_lt] at above below
              -- Neither comparison is decided at the first token, since both meet the same one.
              rcases above with less | ⟨equal, above⟩
              · rw [compare_swap, less] at below
                rcases below with less | ⟨equal, -⟩
                · cases less
                · cases equal
              · have first := eq_of_compare_eq_eq (properX x List.mem_cons_self)
                  (properZ z List.mem_cons_self) equal
                subst first
                rcases below with less | ⟨-, below⟩
                · rw [compare_self] at less
                  cases less
                · have properXs := List.forall_mem_of_forall_mem_cons properX
                  have properZs := List.forall_mem_of_forall_mem_cons properZ
                  exact Splits.cons x (ih properXs properZs same above below)

/-- Lists are equal exactly if they differ in zeros at their ends only. -/
theorem compareLists_eq_eq_iff {as bs : List Token} (properA : ∀ token ∈ as, token.Proper)
    (properB : ∀ token ∈ bs, token.Proper) :
    compareLists as bs = .eq ↔ significant as = significant bs := by
  rw [compareLists_eq properA properB]
  by_cases same : significant as = significant bs
  · rw [if_pos same]
    exact Iff.intro (fun _ => same) fun _ => rfl
  · rw [if_neg same]
    constructor
    · intro equal
      rw [LawfulEqCmp.compare_eq_iff_eq] at equal
      rw [equal]
    · intro agree
      exact absurd agree same

/-- A list that is not after another one and not equal to it comes before it. -/
theorem lt_of_isLE {as bs : List Token} (properA : ∀ token ∈ as, token.Proper)
    (properB : ∀ token ∈ bs, token.Proper) (le : (compareLists as bs).isLE = true)
    (differ : significant as ≠ significant bs) : compareLists as bs = .lt := by
  cases order : compareLists as bs with
  | lt => rfl
  | eq => exact absurd ((compareLists_eq_eq_iff properA properB).mp order) differ
  | gt =>
      rw [order] at le
      cases le

/-- Three lists that do not increase on the way round are equal, or one of them splits the
other two. -/
theorem splits_of_cycle {as bs cs : List Token} (properA : ∀ token ∈ as, token.Proper)
    (properB : ∀ token ∈ bs, token.Proper) (properC : ∀ token ∈ cs, token.Proper)
    (hab : (compareLists as bs).isLE = true) (hbc : (compareLists bs cs).isLE = true)
    (hca : (compareLists cs as).isLE = true) :
    (significant as = significant bs ∧ significant bs = significant cs) ∨
      Splits bs as cs ∨ Splits cs bs as ∨ Splits as cs bs := by
  by_cases sameAB : significant as = significant bs
  · by_cases sameBC : significant bs = significant cs
    · exact .inl ⟨sameAB, sameBC⟩
    · have above := lt_of_isLE properB properC hbc sameBC
      have below := lt_of_isLE properC properA hca fun same => sameBC (same.trans sameAB).symm
      exact .inr (.inr (.inl (splits_of_lt properB properC sameAB.symm above below)))
  · have lessAB := lt_of_isLE properA properB hab sameAB
    by_cases sameBC : significant bs = significant cs
    · have less := lt_of_isLE properC properA hca fun same => sameAB (sameBC.trans same).symm
      exact .inr (.inr (.inr (splits_of_lt properC properA sameBC.symm less lessAB)))
    · have lessBC := lt_of_isLE properB properC hbc sameBC
      by_cases sameCA : significant cs = significant as
      · exact .inr (.inl (splits_of_lt properA properB sameCA.symm lessAB lessBC))
      · have lessCA := lt_of_isLE properC properA hca sameCA
        -- No two are equal, so all three compare as words, and words do not go round.
        rw [compareLists_eq properA properB, if_neg sameAB] at lessAB
        rw [compareLists_eq properB properC, if_neg sameBC] at lessBC
        rw [compareLists_eq properC properA, if_neg sameCA] at lessCA
        have lessAC := TransCmp.lt_trans lessAB lessBC
        rw [OrientedCmp.gt_of_lt lessAC] at lessCA
        cases lessCA

end Token

end DescriptorCodec
