import DescriptorCodec.Proofs.Version.Laws

/-!
# Versions in padded order

Most texts in versions begin with a letter, which sorts above the digits. Where all of them do, a
number comes before every text, and a list that ends can be taken to go on with zeros, which come
before everything else. So such lists compare position by position, and the first position at
which they differ decides.

No such list splits two others, so the versions made of them are in a total order.
-/

namespace DescriptorCodec

namespace Token

/-- A number, or a text that begins with a character above the digits. -/
def Ordinary : Token → Prop
  | number _ => True
  | text run => ∃ c cs, run.toList = c :: cs ∧ '9' < c

/-- Numbers compare by value, texts by code points, and numbers come before texts. -/
def compareApart : Token → Token → Ordering
  | number a, number b => Ord.compare a b
  | number _, text _ => .lt
  | text _, number _ => .gt
  | text a, text b => Ord.compare a b

/-- The token at a position of a list that goes on with zeros forever. -/
def padded (tokens : List Token) (position : Nat) : Token :=
  tokens.getD position (number 0)

/-- The first position at which the padded lists differ decides. Behind the ends of both they
are the same. -/
def comparePadded (as bs : List Token) : Ordering :=
  match (List.range (max as.length bs.length)).find? fun i => padded as i ≠ padded bs i with
  | none => .eq
  | some i => compareApart (padded as i) (padded bs i)

/-! ### Single tokens -/

theorem Ordinary.proper {token : Token} (ordinary : token.Ordinary) : token.Proper := by
  cases token with
  | number value => exact proper_number value
  | text run =>
      obtain ⟨c, cs, same, high⟩ := ordinary
      refine ⟨c, cs, same, ?_⟩
      rw [← Bool.not_eq_true, Char.isDigit_iff_toNat]
      intro digit
      exact absurd high (Nat.not_lt_of_le digit.2)

theorem not_lt_zero_of_ordinary {run : String} (ordinary : (text run).Ordinary) : ¬ run < "0" := by
  obtain ⟨c, cs, same, high⟩ := ordinary
  have above : "0" < run := lt_of_first_lt rfl same (Nat.lt_trans (by decide) high)
  intro below
  have impossible := compare_eq_gt above
  rw [compare_eq_lt below] at impossible
  cases impossible

/-- A number prints as something that begins with a digit. -/
theorem compare_number_ordinary (value : Nat) {run : String} (ordinary : (text run).Ordinary) :
    compare (number value) (text run) = .lt := by
  change Ord.compare value.repr run = _
  rw [compare_repr_text value ordinary.proper, if_neg (not_lt_zero_of_ordinary ordinary)]

theorem compare_eq_compareApart {a b : Token} (ordinaryA : a.Ordinary) (ordinaryB : b.Ordinary) :
    compare a b = compareApart a b := by
  cases a with
  | number a =>
      cases b with
      | number b => rfl
      | text b => exact compare_number_ordinary a ordinaryB
  | text a =>
      cases b with
      | number b =>
          rw [compare_swap, compare_number_ordinary b ordinaryA]
          rfl
      | text b => rfl

theorem compareApart_self (token : Token) : compareApart token token = .eq := by
  cases token with
  | number value => exact Std.ReflOrd.compare_self
  | text run => exact Std.ReflOrd.compare_self

theorem eq_of_compareApart {a b : Token} (same : compareApart a b = .eq) : a = b := by
  cases a with
  | number a =>
      cases b with
      | number b => exact congrArg number (Std.LawfulEqOrd.eq_of_compare same)
      | text b => cases same
  | text a =>
      cases b with
      | number b => cases same
      | text b => exact congrArg text (Std.LawfulEqOrd.eq_of_compare same)

/-- Nothing comes before the number zero. -/
theorem compareApart_zero (token : Token) :
    compareApart (number 0) token = if token.isZero then .eq else .lt := by
  cases token with
  | number value =>
      rw [isZero_number]
      cases value with
      | zero => rfl
      | succ value => exact Nat.compare_eq_lt.mpr (Nat.succ_pos value)
  | text run => rfl

theorem compareApart_swap (a b : Token) : compareApart b a = (compareApart a b).swap := by
  cases a with
  | number a =>
      cases b with
      | number b => exact Std.OrientedOrd.eq_swap
      | text b => rfl
  | text a =>
      cases b with
      | number b => rfl
      | text b => exact Std.OrientedOrd.eq_swap

/-! ### Lists -/

theorem padded_succ (tokens : List Token) (position : Nat) :
    padded tokens (position + 1) = padded tokens.tail position := by
  cases tokens <;> rfl

/-- The lists are compared at their first position, and then behind it. -/
theorem comparePadded_eq_then (as bs : List Token) :
    comparePadded as bs =
      (compareApart (padded as 0) (padded bs 0)).then (comparePadded as.tail bs.tail) := by
  by_cases ended : max as.length bs.length = 0
  · have endedA : as = [] := List.length_eq_zero_iff.mp (by omega)
    have endedB : bs = [] := List.length_eq_zero_iff.mp (by omega)
    subst endedA endedB
    rfl
  · have longer : max as.length bs.length = max as.tail.length bs.tail.length + 1 := by
      rw [List.length_tail, List.length_tail]
      omega
    rw [comparePadded, longer, List.range_succ_eq_map, List.find?_cons, List.find?_map]
    by_cases same : padded as 0 = padded bs 0
    · simp only [same, ne_eq, not_true, decide_false, Function.comp_def, Nat.succ_eq_add_one,
        padded_succ, compareApart_self, Ordering.eq_then, comparePadded]
      cases (List.range (max as.tail.length bs.tail.length)).find? _ with
      | none => rfl
      | some i => simp only [Option.map_some, padded_succ]
    · have decided : compareApart (padded as 0) (padded bs 0) ≠ .eq :=
        fun equal => same (eq_of_compareApart equal)
      simp only [same, ne_eq, not_false_eq_true, decide_true]
      cases order : compareApart (padded as 0) (padded bs 0) with
      | eq => exact absurd order decided
      | lt => rfl
      | gt => rfl

theorem comparePadded_cons_cons (a b : Token) (as bs : List Token) :
    comparePadded (a :: as) (b :: bs) = (compareApart a b).then (comparePadded as bs) :=
  comparePadded_eq_then (a :: as) (b :: bs)

theorem comparePadded_swap (as bs : List Token) :
    comparePadded bs as = (comparePadded as bs).swap := by
  have differ : (fun i => decide (padded bs i ≠ padded as i)) =
      fun i => decide (padded as i ≠ padded bs i) :=
    funext fun i => decide_eq_decide.mpr ne_comm
  rw [comparePadded, comparePadded, Nat.max_comm, differ]
  cases (List.range (max as.length bs.length)).find? _ with
  | none => rfl
  | some i => exact compareApart_swap (padded as i) (padded bs i)

/-- Behind the end of a list, what counts is whether the other one has anything but zeros. -/
theorem comparePadded_nil_left (bs : List Token) :
    comparePadded [] bs = if bs.all isZero then .eq else .lt := by
  induction bs with
  | nil => rfl
  | cons b bs ih =>
      have first : comparePadded [] (b :: bs) =
          (compareApart (number 0) b).then (comparePadded [] bs) :=
        comparePadded_eq_then [] (b :: bs)
      rw [first, compareApart_zero, ih, List.all_cons]
      cases b.isZero <;> rfl

/-- Where all texts begin above the digits, leaving out the zeros at the end of a list comes to the
same as going on with zeros. -/
theorem compareLists_eq_comparePadded {as bs : List Token}
    (ordinaryA : ∀ token ∈ as, token.Ordinary) (ordinaryB : ∀ token ∈ bs, token.Ordinary) :
    compareLists as bs = comparePadded as bs := by
  induction as generalizing bs with
  | nil => rw [compareLists_nil_left, comparePadded_nil_left]
  | cons a as ih =>
      cases bs with
      | nil =>
          rw [compareLists_swap, comparePadded_swap, compareLists_nil_left,
            comparePadded_nil_left]
      | cons b bs =>
          have ordinaryAs := List.forall_mem_of_forall_mem_cons ordinaryA
          have ordinaryBs := List.forall_mem_of_forall_mem_cons ordinaryB
          rw [compareLists_cons_cons, comparePadded_cons_cons, ih ordinaryAs ordinaryBs,
            compare_eq_compareApart (ordinaryA a List.mem_cons_self)
              (ordinaryB b List.mem_cons_self)]

end Token

namespace Version

open Token (comparePadded compareLists_eq_comparePadded)

/-- Every text of the version begins with a character above the digits. -/
structure Ordinary (version : Version) : Prop where
  sequence : ∀ token ∈ version.sequence, token.Ordinary
  pre : ∀ token ∈ version.pre, token.Ordinary
  build : ∀ token ∈ version.build, token.Ordinary

/-- Compares the padded sequences; then a version without a pre-release comes after one that has
one; then the padded pre-releases; then the padded builds. -/
def comparePadded (a b : Version) : Ordering :=
  (Token.comparePadded a.sequence b.sequence).then <|
  (Ord.compare a.pre.isEmpty b.pre.isEmpty).then <|
  (Token.comparePadded a.pre b.pre).then <|
  Token.comparePadded a.build b.build

variable {a b c : Version}

theorem Ordinary.proper (ordinary : a.Ordinary) : a.Proper where
  sequence token member := (ordinary.sequence token member).proper
  pre token member := (ordinary.pre token member).proper
  build token member := (ordinary.build token member).proper

theorem Ordinary.not_splits (ordinary : c.Ordinary) : ¬ c.Splits a b := by
  refine Version.not_splits fun run member => ?_
  have text : (Token.text run).Ordinary := by
    rcases List.mem_append.mp member with member | member
    · rcases List.mem_append.mp member with member | member
      · exact ordinary.sequence _ member
      · exact ordinary.pre _ member
    · exact ordinary.build _ member
  exact Token.not_lt_zero_of_ordinary text

/-- A release comes after a pre-release, as `true` comes after `false`. -/
theorem comparePhase_eq_compare (a b : Version) :
    comparePhase a b = Ord.compare a.pre.isEmpty b.pre.isEmpty := by
  unfold comparePhase
  cases a.pre.isEmpty <;> cases b.pre.isEmpty <;> rfl

theorem compare_eq_padded (ordinaryA : a.Ordinary) (ordinaryB : b.Ordinary) :
    a.compare b = a.comparePadded b := by
  rw [compare, comparePadded, comparePhase_eq_compare,
    compareLists_eq_comparePadded ordinaryA.sequence ordinaryB.sequence,
    compareLists_eq_comparePadded ordinaryA.pre ordinaryB.pre,
    compareLists_eq_comparePadded ordinaryA.build ordinaryB.build]

/-- Versions whose texts begin above the digits compare as their padded sections do, one section
after the other, and so they are in a total order. -/
theorem compare_of_ordinary (ordinaryA : a.Ordinary) (ordinaryB : b.Ordinary)
    (ordinaryC : c.Ordinary) :
    a.compare b = a.comparePadded b ∧
      b.compare a = (a.compare b).swap ∧
      ((a.compare b).isLE = true ∨ (b.compare a).isLE = true) ∧
      ((a.compare b).isLE = true → (b.compare c).isLE = true → (a.compare c).isLE = true) := by
  refine ⟨compare_eq_padded ordinaryA ordinaryB, compare_swap a b, ?_, fun hab hbc => ?_⟩
  · rw [compare_swap a b]
    cases a.compare b <;> decide
  · rw [isLE_trans_iff ordinaryA.proper ordinaryB.proper ordinaryC.proper hab hbc]
    rintro (split | split | split)
    · exact ordinaryC.not_splits split
    · exact ordinaryA.not_splits split
    · exact ordinaryB.not_splits split.splits

/-- A pre-release, its release, which has a zero more, and a version with a text in its sequence. -/
theorem compare_of_ordinary_preRelease :
    ∃ a b c, parse "1-rc" = .ok a ∧ parse "1.0" = .ok b ∧ parse "1.x" = .ok c ∧
      a.Ordinary ∧ b.Ordinary ∧ c.Ordinary ∧
      a.compare b = a.comparePadded b ∧ a.comparePadded b = .lt ∧ (a.compare c).isLE = true := by
  let a : Version := ⟨"1-rc", [.number 1], [.text "rc"], []⟩
  let b : Version := ⟨"1.0", [.number 1, .number 0], [], []⟩
  let c : Version := ⟨"1.x", [.number 1, .text "x"], [], []⟩
  have ordinaryA : a.Ordinary := by
    constructor <;> simp [a, Token.Ordinary]
  have ordinaryB : b.Ordinary := by
    constructor <;> simp [b, Token.Ordinary]
  have ordinaryC : c.Ordinary := by
    constructor <;> simp [c, Token.Ordinary]
  obtain ⟨padded, -, -, trans⟩ := compare_of_ordinary ordinaryA ordinaryB ordinaryC
  exact ⟨a, b, c, rfl, rfl, rfl, ordinaryA, ordinaryB, ordinaryC, padded, by decide,
    trans (by decide) (by decide)⟩

end Version

end DescriptorCodec
