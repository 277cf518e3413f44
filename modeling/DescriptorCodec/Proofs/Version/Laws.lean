import DescriptorCodec.Proofs.Version.ListOrder
import DescriptorCodec.Proofs.Version.Reading

/-!
# Where versions are in order

The comparison of versions is not an order: `1` and `1.0` are equal, but `1.!` comes between them.
It fails only where a section of one version splits that section of two others, as token lists do,
and the sections before it agree. Everywhere else versions are in order, among them all versions
whose texts sort above the digits. Two equal versions and the one that splits them are in order
too, if the last one stands in the middle: `1`, `1.!` and `1.0` ascend. They do not if the sections
behind put the outer ones the other way round, as in `1`, `1.!` and `1.0-x`.
-/

namespace DescriptorCodec

namespace Version

open Token (significant compareLists compareLists_eq_eq_iff)

/-- Both versions are releases of one sequence, or pre-releases of one sequence. -/
structure SamePhase (a b : Version) : Prop where
  sequence : significant a.sequence = significant b.sequence
  phase : a.pre.isEmpty = b.pre.isEmpty

/-- In the first section where `z` differs from `x` and `y` it splits those of the two. -/
inductive Splits (z x y : Version) : Prop where
  | sequence (split : Token.Splits z.sequence x.sequence y.sequence)
  | pre (below : SamePhase x z) (above : SamePhase z y) (split : Token.Splits z.pre x.pre y.pre)
  | build (below : SamePhase x z) (above : SamePhase z y)
      (preBelow : significant x.pre = significant z.pre)
      (preAbove : significant z.pre = significant y.pre)
      (split : Token.Splits z.build x.build y.build)

/-- `z` splits `x` and `y`, but the sections behind the one in which it does put `y` before `x`. -/
inductive SplitsBackwards (z x y : Version) : Prop where
  | sequence (split : Token.Splits z.sequence x.sequence y.sequence)
      (later : (comparePhase y x).then
        ((compareLists y.pre x.pre).then (compareLists y.build x.build)) = .lt)
  | pre (below : SamePhase x z) (above : SamePhase z y) (split : Token.Splits z.pre x.pre y.pre)
      (later : compareLists y.build x.build = .lt)

theorem SplitsBackwards.splits {x y z : Version} (h : z.SplitsBackwards x y) : z.Splits x y := by
  cases h with
  | sequence split _ => exact .sequence split
  | pre below above split _ => exact .pre below above split

theorem comparePhase_swap (a b : Version) : comparePhase b a = (comparePhase a b).swap := by
  unfold comparePhase
  cases a.pre.isEmpty <;> cases b.pre.isEmpty <;> rfl

theorem comparePhase_eq_eq_iff {a b : Version} :
    comparePhase a b = .eq ↔ a.pre.isEmpty = b.pre.isEmpty := by
  unfold comparePhase
  cases a.pre.isEmpty <;> cases b.pre.isEmpty <;> simp

/-- A release does not come before a pre-release. -/
theorem isEmpty_of_comparePhase {a b : Version} (le : (comparePhase a b).isLE = true)
    (release : a.pre.isEmpty = true) : b.pre.isEmpty = true := by
  unfold comparePhase at le
  rw [release] at le
  cases phase : b.pre.isEmpty with
  | true => rfl
  | false =>
      rw [phase] at le
      cases le

theorem comparePhase_cycle {a b c : Version} (hab : (comparePhase a b).isLE = true)
    (hbc : (comparePhase b c).isLE = true) (hca : (comparePhase c a).isLE = true) :
    a.pre.isEmpty = b.pre.isEmpty ∧ b.pre.isEmpty = c.pre.isEmpty := by
  have ab := isEmpty_of_comparePhase hab
  have bc := isEmpty_of_comparePhase hbc
  have ca := isEmpty_of_comparePhase hca
  exact ⟨Bool.eq_iff_iff.mpr ⟨ab, fun b => ca (bc b)⟩, Bool.eq_iff_iff.mpr ⟨bc, fun c => ab (ca c)⟩⟩

/-- Comparing the other way round gives the opposite result. -/
theorem compare_swap (a b : Version) : b.compare a = (a.compare b).swap := by
  rw [compare, compare, Token.compareLists_swap a.sequence, comparePhase_swap a b,
    Token.compareLists_swap a.pre, Token.compareLists_swap a.build, Ordering.swap_then,
    Ordering.swap_then, Ordering.swap_then]

variable {a b c x y z : Version}

/-- Where the sequences agree, the phase decides next. -/
theorem compare_of_sequence (properA : a.Proper) (properB : b.Proper)
    (same : significant a.sequence = significant b.sequence) :
    a.compare b = (comparePhase a b).then
      ((compareLists a.pre b.pre).then (compareLists a.build b.build)) := by
  have equal := (compareLists_eq_eq_iff properA.sequence properB.sequence).mpr same
  rw [compare, equal, Ordering.eq_then]

theorem compare_of_samePhase (properA : a.Proper) (properB : b.Proper) (same : SamePhase a b) :
    a.compare b = (compareLists a.pre b.pre).then (compareLists a.build b.build) := by
  rw [compare_of_sequence properA properB same.sequence, comparePhase_eq_eq_iff.mpr same.phase,
    Ordering.eq_then]

theorem compare_of_pre (properA : a.Proper) (properB : b.Proper) (same : SamePhase a b)
    (samePre : significant a.pre = significant b.pre) :
    a.compare b = compareLists a.build b.build := by
  have equal := (compareLists_eq_eq_iff properA.pre properB.pre).mpr samePre
  rw [compare_of_samePhase properA properB same, equal, Ordering.eq_then]

/-- A version that splits two others comes between them. -/
theorem Splits.lt (h : z.Splits x y) (properX : x.Proper) (properY : y.Proper)
    (properZ : z.Proper) : x.compare z = .lt ∧ z.compare y = .lt := by
  cases h with
  | sequence split =>
      obtain ⟨-, above, below⟩ := split.lt
      rw [compare, compare, above, below]
      exact ⟨rfl, rfl⟩
  | pre below above split =>
      obtain ⟨-, less, greater⟩ := split.lt
      rw [compare_of_samePhase properX properZ below, compare_of_samePhase properZ properY above,
        less, greater]
      exact ⟨rfl, rfl⟩
  | build below above preBelow preAbove split =>
      obtain ⟨-, less, greater⟩ := split.lt
      rw [compare_of_pre properX properZ below preBelow,
        compare_of_pre properZ properY above preAbove]
      exact ⟨less, greater⟩

/-- The outer versions agree in the section in which they are split, so what is behind it puts them
in order. Behind the build there is nothing. -/
theorem splitsBackwards_iff (properX : x.Proper) (properY : y.Proper) :
    z.SplitsBackwards x y ↔ z.Splits x y ∧ y.compare x = .lt := by
  have outer (below : SamePhase x z) (above : SamePhase z y) : SamePhase y x :=
    ⟨(below.sequence.trans above.sequence).symm, (below.phase.trans above.phase).symm⟩
  constructor
  · intro split
    cases split with
    | sequence split later =>
        rw [compare_of_sequence properY properX split.lt.1.symm]
        exact ⟨.sequence split, later⟩
    | pre below above split later =>
        rw [compare_of_pre properY properX (outer below above) split.lt.1.symm]
        exact ⟨.pre below above split, later⟩
  · rintro ⟨split, less⟩
    cases split with
    | sequence split =>
        rw [compare_of_sequence properY properX split.lt.1.symm] at less
        exact .sequence split less
    | pre below above split =>
        rw [compare_of_pre properY properX (outer below above) split.lt.1.symm] at less
        exact .pre below above split less
    | build below above preBelow preAbove split =>
        have same := split.lt.1.symm
        rw [compare_of_pre properY properX (outer below above) (preBelow.trans preAbove).symm,
          (compareLists_eq_eq_iff properY.build properX.build).mpr same] at less
        cases less

/-- If three versions of one phase do not increase on the way round, then their pre-releases or
their builds do not either. -/
theorem splits_of_samePhase_cycle (properA : a.Proper) (properB : b.Proper) (properC : c.Proper)
    (sameAB : SamePhase a b) (sameBC : SamePhase b c) (sameCA : SamePhase c a)
    (hab : (a.compare b).isLE = true) (hbc : (b.compare c).isLE = true)
    (hca : (c.compare a).isLE = true) :
    (a.compare b = .eq ∧ b.compare c = .eq ∧ c.compare a = .eq) ∨
      b.Splits a c ∨ c.Splits b a ∨ a.Splits c b := by
  rw [compare_of_samePhase properA properB sameAB] at hab
  rw [compare_of_samePhase properB properC sameBC] at hbc
  rw [compare_of_samePhase properC properA sameCA] at hca
  rcases Token.splits_of_cycle properA.pre properB.pre properC.pre
      (Ordering.isLE_left_of_isLE_then hab) (Ordering.isLE_left_of_isLE_then hbc)
      (Ordering.isLE_left_of_isLE_then hca) with ⟨preAB, preBC⟩ | split | split | split
  · have preCA := (preAB.trans preBC).symm
    rw [(compareLists_eq_eq_iff properA.pre properB.pre).mpr preAB, Ordering.eq_then] at hab
    rw [(compareLists_eq_eq_iff properB.pre properC.pre).mpr preBC, Ordering.eq_then] at hbc
    rw [(compareLists_eq_eq_iff properC.pre properA.pre).mpr preCA, Ordering.eq_then] at hca
    rcases Token.splits_of_cycle properA.build properB.build properC.build hab hbc hca with
      ⟨buildAB, buildBC⟩ | split | split | split
    · have buildCA := (buildAB.trans buildBC).symm
      rw [compare_of_pre properA properB sameAB preAB, compare_of_pre properB properC sameBC preBC,
        compare_of_pre properC properA sameCA preCA]
      left
      exact ⟨(compareLists_eq_eq_iff properA.build properB.build).mpr buildAB,
        (compareLists_eq_eq_iff properB.build properC.build).mpr buildBC,
        (compareLists_eq_eq_iff properC.build properA.build).mpr buildCA⟩
    · exact .inr (.inl (.build sameAB sameBC preAB preBC split))
    · exact .inr (.inr (.inl (.build sameBC sameCA preBC preCA split)))
    · exact .inr (.inr (.inr (.build sameCA sameAB preCA preAB split)))
  · exact .inr (.inl (.pre sameAB sameBC split))
  · exact .inr (.inr (.inl (.pre sameBC sameCA split)))
  · exact .inr (.inr (.inr (.pre sameCA sameAB split)))

theorem isLE_comparePhase (properA : a.Proper) (properB : b.Proper)
    (same : significant a.sequence = significant b.sequence) (le : (a.compare b).isLE = true) :
    (comparePhase a b).isLE = true := by
  rw [compare_of_sequence properA properB same] at le
  exact Ordering.isLE_left_of_isLE_then le

/-- Three versions that do not increase on the way round are equal, or one of them splits the
other two. -/
theorem splits_of_cycle (properA : a.Proper) (properB : b.Proper) (properC : c.Proper)
    (hab : (a.compare b).isLE = true) (hbc : (b.compare c).isLE = true)
    (hca : (c.compare a).isLE = true) :
    (a.compare b = .eq ∧ b.compare c = .eq ∧ c.compare a = .eq) ∨
      b.Splits a c ∨ c.Splits b a ∨ a.Splits c b := by
  rcases Token.splits_of_cycle properA.sequence properB.sequence properC.sequence
      (Ordering.isLE_left_of_isLE_then hab) (Ordering.isLE_left_of_isLE_then hbc)
      (Ordering.isLE_left_of_isLE_then hca) with ⟨seqAB, seqBC⟩ | split | split | split
  · have seqCA := (seqAB.trans seqBC).symm
    obtain ⟨phaseAB, phaseBC⟩ := comparePhase_cycle (isLE_comparePhase properA properB seqAB hab)
      (isLE_comparePhase properB properC seqBC hbc) (isLE_comparePhase properC properA seqCA hca)
    have phaseCA := (phaseAB.trans phaseBC).symm
    exact splits_of_samePhase_cycle properA properB properC ⟨seqAB, phaseAB⟩ ⟨seqBC, phaseBC⟩
      ⟨seqCA, phaseCA⟩ hab hbc hca
  · exact .inr (.inl (.sequence split))
  · exact .inr (.inr (.inl (.sequence split)))
  · exact .inr (.inr (.inr (.sequence split)))

theorem gt_of_lt (less : b.compare a = .lt) : a.compare b = .gt := by
  rw [compare_swap b a, less]
  rfl

/-- What lies between equal versions is equal to both or splits them. -/
theorem splits_of_between (properA : a.Proper) (properB : b.Proper) (properC : c.Proper)
    (equal : a.compare b = .eq) (above : (a.compare c).isLE = true)
    (below : (c.compare b).isLE = true) :
    a.compare c = .eq ∧ c.compare b = .eq ∨ c.Splits a b := by
  have back : b.compare a = .eq := by
    rw [compare_swap a b, equal]
    rfl
  have le : (b.compare a).isLE = true := by
    rw [back]
    rfl
  rcases splits_of_cycle properA properC properB above below le with
    ⟨sameAC, sameCB, -⟩ | split | split | split
  · exact .inl ⟨sameAC, sameCB⟩
  · exact .inr split
  · have less := (split.lt properC properA properB).2
    rw [back] at less
    cases less
  · have less := (split.lt properB properC properA).1
    rw [back] at less
    cases less

/-- A version that equal versions do not compare with alike splits them. -/
theorem splits_of_compare_ne (properA : a.Proper) (properB : b.Proper) (properC : c.Proper)
    (equal : a.compare b = .eq) (differ : a.compare c ≠ b.compare c) :
    c.Splits a b ∨ c.Splits b a := by
  have back : b.compare a = .eq := by
    rw [compare_swap a b, equal]
    rfl
  by_cases between : (a.compare c).isLE = true ∧ (c.compare b).isLE = true
  · rcases splits_of_between properA properB properC equal between.1 between.2 with
      ⟨sameAC, sameCB⟩ | split
    · rw [sameAC, compare_swap c b, sameCB] at differ
      exact absurd rfl differ
    · exact .inl split
  · have between' : (b.compare c).isLE = true ∧ (c.compare a).isLE = true := by
      rw [compare_swap b c] at between
      rw [compare_swap a c]
      cases hac : a.compare c <;> cases hbc : b.compare c <;> simp_all
    rcases splits_of_between properB properA properC back between'.1 between'.2 with
      ⟨sameBC, sameCA⟩ | split
    · rw [sameBC, compare_swap c a, sameCA] at differ
      exact absurd rfl differ
    · exact .inr split

/-- Equal versions can stand for each other in front of all versions that do not split them. -/
theorem compare_congr_iff (properA : a.Proper) (properB : b.Proper) (properC : c.Proper)
    (equal : a.compare b = .eq) :
    a.compare c = b.compare c ↔ ¬ (c.Splits a b ∨ c.Splits b a) := by
  constructor
  · intro alike split
    rcases split with split | split
    · obtain ⟨less, greater⟩ := split.lt properA properB properC
      rw [less, gt_of_lt greater] at alike
      cases alike
    · obtain ⟨less, greater⟩ := split.lt properB properA properC
      rw [less, gt_of_lt greater] at alike
      cases alike
  · intro none
    by_cases alike : a.compare c = b.compare c
    · exact alike
    · exact absurd (splits_of_compare_ne properA properB properC equal alike) none

/-- Being at most is passed on unless an outer version splits the two others, or the middle one
splits the outer ones backwards. -/
theorem isLE_trans_iff (properA : a.Proper) (properB : b.Proper) (properC : c.Proper)
    (hab : (a.compare b).isLE = true) (hbc : (b.compare c).isLE = true) :
    (a.compare c).isLE = true ↔
      ¬ (c.Splits b a ∨ a.Splits c b ∨ b.SplitsBackwards a c) := by
  rw [splitsBackwards_iff properA properC]
  constructor
  · intro le split
    have less : c.compare a = .lt := by
      rcases split with split | split | ⟨-, less⟩
      · exact (split.lt properB properA properC).2
      · exact (split.lt properC properB properA).1
      · exact less
    rw [gt_of_lt less] at le
    cases le
  · intro none
    by_cases le : (a.compare c).isLE = true
    · exact le
    · have greater : a.compare c = .gt := by
        rw [Bool.not_eq_true, Ordering.isLE_eq_false] at le
        exact le
      have less : c.compare a = .lt := by
        rw [compare_swap a c, greater]
        rfl
      have hca : (c.compare a).isLE = true := by
        rw [less]
        rfl
      rcases splits_of_cycle properA properB properC hab hbc hca with
        ⟨-, -, equal⟩ | split | split | split
      · rw [less] at equal
        cases equal
      · exact absurd (.inr (.inr ⟨split, less⟩)) none
      · exact absurd (.inl split) none
      · exact absurd (.inr (.inl split)) none

/-- The pre-release puts `1.0-x` before `1`. -/
example : SplitsBackwards ⟨"1.!", [.number 1, .text "!"], [], []⟩ ⟨"1", [.number 1], [], []⟩
    ⟨"1.0-x", [.number 1, .number 0], [.text "x"], []⟩ :=
  .sequence ⟨0, 0, "!", [], by decide, rfl, rfl⟩ rfl

/-- A version without texts that sort below the digits splits no others. -/
theorem not_splits (high : ∀ run, .text run ∈ z.sequence ++ z.pre ++ z.build → ¬ run < "0") :
    ¬ z.Splits x y := by
  intro split
  cases split with
  | sequence split =>
      obtain ⟨zeros, more, run, rest, low, same, -⟩ := split
      exact high run (by simp [same]) low
  | pre _ _ split =>
      obtain ⟨zeros, more, run, rest, low, same, -⟩ := split
      exact high run (by simp [same]) low
  | build _ _ _ _ split =>
      obtain ⟨zeros, more, run, rest, low, same, -⟩ := split
      exact high run (by simp [same]) low

/-- The comparison of versions that were read reverses with its arguments. Equal versions can stand
for each other exactly in front of the versions that do not split them. Being at most is passed on
exactly if neither outer version splits the two others, and the middle one, where it splits the
outer ones, does not do so backwards. -/
theorem compare_parse {s t u : String} (hs : parse s = .ok a) (ht : parse t = .ok b)
    (hu : parse u = .ok c) :
    b.compare a = (a.compare b).swap ∧
      ((a == b) = true → (a.compare c = b.compare c ↔ ¬ (c.Splits a b ∨ c.Splits b a))) ∧
      ((a.compare b).isLE = true → (b.compare c).isLE = true →
        ((a.compare c).isLE = true ↔
          ¬ (c.Splits b a ∨ a.Splits c b ∨ b.SplitsBackwards a c))) := by
  have properA := proper_of_parse hs
  have properB := proper_of_parse ht
  have properC := proper_of_parse hu
  constructor
  · exact compare_swap a b
  constructor
  · intro equal
    rw [beq_def, beq_iff_eq] at equal
    exact compare_congr_iff properA properB properC equal
  · exact isLE_trans_iff properA properB properC

/-- Both laws fail for `1.0`, `1` and `1.!`, since the last one splits the other two. -/
theorem compare_parse_one :
    ∃ a b c, parse "1.0" = .ok a ∧ parse "1" = .ok b ∧ parse "1.!" = .ok c ∧
      b.compare a = (a.compare b).swap ∧ a.compare c ≠ b.compare c ∧
      ¬ (a.compare c).isLE = true := by
  have split : Splits ⟨"1.!", [.number 1, .text "!"], [], []⟩ ⟨"1", [.number 1], [], []⟩
      ⟨"1.0", [.number 1, .number 0], [], []⟩ :=
    .sequence ⟨0, 0, "!", [], by decide, rfl, rfl⟩
  have laws := compare_parse (s := "1.0") (t := "1") (u := "1.!") rfl rfl rfl
  have congr := laws.2.1 rfl
  have trans := laws.2.2 rfl rfl
  exact ⟨_, _, _, rfl, rfl, rfl, laws.1, fun alike => congr.mp alike (.inr split),
    fun le => trans.mp le (.inl split)⟩

/-- Two equal versions on either side of a third. -/
theorem exists_beq_lt_gt :
    ∃ a b c, parse "1" = .ok a ∧ parse "1.0" = .ok b ∧ parse "1.!" = .ok c ∧
      (a == b) = true ∧ a.compare c = .lt ∧ b.compare c = .gt :=
  ⟨_, _, _, rfl, rfl, rfl, rfl, by decide, by decide⟩

end Version

end DescriptorCodec
