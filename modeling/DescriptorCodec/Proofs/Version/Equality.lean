import Mathlib.Data.List.Induction
import Mathlib.Tactic.ByContra
import DescriptorCodec.Proofs.Version.Laws

/-!
# Equality and hashing

Two versions are equal exactly if they differ in nothing but zeros at the ends of their lists and
both or neither have a pre-release. The comparison finds this out from the front of two lists, the
hash from the end of one. They agree because no text that a version can have prints like a number.

A hasher is given the length of each list before its tokens, so what it is given tells where one
list ends and the next begins. It is not told whether there is a pre-release: a release and a
pre-release of nothing but zeros hash alike, though they are not equal.
-/

namespace DescriptorCodec

/-- One thing that a hasher is given. -/
inductive HashPiece where
  /-- The number of tokens that follow. -/
  | length (tokens : Nat)
  /-- Which kind of token follows. -/
  | kind (index : Nat)
  | value (number : Nat)
  | run (text : String)
  deriving DecidableEq, Repr

namespace Token

/-- What is left of a list without the zeros at its end. -/
structure Trims (tokens kept : List Token) : Prop where
  zeros : ∃ count, tokens = kept ++ List.replicate count (number 0)
  last : kept.getLast? ≠ some (number 0)

theorem trims_nil : Trims [] [] := ⟨⟨0, rfl⟩, nofun⟩

theorem trims_significant (tokens : List Token) : Trims tokens (significant tokens) := by
  induction tokens using List.reverseRecOn with
  | nil => exact trims_nil
  | append_singleton tokens token ih =>
      rw [significant_append_singleton]
      by_cases zero : token.isZero = true
      · rw [if_pos zero]
        obtain ⟨count, same⟩ := ih.zeros
        refine ⟨⟨count + 1, ?_⟩, ih.last⟩
        rw [isZero_iff.mp zero, List.replicate_succ', ← List.append_assoc, ← same]
      · rw [if_neg zero]
        refine ⟨⟨0, (List.append_nil _).symm⟩, ?_⟩
        rw [List.getLast?_concat]
        exact fun last => zero (isZero_iff.mpr (Option.some.inj last))

theorem significant_eq_self {kept : List Token} (last : kept.getLast? ≠ some (number 0)) :
    significant kept = kept := by
  cases kept using List.reverseRecOn with
  | nil => rfl
  | append_singleton tokens token =>
      rw [List.getLast?_concat] at last
      rw [significant_append_singleton, if_neg]
      exact fun zero => last (congrArg some (isZero_iff.mp zero))

/-- There is one way to remove the zeros at the end. -/
theorem trims_iff {tokens kept : List Token} : Trims tokens kept ↔ significant tokens = kept := by
  constructor
  · rintro ⟨⟨count, rfl⟩, last⟩
    rw [significant_append_zeros]
    exact significant_eq_self last
  · rintro rfl
    exact trims_significant tokens

/-- Without the zeros at their ends the lists are the same. -/
def Alike (as bs : List Token) : Prop :=
  ∃ kept, Trims as kept ∧ Trims bs kept

theorem alike_iff {as bs : List Token} : Alike as bs ↔ significant as = significant bs := by
  constructor
  · rintro ⟨kept, trimsA, trimsB⟩
    rw [trims_iff.mp trimsA, trims_iff.mp trimsB]
  · intro same
    refine ⟨significant as, trims_significant as, ?_⟩
    rw [same]
    exact trims_significant bs

theorem alike_nil_iff {tokens : List Token} :
    Alike [] tokens ↔ ∀ token ∈ tokens, token = number 0 := by
  rw [alike_iff, significant_nil, eq_comm, significant_eq_nil_iff, List.all_eq_true]
  simp only [isZero_iff]

/-- A token in front of a hasher. -/
def hashPieces : Token → List HashPiece
  | number value => [.kind 0, .value value]
  | text run => [.kind 1, .run run]

/-- A list of tokens in front of a hasher, with its length ahead. -/
def hashInput (tokens : List Token) : List HashPiece :=
  .length tokens.length :: tokens.flatMap hashPieces

theorem hashPieces_append_inj {a b : Token} {as bs : List HashPiece}
    (same : a.hashPieces ++ as = b.hashPieces ++ bs) : a = b ∧ as = bs := by
  cases a <;> cases b <;> simp_all [hashPieces]

/-- Lists of one length tell their tokens by their pieces, whatever comes after. -/
theorem flatMap_hashPieces_append_inj {as bs : List Token} {more others : List HashPiece}
    (length : as.length = bs.length)
    (same : as.flatMap hashPieces ++ more = bs.flatMap hashPieces ++ others) :
    as = bs ∧ more = others := by
  induction as generalizing bs with
  | nil =>
      obtain rfl := List.length_eq_zero_iff.mp length.symm
      exact ⟨rfl, same⟩
  | cons a as ih =>
      cases bs with
      | nil => cases length
      | cons b bs =>
          rw [List.flatMap_cons, List.flatMap_cons, List.append_assoc, List.append_assoc] at same
          obtain ⟨rfl, tail⟩ := hashPieces_append_inj same
          obtain ⟨rfl, rest⟩ := ih (Nat.succ.inj length) tail
          exact ⟨rfl, rest⟩

theorem hashInput_append_inj {as bs : List Token} {more others : List HashPiece}
    (same : hashInput as ++ more = hashInput bs ++ others) : as = bs ∧ more = others := by
  rw [hashInput, hashInput, List.cons_append, List.cons_append, List.cons.injEq,
    HashPiece.length.injEq] at same
  exact flatMap_hashPieces_append_inj same.1 same.2

end Token

namespace Version

open Token (significant compareLists compareLists_eq_eq_iff)

variable {a b c : Version}

/-- What a hasher is given of a version, in order: its three lists without the zeros at their
ends. -/
def hashInput (version : Version) : List HashPiece :=
  Token.hashInput (significant version.sequence) ++ (Token.hashInput (significant version.pre) ++
    Token.hashInput (significant version.build))

theorem hashInput_eq_iff : a.hashInput = b.hashInput ↔ a.fingerprint = b.fingerprint := by
  constructor
  · intro same
    obtain ⟨sequence, afterSequence⟩ := Token.hashInput_append_inj same
    obtain ⟨pre, afterPre⟩ := Token.hashInput_append_inj afterSequence
    rw [← List.append_nil (Token.hashInput (significant a.build)),
      ← List.append_nil (Token.hashInput (significant b.build))] at afterPre
    obtain ⟨build, -⟩ := Token.hashInput_append_inj afterPre
    rw [fingerprint, fingerprint, sequence, pre, build]
  · intro same
    rw [fingerprint, fingerprint, Prod.mk.injEq, Prod.mk.injEq] at same
    obtain ⟨sequence, pre, build⟩ := same
    rw [hashInput, hashInput, sequence, pre, build]

/-- Versions whose hashers are given the same have the same hash. -/
theorem hash_eq_of_hashInput (same : a.hashInput = b.hashInput) : hash a = hash b := by
  change hash a.fingerprint = hash b.fingerprint
  rw [hashInput_eq_iff.mp same]

/-- Each list of one version is, without the zeros at its end, that of the other. -/
structure Alike (a b : Version) : Prop where
  sequence : Token.Alike a.sequence b.sequence
  pre : Token.Alike a.pre b.pre
  build : Token.Alike a.build b.build

theorem alike_iff : a.Alike b ↔ a.fingerprint = b.fingerprint := by
  rw [fingerprint, fingerprint, Prod.mk.injEq, Prod.mk.injEq, ← Token.alike_iff, ← Token.alike_iff,
    ← Token.alike_iff]
  exact Iff.intro (fun alike => ⟨alike.sequence, alike.pre, alike.build⟩) fun alike =>
    ⟨alike.1, alike.2.1, alike.2.2⟩

theorem alike_iff_hashInput : a.Alike b ↔ a.hashInput = b.hashInput :=
  alike_iff.trans hashInput_eq_iff.symm

/-- The comparison is undecided exactly if each of its four steps is. -/
theorem compare_eq_eq_iff (properA : a.Proper) (properB : b.Proper) :
    a.compare b = .eq ↔ a.Alike b ∧ (a.pre = [] ↔ b.pre = []) := by
  have phase : a.pre.isEmpty = b.pre.isEmpty ↔ (a.pre = [] ↔ b.pre = []) := by
    rw [Bool.eq_iff_iff, List.isEmpty_iff, List.isEmpty_iff]
  rw [compare, Ordering.then_eq_eq, Ordering.then_eq_eq, Ordering.then_eq_eq,
    compareLists_eq_eq_iff properA.sequence properB.sequence,
    compareLists_eq_eq_iff properA.pre properB.pre,
    compareLists_eq_eq_iff properA.build properB.build, comparePhase_eq_eq_iff, phase,
    ← Token.alike_iff, ← Token.alike_iff, ← Token.alike_iff]
  constructor
  · rintro ⟨sequence, phase, pre, build⟩
    exact ⟨⟨sequence, pre, build⟩, phase⟩
  · rintro ⟨⟨sequence, pre, build⟩, phase⟩
    exact ⟨sequence, phase, pre, build⟩

theorem beq_iff (properA : a.Proper) (properB : b.Proper) :
    (a == b) = true ↔ a.Alike b ∧ (a.pre = [] ↔ b.pre = []) := by
  rw [beq_def, beq_iff_eq]
  exact compare_eq_eq_iff properA properB

theorem beq_self (proper : a.Proper) : (a == a) = true := by
  rw [beq_iff proper proper, alike_iff]
  exact ⟨rfl, Iff.rfl⟩

theorem beq_swap (a b : Version) : (b == a) = (a == b) := by
  rw [beq_def, beq_def, compare_swap a b]
  cases a.compare b <;> rfl

theorem beq_trans (properA : a.Proper) (properB : b.Proper) (properC : c.Proper)
    (first : (a == b) = true) (second : (b == c) = true) : (a == c) = true := by
  rw [beq_iff properA properB, alike_iff] at first
  rw [beq_iff properB properC, alike_iff] at second
  rw [beq_iff properA properC, alike_iff]
  exact ⟨first.1.trans second.1, first.2.trans second.2⟩

/-- The version has no pre-release, and the other one has one of nothing but zeros. -/
structure ZeroPreRelease (release other : Version) : Prop where
  release : release.pre = []
  pre : other.pre ≠ []
  zeros : ∀ token ∈ other.pre, token = Token.number 0

theorem not_phase_iff (alike : a.Alike b) :
    ¬ (a.pre = [] ↔ b.pre = []) ↔ a.ZeroPreRelease b ∨ b.ZeroPreRelease a := by
  have same := Token.alike_iff.mp alike.pre
  constructor
  · intro differ
    by_cases release : a.pre = []
    · have pre : b.pre ≠ [] := fun none => differ (iff_of_true release none)
      rw [release] at same
      exact .inl ⟨release, pre, Token.alike_nil_iff.mp (Token.alike_iff.mpr same)⟩
    · have other : b.pre = [] := by
        by_contra pre
        exact differ (iff_of_false release pre)
      rw [other] at same
      exact .inr ⟨other, release, Token.alike_nil_iff.mp (Token.alike_iff.mpr same.symm)⟩
  · rintro (zero | zero) phase
    · exact zero.pre (phase.mp zero.release)
    · exact zero.pre (phase.mpr zero.release)

/-- Of versions that were read, those compare as equal that are alike and of one phase. This is
an equivalence, and equal versions hash alike. Two others hash alike exactly if they are alike
and one has no pre-release where the other has zeros. -/
theorem compare_eq_eq_iff_alike {s t u : String} (hs : parse s = .ok a) (ht : parse t = .ok b)
    (hu : parse u = .ok c) :
    (a.compare b = .eq ↔ a.Alike b ∧ (a.pre = [] ↔ b.pre = [])) ∧
      (a == a) = true ∧ (b == a) = (a == b) ∧
      ((a == b) = true → (b == c) = true → (a == c) = true) ∧
      ((a == b) = true → a.hashInput = b.hashInput ∧ hash a = hash b) ∧
      ((a == b) = false →
        (a.hashInput = b.hashInput ↔
          a.Alike b ∧ (a.ZeroPreRelease b ∨ b.ZeroPreRelease a))) := by
  have properA := proper_of_parse hs
  have properB := proper_of_parse ht
  have properC := proper_of_parse hu
  constructor
  · exact compare_eq_eq_iff properA properB
  constructor
  · exact beq_self properA
  constructor
  · exact beq_swap a b
  constructor
  · exact beq_trans properA properB properC
  constructor
  · intro equal
    have same := alike_iff_hashInput.mp ((beq_iff properA properB).mp equal).1
    exact ⟨same, hash_eq_of_hashInput same⟩
  · intro unequal
    rw [← alike_iff_hashInput]
    constructor
    · intro alike
      refine ⟨alike, (not_phase_iff alike).mp fun phase => ?_⟩
      rw [(beq_iff properA properB).mpr ⟨alike, phase⟩] at unequal
      cases unequal
    · exact fun alike => alike.1

/-- `1.0` is equal to `1`. The pre-release `1-0` is not, but it hashes like both. -/
theorem compare_eq_eq_iff_alike_zero :
    ∃ a b c, parse "1.0" = .ok a ∧ parse "1-0" = .ok b ∧ parse "1" = .ok c ∧
      (a == c) = true ∧ (a == b) = false ∧ a.ZeroPreRelease b ∧ a.hashInput = b.hashInput := by
  have laws := compare_eq_eq_iff_alike (s := "1.0") (t := "1-0") (u := "1") rfl rfl rfl
  have zero : ZeroPreRelease ⟨"1.0", [.number 1, .number 0], [], []⟩
      ⟨"1-0", [.number 1], [.number 0], []⟩ := ⟨rfl, nofun, by decide⟩
  have alike : Alike ⟨"1.0", [.number 1, .number 0], [], []⟩
      ⟨"1-0", [.number 1], [.number 0], []⟩ := alike_iff.mpr rfl
  exact ⟨_, _, _, rfl, rfl, rfl, rfl, rfl, zero,
    (laws.2.2.2.2.2 rfl).mpr ⟨alike, .inl zero⟩⟩

end Version

end DescriptorCodec
