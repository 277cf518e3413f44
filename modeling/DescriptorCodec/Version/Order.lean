import DescriptorCodec.Version.Basic

/-!
# The order of versions

Versions compare by sequence, then a pre-release comes before its release, then by pre-release
and by build. Token lists compare token by token; where one list goes on after the other has
ended, the surplus counts only if it holds anything but zeros.

A number and a text compare by how they print. `Version.significant` is the part of a token list
that the comparison can see, and versions are hashed by it.
-/

namespace DescriptorCodec

namespace Token

/-- Numbers compare by value, texts by code points, and a number with a text as printed. -/
def compare : Token → Token → Ordering
  | number a, number b => Ord.compare a b
  | text a, text b => Ord.compare a b
  | a, b => Ord.compare a.print b.print

/-- Compares token lists from the front; a surplus of zeros counts for nothing. -/
def compareLists : List Token → List Token → Ordering
  | [], bs => if bs.all isZero then .eq else .lt
  | as, [] => if as.all isZero then .eq else .gt
  | a :: as, b :: bs => (compare a b).then (compareLists as bs)

@[simp] theorem compareLists_nil_nil : compareLists [] [] = .eq := rfl

theorem compareLists_nil_left (bs : List Token) :
    compareLists [] bs = if bs.all isZero then .eq else .lt := by
  cases bs <;> rfl

theorem compareLists_nil_right (as : List Token) :
    compareLists as [] = if as.all isZero then .eq else .gt := by
  cases as <;> rfl

theorem compareLists_cons_cons (a b : Token) (as bs : List Token) :
    compareLists (a :: as) (b :: bs) = (compare a b).then (compareLists as bs) := rfl

/-- A token list without the zeros at its end. -/
def significant (tokens : List Token) : List Token :=
  (tokens.reverse.dropWhile isZero).reverse

@[simp] theorem significant_nil : significant [] = [] := rfl

/-- A zero at the end is dropped and anything else keeps the list whole. -/
theorem significant_append_singleton (tokens : List Token) (token : Token) :
    significant (tokens ++ [token]) =
      if token.isZero then significant tokens else tokens ++ [token] := by
  by_cases h : token.isZero <;> simp [significant, h]

end Token

namespace Version

/-- A version with a pre-release comes before the release of the same sequence. -/
def comparePhase (a b : Version) : Ordering :=
  match a.pre.isEmpty, b.pre.isEmpty with
  | true, false => .gt
  | false, true => .lt
  | _, _ => .eq

/-- Compares versions by sequence, phase, pre-release and build, in this order. -/
def compare (a b : Version) : Ordering :=
  (Token.compareLists a.sequence b.sequence).then <|
  (comparePhase a b).then <|
  (Token.compareLists a.pre b.pre).then <|
  Token.compareLists a.build b.build

instance : Ord Version := ⟨compare⟩

/-- Versions are equal when neither comes before the other; their texts may differ. -/
instance : BEq Version := ⟨fun a b => a.compare b == .eq⟩

theorem beq_def (a b : Version) : (a == b) = (a.compare b == .eq) := rfl

/-- What the hash of a version depends on: its token lists without the zeros at their ends. -/
def fingerprint (version : Version) : List Token × List Token × List Token :=
  (Token.significant version.sequence, Token.significant version.pre,
    Token.significant version.build)

instance : Hashable Version := ⟨fun version => hash version.fingerprint⟩

end Version

end DescriptorCodec
