/-!
# Module versions

A version is three lists of tokens: the number sequence, the pre-release and the build. The text
it was read from is kept, because it is what is printed and what records store; comparison looks
at the tokens only.
-/

namespace DescriptorCodec

/-- A run of digits, by its value, or a run of other characters, as it stands. -/
inductive Token where
  | number (value : Nat)
  | text (run : String)
  deriving DecidableEq, Hashable, Repr

namespace Token

/-- The token in print; a number loses its leading zeros. -/
def print : Token → String
  | number value => toString value
  | text run => run

/-- Whether the token is the number zero, which weighs nothing at the end of a list. -/
def isZero : Token → Bool
  | number value => value == 0
  | text _ => false

@[simp] theorem isZero_number (value : Nat) : (number value).isZero = (value == 0) := rfl

@[simp] theorem isZero_text (run : String) : (text run).isZero = false := rfl

theorem isZero_iff {token : Token} : token.isZero = true ↔ token = number 0 := by
  cases token <;> simp

end Token

/-- A version, with the text it was read from. -/
structure Version where
  source : String
  sequence : List Token
  pre : List Token
  build : List Token
  deriving Repr

/-- Whether the version comes before the release it names. -/
def Version.isPreRelease (version : Version) : Bool :=
  !version.pre.isEmpty

end DescriptorCodec
