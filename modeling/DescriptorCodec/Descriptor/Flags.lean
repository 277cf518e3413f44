/-!
# Flag words

Requirements, exports, opens and whole modules carry a word of flags. Which bits have a meaning,
and what they are called, depends on where the word stands. Words are kept as they are, unknown
bits included; only decoding clears the bits that mean nothing.
-/

namespace DescriptorCodec

/-- The bits that have a meaning in a word of flags, each with its name, in order. -/
structure FlagFamily where
  members : List (String × UInt16)
  deriving Repr

namespace FlagFamily

/-- The bit that marks a requirement that readers of the module inherit. -/
def transitiveBit : UInt16 := 0x0001

/-- The bit that marks a requirement needed only at compile time. -/
def staticBit : UInt16 := 0x0002

/-- The bit that marks what no source declared. -/
def syntheticBit : UInt16 := 0x0010

/-- The bit that marks what was declared implicitly. -/
def mandatedBit : UInt16 := 0x0020

def openBit : UInt16 := 0x0001

def syntheticModuleBit : UInt16 := 0x0020

def requires : FlagFamily :=
  ⟨[("TRANSITIVE", transitiveBit), ("STATIC", staticBit), ("SYNTHETIC", syntheticBit),
    ("MANDATED", mandatedBit)]⟩

def packageAccess : FlagFamily :=
  ⟨[("SYNTHETIC", syntheticBit), ("MANDATED", mandatedBit)]⟩

def ofModule : FlagFamily :=
  ⟨[("OPEN", openBit), ("SYNTHETIC", syntheticModuleBit)]⟩

/-- All bits that have a meaning. -/
def mask (family : FlagFamily) : UInt16 :=
  family.members.foldl (fun bits member => bits ||| member.2) 0

/-- A word without the bits that have no meaning. -/
def truncate (family : FlagFamily) (bits : UInt16) : UInt16 :=
  bits &&& family.mask

/-- Whether every bit of a word has a meaning. -/
def isKnown (family : FlagFamily) (bits : UInt16) : Bool :=
  family.truncate bits == bits

/-- Whether a word has every bit that has a meaning. -/
def isFull (family : FlagFamily) (bits : UInt16) : Bool :=
  family.truncate bits == family.mask

def names (family : FlagFamily) (bits : UInt16) : List String :=
  (family.members.filter fun member => bits &&& member.2 == member.2).map Prod.fst

theorem mask_requires : requires.mask = 0x0033 := by decide

theorem mask_packageAccess : packageAccess.mask = 0x0030 := by decide

theorem mask_ofModule : ofModule.mask = 0x0021 := by decide

/-- Clearing the bits that have no meaning leaves a known word. -/
@[simp] theorem truncate_truncate (family : FlagFamily) (bits : UInt16) :
    family.truncate (family.truncate bits) = family.truncate bits := by
  rw [truncate, truncate, UInt16.and_assoc, UInt16.and_self]

end FlagFamily

end DescriptorCodec
