/-!
# The lexemes of a version text

A text is cut into separators, maximal runs of digits and maximal runs of other characters. The
runs are joined character by character from the right, so that cutting is a fold and every
character of the text is found again in exactly one lexeme.

Digits are the ten ASCII digits; every other character that is no separator belongs to a text run.
-/

namespace DescriptorCodec

/-- A separator or a maximal run of one class of characters. -/
inductive Lexeme where
  | dot
  | dash
  | plus
  | digits (run : List Char)
  | text (run : List Char)
  deriving DecidableEq, Repr

namespace Lexeme

/-- The characters of a lexeme. -/
def chars : Lexeme → List Char
  | dot => ['.']
  | dash => ['-']
  | plus => ['+']
  | digits run => run
  | text run => run

/-- Puts a digit in front of lexemes, into the first one if that is a run of digits. -/
def consDigit (c : Char) : List Lexeme → List Lexeme
  | digits run :: rest => digits (c :: run) :: rest
  | rest => digits [c] :: rest

/-- Puts a text character in front of lexemes, into the first one if that is a run of text. -/
def consText (c : Char) : List Lexeme → List Lexeme
  | text run :: rest => text (c :: run) :: rest
  | rest => text [c] :: rest

/-- Puts a character in front of lexemes. -/
def cons (c : Char) (rest : List Lexeme) : List Lexeme :=
  if c = '.' then dot :: rest
  else if c = '-' then dash :: rest
  else if c = '+' then plus :: rest
  else if c.isDigit then consDigit c rest
  else consText c rest

/-- The lexemes of a text, in order. -/
def ofChars (cs : List Char) : List Lexeme :=
  cs.foldr cons []

@[simp] theorem ofChars_nil : ofChars [] = [] := rfl

theorem ofChars_cons (c : Char) (cs : List Char) : ofChars (c :: cs) = cons c (ofChars cs) := rfl

theorem flatMap_chars_consDigit (c : Char) (rest : List Lexeme) :
    (consDigit c rest).flatMap chars = c :: rest.flatMap chars := by
  unfold consDigit
  split <;> simp [chars]

theorem flatMap_chars_consText (c : Char) (rest : List Lexeme) :
    (consText c rest).flatMap chars = c :: rest.flatMap chars := by
  unfold consText
  split <;> simp [chars]

theorem flatMap_chars_cons (c : Char) (rest : List Lexeme) :
    (cons c rest).flatMap chars = c :: rest.flatMap chars := by
  unfold cons
  split
  · next h => simp [chars, h]
  · split
    · next h => simp [chars, h]
    · split
      · next h => simp [chars, h]
      · split
        · exact flatMap_chars_consDigit c rest
        · exact flatMap_chars_consText c rest

/-- Cutting a text loses and adds no character. -/
theorem flatMap_chars_ofChars (cs : List Char) : (ofChars cs).flatMap chars = cs := by
  induction cs with
  | nil => rfl
  | cons c cs ih => rw [ofChars_cons, flatMap_chars_cons, ih]

/-- The value of a run of digits; leading zeros do not count. -/
def decimal (run : List Char) : Nat :=
  run.foldl (fun value digit => value * 10 + (digit.toNat - '0'.toNat)) 0

@[simp] theorem decimal_nil : decimal [] = 0 := rfl

theorem decimal_append_singleton (run : List Char) (digit : Char) :
    decimal (run ++ [digit]) = decimal run * 10 + (digit.toNat - '0'.toNat) := by
  simp [decimal]

end Lexeme

end DescriptorCodec
