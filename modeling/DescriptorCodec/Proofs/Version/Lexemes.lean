import Mathlib.Data.List.SplitBy
import Mathlib.Data.Nat.Digits.Defs
import DescriptorCodec.Version.Parser

/-!
# Lexemes are maximal runs

`Lexeme.joins` says which characters beside each other belong to one run: two digits, or two
characters of text. The lexemes of a text are the longest stretches in which all neighbours are
joined, so that a separator stands alone, and `tokens` can be told of these stretches without
lexemes.

A separator cuts a text in two: its lexemes are those of the part before it, its own, and those of
the part behind it.
-/

namespace DescriptorCodec

namespace Lexeme

def isSeparator (c : Char) : Bool :=
  c == '.' || c == '-' || c == '+'

/-- Whether two characters beside each other belong to one run. -/
def joins (a b : Char) : Bool :=
  !isSeparator a && !isSeparator b && a.isDigit == b.isDigit

def digitValue (c : Char) : Nat :=
  c.toNat - '0'.toNat

/-- The token of a run: the value of its digits, or the run as it stands. Separators have none. -/
def tokenOf? (run : List Char) : Option Token :=
  match run with
  | [] => none
  | c :: _ =>
    if isSeparator c then none
    else if c.isDigit then some (.number (Nat.ofDigits 10 (run.reverse.map digitValue)))
    else some (.text (String.ofList run))

/-- The tokens of a text, one for each run that is no separator. -/
def tokens (cs : List Char) : List Token :=
  (cs.splitBy joins).filterMap tokenOf?

def token? : Lexeme → Option Token
  | digits run => some (.number (decimal run))
  | text run => some (.text (String.ofList run))
  | _ => none

/-! ### The first lexeme -/

theorem not_isSeparator_of_isDigit {c : Char} (digit : c.isDigit = true) :
    isSeparator c = false := by
  by_contra separator
  simp only [isSeparator, Bool.not_eq_false, Bool.or_eq_true, beq_iff_eq] at separator
  rcases separator with (rfl | rfl) | rfl
  · exact absurd digit (by decide)
  · exact absurd digit (by decide)
  · exact absurd digit (by decide)

theorem joins_of_isSeparator {a : Char} (separator : isSeparator a = true) (b : Char) :
    joins a b = false := by
  simp [joins, separator]

theorem joins_of_isDigit {a : Char} (digit : a.isDigit = true) (b : Char) :
    joins a b = b.isDigit := by
  cases next : b.isDigit with
  | true => simp [joins, digit, next, not_isSeparator_of_isDigit digit,
      not_isSeparator_of_isDigit next]
  | false => simp [joins, digit, next]

theorem joins_of_text {a : Char} (other : isSeparator a = false) (letter : a.isDigit = false)
    (b : Char) : joins a b = !(isSeparator b || b.isDigit) := by
  simp [joins, other, letter]

theorem cons_separator {c : Char} (separator : isSeparator c = true) (rest : List Lexeme) :
    ∃ mark, cons c rest = mark :: rest ∧ mark.chars = [c] ∧ mark.token? = none := by
  simp only [isSeparator, Bool.or_eq_true, beq_iff_eq] at separator
  rcases separator with (rfl | rfl) | rfl
  · exact ⟨dot, rfl, rfl, rfl⟩
  · exact ⟨dash, rfl, rfl, rfl⟩
  · exact ⟨plus, rfl, rfl, rfl⟩

theorem cons_digit {c : Char} (digit : c.isDigit = true) (rest : List Lexeme) :
    cons c rest = consDigit c rest := by
  have other := not_isSeparator_of_isDigit digit
  simp only [isSeparator, Bool.or_eq_false_iff, beq_eq_false_iff_ne] at other
  rw [cons, if_neg other.1.1, if_neg other.1.2, if_neg other.2, if_pos digit]

theorem cons_text {c : Char} (other : isSeparator c = false) (letter : c.isDigit = false)
    (rest : List Lexeme) : cons c rest = consText c rest := by
  simp only [isSeparator, Bool.or_eq_false_iff, beq_eq_false_iff_ne] at other
  rw [cons, if_neg other.1.1, if_neg other.1.2, if_neg other.2,
    if_neg (ne_true_of_eq_false letter)]

/-- The run of a digit begins with that digit. -/
theorem ofChars_digit {c : Char} (digit : c.isDigit = true) (cs : List Char) :
    ∃ run others, ofChars (c :: cs) = digits (c :: run) :: others := by
  rw [ofChars_cons, cons_digit digit]
  unfold consDigit
  split
  · exact ⟨_, _, rfl⟩
  · exact ⟨_, _, rfl⟩

theorem ofChars_text {c : Char} (other : isSeparator c = false) (letter : c.isDigit = false)
    (cs : List Char) : ∃ run others, ofChars (c :: cs) = text (c :: run) :: others := by
  rw [ofChars_cons, cons_text other letter]
  unfold consText
  split
  · exact ⟨_, _, rfl⟩
  · exact ⟨_, _, rfl⟩

/-- A digit stands alone in front of a character that is none. -/
theorem consDigit_ofChars {b : Char} (letter : b.isDigit = false) (c : Char) (cs : List Char) :
    consDigit c (ofChars (b :: cs)) = digits [c] :: ofChars (b :: cs) := by
  cases separator : isSeparator b with
  | true =>
      obtain ⟨mark, begins, -, none⟩ := cons_separator separator (ofChars cs)
      rw [ofChars_cons, begins]
      cases mark with
      | digits run => cases none
      | _ => rfl
  | false =>
      obtain ⟨run, others, begins⟩ := ofChars_text separator letter cs
      rw [begins]
      rfl

/-- A letter stands alone in front of a character that is none. -/
theorem consText_ofChars {b : Char} (apart : isSeparator b = true ∨ b.isDigit = true) (c : Char)
    (cs : List Char) : consText c (ofChars (b :: cs)) = text [c] :: ofChars (b :: cs) := by
  rcases apart with separator | digit
  · obtain ⟨mark, begins, -, none⟩ := cons_separator separator (ofChars cs)
    rw [ofChars_cons, begins]
    cases mark with
    | text run => cases none
    | _ => rfl
  · obtain ⟨run, others, begins⟩ := ofChars_digit digit cs
    rw [begins]
    rfl

/-! ### The value of digits -/

theorem decimal_eq_ofDigits (run : List Char) :
    decimal run = Nat.ofDigits 10 (run.reverse.map digitValue) := by
  induction run using List.reverseRecOn with
  | nil => rfl
  | append_singleton run digit ih =>
      rw [decimal_append_singleton, List.reverse_append, List.reverse_singleton,
        List.singleton_append, List.map_cons, Nat.ofDigits_cons, ih, digitValue]
      omega

/-! ### Runs -/

/-- A character that is joined to the next one begins the run of that one. -/
theorem splitBy_cons_of_joined {r : Char → Char → Bool} {a b : Char} {cs run : List Char}
    {runs : List (List Char)} (joined : r a b = true)
    (rest : (b :: cs).splitBy r = (b :: run) :: runs) :
    (a :: b :: cs).splitBy r = (a :: b :: run) :: runs := by
  obtain ⟨whole, full, chains, apart⟩ := List.splitBy_eq_iff.mp rest
  refine List.splitBy_eq_iff.mpr ⟨?_, ?_, ?_, ?_⟩
  · rw [whole]
    rfl
  · intro empty
    rcases List.mem_cons.mp empty with same | member
    · cases same
    · exact full (List.mem_cons_of_mem _ member)
  · intro part member
    rcases List.mem_cons.mp member with rfl | member
    · exact List.isChain_cons_cons.mpr ⟨joined, chains _ List.mem_cons_self⟩
    · exact chains part (List.mem_cons_of_mem _ member)
  · cases runs with
    | nil => exact List.isChain_singleton _
    | cons next runs =>
        obtain ⟨⟨_, nonempty, split⟩, apart⟩ := List.isChain_cons_cons.mp apart
        refine List.isChain_cons_cons.mpr ⟨⟨List.cons_ne_nil _ _, nonempty, ?_⟩, apart⟩
        rwa [List.getLast_cons (List.cons_ne_nil _ _)]

theorem splitBy_cons_of_apart {r : Char → Char → Bool} {a b : Char} (cs : List Char)
    (apart : r a b = false) : (a :: b :: cs).splitBy r = [a] :: (b :: cs).splitBy r := by
  have split := List.splitBy_append_cons (r := r) (l := [a]) (a := b) cs (by simpa using apart)
  exact split

section Front

variable {a : Char} {cs : List Char} (ih : (ofChars cs).map chars = cs.splitBy joins)
include ih

theorem map_chars_cons_separator (separator : isSeparator a = true) :
    (cons a (ofChars cs)).map chars = (a :: cs).splitBy joins := by
  obtain ⟨mark, begins, whole, -⟩ := cons_separator separator (ofChars cs)
  rw [begins, List.map_cons, whole, ih]
  cases cs with
  | nil => rfl
  | cons b cs => rw [splitBy_cons_of_apart cs (joins_of_isSeparator separator b)]

theorem map_chars_cons_digit (digit : a.isDigit = true) :
    (cons a (ofChars cs)).map chars = (a :: cs).splitBy joins := by
  rw [cons_digit digit]
  cases cs with
  | nil => rfl
  | cons b cs =>
      have joined := joins_of_isDigit digit b
      cases next : b.isDigit with
      | true =>
          obtain ⟨run, others, begins⟩ := ofChars_digit next cs
          rw [begins] at ih ⊢
          exact (splitBy_cons_of_joined (joined.trans next) ih.symm).symm
      | false =>
          rw [consDigit_ofChars next, splitBy_cons_of_apart cs (joined.trans next), List.map_cons,
            ih]
          rfl

theorem map_chars_cons_text (other : isSeparator a = false) (letter : a.isDigit = false) :
    (cons a (ofChars cs)).map chars = (a :: cs).splitBy joins := by
  rw [cons_text other letter]
  cases cs with
  | nil => rfl
  | cons b cs =>
      have joined := joins_of_text other letter b
      cases next : isSeparator b || b.isDigit with
      | true =>
          rw [next] at joined
          rw [consText_ofChars (Bool.or_eq_true_iff.mp next), splitBy_cons_of_apart cs joined,
            List.map_cons, ih]
          rfl
      | false =>
          rw [next] at joined
          obtain ⟨other, letter⟩ := Bool.or_eq_false_iff.mp next
          obtain ⟨run, others, begins⟩ := ofChars_text other letter cs
          rw [begins] at ih ⊢
          exact (splitBy_cons_of_joined joined ih.symm).symm

end Front

/-- The lexemes of a text are its runs. The induction is on the text; whether its first character
joins the run behind it is told by the first two. -/
theorem map_chars_ofChars (cs : List Char) : (ofChars cs).map chars = cs.splitBy joins := by
  induction cs with
  | nil => rfl
  | cons a cs ih =>
      rw [ofChars_cons]
      cases separator : isSeparator a with
      | true => exact map_chars_cons_separator ih separator
      | false =>
          cases digit : a.isDigit with
          | true => exact map_chars_cons_digit ih digit
          | false => exact map_chars_cons_text ih separator digit

/-! ### Tokens -/

theorem tokenOf?_digit {c : Char} (digit : c.isDigit = true) (run : List Char) :
    tokenOf? (c :: run) = some (.number (decimal (c :: run))) := by
  rw [tokenOf?, if_neg (ne_true_of_eq_false (not_isSeparator_of_isDigit digit)), if_pos digit,
    decimal_eq_ofDigits]

theorem tokenOf?_text {c : Char} (other : isSeparator c = false) (letter : c.isDigit = false)
    (run : List Char) : tokenOf? (c :: run) = some (.text (String.ofList (c :: run))) := by
  rw [tokenOf?, if_neg (ne_true_of_eq_false other), if_neg (ne_true_of_eq_false letter)]

/-- Each lexeme of a text gives the token of its run. -/
theorem tokenOf?_chars (cs : List Char) :
    ∀ lexeme ∈ ofChars cs, tokenOf? lexeme.chars = lexeme.token? := by
  induction cs with
  | nil => exact List.forall_mem_nil _
  | cons c cs ih =>
      have others {first : Lexeme} {rest : List Lexeme}
          (own : tokenOf? first.chars = first.token?) (sub : rest ⊆ ofChars cs) :
          ∀ lexeme ∈ first :: rest, tokenOf? lexeme.chars = lexeme.token? :=
        List.forall_mem_cons.mpr ⟨own, fun lexeme member => ih lexeme (sub member)⟩
      rw [ofChars_cons]
      cases separator : isSeparator c with
      | true =>
          obtain ⟨mark, begins, whole, none⟩ := cons_separator separator (ofChars cs)
          rw [begins]
          refine others ?_ (List.Subset.refl _)
          rw [whole, none, tokenOf?, if_pos separator]
      | false =>
          cases digit : c.isDigit with
          | true =>
              rw [cons_digit digit]
              unfold consDigit
              split
              · next run rest same =>
                rw [same] at others
                exact others (tokenOf?_digit digit _) (List.subset_cons_self _ _)
              · exact others (tokenOf?_digit digit _) (List.Subset.refl _)
          | false =>
              rw [cons_text separator digit]
              unfold consText
              split
              · next run rest same =>
                rw [same] at others
                exact others (tokenOf?_text separator digit _) (List.subset_cons_self _ _)
              · exact others (tokenOf?_text separator digit _) (List.Subset.refl _)

/-- The tokens of a text are those of its lexemes. -/
theorem filterMap_token?_ofChars (cs : List Char) :
    (ofChars cs).filterMap token? = tokens cs := by
  rw [tokens, ← map_chars_ofChars, List.filterMap_map]
  exact (List.filterMap_congr (tokenOf?_chars cs)).symm

/-! ### Cutting at a separator -/

/-- A separator keeps what is in front of it apart from what is behind it. -/
theorem cons_append_mark {mark : Lexeme} (none : mark.token? = none) (c : Char)
    (first rest : List Lexeme) : cons c (first ++ mark :: rest) = cons c first ++ mark :: rest := by
  have digit : consDigit c (first ++ mark :: rest) = consDigit c first ++ mark :: rest := by
    cases first with
    | nil => cases mark <;> first | rfl | cases none
    | cons lexeme first => cases lexeme <;> rfl
  have text : consText c (first ++ mark :: rest) = consText c first ++ mark :: rest := by
    cases first with
    | nil => cases mark <;> first | rfl | cases none
    | cons lexeme first => cases lexeme <;> rfl
  unfold cons
  rw [digit, text]
  split_ifs <;> rfl

theorem ofChars_append_mark {c : Char} {mark : Lexeme} (none : mark.token? = none)
    (cuts : ∀ rest, cons c rest = mark :: rest) (xs ys : List Char) :
    ofChars (xs ++ c :: ys) = ofChars xs ++ mark :: ofChars ys := by
  induction xs with
  | nil => exact cuts _
  | cons x xs ih => rw [List.cons_append, ofChars_cons, ih, cons_append_mark none, ofChars_cons]

theorem dash_not_mem {cs : List Char} (absent : '-' ∉ cs) : dash ∉ ofChars cs := by
  intro member
  rw [← flatMap_chars_ofChars cs] at absent
  exact absent (List.mem_flatMap.mpr ⟨dash, member, List.mem_singleton_self _⟩)

theorem plus_not_mem {cs : List Char} (absent : '+' ∉ cs) : plus ∉ ofChars cs := by
  intro member
  rw [← flatMap_chars_ofChars cs] at absent
  exact absent (List.mem_flatMap.mpr ⟨plus, member, List.mem_singleton_self _⟩)

end Lexeme

end DescriptorCodec
