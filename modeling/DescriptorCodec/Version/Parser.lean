import DescriptorCodec.Error
import DescriptorCodec.Version.Basic
import DescriptorCodec.Version.Lexeme

/-!
# Reading versions

A version text starts with a digit. Its lexemes are taken in order into the part that is being
filled: the sequence first, the pre-release after the first dash, the build after the first plus.
Every other separator only ends a token. A pre-release or build that is announced has to have a
token, and a number has to be below `2 ^ 64`.
-/

namespace DescriptorCodec

namespace Version

/-- The part of a version that tokens are being added to. -/
inductive Part where
  | sequence
  | pre
  | build
  deriving DecidableEq, Repr

/-- Numbers are below this bound. -/
def numberBound : Nat := 18446744073709551616

/-- A version being read: the part to which the next token goes, and the tokens so far. -/
structure Draft where
  part : Part
  sequence : Array Token
  pre : Array Token
  build : Array Token
  deriving DecidableEq, Repr

namespace Draft

/-- Nothing read yet. -/
def start : Draft where
  part := .sequence
  sequence := #[]
  pre := #[]
  build := #[]

/-- Adds a token to the part being filled. -/
def push (draft : Draft) (token : Token) : Draft :=
  match draft.part with
  | .sequence => { draft with sequence := draft.sequence.push token }
  | .pre => { draft with pre := draft.pre.push token }
  | .build => { draft with build := draft.build.push token }

/-- A dash ends the sequence; later dashes only separate tokens. -/
def dash (draft : Draft) : Draft :=
  match draft.part with
  | .sequence => { draft with part := .pre }
  | _ => draft

/-- The first plus starts the build, unless an empty pre-release stands before it; later ones
only separate tokens. -/
def plus (draft : Draft) : Except VersionFault Draft :=
  match draft.part with
  | .sequence => .ok { draft with part := .build }
  | .pre =>
    if draft.pre.isEmpty then .error .emptyPreRelease else .ok { draft with part := .build }
  | .build => .ok draft

/-- Takes one lexeme into the draft. -/
def step (draft : Draft) : Lexeme → Except VersionFault Draft
  | .dot => .ok draft
  | .dash => .ok draft.dash
  | .plus => draft.plus
  | .digits run =>
    let value := Lexeme.decimal run
    if value < numberBound then .ok (draft.push (.number value)) else .error .numberTooLarge
  | .text run => .ok (draft.push (.text (String.ofList run)))

/-- The version that was read from `source`, provided that the part announced last is not
empty. -/
def finish (draft : Draft) (source : String) : Except VersionFault Version :=
  let version : Version :=
    { source
      sequence := draft.sequence.toList
      pre := draft.pre.toList
      build := draft.build.toList }
  match draft.part with
  | .sequence => .ok version
  | .pre => if draft.pre.isEmpty then .error .emptyPreRelease else .ok version
  | .build => if draft.build.isEmpty then .error .emptyBuild else .ok version

end Draft

/-- Reads a version, or gives the first fault of the text. -/
def read (source : String) : Except VersionFault Version :=
  match source.toList with
  | [] => .error .emptyText
  | c :: cs =>
    if c.isDigit then do
      let draft ← (Lexeme.ofChars (c :: cs)).foldlM Draft.step Draft.start
      draft.finish source
    else .error .noLeadingNumber

/-- Reads a version; a failure tells the text along with its fault. -/
def parse (source : String) : Except Error Version :=
  match read source with
  | .ok version => .ok version
  | .error fault => .error (.invalidVersion source fault)

theorem parse_eq_ok_iff {source : String} {version : Version} :
    parse source = .ok version ↔ read source = .ok version := by
  unfold parse
  split <;> simp_all

theorem Draft.source_of_finish {draft : Draft} {source : String} {version : Version}
    (h : draft.finish source = .ok version) : version.source = source := by
  unfold Draft.finish at h
  repeat' split at h
  all_goals cases h <;> rfl

/-- A version keeps the text it was read from. -/
theorem source_of_read {source : String} {version : Version}
    (h : read source = .ok version) : version.source = source := by
  unfold read at h
  split at h
  · cases h
  · split at h
    · simp only [bind, Except.bind] at h
      split at h
      · cases h
      · exact Draft.source_of_finish h
    · cases h

theorem source_of_parse {source : String} {version : Version}
    (h : parse source = .ok version) : version.source = source :=
  source_of_read (parse_eq_ok_iff.mp h)

end Version

end DescriptorCodec
