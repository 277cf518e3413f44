import Mathlib.Data.List.TakeWhile
import DescriptorCodec.Proofs.Version.Lexemes

/-!
# The grammar of versions

`Version.split` reads a version part by part: the text is cut at its first plus, and what stands
before that at its first dash, and each part is cut into its tokens. `Version.parse` goes over the
text once and decides lexeme by lexeme where a token belongs. Both accept the same texts, make the
same version of them, and name the same fault where a text has several.
-/

namespace DescriptorCodec

open Lexeme (tokens token?)

/-- Whether the token is a number of 65 bits or more. -/
def Token.isTooLarge : Token → Bool
  | number value => 2 ^ 64 ≤ value
  | text _ => false

namespace Version

/-- What stands before the first mark, and what stands behind it if there is one. -/
def cut (mark : Char) (cs : List Char) : List Char × Option (List Char) :=
  (cs.takeWhile (· != mark), (cs.dropWhile (· != mark)).tail?)

/-- The tokens of a part, unless one of its numbers is too large. -/
def tokensOf (part : List Char) : Except String (List Token) :=
  if (tokens part).any Token.isTooLarge then .error "number too large" else .ok (tokens part)

/-- The tokens of a part that need not be there, but must have a token if it is. -/
def announced (missing : String) : Option (List Char) → Except String (List Token)
  | none => .ok []
  | some part => do
    let found ← tokensOf part
    if found.isEmpty then .error missing else .ok found

/-- Reads a version part by part, or gives the reason why the text is none. -/
def split (source : String) : Except String Version :=
  match source.toList with
  | [] => .error "empty version string"
  | c :: cs =>
    if c.isDigit then do
      let (head, build) := cut '+' (c :: cs)
      let (sequence, pre) := cut '-' head
      let sequence ← tokensOf sequence
      let pre ← announced "empty pre-release" pre
      let build ← announced "empty build" build
      return { source, sequence, pre, build }
    else .error "version string does not start with a number"

/-! ### Cutting a text -/

/-- The cut part and its mark are found again in the text. -/
theorem append_cut (mark : Char) (cs : List Char) :
    mark ∉ (cut mark cs).1 ∧
      cs = (cut mark cs).1 ++ ((cut mark cs).2.map (mark :: ·)).getD [] := by
  constructor
  · intro member
    have other := List.mem_takeWhile_imp member
    simp at other
  · have whole : cs = (cut mark cs).1 ++ cs.dropWhile (· != mark) :=
      List.takeWhile_append_dropWhile.symm
    cases rest : cs.dropWhile (· != mark) with
    | nil =>
        rw [rest] at whole
        rw [cut, rest]
        exact whole
    | cons c tail =>
        have first : (c != mark) = false := by
          have stopped := List.head?_dropWhile_not (· != mark) cs
          rw [rest] at stopped
          exact stopped
        have same : c = mark := by simpa using first
        subst same
        rw [rest] at whole
        rw [cut, rest]
        exact whole

namespace Draft

/-- The draft with more tokens in the part that is being filled. -/
def extend (draft : Draft) (found : List Token) : Draft :=
  found.foldl push draft

/-- The lexeme does not end the part that is being filled. -/
def Stays (draft : Draft) (lexeme : Lexeme) : Prop :=
  match draft.part with
  | .sequence => lexeme ≠ .dash ∧ lexeme ≠ .plus
  | .pre => lexeme ≠ .plus
  | .build => True

theorem part_push (draft : Draft) (token : Token) : (draft.push token).part = draft.part := by
  unfold push
  split <;> rfl

theorem Stays.push {draft : Draft} {lexeme : Lexeme} (h : draft.Stays lexeme) (token : Token) :
    (draft.push token).Stays lexeme := by
  rwa [Stays, part_push]

/-- A lexeme that stays in the part only adds its token. -/
theorem step_of_stays {draft : Draft} {lexeme : Lexeme} (h : draft.Stays lexeme) :
    draft.step lexeme =
      match token? lexeme with
      | none => .ok draft
      | some token =>
        if token.isTooLarge then .error .numberTooLarge else .ok (draft.push token) := by
  cases lexeme with
  | dot => rfl
  | dash =>
      cases kind : draft.part with
      | sequence =>
          rw [Stays, kind] at h
          exact absurd rfl h.1
      | _ => simp [step, dash, kind, token?]
  | plus =>
      cases kind : draft.part with
      | build => simp [step, plus, kind, token?]
      | sequence =>
          rw [Stays, kind] at h
          exact absurd rfl h.2
      | pre =>
          rw [Stays, kind] at h
          exact absurd rfl h
  | digits run =>
      have bound : numberBound = 2 ^ 64 := rfl
      simp only [step, token?, Token.isTooLarge, decide_eq_true_eq, bound]
      rcases Nat.lt_or_ge (Lexeme.decimal run) (2 ^ 64) with small | large
      · rw [if_pos small, if_neg (Nat.not_le_of_lt small)]
      · rw [if_neg (Nat.not_lt_of_le large), if_pos large]
  | text run => rfl

/-- The induction is on the lexemes, all of which stay in the part. -/
theorem foldlM_step_of_stays {draft : Draft} {lexemes : List Lexeme}
    (h : ∀ lexeme ∈ lexemes, draft.Stays lexeme) :
    lexemes.foldlM step draft =
      if (lexemes.filterMap token?).any Token.isTooLarge then .error .numberTooLarge
      else .ok (draft.extend (lexemes.filterMap token?)) := by
  induction lexemes generalizing draft with
  | nil => rfl
  | cons lexeme lexemes ih =>
      obtain ⟨stays, rest⟩ := List.forall_mem_cons.mp h
      rw [List.foldlM_cons, step_of_stays stays, List.filterMap_cons]
      cases found : token? lexeme with
      | none => exact ih rest
      | some token =>
          have later := ih fun other member => (rest other member).push token
          cases large : token.isTooLarge with
          | true => simp [large, bind, Except.bind]
          | false => simpa [large, bind, Except.bind, extend] using later

/-- What is added goes to the end of the part that is being filled. -/
theorem extend_eq (draft : Draft) (found : List Token) :
    draft.extend found =
      match draft.part with
      | .sequence => { draft with sequence := draft.sequence ++ found.toArray }
      | .pre => { draft with pre := draft.pre ++ found.toArray }
      | .build => { draft with build := draft.build ++ found.toArray } := by
  induction found generalizing draft with
  | nil =>
      obtain ⟨part, sequence, pre, build⟩ := draft
      cases part <;> simp [extend]
  | cons token found ih =>
      obtain ⟨part, sequence, pre, build⟩ := draft
      rw [extend, List.foldl_cons, ← extend, ih]
      cases part <;> simp [push]

/-- Reads the lexemes that are left, and finishes. -/
def complete (draft : Draft) (source : String) (lexemes : List Lexeme) :
    Except String Version :=
  (lexemes.foldlM step draft >>= fun last => last.finish source).mapError
    VersionFault.description

variable {source : String}

/-- A part is read at once, if nothing in it ends the part. -/
theorem complete_part (draft : Draft) (source : String) (part : List Char)
    (stays : ∀ lexeme ∈ Lexeme.ofChars part, draft.Stays lexeme) (rest : List Lexeme) :
    draft.complete source (Lexeme.ofChars part ++ rest) =
      tokensOf part >>= fun found => (draft.extend found).complete source rest := by
  rw [complete, List.foldlM_append, foldlM_step_of_stays stays, Lexeme.filterMap_token?_ofChars,
    tokensOf]
  split_ifs
  · rfl
  · rfl

/-- The lexemes of a part that may be there, with the mark in front of it. -/
def behind (mark : Lexeme) (part : Option (List Char)) : List Lexeme :=
  (part.map fun part => mark :: Lexeme.ofChars part).getD []

variable (sequence pre : List Token)

theorem complete_build (part : List Char) :
    complete ⟨.build, sequence.toArray, pre.toArray, #[]⟩ source (Lexeme.ofChars part) =
      announced "empty build" (some part) >>= fun build =>
        .ok { source, sequence, pre, build } := by
  have whole := complete_part ⟨.build, sequence.toArray, pre.toArray, #[]⟩ source part
    (fun _ _ => trivial) []
  rw [List.append_nil] at whole
  rw [whole, announced]
  cases tokensOf part with
  | error reason => rfl
  | ok found =>
      change complete (extend _ found) source [] = _
      rw [extend_eq]
      cases found with
      | nil => rfl
      | cons token found =>
          simp [complete, finish, bind, Except.bind, Except.mapError, pure, Except.pure]

/-- After the sequence there may be a build. -/
theorem complete_sequence_build (build : Option (List Char)) :
    complete ⟨.sequence, sequence.toArray, #[], #[]⟩ source (behind .plus build) =
      announced "empty build" build >>= fun build =>
        .ok { source, sequence, pre := [], build } := by
  cases build with
  | none => rfl
  | some part => exact complete_build sequence [] part

/-- After the pre-release there may be a build, unless the pre-release is empty. -/
theorem complete_pre_build (build : Option (List Char)) :
    complete ⟨.pre, sequence.toArray, pre.toArray, #[]⟩ source (behind .plus build) =
      if pre.isEmpty then .error "empty pre-release"
      else announced "empty build" build >>= fun build =>
        .ok { source, sequence, pre, build } := by
  cases pre with
  | nil =>
      cases build with
      | none => rfl
      | some part => rfl
  | cons token pre =>
      cases build with
      | none =>
          simp [behind, complete, finish, announced, bind, Except.bind, Except.mapError, pure,
            Except.pure]
      | some part =>
          have plus : complete ⟨.pre, sequence.toArray, (token :: pre).toArray, #[]⟩ source
              (behind .plus (some part)) =
            complete ⟨.build, sequence.toArray, (token :: pre).toArray, #[]⟩ source
              (Lexeme.ofChars part) := by
            simp [behind, complete, step, Draft.plus, bind, Except.bind]
          rw [plus, complete_build]
          rfl

theorem complete_pre {part : List Char} (noPlus : '+' ∉ part) (build : Option (List Char)) :
    complete ⟨.pre, sequence.toArray, #[], #[]⟩ source
        (Lexeme.ofChars part ++ behind .plus build) =
      announced "empty pre-release" (some part) >>= fun pre =>
        announced "empty build" build >>= fun build => .ok { source, sequence, pre, build } := by
  have stays : ∀ lexeme ∈ Lexeme.ofChars part,
      Stays ⟨.pre, sequence.toArray, #[], #[]⟩ lexeme :=
    fun lexeme member same => Lexeme.plus_not_mem noPlus (same ▸ member)
  rw [complete_part _ _ _ stays, announced]
  cases tokensOf part with
  | error reason => rfl
  | ok found =>
      have filled : extend ⟨.pre, sequence.toArray, #[], #[]⟩ found =
          ⟨.pre, sequence.toArray, found.toArray, #[]⟩ := by
        rw [extend_eq]
        simp
      change complete (extend _ found) source (behind .plus build) = _
      rw [filled, complete_pre_build]
      cases found <;> rfl

/-- The parts are read one after the other. -/
theorem complete_start {part : List Char} (noDash : '-' ∉ part) (noPlus : '+' ∉ part)
    {pre : Option (List Char)} (noPlus' : ∀ text, pre = some text → '+' ∉ text)
    (build : Option (List Char)) :
    start.complete source (Lexeme.ofChars part ++ (behind .dash pre ++ behind .plus build)) =
      tokensOf part >>= fun sequence =>
        announced "empty pre-release" pre >>= fun pre =>
          announced "empty build" build >>= fun build =>
            .ok { source, sequence, pre, build } := by
  have stays : ∀ lexeme ∈ Lexeme.ofChars part, start.Stays lexeme :=
    fun lexeme member => ⟨fun same => Lexeme.dash_not_mem noDash (same ▸ member),
      fun same => Lexeme.plus_not_mem noPlus (same ▸ member)⟩
  rw [complete_part _ _ _ stays]
  refine congrArg (tokensOf part >>= ·) (funext fun sequence => ?_)
  have filled : start.extend sequence = ⟨.sequence, sequence.toArray, #[], #[]⟩ := by
    rw [extend_eq]
    simp [start]
  rw [filled]
  cases pre with
  | none => exact complete_sequence_build sequence build
  | some text => exact complete_pre sequence (noPlus' text rfl) build

end Draft

/-- The lexemes of a text are those of the part before the cut and, behind the mark, those of the
other part. -/
theorem ofChars_cut (c : Char) (mark : Lexeme) (none : token? mark = none)
    (cuts : ∀ rest, Lexeme.cons c rest = mark :: rest) (cs : List Char) :
    Lexeme.ofChars cs = Lexeme.ofChars (cut c cs).1 ++ Draft.behind mark (cut c cs).2 := by
  obtain ⟨-, whole⟩ := append_cut c cs
  generalize cut c cs = parts at whole ⊢
  obtain ⟨first, second⟩ := parts
  rw [whole]
  cases second with
  | none => simp [Draft.behind]
  | some rest => exact Lexeme.ofChars_append_mark none cuts first rest

/-- Reading goes over the text once and comes to what its parts say. -/
theorem mapError_read (source : String) :
    (read source).mapError VersionFault.description = split source := by
  rw [read, split]
  cases source.toList with
  | nil => rfl
  | cons c cs =>
      dsimp only
      by_cases digit : c.isDigit
      · rw [if_pos digit, if_pos digit]
        have plus := ofChars_cut '+' .plus rfl (fun _ => rfl) (c :: cs)
        obtain ⟨noPlus, -⟩ := append_cut '+' (c :: cs)
        generalize cut '+' (c :: cs) = parts at plus noPlus
        obtain ⟨head, build⟩ := parts
        have dash := ofChars_cut '-' .dash rfl (fun _ => rfl) head
        obtain ⟨noDash, whole⟩ := append_cut '-' head
        dsimp only at plus noPlus ⊢
        generalize cut '-' head = parts at dash noDash whole
        obtain ⟨sequence, pre⟩ := parts
        dsimp only at dash noDash whole ⊢
        rw [whole, List.mem_append, not_or] at noPlus
        have noPlus' : ∀ text, pre = some text → '+' ∉ text := by
          rintro text rfl member
          exact noPlus.2 (List.mem_cons_of_mem _ member)
        rw [plus, dash, List.append_assoc]
        exact Draft.complete_start noDash noPlus.1 noPlus' build
      · rw [if_neg digit, if_neg digit]
        rfl

/-- Parsing accepts what can be read part by part, and gives that version. Otherwise it fails for
the reason that reading part by part gives. -/
theorem parse_eq_split (source : String) :
    match split source with
    | .ok version => parse source = .ok version
    | .error reason =>
      ∃ fault, fault.description = reason ∧
        parse source = .error (.invalidVersion source fault) := by
  rw [← mapError_read, parse]
  cases read source with
  | ok version => rfl
  | error fault => exact ⟨fault, rfl, rfl⟩

end Version

end DescriptorCodec
