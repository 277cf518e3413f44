import Mathlib.Data.List.Basic
import DescriptorCodec.Proofs.Version.TokenOrder
import DescriptorCodec.Version.Parser

/-!
# The tokens of a version that was read

A run of text starts where a character is neither a digit nor a separator, so the tokens that
reading makes are those on which the comparison is a linear order.
-/

namespace DescriptorCodec

/-- A run of text that is not empty and has no digit in front. -/
def Lexeme.Proper : Lexeme → Prop
  | .text run => ∃ c cs, run = c :: cs ∧ c.isDigit = false
  | _ => True

namespace Lexeme

theorem proper_consDigit (c : Char) {rest : List Lexeme}
    (h : ∀ lexeme ∈ rest, lexeme.Proper) : ∀ lexeme ∈ consDigit c rest, lexeme.Proper := by
  intro lexeme member
  unfold consDigit at member
  split at member
  · rcases List.mem_cons.mp member with rfl | member
    · trivial
    · exact h lexeme (List.mem_cons_of_mem _ member)
  · rcases List.mem_cons.mp member with rfl | member
    · trivial
    · exact h lexeme member

theorem proper_consText {c : Char} (other : c.isDigit = false) {rest : List Lexeme}
    (h : ∀ lexeme ∈ rest, lexeme.Proper) : ∀ lexeme ∈ consText c rest, lexeme.Proper := by
  intro lexeme member
  unfold consText at member
  split at member
  · rcases List.mem_cons.mp member with rfl | member
    · exact ⟨c, _, rfl, other⟩
    · exact h lexeme (List.mem_cons_of_mem _ member)
  · rcases List.mem_cons.mp member with rfl | member
    · exact ⟨c, _, rfl, other⟩
    · exact h lexeme member

theorem proper_cons (c : Char) {rest : List Lexeme} (h : ∀ lexeme ∈ rest, lexeme.Proper) :
    ∀ lexeme ∈ cons c rest, lexeme.Proper := by
  have separator (mark : Lexeme) (proper : mark.Proper) :
      ∀ lexeme ∈ mark :: rest, lexeme.Proper := by
    intro lexeme member
    rcases List.mem_cons.mp member with rfl | member
    · exact proper
    · exact h lexeme member
  unfold cons
  split
  · exact separator dot trivial
  · split
    · exact separator dash trivial
    · split
      · exact separator plus trivial
      · by_cases digit : c.isDigit = true
        · rw [if_pos digit]
          exact proper_consDigit c h
        · rw [if_neg digit]
          exact proper_consText (eq_false_of_ne_true digit) h

theorem proper_ofChars (cs : List Char) : ∀ lexeme ∈ ofChars cs, lexeme.Proper := by
  induction cs with
  | nil => exact List.forall_mem_nil _
  | cons c cs ih => exact proper_cons c ih

end Lexeme

namespace Version

/-- Every token of the version is one that a version can have. -/
structure Proper (version : Version) : Prop where
  sequence : ∀ token ∈ version.sequence, token.Proper
  pre : ∀ token ∈ version.pre, token.Proper
  build : ∀ token ∈ version.build, token.Proper

namespace Draft

/-- Every token read so far is one that a version can have. -/
structure Proper (draft : Draft) : Prop where
  sequence : ∀ token ∈ draft.sequence, token.Proper
  pre : ∀ token ∈ draft.pre, token.Proper
  build : ∀ token ∈ draft.build, token.Proper

theorem start_proper : start.Proper where
  sequence := by simp [start]
  pre := by simp [start]
  build := by simp [start]

theorem Proper.push {draft : Draft} {token : Token} (h : draft.Proper) (proper : token.Proper) :
    (draft.push token).Proper := by
  have pushed {tokens : Array Token} (all : ∀ token ∈ tokens, token.Proper) :
      ∀ other ∈ tokens.push token, other.Proper := by
    intro other member
    rcases Array.mem_push.mp member with member | rfl
    · exact all other member
    · exact proper
  unfold Draft.push
  split
  · exact { h with sequence := pushed h.sequence }
  · exact { h with pre := pushed h.pre }
  · exact { h with build := pushed h.build }

theorem Proper.dash {draft : Draft} (h : draft.Proper) : draft.dash.Proper := by
  unfold Draft.dash
  split
  · exact { h with }
  · exact h

theorem Proper.plus {draft next : Draft} (h : draft.Proper) (done : draft.plus = .ok next) :
    next.Proper := by
  unfold Draft.plus at done
  split at done
  · cases done
    exact { h with }
  · split at done
    · cases done
    · cases done
      exact { h with }
  · cases done
    exact h

theorem Proper.step {draft next : Draft} {lexeme : Lexeme} (h : draft.Proper)
    (proper : lexeme.Proper) (done : draft.step lexeme = .ok next) : next.Proper := by
  cases lexeme with
  | dot =>
      cases done
      exact h
  | dash =>
      cases done
      exact h.dash
  | plus => exact h.plus done
  | digits run =>
      rw [Draft.step] at done
      by_cases small : Lexeme.decimal run < numberBound
      · rw [if_pos small] at done
        cases done
        exact h.push (Token.proper_number _)
      · rw [if_neg small] at done
        cases done
  | text run =>
      cases done
      obtain ⟨c, cs, same, other⟩ := proper
      exact h.push ⟨c, cs, by rw [String.toList_ofList, same], other⟩

theorem Proper.foldlM {draft last : Draft} {lexemes : List Lexeme} (h : draft.Proper)
    (proper : ∀ lexeme ∈ lexemes, lexeme.Proper)
    (done : lexemes.foldlM Draft.step draft = .ok last) : last.Proper := by
  induction lexemes generalizing draft with
  | nil =>
      cases done
      exact h
  | cons lexeme lexemes ih =>
      rw [List.foldlM_cons] at done
      cases first : draft.step lexeme with
      | error fault =>
          rw [first] at done
          cases done
      | ok next =>
          rw [first] at done
          have properNext := h.step (proper lexeme List.mem_cons_self) first
          exact ih properNext (List.forall_mem_of_forall_mem_cons proper) done

theorem Proper.finish {draft : Draft} {source : String} {version : Version} (h : draft.Proper)
    (done : draft.finish source = .ok version) : version.Proper := by
  have taken : Version.Proper
      { source
        sequence := draft.sequence.toList
        pre := draft.pre.toList
        build := draft.build.toList } :=
    { sequence := fun token member => h.sequence token (Array.mem_toList_iff.mp member)
      pre := fun token member => h.pre token (Array.mem_toList_iff.mp member)
      build := fun token member => h.build token (Array.mem_toList_iff.mp member) }
  unfold Draft.finish at done
  split at done
  · cases done
    exact taken
  · split at done
    · cases done
    · cases done
      exact taken
  · split at done
    · cases done
    · cases done
      exact taken

end Draft

/-- A version that was read has proper tokens only. -/
theorem proper_of_parse {source : String} {version : Version}
    (h : parse source = .ok version) : version.Proper := by
  have done := parse_eq_ok_iff.mp h
  unfold read at done
  split at done
  · cases done
  · next c cs _ =>
      split at done
      · cases tokens : (Lexeme.ofChars (c :: cs)).foldlM Draft.step Draft.start with
        | error fault =>
            rw [tokens] at done
            cases done
        | ok draft =>
            rw [tokens] at done
            have proper := Draft.start_proper.foldlM (Lexeme.proper_ofChars (c :: cs)) tokens
            exact proper.finish done
      · cases done

end Version

end DescriptorCodec
