import DescriptorCodec.Proofs.Version.Equality
import DescriptorCodec.Proofs.Version.Grammar

/-!
# Releases and what is written around them

`Version.written` writes a version text from its parts, and `Version.parse` finds the parts again,
whatever separators stand at their ends. The order of releases, pre-releases and builds of one
sequence is read off these texts, and so is that `.0` at the end of a part changes nothing.
-/

namespace DescriptorCodec

open Lexeme (tokens token?)

namespace Version

open Token (significant compareLists)

/-- A version text: a sequence, a pre-release behind a dash and a build behind a plus. -/
def written (sequence : String) : Option String → Option String → String
  | none, none => sequence
  | some pre, none => sequence ++ "-" ++ pre
  | none, some build => sequence ++ "+" ++ build
  | some pre, some build => sequence ++ "-" ++ pre ++ "+" ++ build

/-- The text with `.0` put behind it so many times. -/
def withZeros (text : String) : Nat → String
  | 0 => text
  | count + 1 => withZeros text count ++ ".0"

/-- Whoever reads `text` can read `padded` for it: the version is an equal one, and a hasher is
given the same of it. -/
def Unchanged (text padded : String) : Prop :=
  ∀ version, parse text = .ok version →
    ∃ other, parse padded = .ok other ∧ (other == version) = true ∧
      other.hashInput = version.hashInput ∧ hash other = hash version

/-! ### Cutting what was joined -/

theorem bne_of_not_mem {mark : Char} {cs : List Char} (absent : mark ∉ cs) :
    ∀ c ∈ cs, (c != mark) = true := by
  intro c member
  rw [bne_iff_ne]
  rintro rfl
  exact absent member

theorem cut_of_not_mem {mark : Char} {cs : List Char} (absent : mark ∉ cs) :
    cut mark cs = (cs, none) := by
  have other := bne_of_not_mem absent
  rw [cut, List.takeWhile_eq_self_iff.mpr other, List.dropWhile_eq_nil_iff.mpr other]
  rfl

theorem cut_append {mark : Char} {cs : List Char} (absent : mark ∉ cs) (rest : List Char) :
    cut mark (cs ++ mark :: rest) = (cs, some rest) := by
  have other := bne_of_not_mem absent
  rw [cut, List.takeWhile_append_of_pos other, List.dropWhile_append_of_pos other,
    List.takeWhile_cons_of_neg (by simp), List.dropWhile_cons_of_neg (by simp), List.append_nil]
  rfl

/-- A part that may be there, with the mark in front of it. -/
def marked (mark : Char) (part : Option (List Char)) : List Char :=
  (part.map (mark :: ·)).getD []

theorem cut_append_marked {mark : Char} {cs : List Char} (absent : mark ∉ cs)
    (part : Option (List Char)) : cut mark (cs ++ marked mark part) = (cs, part) := by
  cases part with
  | none =>
      rw [marked, Option.map_none, Option.getD_none, List.append_nil]
      exact cut_of_not_mem absent
  | some rest => exact cut_append absent rest

theorem toList_written (sequence : String) (pre build : Option String) :
    (written sequence pre build).toList =
      sequence.toList ++ marked '-' (pre.map String.toList) ++
        marked '+' (build.map String.toList) := by
  cases pre <;> cases build <;> simp [written, marked]

/-- The sequence ends at the first dash or plus. -/
structure PlainSequence (sequence : String) : Prop where
  noDash : '-' ∉ sequence.toList
  noPlus : '+' ∉ sequence.toList

/-- The pre-release, if there is one, ends at the first plus. -/
def PlainPre (pre : Option String) : Prop :=
  ∀ part ∈ pre, '+' ∉ part.toList

theorem plainPre_none : PlainPre none := nofun

theorem plainPre_some {part : String} (noPlus : '+' ∉ part.toList) : PlainPre (some part) := by
  rintro _ ⟨⟩
  exact noPlus

/-- What reading a version makes of the parts of its text. -/
structure ReadFrom (sequence : String) (pre build : Option String) (version : Version) : Prop where
  digit : ∃ c cs, sequence.toList = c :: cs ∧ c.isDigit = true
  source : version.source = written sequence pre build
  sequence : tokensOf sequence.toList = .ok version.sequence
  pre : announced "empty pre-release" (pre.map String.toList) = .ok version.pre
  build : announced "empty build" (build.map String.toList) = .ok version.build

variable {sequence : String} {pre build : Option String} {version : Version}

theorem cut_written (plain : PlainSequence sequence) (plainPre : PlainPre pre)
    (build : Option String) :
    cut '+' (written sequence pre build).toList =
        (sequence.toList ++ marked '-' (pre.map String.toList), build.map String.toList) ∧
      cut '-' (sequence.toList ++ marked '-' (pre.map String.toList)) =
        (sequence.toList, pre.map String.toList) := by
  have noPlus : '+' ∉ sequence.toList ++ marked '-' (pre.map String.toList) := by
    rw [List.mem_append, not_or]
    refine ⟨plain.noPlus, ?_⟩
    cases pre with
    | none => exact List.not_mem_nil
    | some part =>
        intro member
        rcases List.mem_cons.mp member with same | member
        · exact absurd same (by decide)
        · exact plainPre part rfl member
  rw [toList_written]
  exact ⟨cut_append_marked noPlus _, cut_append_marked plain.noDash _⟩

/-- A text that is read begins with a digit, and that digit belongs to the sequence. -/
theorem digit_of_parse (read : parse (written sequence pre build) = .ok version) :
    ∃ c cs, sequence.toList = c :: cs ∧ c.isDigit = true := by
  have done := parse_eq_ok_iff.mp read
  rw [Version.read, toList_written] at done
  cases chars : sequence.toList with
  | cons c cs =>
      rw [chars] at done
      by_cases digit : c.isDigit = true
      · exact ⟨c, cs, rfl, digit⟩
      · rw [List.cons_append, List.cons_append] at done
        dsimp only at done
        rw [if_neg digit] at done
        cases done
  | nil =>
      -- Without a sequence the text begins with a mark, if it is not empty.
      rw [chars] at done
      cases pre <;> cases build <;> cases done

theorem split_written (plain : PlainSequence sequence) (plainPre : PlainPre pre)
    (digit : ∃ c cs, sequence.toList = c :: cs ∧ c.isDigit = true) :
    split (written sequence pre build) = do
      let tokens ← tokensOf sequence.toList
      let preTokens ← announced "empty pre-release" (pre.map String.toList)
      let buildTokens ← announced "empty build" (build.map String.toList)
      return ⟨written sequence pre build, tokens, preTokens, buildTokens⟩ := by
  obtain ⟨c, cs, chars, digit⟩ := digit
  obtain ⟨plus, dash⟩ := cut_written plain plainPre build
  have begins : ∃ rest, (written sequence pre build).toList = c :: rest := by
    rw [toList_written, chars]
    exact ⟨_, rfl⟩
  obtain ⟨rest, whole⟩ := begins
  rw [whole] at plus
  rw [split, whole]
  dsimp only
  rw [if_pos digit, plus]
  dsimp only
  rw [dash]

theorem parse_eq_ok_iff_split {source : String} :
    parse source = .ok version ↔ split source = .ok version := by
  rw [parse_eq_ok_iff, ← mapError_read]
  cases Version.read source with
  | ok other => exact Iff.intro (congrArg _) fun same => by cases same; rfl
  | error fault => exact Iff.intro nofun nofun

theorem bind_eq_ok_iff {ε α β : Type} {first : Except ε α} {next : α → Except ε β} {result : β} :
    first >>= next = .ok result ↔ ∃ value, first = .ok value ∧ next value = .ok result := by
  cases first with
  | error fault => exact Iff.intro nofun nofun
  | ok value =>
      constructor
      · exact fun done => ⟨value, rfl, done⟩
      · rintro ⟨_, ⟨⟩, done⟩
        exact done

/-- A version is read from the parts that its text was written from. -/
theorem parse_written_iff (plain : PlainSequence sequence) (plainPre : PlainPre pre) :
    parse (written sequence pre build) = .ok version ↔ ReadFrom sequence pre build version := by
  constructor
  · intro done
    have digit := digit_of_parse done
    rw [parse_eq_ok_iff_split, split_written plain plainPre digit] at done
    obtain ⟨tokens, readSequence, done⟩ := bind_eq_ok_iff.mp done
    obtain ⟨preTokens, readPre, done⟩ := bind_eq_ok_iff.mp done
    obtain ⟨buildTokens, readBuild, done⟩ := bind_eq_ok_iff.mp done
    cases done
    exact ⟨digit, rfl, readSequence, readPre, readBuild⟩
  · intro found
    rw [parse_eq_ok_iff_split, split_written plain plainPre found.digit, found.sequence,
      found.pre, found.build, ← found.source]
    rfl

/-! ### Parts with zeros behind them -/

theorem toList_withZeros (text : String) (count : Nat) :
    ∃ zeros, (withZeros text count).toList = text.toList ++ zeros ∧
      ∀ c ∈ zeros, c = '.' ∨ c = '0' := by
  induction count with
  | zero => exact ⟨[], (List.append_nil _).symm, List.forall_mem_nil _⟩
  | succ count ih =>
      obtain ⟨zeros, whole, only⟩ := ih
      refine ⟨zeros ++ ['.', '0'], ?_, ?_⟩
      · rw [withZeros, String.toList_append, whole, List.append_assoc]
        rfl
      · intro c member
        rcases List.mem_append.mp member with member | member
        · exact only c member
        · simpa using member

theorem not_mem_withZeros {text : String} {mark : Char} (absent : mark ∉ text.toList)
    (dot : mark ≠ '.') (zero : mark ≠ '0') (count : Nat) :
    mark ∉ (withZeros text count).toList := by
  obtain ⟨zeros, whole, only⟩ := toList_withZeros text count
  rw [whole, List.mem_append, not_or]
  exact ⟨absent, fun member => (only mark member).elim dot zero⟩

theorem PlainSequence.withZeros (plain : PlainSequence sequence) (count : Nat) :
    PlainSequence (withZeros sequence count) where
  noDash := not_mem_withZeros plain.noDash (by decide) (by decide) count
  noPlus := not_mem_withZeros plain.noPlus (by decide) (by decide) count

theorem tokens_append_zero (part : List Char) :
    tokens (part ++ ['.', '0']) = tokens part ++ [.number 0] := by
  have dot : Lexeme.ofChars (part ++ ['.', '0']) =
      Lexeme.ofChars part ++ Lexeme.dot :: Lexeme.ofChars ['0'] :=
    Lexeme.ofChars_append_mark rfl (fun _ => rfl) part ['0']
  rw [← Lexeme.filterMap_token?_ofChars, dot, List.filterMap_append,
    Lexeme.filterMap_token?_ofChars]
  rfl

theorem tokens_withZeros (text : String) (count : Nat) :
    tokens (withZeros text count).toList =
      tokens text.toList ++ List.replicate count (.number 0) := by
  induction count with
  | zero => rw [withZeros, List.replicate_zero, List.append_nil]
  | succ count ih =>
      rw [withZeros, String.toList_append, List.replicate_succ', ← List.append_assoc, ← ih]
      exact tokens_append_zero _

theorem tokensOf_withZeros {text : String} {found : List Token}
    (done : tokensOf text.toList = .ok found) (count : Nat) :
    tokensOf (withZeros text count).toList =
      .ok (found ++ List.replicate count (.number 0)) := by
  rw [tokensOf] at done ⊢
  by_cases large : (tokens text.toList).any Token.isTooLarge = true
  · rw [if_pos large] at done
    cases done
  · rw [if_neg large] at done
    cases done
    have zeros : (List.replicate count (Token.number 0)).any Token.isTooLarge = false := by
      rw [List.any_replicate]
      simp [Token.isTooLarge]
    rw [tokens_withZeros, List.any_append, zeros, Bool.or_false, if_neg large]

theorem announced_withZeros {missing text : String} {found : List Token}
    (done : announced missing (some text.toList) = .ok found) (count : Nat) :
    announced missing (some (withZeros text count).toList) =
      .ok (found ++ List.replicate count (.number 0)) := by
  obtain ⟨tokens, readTokens, done⟩ := bind_eq_ok_iff.mp done
  cases tokens with
  | nil => cases done
  | cons token tokens =>
      cases done
      rw [announced, tokensOf_withZeros readTokens count]
      rfl

theorem ne_nil_of_announced {missing : String} {part : List Char} {found : List Token}
    (done : announced missing (some part) = .ok found) : found ≠ [] := by
  obtain ⟨tokens, -, done⟩ := bind_eq_ok_iff.mp done
  cases tokens with
  | nil => cases done
  | cons token tokens =>
      cases done
      exact List.cons_ne_nil token tokens

/-! ### Order and equality -/

/-- Versions that differ in zeros at the ends of their sequences and pre-releases only. -/
theorem unchanged_of_zeros {other : Version} (zeros preZeros : Nat)
    (proper : version.Proper) (properOther : other.Proper)
    (sequence : other.sequence = version.sequence ++ List.replicate zeros (.number 0))
    (pre : other.pre = version.pre ++ List.replicate preZeros (.number 0))
    (phase : other.pre = [] ↔ version.pre = []) (build : other.build = version.build) :
    (other == version) = true ∧ other.hashInput = version.hashInput ∧
      hash other = hash version := by
  have same : other.fingerprint = version.fingerprint := by
    rw [fingerprint, fingerprint, sequence, pre, build, Token.significant_append_zeros,
      Token.significant_append_zeros]
  have input := hashInput_eq_iff.mpr same
  exact ⟨(beq_iff properOther proper).mpr ⟨alike_iff.mpr same, phase⟩, input,
    hash_eq_of_hashInput input⟩

theorem unchanged_sequence (plain : PlainSequence sequence) (plainPre : PlainPre pre)
    (build : Option String) (count : Nat) :
    Unchanged (written sequence pre build) (written (withZeros sequence count) pre build) := by
  intro version done
  have found := (parse_written_iff plain plainPre).mp done
  let other : Version :=
    { source := written (withZeros sequence count) pre build
      sequence := version.sequence ++ List.replicate count (.number 0)
      pre := version.pre
      build := version.build }
  have digit : ∃ c cs, (withZeros sequence count).toList = c :: cs ∧ c.isDigit = true := by
    obtain ⟨c, cs, chars, digit⟩ := found.digit
    obtain ⟨zeros, whole, -⟩ := toList_withZeros sequence count
    exact ⟨c, cs ++ zeros, by rw [whole, chars, List.cons_append], digit⟩
  have readOther : parse (written (withZeros sequence count) pre build) = .ok other :=
    (parse_written_iff (plain.withZeros count) plainPre).mpr
      ⟨digit, rfl, tokensOf_withZeros found.sequence count, found.pre, found.build⟩
  exact ⟨other, readOther, unchanged_of_zeros count 0 (proper_of_parse done)
    (proper_of_parse readOther) rfl (List.append_nil _).symm Iff.rfl rfl⟩

theorem unchanged_pre (plain : PlainSequence sequence) {part : String}
    (noPlus : '+' ∉ part.toList) (build : Option String) (count : Nat) :
    Unchanged (written sequence (some part) build)
      (written sequence (some (withZeros part count)) build) := by
  intro version done
  have found := (parse_written_iff plain (plainPre_some noPlus)).mp done
  let other : Version :=
    { source := written sequence (some (withZeros part count)) build
      sequence := version.sequence
      pre := version.pre ++ List.replicate count (.number 0)
      build := version.build }
  have noPlus' := not_mem_withZeros noPlus (by decide) (by decide) count
  have readOther : parse (written sequence (some (withZeros part count)) build) = .ok other :=
    (parse_written_iff plain (plainPre_some noPlus')).mpr
      ⟨found.digit, rfl, found.sequence, announced_withZeros found.pre count, found.build⟩
  have there := ne_nil_of_announced found.pre
  have phase : other.pre = [] ↔ version.pre = [] :=
    iff_of_false (List.append_ne_nil_of_left_ne_nil there _) there
  exact ⟨other, readOther, unchanged_of_zeros 0 count (proper_of_parse done)
    (proper_of_parse readOther) (List.append_nil _).symm rfl phase rfl⟩

theorem compareLists_self (tokens : List Token) : compareLists tokens tokens = .eq := by
  have common := Token.compareLists_append_left tokens [] []
  rwa [List.append_nil] at common

/-- A pre-release comes before its release, whatever builds the two are. -/
theorem lt_release (plain : PlainSequence sequence) {part : String}
    (noPlus : '+' ∉ part.toList) {build build' : Option String} {early late : Version}
    (readEarly : parse (written sequence (some part) build) = .ok early)
    (readLate : parse (written sequence none build') = .ok late) :
    early.compare late = .lt := by
  have fromEarly := (parse_written_iff plain (plainPre_some noPlus)).mp readEarly
  have fromLate := (parse_written_iff plain plainPre_none).mp readLate
  have same : early.sequence = late.sequence :=
    Except.ok.inj (fromEarly.sequence.symm.trans fromLate.sequence)
  have release : late.pre = [] := (Except.ok.inj fromLate.pre).symm
  have there := ne_nil_of_announced fromEarly.pre
  have phase : comparePhase early late = .lt := by
    rw [comparePhase, release, List.isEmpty_eq_false_iff.mpr there]
    rfl
  rw [compare, same, compareLists_self, phase]
  rfl

/-- A build does not come before what it is a build of. -/
theorem isLE_build (plain : PlainSequence sequence) (plainPre : PlainPre pre) {part : String}
    {bare built : Version} (readBare : parse (written sequence pre none) = .ok bare)
    (readBuilt : parse (written sequence pre (some part)) = .ok built) :
    (bare.compare built).isLE = true := by
  have fromBare := (parse_written_iff plain plainPre).mp readBare
  have fromBuilt := (parse_written_iff plain plainPre).mp readBuilt
  have same : bare.sequence = built.sequence :=
    Except.ok.inj (fromBare.sequence.symm.trans fromBuilt.sequence)
  have samePre : bare.pre = built.pre := Except.ok.inj (fromBare.pre.symm.trans fromBuilt.pre)
  have noBuild : bare.build = [] := (Except.ok.inj fromBare.build).symm
  have phase : comparePhase bare built = .eq := by
    rw [comparePhase_eq_eq_iff, samePre]
  rw [compare, same, samePre, compareLists_self, compareLists_self, phase, noBuild,
    Token.compareLists_nil_left]
  split_ifs
  · rfl
  · rfl

/-- The texts that can be written around a sequence and a pre-release: every pre-release comes
before every release of its sequence, a build is at least what it is a build of, and `.0` behind
the sequence or the pre-release changes nothing. -/
theorem compare_written {s p : String} (noDash : '-' ∉ s.toList) (noPlus : '+' ∉ s.toList)
    (noPlus' : '+' ∉ p.toList) :
    (∀ build build' early late, parse (written s (some p) build) = .ok early →
        parse (written s none build') = .ok late → early.compare late = .lt) ∧
      (∀ pre ∈ [none, some p], ∀ b bare built, parse (written s pre none) = .ok bare →
        parse (written s pre (some b)) = .ok built → (bare.compare built).isLE = true) ∧
      (∀ pre ∈ [none, some p], ∀ build count,
        Unchanged (written s pre build) (written (withZeros s count) pre build)) ∧
      ∀ build count,
        Unchanged (written s (some p) build) (written s (some (withZeros p count)) build) := by
  have plain : PlainSequence s := ⟨noDash, noPlus⟩
  have plainPre : ∀ pre ∈ [none, some p], PlainPre pre := by
    simp [plainPre_none, plainPre_some noPlus']
  constructor
  · exact fun build build' early late => lt_release plain noPlus'
  constructor
  · exact fun pre member b bare built => isLE_build plain (plainPre pre member)
  constructor
  · exact fun pre member => unchanged_sequence plain (plainPre pre member)
  · exact unchanged_pre plain noPlus'

/-- The sequence ends in separators and holds a text below the digits, and the pre-release begins
with separators. Each text is read. -/
theorem compare_written_separators :
    ∃ early late built,
      parse "1.!..-.-!" = .ok early ∧ parse "1.!..+0" = .ok late ∧
      parse "1.!..-.-!+-b" = .ok built ∧
      early.compare late = .lt ∧ (early.compare built).isLE = true ∧
      Unchanged "1.!..-.-!+-b" "1.!...0.0-.-!+-b" ∧ Unchanged "1.!..-.-!" "1.!..-.-!.0.0.0" := by
  obtain ⟨lt, le, sequence, pre⟩ :=
    compare_written (s := "1.!..") (p := ".-!") (by decide) (by decide) (by decide)
  exact ⟨_, _, _, rfl, rfl, rfl, lt none (some "0") _ _ rfl rfl,
    le (some ".-!") (by simp) "-b" _ _ rfl rfl, sequence (some ".-!") (by simp) (some "-b") 2,
    pre none 3⟩

end Version

end DescriptorCodec
