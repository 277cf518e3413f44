import DescriptorCodec.Proofs.Pool.Permanence
import DescriptorCodec.Proofs.Version.Grammar
import DescriptorCodec.Record.Reading

/-!
# Step by step

A record is a row of words, and reading it is a row of steps, each of which looks at the next word
for what it is there for. Which steps these are can be told from the words alone: a format is a
list of pieces, and only the count in front of a table says how many pieces follow.

A step fails if there is no word left for it, or if the pool does not have what the word refers
to. A reading that keeps to a format fails as the first step that fails.
-/

namespace DescriptorCodec

/-- The error that a computation ends with, if it does. -/
def errorOf {α : Type} : Except Error α → Option Error
  | .ok _ => none
  | .error e => some e

@[simp] theorem errorOf_map {α β : Type} (outcome : Except Error α) (f : α → β) :
    errorOf (outcome.map f) = errorOf outcome := by
  cases outcome <;> rfl

theorem errorOf_eq_some_iff {α : Type} {outcome : Except Error α} {e : Error} :
    errorOf outcome = some e ↔ outcome = .error e := by
  cases outcome <;> simp [errorOf]

namespace Record

/-- What a word is there for. -/
inductive Role where
  /-- A flag word, or the number of rows of a table. -/
  | plain
  /-- A reference to a text. -/
  | text
  /-- A reference to a class. -/
  | className
  /-- A reference to a text, or zero. -/
  | optionalText
  /-- A reference to the text of a version. -/
  | version
  deriving DecidableEq, Repr

def kindOf : Constant → SymbolKind
  | .utf8 _ => .utf8
  | .classRef _ => .classRef

/-- The error of a reference that does not point at an entry of the kind. -/
def danglingFault? (pool : Pool) (kind : SymbolKind) (index : UInt16) : Option Error :=
  if (pool.get? index).map kindOf = some kind then none else some (.invalidSymbol index kind)

/-- The error of a text that is outside the grammar of versions. -/
def versionFault? (text : String) : Option Error :=
  match Version.read text with
  | .ok _ => none
  | .error fault => some (.invalidVersion text fault)

/-- What is wrong with a word, given what it is there for. -/
def Role.fault? (pool : Pool) : Role → UInt16 → Option Error
  | plain, _ => none
  | text, index => danglingFault? pool .utf8 index
  | className, index => danglingFault? pool .classRef index
  | optionalText, index => if index = 0 then none else danglingFault? pool .utf8 index
  | version, index =>
    match pool.get? index with
    | some (.utf8 source) => versionFault? source
    | _ => some (.invalidSymbol index .utf8)

/-- A look at the next word, if there is one. -/
structure Step where
  role : Role
  word? : Option UInt16
  deriving DecidableEq, Repr

def Step.fault? (pool : Pool) (step : Step) : Option Error :=
  match step.word? with
  | none => some .outOfBounds
  | some word => step.role.fault? pool word

/-- The error of the first step that fails. -/
def firstFault? (pool : Pool) (steps : List Step) : Option Error :=
  steps.findSome? (Step.fault? pool)

/-- What a record is made of. A table is the number of its rows and then the rows. -/
inductive Piece where
  | one (role : Role)
  | table (row : List Piece)

/-- The words of a record. A byte that is left over at the end is none. -/
def words : Bytes → List UInt16
  | high :: low :: rest => UInt16.ofNat (256 * high.toNat + low.toNat) :: words rest
  | _ => []

/-- The steps of a record, up to the first that has no word. -/
def steps : List UInt16 → List Piece → List Step
  | _, [] => []
  | [], .one role :: _ => [⟨role, none⟩]
  | [], .table _ :: _ => [⟨.plain, none⟩]
  | word :: words, .one role :: rest => ⟨role, some word⟩ :: steps words rest
  | count :: words, .table row :: rest =>
    ⟨.plain, some count⟩ :: steps words ((List.replicate count.toNat row).flatten ++ rest)

@[simp] theorem steps_nil (ws : List UInt16) : steps ws [] = [] := by
  cases ws <;> rfl

@[simp] theorem Step.fault?_some (pool : Pool) (role : Role) (word : UInt16) :
    Step.fault? pool ⟨role, some word⟩ = role.fault? pool word := rfl

theorem firstFault?_cons (pool : Pool) (step : Step) (later : List Step) :
    firstFault? pool (step :: later) = (step.fault? pool).or (firstFault? pool later) := by
  rw [firstFault?, List.findSome?_cons]
  cases step.fault? pool <;> rfl

/-! ### Words -/

theorem words_of_read_eq_none {bytes : Bytes} (short : BigEndian.read .bits16 bytes = none) :
    words bytes = [] := by
  have length := (BigEndian.read_eq_none_iff .bits16 bytes).mp short
  match bytes, length with
  | [], _ => rfl
  | [_], _ => rfl
  | _ :: _ :: _, length =>
    simp only [List.length_cons, Width.size] at length
    omega

theorem words_of_read_eq_some {bytes rest : Bytes} {value : Nat}
    (read : BigEndian.read .bits16 bytes = some (value, rest)) :
    words bytes = UInt16.ofNat value :: words rest := by
  obtain ⟨enough, rfl, rfl⟩ := BigEndian.read_eq_some_iff.mp read
  match bytes, enough with
  | [], enough => simp [Width.size] at enough
  | [_], enough => simp [Width.size] at enough
  | high :: low :: rest, _ =>
    simp [words, Width.size, BigEndian.ofBytes, Nat.mul_comm]

/-- A step looks at a word of the record. -/
theorem mem_words_of_mem_steps {ws : List UInt16} {pieces : List Piece} {step : Step}
    {word : UInt16} (member : step ∈ steps ws pieces) (looks : step.word? = some word) :
    word ∈ ws := by
  induction ws generalizing pieces with
  | nil =>
      cases pieces with
      | nil => cases member
      | cons piece rest =>
          cases piece <;>
            · simp only [steps, List.mem_singleton] at member
              subst member
              cases looks
  | cons first ws ih =>
      cases pieces with
      | nil => cases member
      | cons piece rest =>
          cases piece <;>
            · simp only [steps, List.mem_cons] at member
              rcases member with rfl | member
              · cases looks
                exact List.mem_cons_self
              · exact List.mem_cons_of_mem _ (ih member)

/-! ### Faults -/

theorem danglingFault?_eq_some {pool : Pool} {kind : SymbolKind} {index : UInt16} {e : Error}
    (fault : danglingFault? pool kind index = some e) : e = .invalidSymbol index kind := by
  rw [danglingFault?] at fault
  split at fault
  · cases fault
  · exact (Option.some.inj fault).symm

theorem versionFault?_eq_some {text : String} {e : Error} (fault : versionFault? text = some e) :
    ∃ reason, e = .invalidVersion text reason := by
  rw [versionFault?] at fault
  split at fault
  · cases fault
  · next reason _ => exact ⟨reason, (Option.some.inj fault).symm⟩

theorem versionFault?_eq (text : String) : versionFault? text = errorOf (Version.parse text) := by
  rw [versionFault?, Version.parse]
  cases Version.read text <;> rfl

/-- A text is at fault exactly if it cannot be read part by part. -/
theorem versionFault?_eq_none_iff (text : String) :
    versionFault? text = none ↔ ∃ version, Version.split text = .ok version := by
  rw [versionFault?, ← Version.mapError_read]
  cases Version.read text with
  | ok version => exact ⟨fun _ => ⟨version, rfl⟩, fun _ => rfl⟩
  | error fault =>
      constructor
      · intro impossible
        cases impossible
      · rintro ⟨_, impossible⟩
        cases impossible

/-- Only these errors come from a step, and an index that is named is that of the step's word. -/
theorem Step.fault?_cases {pool : Pool} {step : Step} {e : Error}
    (fault : step.fault? pool = some e) :
    e = .outOfBounds ∨
      (∃ index kind, e = .invalidSymbol index kind ∧ step.word? = some index) ∨
      ∃ text reason, e = .invalidVersion text reason := by
  obtain ⟨role, word?⟩ := step
  cases word? with
  | none => exact .inl (Option.some.inj fault).symm
  | some word =>
      have dangling (kind : SymbolKind) (fault : danglingFault? pool kind word = some e) :
          ∃ index kind, e = .invalidSymbol index kind ∧ some word = some index :=
        ⟨word, kind, danglingFault?_eq_some fault, rfl⟩
      right
      simp only [fault?] at fault ⊢
      cases role with
      | plain => cases fault
      | text => exact .inl (dangling _ fault)
      | className => exact .inl (dangling _ fault)
      | optionalText =>
          simp only [Role.fault?] at fault
          split at fault
          · cases fault
          · exact .inl (dangling _ fault)
      | version =>
          simp only [Role.fault?] at fault
          split at fault
          · next text _ =>
            obtain ⟨reason, same⟩ := versionFault?_eq_some fault
            exact .inr ⟨text, reason, same⟩
          · exact .inl ⟨word, .utf8, (Option.some.inj fault).symm, rfl⟩

end Record

open Record

def Field.role : Field → Role
  | word => .plain
  | utf8 => .text
  | packageName => .text
  | className => .className
  | optionalUtf8 => .optionalText

theorem Pool.errorOf_resolveUtf8 (pool : Pool) (index : UInt16) :
    errorOf (pool.resolveUtf8 index) = danglingFault? pool .utf8 index := by
  rw [resolveUtf8, danglingFault?]
  rcases pool.get? index with _ | ⟨_ | _⟩ <;> rfl

theorem Pool.errorOf_resolveClass {pool : Pool} (grounded : pool.Grounded) (index : UInt16) :
    errorOf (pool.resolveClass index) = danglingFault? pool .classRef index := by
  rw [resolveClass, danglingFault?]
  cases found : pool.get? index with
  | none => rfl
  | some entry =>
      cases entry with
      | utf8 text => rfl
      | classRef name =>
          obtain ⟨-, text, there, -⟩ := grounded index name found
          dsimp only
          rw [errorOf_map, errorOf_resolveUtf8, danglingFault?, there]
          rfl

/-- A field cannot be resolved exactly if something is wrong with its word. -/
theorem Field.errorOf_resolve {pool : Pool} (grounded : pool.Grounded) (field : Field)
    (bits : UInt16) : errorOf (field.resolve pool bits) = field.role.fault? pool bits := by
  cases field with
  | word => rfl
  | utf8 => exact pool.errorOf_resolveUtf8 bits
  | packageName =>
      rw [resolve, errorOf_map]
      exact pool.errorOf_resolveUtf8 bits
  | className => exact Pool.errorOf_resolveClass grounded bits
  | optionalUtf8 =>
      simp only [resolve, role, Role.fault?]
      split
      · rfl
      · rw [errorOf_map]
        exact pool.errorOf_resolveUtf8 bits

namespace Reading

variable {α β : Type} {pool : Pool}

/-- The reading keeps to a format: it fails as the first step that fails. If none fails, the bytes
that are left are those that the next steps look at. -/
def Keeps (pool : Pool) (reading : Reading α) (pieces : List Piece) : Prop :=
  ∀ bytes rest,
    match reading.run pool bytes with
    | .error e => firstFault? pool (steps (words bytes) (pieces ++ rest)) = some e
    | .ok (_, left) =>
      firstFault? pool (steps (words bytes) (pieces ++ rest)) =
        firstFault? pool (steps (words left) rest)

namespace Keeps

theorem done (value : α) : (Reading.done value).Keeps pool [] :=
  fun _ _ => rfl

/-- The reading asks for a field first, and the format goes on with what depends on the word. -/
theorem ask (grounded : pool.Grounded) {kind : Field} {next : kind.Value → Reading α}
    {pieces : List Piece} (behind : UInt16 → List Piece)
    (missing : ∀ rest, steps [] (pieces ++ rest) = [⟨kind.role, none⟩])
    (there : ∀ word words rest, steps (word :: words) (pieces ++ rest) =
      ⟨kind.role, some word⟩ :: steps words (behind word ++ rest))
    (follow : ∀ word value, kind.resolve pool word = .ok value →
      (next value).Keeps pool (behind word)) :
    (Reading.ask kind next).Keeps pool pieces := by
  intro bytes rest
  rw [run]
  cases read : BigEndian.read .bits16 bytes with
  | none =>
      rw [words_of_read_eq_none read, missing]
      rfl
  | some word =>
      obtain ⟨value, after⟩ := word
      rw [words_of_read_eq_some read, there]
      dsimp only
      rw [firstFault?_cons, Step.fault?_some, ← kind.errorOf_resolve grounded]
      cases resolved : kind.resolve pool (UInt16.ofNat value) with
      | error e => rfl
      | ok asked => exact follow _ asked resolved after rest

theorem field (grounded : pool.Grounded) (kind : Field) :
    (Reading.field kind).Keeps pool [.one kind.role] :=
  ask grounded (fun _ => []) (fun _ => rfl) (fun _ _ _ => rfl) fun _ value _ => done value

theorem bind {reading : Reading α} {next : α → Reading β} {pieces pieces' : List Piece}
    (first : reading.Keeps pool pieces) (second : ∀ value, (next value).Keeps pool pieces') :
    (reading.bind next).Keeps pool (pieces ++ pieces') := by
  intro bytes rest
  have before := first bytes (pieces' ++ rest)
  rw [run_bind, List.append_assoc]
  cases ran : reading.run pool bytes with
  | error e =>
      rw [ran] at before
      exact before
  | ok outcome =>
      obtain ⟨value, after⟩ := outcome
      rw [ran] at before
      dsimp only at before
      rw [before]
      exact second value after rest

theorem rowsFrom {row : Reading α} {pieces : List Piece} (each : row.Keeps pool pieces)
    (count : Nat) (before : List α) :
    (Reading.rowsFrom row count before).Keeps pool (List.replicate count pieces).flatten := by
  induction count generalizing before with
  | zero => exact done _
  | succ count ih =>
      rw [List.replicate_succ, List.flatten_cons]
      exact bind each fun first => ih (first :: before)

theorem table (grounded : pool.Grounded) {row : Reading α} {pieces : List Piece}
    (each : row.Keeps pool pieces) : (Reading.table row).Keeps pool [.table pieces] := by
  refine ask grounded (fun count => (List.replicate count.toNat pieces).flatten)
    (fun _ => rfl) (fun _ _ _ => rfl) ?_
  -- A plain word is what it says, so the rows that are read are as many as the steps take.
  intro word count resolved
  cases resolved
  exact rowsFrom each word.toNat []

/-- What is read off a record fails as the first step of the record. -/
theorem errorOf_decode {reading : Reading α} {pieces : List Piece}
    (keeps : reading.Keeps pool pieces) (record : Bytes) :
    errorOf (reading.decode pool record) = firstFault? pool (steps (words record) pieces) := by
  have whole := keeps record []
  rw [List.append_nil] at whole
  rw [decode, errorOf_map]
  cases ran : reading.run pool record with
  | error e =>
      rw [ran] at whole
      exact whole.symm
  | ok outcome =>
      rw [ran] at whole
      dsimp only at whole
      rw [whole, steps_nil]
      rfl

end Keeps

/-- A field is read off the first word of a record. -/
theorem decode_field (kind : Field) (record : Bytes) :
    (field kind).decode pool record =
      match words record with
      | [] => .error .outOfBounds
      | word :: _ => kind.resolve pool word := by
  rw [decode, field, run]
  cases read : BigEndian.read .bits16 record with
  | none =>
      rw [words_of_read_eq_none read]
      rfl
  | some word =>
      rw [words_of_read_eq_some read]
      dsimp only
      cases kind.resolve pool (UInt16.ofNat word.1) <;> rfl

end Reading

end DescriptorCodec
