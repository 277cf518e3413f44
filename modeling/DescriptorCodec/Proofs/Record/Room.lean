import DescriptorCodec.Proofs.Pool.Symbols
import DescriptorCodec.Proofs.Record.Writing

/-!
# The room that writing takes

Writing a record asks the pool for symbols and checks the counts of tables, one after the other.
`Pool.Takes` says what comes of asking for symbols in a given order: they are all there afterwards,
the missing ones at the end in the order in which they were first asked for, and if that is not
possible, the pool stops at some of them, because it is full or because a count is too large.

What was asked for before and what is asked for next go together by `Pool.Takes.bind`. So the
outcome of a whole record, or of several, is told by all its symbols and counts together, although
the two kinds of check take turns.
-/

namespace DescriptorCodec

open Collection

/-- A class takes its name in stored form, and then the class entry. -/
def Symbol.ofClass (name : String) : List Symbol :=
  [.utf8 (Name.internal name), .classOf (Name.internal name)]

namespace Pool

variable {α β : Type}

/-- What comes of asking the pool for symbols, in this order, and of checking these counts. -/
def Takes (start : Pool) (needed : List Symbol) (counts : List (String × Nat)) :
    Except Error α × Pool → Prop
  | (.ok _, left) =>
    left.symbols = (start.symbols ++ needed).eraseDups ∧ ∀ count ∈ counts, count.2 ≤ countLimit
  | (.error error, left) =>
    left.symbols <+: (start.symbols ++ needed).eraseDups ∧
      (left.OutOfRoom error ∧ countLimit < (start.symbols ++ needed).eraseDups.length ∨
        ∃ count ∈ counts, countLimit < count.2 ∧ error = .limitExceeded count.1 count.2)

theorem takes_nothing (pool : Pool) (value : α) : pool.Takes [] [] (.ok value, pool) := by
  refine ⟨?_, fun count member => absurd member List.not_mem_nil⟩
  rw [List.append_nil, eraseDups_eq_self pool.nodup_symbols]

/-- What stops the first computation stops both. -/
theorem Takes.bind {action : PoolM α} {next : α → PoolM β} {start : Pool}
    {first second : List Symbol} {counts counts' : List (String × Nat)}
    (before : start.Takes first counts (action.exec start))
    (after : ∀ value left, action.exec start = (.ok value, left) →
      left.Takes second counts' ((next value).exec left)) :
    start.Takes (first ++ second) (counts ++ counts') ((action >>= next).exec start) := by
  have longer : (start.symbols ++ first).eraseDups <+:
      (start.symbols ++ (first ++ second)).eraseDups := by
    rw [← List.append_assoc]
    exact eraseDups_prefix_append _ _
  rw [PoolM.exec_bind]
  generalize action.exec start = execution at before after
  rcases execution with ⟨error | value, left⟩
  · obtain ⟨added, reason⟩ := before
    refine ⟨added.trans longer, ?_⟩
    rcases reason with ⟨full, excess⟩ | ⟨count, member, excess, same⟩
    · exact .inl ⟨full, Nat.lt_of_lt_of_le excess longer.length_le⟩
    · exact .inr ⟨count, List.mem_append_left _ member, excess, same⟩
  · obtain ⟨there, small⟩ := before
    have rest := after value left rfl
    have whole : (left.symbols ++ second).eraseDups =
        (start.symbols ++ (first ++ second)).eraseDups := by
      rw [there, eraseDups_eraseDups_append, List.append_assoc]
    dsimp only at rest ⊢
    generalize (next value).exec left = execution at rest
    rcases execution with ⟨error | value', left'⟩
    · obtain ⟨added, reason⟩ := rest
      rw [whole] at added reason
      refine ⟨added, ?_⟩
      rcases reason with ⟨full, excess⟩ | ⟨count, member, excess, same⟩
      · exact .inl ⟨full, excess⟩
      · exact .inr ⟨count, List.mem_append_right _ member, excess, same⟩
    · obtain ⟨there', small'⟩ := rest
      refine ⟨there'.trans whole, ?_⟩
      intro count member
      rcases List.mem_append.mp member with member | member
      · exact small count member
      · exact small' count member

theorem Closed.takes_intern {pool : Pool} (closed : pool.Closed) (bounded : pool.Bounded)
    {constant : Constant} {symbol : Symbol} (stands : pool.symbol? constant = some symbol) :
    pool.Takes [symbol] [] ((Pool.intern constant).exec pool) := by
  rcases closed.exec_intern stands with ⟨listed, index, run⟩ | ⟨-, index, left, run, -, added⟩ |
    ⟨new, full, run⟩
  · rw [run]
    refine ⟨?_, fun count member => absurd member List.not_mem_nil⟩
    rw [eraseDups_append_of_subset (List.cons_subset.mpr ⟨listed, List.nil_subset _⟩),
      eraseDups_eq_self pool.nodup_symbols]
  · rw [run]
    refine ⟨?_, fun count member => absurd member List.not_mem_nil⟩
    rw [← added, eraseDups_eq_self left.nodup_symbols]
  · rw [run]
    have size : pool.size = countLimit := Nat.le_antisymm bounded full
    have distinct : (pool.symbols ++ [symbol]).Nodup :=
      List.nodup_append_comm.mp (List.nodup_cons.mpr ⟨new, pool.nodup_symbols⟩)
    rw [Takes, eraseDups_eq_self distinct]
    refine ⟨List.prefix_append _ _, .inl ⟨⟨?_, size⟩, ?_⟩⟩
    · rw [Pool.full, size]
    · rw [List.length_append, closed.length_symbols, size]
      exact Nat.lt_succ_self _

/-! ### Room -/

/-- The symbols that the pool does not have yet, each once, in the order of their first use. -/
def missing (pool : Pool) (needed : List Symbol) : List Symbol :=
  (needed.filter fun symbol => symbol ∉ pool.symbols).eraseDups

theorem eraseDups_symbols_append (pool : Pool) (needed : List Symbol) :
    (pool.symbols ++ needed).eraseDups = pool.symbols ++ pool.missing needed := by
  have same : needed.removeAll pool.symbols =
      needed.filter fun symbol => symbol ∉ pool.symbols := by
    simp [List.removeAll]
  rw [List.eraseDups_append, same, eraseDups_eq_self pool.nodup_symbols, missing]

def HasRoomFor (pool : Pool) (needed : List Symbol) : Prop :=
  (pool.symbols ++ needed).eraseDups.length ≤ countLimit

theorem HasRoomFor.of_length {pool : Pool} {needed : List Symbol}
    (small : pool.symbols.length + needed.length ≤ countLimit) : pool.HasRoomFor needed := by
  have shorter := length_eraseDups_le (pool.symbols ++ needed)
  rw [List.length_append] at shorter
  exact Nat.le_trans shorter small

/-- What takes symbols and counts succeeds exactly if there is room for the symbols and the counts
are small enough. In which order they are taken does not matter. -/
theorem Takes.exists_ok_iff {start : Pool} {needed : List Symbol}
    {counts : List (String × Nat)} {execution : Except Error α × Pool}
    (taken : start.Takes needed counts execution) (reachable : execution.2.Reachable) :
    (∃ value left, execution = (.ok value, left)) ↔
      (∀ count ∈ counts, count.2 ≤ countLimit) ∧ start.HasRoomFor needed := by
  rcases execution with ⟨error | value, left⟩
  · constructor
    · rintro ⟨value, left', impossible⟩
      cases impossible
    · rintro ⟨small, room⟩
      obtain ⟨-, ⟨-, excess⟩ | ⟨count, member, excess, -⟩⟩ := taken
      · exact absurd room (Nat.not_le_of_lt excess)
      · exact absurd (small count member) (Nat.not_le_of_lt excess)
  · refine ⟨fun _ => ⟨taken.2, ?_⟩, fun _ => ⟨value, left, rfl⟩⟩
    rw [HasRoomFor, ← taken.1, reachable.closed.length_symbols]
    exact reachable.bounded

theorem Takes.of_addSame {start : Pool} {needed needed' : List Symbol}
    {counts : List (String × Nat)} {execution : Except Error α × Pool}
    (taken : start.Takes needed counts execution) (same : AddSame needed needed') :
    start.Takes needed' counts execution := by
  rcases execution with ⟨error | value, left⟩
  · rwa [Takes, ← same]
  · rwa [Takes, ← same]

end Pool

namespace PoolM

variable {α β : Type}

/-- On every pool that interning has made, the computation takes these symbols and counts, and
leaves such a pool. -/
def Takes (action : PoolM α) (needed : List Symbol) (counts : List (String × Nat)) : Prop :=
  ∀ pool : Pool, pool.Reachable →
    (action.exec pool).2.Reachable ∧ pool.Takes needed counts (action.exec pool)

namespace Takes

variable {action : PoolM α} {needed needed' : List Symbol} {counts counts' : List (String × Nat)}

theorem pure (value : α) : (Pure.pure value : PoolM α).Takes [] [] :=
  fun pool reachable => ⟨reachable, pool.takes_nothing value⟩

theorem bind {next : α → PoolM β} (first : action.Takes needed counts)
    (second : ∀ value, (next value).Takes needed' counts') :
    (action >>= next).Takes (needed ++ needed') (counts ++ counts') := by
  intro pool reachable
  obtain ⟨reachable', before⟩ := first pool reachable
  constructor
  · rw [exec_bind]
    generalize action.exec pool = execution at reachable'
    rcases execution with ⟨error | value, left⟩
    · exact reachable'
    · exact (second value left reachable').1
  · refine before.bind fun value left run => ?_
    rw [run] at reachable'
    exact (second value left reachable').2

theorem map (f : α → β) (h : action.Takes needed counts) : (f <$> action).Takes needed counts := by
  have mapped := h.bind fun value => Takes.pure (f value)
  rw [List.append_nil, List.append_nil] at mapped
  rwa [map_eq_pure_bind]

theorem of_map {f : α → β} (h : (f <$> action).Takes needed counts) :
    action.Takes needed counts := by
  intro pool reachable
  have mapped := h pool reachable
  rw [exec_map] at mapped
  generalize action.exec pool = execution at mapped ⊢
  rcases execution with ⟨_ | value, left⟩
  · exact mapped
  · exact mapped

theorem foldlM {step : β → α → PoolM β} {needs : α → List Symbol}
    {counted : α → List (String × Nat)}
    (each : ∀ value x, (step value x).Takes (needs x) (counted x)) (xs : List α) (value : β) :
    (xs.foldlM step value).Takes (xs.flatMap needs) (xs.flatMap counted) := by
  induction xs generalizing value with
  | nil => exact Takes.pure value
  | cons x xs ih =>
      rw [List.foldlM_cons, List.flatMap_cons, List.flatMap_cons]
      exact (each value x).bind fun next => ih next

theorem mapM {f : α → PoolM β} {needs : α → List Symbol} {counted : α → List (String × Nat)}
    (each : ∀ x, (f x).Takes (needs x) (counted x)) (xs : List α) :
    (xs.mapM f).Takes (xs.flatMap needs) (xs.flatMap counted) := by
  induction xs with
  | nil => exact Takes.pure []
  | cons x xs ih =>
      rw [List.mapM_cons, List.flatMap_cons, List.flatMap_cons]
      exact (each x).bind fun value => by
        rw [← map_eq_pure_bind]
        exact ih.map (value :: ·)

theorem internUtf8 (text : String) : (Pool.internUtf8 text).Takes [.utf8 text] [] :=
  fun pool reachable => ⟨reachable.internUtf8 text,
    reachable.closed.takes_intern reachable.bounded (pool.symbol?_utf8 text)⟩

/-- The class entry can be asked for because its name is there by then. -/
theorem internClass (name : String) : (Pool.internClass name).Takes (Symbol.ofClass name) [] := by
  intro pool reachable
  refine ⟨reachable.internClass name, ?_⟩
  obtain ⟨reachable', text⟩ := internUtf8 (Name.internal name) pool reachable
  obtain ⟨-, -, points⟩ := Pool.internUtf8_spec (Name.internal name) pool reachable.bounded
  refine text.bind fun index left run => ?_
  rw [run] at reachable' points
  exact reachable'.closed.takes_intern reachable'.bounded (Pool.symbol?_classRef points)

theorem putCount (buffer : Buffer) (table : String) (rows : Nat) :
    (MonadExcept.ofExcept (buffer.putCount table rows) : PoolM Buffer).Takes []
      [(table, rows)] := by
  intro pool reachable
  rw [exec_ofExcept, Buffer.putCount_eq]
  have same : (pool.symbols ++ []).eraseDups = pool.symbols := by
    rw [List.append_nil, eraseDups_eq_self pool.nodup_symbols]
  split
  · next fits =>
    refine ⟨reachable, same.symm, ?_⟩
    intro count member
    cases List.mem_singleton.mp member
    exact fits
  · next excess =>
    refine ⟨reachable, ⟨[], ?_⟩, .inr ⟨(table, rows), List.mem_singleton_self _, ?_, rfl⟩⟩
    · exact (List.append_nil _).trans same.symm
    · exact Nat.lt_of_not_le excess

end Takes

end PoolM

/-- If there is room for what a computation takes, it is all that is in some pool. -/
theorem PoolM.Takes.exists_symbols_eq {α : Type} {action : PoolM α} {needed : List Symbol}
    {counts : List (String × Nat)} (takes : action.Takes needed counts)
    (small : ∀ count ∈ counts, count.2 ≤ countLimit)
    (room : needed.eraseDups.length ≤ countLimit) :
    ∃ pool : Pool, pool.Reachable ∧ pool.symbols = needed.eraseDups := by
  obtain ⟨reachable, taken⟩ := takes .empty .empty
  generalize action.exec .empty = execution at reachable taken
  rcases execution with ⟨error | value, pool⟩
  · rcases taken.2 with ⟨-, excess⟩ | ⟨count, member, excess, -⟩
    · exact absurd room (Nat.not_le_of_lt excess)
    · exact absurd (small count member) (Nat.not_le_of_lt excess)
  · exact ⟨pool, reachable, taken.1⟩

/-- The classes that a pool is asked for are all that is in it, if there is room for them. -/
theorem Pool.exists_symbols_eq (names : List String)
    (room : (names.flatMap Symbol.ofClass).eraseDups.length ≤ countLimit) :
    ∃ pool : Pool, pool.Reachable ∧ pool.symbols = (names.flatMap Symbol.ofClass).eraseDups :=
  (PoolM.Takes.mapM PoolM.Takes.internClass names).exists_symbols_eq (by simp) room

namespace Field

def symbols : (field : Field) → field.Value → List Symbol
  | word, _ => []
  | utf8, text => [.utf8 text]
  | packageName, name => [.utf8 (Name.internal name)]
  | className, name => Symbol.ofClass name
  | optionalUtf8, none => []
  | optionalUtf8, some text => if text.isEmpty then [] else [.utf8 text]

theorem intern_takes (field : Field) (value : field.Value) :
    (field.intern value).Takes (field.symbols value) [] := by
  cases field with
  | word => exact .pure value
  | utf8 => exact .internUtf8 value
  | packageName => exact .internUtf8 (Name.internal value)
  | className => exact .internClass value
  | optionalUtf8 =>
      cases value with
      | none => exact .pure 0
      | some text =>
          rw [intern, symbols]
          split
          · exact .pure 0
          · exact .internUtf8 text

end Field

namespace Item

def symbols : Item → List Symbol
  | field kind value => kind.symbols value
  | count _ _ => []
  | declare name => Symbol.ofClass name

def counts : Item → List (String × Nat)
  | field _ _ => []
  | count table rows => [(table, rows)]
  | declare _ => []

theorem mem_counts {layout : List Item} {table : String} {rows : Nat} :
    (table, rows) ∈ layout.flatMap counts ↔ .count table rows ∈ layout := by
  induction layout with
  | nil => simp
  | cons item layout ih => cases item <;> simp [counts, ih]

theorem put_takes (buffer : Buffer) (item : Item) :
    (item.put buffer).Takes item.symbols item.counts := by
  cases item with
  | field kind value => exact (kind.intern_takes value).map _
  | count table rows => exact .putCount buffer table rows
  | declare name => exact (PoolM.Takes.internClass name).map _

theorem encode_takes (layout : List Item) :
    (encode layout).Takes (layout.flatMap symbols) (layout.flatMap counts) :=
  (PoolM.Takes.foldlM put_takes layout Buffer.empty).map _

end Item

end DescriptorCodec
