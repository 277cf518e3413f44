import Mathlib.Data.List.Nodup
import DescriptorCodec.Proofs.Collection.Grouping
import DescriptorCodec.Proofs.Pool.Growth

/-!
# The symbols of a pool

A class entry does not hold the name of its class; it refers to the entry that does. What it
stands for therefore depends on the pool, and `Pool.symbols` lists what the entries of a pool
stand for, in order.

In a pool that interning has made, every class entry refers to a text and no symbol is listed
twice. So a symbol has one place in the list and one reference that points at it, and interning
either finds the symbol or adds it at the end.
-/

namespace DescriptorCodec

/-- What an entry of a pool stands for. A class is told by its name in stored form. -/
inductive Symbol where
  | utf8 (text : String)
  | classOf (name : String)
  deriving DecidableEq, Repr

namespace Pool

/-- What an entry stands for, unless it is a class entry that refers to no text. -/
def symbol? (pool : Pool) : Constant → Option Symbol
  | .utf8 text => some (.utf8 text)
  | .classRef name =>
    match pool.get? name with
    | some (.utf8 text) => some (.classOf text)
    | _ => none

/-- What the entry at a reference stands for. -/
def symbolAt? (pool : Pool) (index : UInt16) : Option Symbol :=
  (pool.get? index).bind pool.symbol?

/-- What the entries stand for, in order. -/
def symbols (pool : Pool) : List Symbol :=
  pool.entries.toList.filterMap pool.symbol?

/-- Where a symbol is listed, counted from one. -/
def indexOf (pool : Pool) (symbol : Symbol) : Nat :=
  pool.symbols.idxOf symbol + 1

/-- Every entry stands for something. -/
def Closed (pool : Pool) : Prop :=
  ∀ constant ∈ pool.entries.toList, ∃ symbol, pool.symbol? constant = some symbol

@[simp] theorem symbol?_utf8 (pool : Pool) (text : String) :
    pool.symbol? (.utf8 text) = some (.utf8 text) := rfl

theorem symbol?_classRef {pool : Pool} {name : UInt16} {text : String}
    (found : pool.get? name = some (.utf8 text)) :
    pool.symbol? (.classRef name) = some (.classOf text) := by
  rw [symbol?, found]

theorem symbol?_classRef_eq_some {pool : Pool} {name : UInt16} {symbol : Symbol}
    (stands : pool.symbol? (.classRef name) = some symbol) :
    ∃ text, pool.get? name = some (.utf8 text) ∧ symbol = .classOf text := by
  rw [symbol?] at stands
  split at stands
  · next text found =>
    cases stands
    exact ⟨text, found, rfl⟩
  · cases stands

/-! ### References -/

theorem getElem?_of_get? {pool : Pool} {index : UInt16} {constant : Constant}
    (found : pool.get? index = some constant) :
    index ≠ 0 ∧ pool.entries[index.toNat - 1]? = some constant := by
  rw [get?] at found
  split at found
  · cases found
  · next nonzero => exact ⟨nonzero, found⟩

theorem toNat_pos {index : UInt16} (nonzero : index ≠ 0) : 0 < index.toNat := by
  rcases Nat.eq_zero_or_pos index.toNat with zero | pos
  · exact absurd (UInt16.toNat_inj.mp zero) nonzero
  · exact pos

/-- An entry has one reference. -/
theorem get?_inj {pool : Pool} {a b : UInt16} {constant : Constant}
    (foundA : pool.get? a = some constant) (foundB : pool.get? b = some constant) : a = b := by
  obtain ⟨nonzeroA, atA⟩ := getElem?_of_get? foundA
  obtain ⟨nonzeroB, atB⟩ := getElem?_of_get? foundB
  have indexA := (pool.index_iff constant _).mpr atA
  have indexB := (pool.index_iff constant _).mpr atB
  have same : a.toNat - 1 = b.toNat - 1 := Option.some.inj (indexA.symm.trans indexB)
  have posA := toNat_pos nonzeroA
  have posB := toNat_pos nonzeroB
  exact UInt16.toNat_inj.mp (by omega)

/-- Two entries never stand for the same. -/
theorem symbol?_inj {pool : Pool} {a b : Constant} {symbol : Symbol}
    (standsA : pool.symbol? a = some symbol) (standsB : pool.symbol? b = some symbol) : a = b := by
  cases a with
  | utf8 text =>
      cases b with
      | utf8 text' =>
          cases standsA
          cases standsB
          rfl
      | classRef name =>
          obtain ⟨text', -, other⟩ := symbol?_classRef_eq_some standsB
          subst other
          cases standsA
  | classRef name =>
      obtain ⟨text, found, same⟩ := symbol?_classRef_eq_some standsA
      subst same
      cases b with
      | utf8 text' => cases standsB
      | classRef name' =>
          obtain ⟨text', found', same⟩ := symbol?_classRef_eq_some standsB
          cases same
          rw [get?_inj found found']

theorem symbol?_of_le {P Q : Pool} (h : P ≤ Q) {constant : Constant} {symbol : Symbol}
    (stands : P.symbol? constant = some symbol) : Q.symbol? constant = some symbol := by
  cases constant with
  | utf8 text => exact stands
  | classRef name =>
      obtain ⟨text, found, rfl⟩ := symbol?_classRef_eq_some stands
      exact symbol?_classRef (get?_of_le h found)

/-! ### The list of symbols -/

theorem mem_symbols {pool : Pool} {symbol : Symbol} :
    symbol ∈ pool.symbols ↔
      ∃ constant ∈ pool.entries.toList, pool.symbol? constant = some symbol :=
  List.mem_filterMap

theorem mem_symbols_of_le {P Q : Pool} (h : P ≤ Q) {symbol : Symbol}
    (listed : symbol ∈ P.symbols) : symbol ∈ Q.symbols := by
  obtain ⟨constant, entry, stands⟩ := mem_symbols.mp listed
  exact mem_symbols.mpr ⟨constant, (le_iff.mp h).subset entry, symbol?_of_le h stands⟩

theorem nodup_entries (pool : Pool) : pool.entries.toList.Nodup := by
  rw [List.nodup_iff_getElem?_ne_getElem?]
  intro i j before inside same
  rw [Array.getElem?_toList, Array.getElem?_toList] at same
  rw [Array.length_toList] at inside
  have atJ := Array.getElem?_eq_getElem inside
  have indexI := (pool.index_iff _ i).mpr (same.trans atJ)
  have indexJ := (pool.index_iff _ j).mpr atJ
  have equal : i = j := Option.some.inj (indexI.symm.trans indexJ)
  omega

theorem nodup_symbols (pool : Pool) : pool.symbols.Nodup :=
  pool.nodup_entries.filterMap fun _ _ _ => symbol?_inj

namespace Closed

variable {pool : Pool}

theorem map_symbol? (closed : pool.Closed) :
    pool.entries.toList.map pool.symbol? = pool.symbols.map some :=
  (Collection.map_some_filterMap closed).symm

theorem length_symbols (closed : pool.Closed) : pool.symbols.length = pool.size := by
  have lengths := congrArg List.length closed.map_symbol?
  rw [List.length_map, List.length_map, Array.length_toList] at lengths
  exact lengths.symm

theorem getElem?_symbols (closed : pool.Closed) (position : Nat) :
    pool.symbols[position]? = pool.entries[position]?.bind pool.symbol? := by
  have same := congrArg (fun list => list[position]?) closed.map_symbol?
  simp only [List.getElem?_map, Array.getElem?_toList] at same
  cases here : pool.entries[position]? with
  | none =>
      rw [here] at same
      simpa using same.symm
  | some constant =>
      rw [here] at same
      cases there : pool.symbols[position]? with
      | none =>
          rw [there] at same
          cases same
      | some symbol =>
          rw [there] at same
          exact (Option.some.inj same).symm

/-- What the entries of the pool stand for stays the same when others are added. -/
theorem symbols_of_append (closed : pool.Closed) {larger : Pool} {added : List Constant}
    (entries : pool.entries.toList ++ added = larger.entries.toList) :
    larger.symbols = pool.symbols ++ added.filterMap larger.symbol? := by
  have kept : ∀ constant ∈ pool.entries.toList,
      larger.symbol? constant = pool.symbol? constant := by
    intro constant member
    obtain ⟨symbol, stands⟩ := closed constant member
    rw [symbol?_of_le ⟨added, entries⟩ stands, stands]
  rw [symbols, ← entries, List.filterMap_append, List.filterMap_congr kept, symbols]

/-- A reference that points at a symbol is the number of the symbol. -/
theorem toNat_eq_indexOf (closed : pool.Closed) {index : UInt16} {symbol : Symbol}
    (points : pool.symbolAt? index = some symbol) : index.toNat = pool.indexOf symbol := by
  obtain ⟨constant, found, stands⟩ := Option.bind_eq_some_iff.mp points
  obtain ⟨nonzero, entry⟩ := getElem?_of_get? found
  have listed : pool.symbols[index.toNat - 1]? = some symbol := by
    rw [closed.getElem?_symbols, entry]
    exact stands
  obtain ⟨inside, here⟩ := List.getElem?_eq_some_iff.mp listed
  have place := pool.nodup_symbols.idxOf_getElem (index.toNat - 1) inside
  have pos := toNat_pos nonzero
  rw [here] at place
  rw [indexOf, place]
  omega

/-- In a bounded pool every symbol has a reference, which is its number, and no other. -/
theorem symbolAt?_iff (closed : pool.Closed) (bounded : pool.Bounded) {symbol : Symbol}
    (member : symbol ∈ pool.symbols) :
    0 < pool.indexOf symbol ∧ pool.indexOf symbol ≤ countLimit ∧
      ∀ index, pool.symbolAt? index = some symbol ↔ index.toNat = pool.indexOf symbol := by
  obtain ⟨constant, entry, stands⟩ := mem_symbols.mp member
  obtain ⟨position, found⟩ := List.mem_iff_getElem?.mp entry
  rw [Array.getElem?_toList] at found
  have inside : position < pool.size := (Array.getElem?_eq_some_iff.mp found).1
  have entryAt := get?_reference pool (Nat.lt_of_lt_of_le inside bounded)
  rw [found] at entryAt
  have points : pool.symbolAt? (reference position) = some symbol := by
    rw [symbolAt?, entryAt]
    exact stands
  rw [← closed.toNat_eq_indexOf points]
  refine ⟨toNat_pos (getElem?_of_get? entryAt).1, Nat.le_of_lt_succ (UInt16.toNat_lt _), ?_⟩
  intro index
  constructor
  · intro also
    rw [closed.toNat_eq_indexOf also, closed.toNat_eq_indexOf points]
  · intro same
    rwa [UInt16.toNat_inj.mp same]

end Closed

/-! ### Interning -/

theorem le_push (pool : Pool) (constant : Constant) (fresh : pool.index[constant]? = none) :
    pool ≤ pool.push constant fresh := by
  rw [le_iff, entries_push, Array.toList_push]
  exact List.prefix_append _ _

section Push

variable {pool : Pool} {constant : Constant} {symbol : Symbol}

theorem Closed.push (closed : pool.Closed) (stands : pool.symbol? constant = some symbol)
    (fresh : pool.index[constant]? = none) : (pool.push constant fresh).Closed := by
  have grown := pool.le_push constant fresh
  intro other member
  rw [entries_push, Array.toList_push, List.mem_append, List.mem_singleton] at member
  rcases member with member | rfl
  · obtain ⟨symbol', stands'⟩ := closed other member
    exact ⟨symbol', symbol?_of_le grown stands'⟩
  · exact ⟨symbol, symbol?_of_le grown stands⟩

theorem Closed.symbols_push (closed : pool.Closed) (stands : pool.symbol? constant = some symbol)
    (fresh : pool.index[constant]? = none) :
    (pool.push constant fresh).symbols = pool.symbols ++ [symbol] := by
  have entries : pool.entries.toList ++ [constant] = (pool.push constant fresh).entries.toList := by
    rw [entries_push, Array.toList_push]
  rw [closed.symbols_of_append entries, List.filterMap_cons,
    symbol?_of_le (pool.le_push constant fresh) stands]
  rfl

/-- Interning an entry finds its symbol, adds it at the end, or fails in a full pool. -/
theorem Closed.exec_intern (closed : pool.Closed)
    (stands : pool.symbol? constant = some symbol) :
    (symbol ∈ pool.symbols ∧ ∃ index, (intern constant).exec pool = (.ok index, pool)) ∨
    (symbol ∉ pool.symbols ∧ ∃ index left, (intern constant).exec pool = (.ok index, left) ∧
      left.Closed ∧ left.symbols = pool.symbols ++ [symbol]) ∨
    (symbol ∉ pool.symbols ∧ countLimit ≤ pool.size ∧
      (intern constant).exec pool = (.error pool.full, pool)) := by
  by_cases member : constant ∈ pool.entries.toList
  · obtain ⟨position, found⟩ := List.mem_iff_getElem?.mp member
    rw [Array.getElem?_toList] at found
    exact .inl ⟨mem_symbols.mpr ⟨constant, member, stands⟩, _, run_intern_of_mem found⟩
  · have new : symbol ∉ pool.symbols := by
      intro listed
      obtain ⟨other, entry, stands'⟩ := mem_symbols.mp listed
      rw [symbol?_inj stands' stands] at entry
      exact member entry
    rw [Array.mem_toList_iff] at member
    obtain ⟨fresh, run⟩ := run_intern_of_not_mem member
    by_cases room : pool.size < countLimit
    · rw [if_pos room] at run
      exact .inr (.inl ⟨new, _, _, run, closed.push stands fresh, closed.symbols_push stands fresh⟩)
    · rw [if_neg room] at run
      exact .inr (.inr ⟨new, Nat.le_of_not_lt room, run⟩)

theorem Closed.intern (closed : pool.Closed) (stands : pool.symbol? constant = some symbol) :
    ((intern constant).exec pool).2.Closed := by
  rcases closed.exec_intern stands with ⟨-, index, run⟩ | ⟨-, index, left, run, closed', -⟩ |
    ⟨-, -, run⟩
  · rw [run]
    exact closed
  · rw [run]
    exact closed'
  · rw [run]
    exact closed

end Push

theorem Reachable.closed {pool : Pool} (h : pool.Reachable) : pool.Closed := by
  refine h.invariant ?_ ?_ ?_
  · intro constant member
    cases member
  · intro pool text closed
    exact closed.intern (symbol?_utf8 pool text)
  · intro pool index name points closed
    exact closed.intern (symbol?_classRef points)

/-- A reference to the place of a symbol points at the symbol. -/
theorem Reachable.symbolAt?_of_idxOf {pool : Pool} (h : pool.Reachable) {symbols : List Symbol}
    (same : pool.symbols = symbols) {symbol : Symbol} (listed : symbol ∈ symbols) {index : UInt16}
    (place : index.toNat = symbols.idxOf symbol + 1) : pool.symbolAt? index = some symbol := by
  subst same
  obtain ⟨-, -, points⟩ := h.closed.symbolAt?_iff h.bounded listed
  exact (points index).mpr place

end Pool

end DescriptorCodec
