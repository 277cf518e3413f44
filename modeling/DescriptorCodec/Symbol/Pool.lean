import Std.Data.HashMap
import DescriptorCodec.Bytes.Buffer
import DescriptorCodec.Error
import DescriptorCodec.Symbol.Name

/-!
# Constant pools

Records hold no text. They refer to the entries of a pool, which are texts and class entries; a
class entry refers in turn to the text that is the class's name in stored form. References count
from one, so zero is free to mean that nothing is referred to.

A pool only grows, and each entry stands in it once. The entries are the pool; the index beside
them answers where an entry stands, and a proof ties the two together.

Interning can fail halfway: where a class has no room, its name may already have been added.
Hence `PoolM`, in which a failure keeps the pool as it was at that point.
-/

namespace DescriptorCodec

/-- An entry of a pool. -/
inductive Constant where
  | utf8 (text : String)
  | classRef (name : UInt16)
  deriving DecidableEq, Hashable, Repr

/-- Distinct entries in the order in which they were added. -/
structure Pool where
  entries : Array Constant
  index : Std.HashMap Constant Nat
  index_iff : ∀ (constant : Constant) (position : Nat),
    index[constant]? = some position ↔ entries[position]? = some constant

/-- A computation that adds entries to a pool and may fail; the pool keeps what was added. -/
abbrev PoolM := ExceptT Error (StateM Pool)

namespace Pool

/-- The pool without entries. -/
def empty : Pool where
  entries := #[]
  index := ∅
  index_iff := by simp

instance : Inhabited Pool := ⟨empty⟩

@[simp] theorem entries_empty : empty.entries = #[] := rfl

/-- The number of entries. -/
def size (pool : Pool) : Nat :=
  pool.entries.size

/-- Whether there are no entries. -/
def isEmpty (pool : Pool) : Bool :=
  pool.entries.isEmpty

/-- The reference to the entry at a position. -/
def reference (position : Nat) : UInt16 :=
  UInt16.ofNat (position + 1)

/-- The entry that a reference points at. -/
def get? (pool : Pool) (index : UInt16) : Option Constant :=
  if index = 0 then none else pool.entries[index.toNat - 1]?

@[simp] theorem get?_zero (pool : Pool) : pool.get? 0 = none := rfl

/-- The references of all entries with the entries, in order. -/
def toList (pool : Pool) : List (UInt16 × Constant) :=
  pool.entries.toList.zipIdx.map fun (constant, position) => (reference position, constant)

/-- Pools are equal when they have the same entries, whatever the order. -/
instance : BEq Pool where
  beq a b :=
    a.entries.all (fun constant => b.index.contains constant) &&
      b.entries.all fun constant => a.index.contains constant

/-- An entry is in the index exactly when it is in the pool. -/
theorem contains_index_iff (pool : Pool) (constant : Constant) :
    pool.index.contains constant = true ↔ constant ∈ pool.entries := by
  rw [Std.HashMap.contains_eq_isSome_getElem?, Option.isSome_iff_exists,
    Array.mem_iff_getElem?]
  simp only [pool.index_iff]

theorem beq_iff {a b : Pool} :
    (a == b) = true ↔ ∀ constant, constant ∈ a.entries ↔ constant ∈ b.entries := by
  change (a.entries.all _ && b.entries.all _) = true ↔ _
  simp only [Bool.and_eq_true, Array.all_eq_true', contains_index_iff]
  constructor
  · intro ⟨ab, ba⟩ constant
    exact ⟨ab constant, ba constant⟩
  · intro h
    exact ⟨fun constant => (h constant).mp, fun constant => (h constant).mpr⟩

/-- Adds an entry that is not there yet. -/
def push (pool : Pool) (constant : Constant) (fresh : pool.index[constant]? = none) : Pool :=
  let last := pool.entries.size
  { entries := pool.entries.push constant
    index := pool.index.insert constant last
    index_iff := by
      intro other position
      rw [Std.HashMap.getElem?_insert, Array.getElem?_push]
      by_cases same : constant = other
      · subst same
        by_cases atEnd : position = pool.entries.size
        · simp [atEnd, last]
        · have absent : pool.entries[position]? ≠ some constant := by
            intro found
            rw [(pool.index_iff constant position).mpr found] at fresh
            cases fresh
          simp [atEnd, absent, last, Ne.symm atEnd]
      · by_cases atEnd : position = pool.entries.size
        · have absent : pool.index[other]? ≠ some position := by
            intro found
            have found := (pool.index_iff other position).mp found
            simp [atEnd] at found
          simp [same, atEnd, atEnd ▸ absent]
        · simp [same, atEnd, pool.index_iff] }

@[simp] theorem entries_push (pool : Pool) (constant : Constant)
    (fresh : pool.index[constant]? = none) :
    (pool.push constant fresh).entries = pool.entries.push constant := rfl

/-- The failure to add an entry to a full pool. -/
def full (pool : Pool) : Error :=
  .limitExceeded "constant pool entries" (pool.size + 1)

/-- The reference to an entry, which is added at the end if it is not there yet. -/
def intern (constant : Constant) : PoolM UInt16 :=
  ExceptT.mk fun pool =>
    match found : pool.index[constant]? with
    | some position => (.ok (reference position), pool)
    | none =>
      if pool.size < countLimit then
        (.ok (reference pool.size), pool.push constant found)
      else (.error pool.full, pool)

/-- The reference to a text. -/
def internUtf8 (text : String) : PoolM UInt16 :=
  intern (.utf8 text)

/-- The reference to a class. Its name is interned first, in stored form. -/
def internClass (name : String) : PoolM UInt16 := do
  let name ← internUtf8 (Name.internal name)
  intern (.classRef name)

/-- The text that a reference points at. -/
def resolveUtf8 (pool : Pool) (index : UInt16) : Except Error String :=
  match pool.get? index with
  | some (.utf8 text) => .ok text
  | _ => .error (.invalidSymbol index .utf8)

/-- The written form of the class name that a reference points at. -/
def resolveClass (pool : Pool) (index : UInt16) : Except Error String :=
  match pool.get? index with
  | some (.classRef name) => (pool.resolveUtf8 name).map Name.dotted
  | _ => .error (.invalidSymbol index .classRef)

/-- An entry that is there is found where it stands and the pool stays as it is. -/
theorem run_intern_of_mem {pool : Pool} {constant : Constant} {position : Nat}
    (h : pool.entries[position]? = some constant) :
    (intern constant).run.run pool = (.ok (reference position), pool) := by
  have found := (pool.index_iff constant position).mpr h
  simp only [intern, ExceptT.run, ExceptT.mk, StateT.run]
  split
  · next other there =>
    rw [found] at there
    cases there
    rfl
  · next absent =>
    rw [found] at absent
    cases absent

/-- A new entry is added at the end if there is room, and else nothing happens. -/
theorem run_intern_of_not_mem {pool : Pool} {constant : Constant}
    (h : constant ∉ pool.entries) :
    ∃ fresh, (intern constant).run.run pool =
      if pool.size < countLimit then (.ok (reference pool.size), pool.push constant fresh)
      else (.error pool.full, pool) := by
  have fresh : pool.index[constant]? = none := by
    rw [← contains_index_iff, Std.HashMap.contains_eq_isSome_getElem?] at h
    simpa using h
  refine ⟨fresh, ?_⟩
  simp only [intern, ExceptT.run, ExceptT.mk, StateT.run]
  split
  · next there =>
    rw [fresh] at there
    cases there
  · rfl

end Pool

end DescriptorCodec
