import Mathlib.Order.Defs.PartialOrder
import DescriptorCodec.Symbol.Pool

/-!
# Growing pools

Whatever is done to a pool adds entries at its end and leaves the others where they are. `P ≤ Q`
says that the entries of `P` are the first entries of `Q`; a reference that points at an entry of
`P` points at the same entry of `Q`.

`PoolM.Spec` states this of a computation together with what holds of its value in the pool it
leaves. The pools of interest are bounded: every position has a reference of two bytes.
-/

namespace DescriptorCodec

/-- The outcome of a computation and the pool it leaves. -/
def PoolM.exec {α : Type} (action : PoolM α) (pool : Pool) : Except Error α × Pool :=
  action.run.run pool

namespace Pool

instance : Preorder Pool where
  le P Q := P.entries.toList <+: Q.entries.toList
  le_refl P := List.prefix_refl P.entries.toList
  le_trans _ _ _ h h' := h.trans h'

theorem le_iff {P Q : Pool} : P ≤ Q ↔ P.entries.toList <+: Q.entries.toList := Iff.rfl

theorem getElem?_of_le {P Q : Pool} (h : P ≤ Q) {position : Nat} {constant : Constant}
    (found : P.entries[position]? = some constant) : Q.entries[position]? = some constant := by
  obtain ⟨added, same⟩ := h
  rw [← Array.getElem?_toList] at found ⊢
  obtain ⟨inside, -⟩ := List.getElem?_eq_some_iff.mp found
  rw [← same, List.getElem?_append_left inside, found]

theorem get?_of_le {P Q : Pool} (h : P ≤ Q) {index : UInt16} {constant : Constant}
    (found : P.get? index = some constant) : Q.get? index = some constant := by
  by_cases zero : index = 0
  · rw [get?, if_pos zero] at found
    cases found
  · rw [get?, if_neg zero] at found ⊢
    exact getElem?_of_le h found

/-- Every entry has a reference of two bytes. -/
def Bounded (pool : Pool) : Prop :=
  pool.size ≤ countLimit

theorem bounded_empty : empty.Bounded := Nat.zero_le _

theorem toNat_reference {position : Nat} (h : position < countLimit) :
    (reference position).toNat = position + 1 := by
  have small : position + 1 < 2 ^ 16 := by
    simp only [countLimit] at h
    omega
  rw [reference, UInt16.toNat_ofNat', Nat.mod_eq_of_lt small]

/-- A reference points at the position it was made for. -/
theorem get?_reference (pool : Pool) {position : Nat} (h : position < countLimit) :
    pool.get? (reference position) = pool.entries[position]? := by
  have value := toNat_reference h
  have nonzero : reference position ≠ 0 := by
    intro zero
    rw [zero] at value
    simp at value
  rw [get?, if_neg nonzero, value, Nat.add_sub_cancel]

/-- The failure to add to a bounded pool, which then has no room left. -/
def OutOfRoom (pool : Pool) (error : Error) : Prop :=
  error = .limitExceeded "constant pool entries" (countLimit + 1) ∧ pool.size = countLimit

/-- Interning finds the entry, adds it at the end, or fails on a full pool. -/
theorem intern_cases (constant : Constant) (pool : Pool) :
    (∃ position, pool.entries[position]? = some constant ∧
      (intern constant).exec pool = (.ok (reference position), pool)) ∨
    (pool.size < countLimit ∧ ∃ fresh,
      (intern constant).exec pool = (.ok (reference pool.size), pool.push constant fresh)) ∨
    (countLimit ≤ pool.size ∧ (intern constant).exec pool = (.error pool.full, pool)) := by
  by_cases member : constant ∈ pool.entries
  · obtain ⟨position, found⟩ := Array.mem_iff_getElem?.mp member
    exact .inl ⟨position, found, run_intern_of_mem found⟩
  · obtain ⟨fresh, run⟩ := run_intern_of_not_mem member
    by_cases room : pool.size < countLimit
    · rw [if_pos room] at run
      exact .inr (.inl ⟨room, fresh, run⟩)
    · rw [if_neg room] at run
      exact .inr (.inr ⟨Nat.le_of_not_lt room, run⟩)

end Pool

namespace PoolM

variable {α β : Type}

@[simp] theorem exec_pure (value : α) (pool : Pool) :
    (pure value : PoolM α).exec pool = (.ok value, pool) := rfl

theorem exec_bind (action : PoolM α) (next : α → PoolM β) (pool : Pool) :
    (action >>= next).exec pool =
      match action.exec pool with
      | (.ok value, pool') => (next value).exec pool'
      | (.error error, pool') => (.error error, pool') := by
  simp only [exec, ExceptT.run_bind, StateT.run_bind]
  rcases action.run.run pool with ⟨_ | value, pool'⟩
  · rfl
  · rfl

theorem exec_map (f : α → β) (action : PoolM α) (pool : Pool) :
    (f <$> action).exec pool = ((action.exec pool).1.map f, (action.exec pool).2) := by
  rw [map_eq_pure_bind, exec_bind]
  rcases action.exec pool with ⟨_ | value, left⟩
  · rfl
  · rfl

@[simp] theorem exec_ofExcept (result : Except Error α) (pool : Pool) :
    (MonadExcept.ofExcept result : PoolM α).exec pool = (result, pool) := by
  cases result <;> rfl

/-- Run on a bounded pool, the computation only adds to it and leaves it bounded; in the pool it
leaves, `post` holds of its value and `fault` of its error. -/
def Spec (action : PoolM α) (post : Pool → α → Prop) (fault : Pool → Error → Prop) : Prop :=
  ∀ pool : Pool, pool.Bounded →
    pool ≤ (action.exec pool).2 ∧ (action.exec pool).2.Bounded ∧
      match (action.exec pool).1 with
      | .ok value => post (action.exec pool).2 value
      | .error error => fault (action.exec pool).2 error

namespace Spec

variable {action : PoolM α} {post : Pool → α → Prop} {fault : Pool → Error → Prop}

theorem pure {value : α} (h : ∀ pool : Pool, pool.Bounded → post pool value) :
    Spec (Pure.pure value) post fault := by
  intro pool bounded
  exact ⟨le_refl pool, bounded, h pool bounded⟩

theorem ofExcept {result : Except Error α} (ok : ∀ value, result = .ok value →
      ∀ pool : Pool, pool.Bounded → post pool value)
    (error : ∀ e, result = .error e → ∀ pool : Pool, fault pool e) :
    Spec (MonadExcept.ofExcept result) post fault := by
  intro pool bounded
  rw [exec_ofExcept]
  refine ⟨le_refl pool, bounded, ?_⟩
  cases result with
  | ok value => exact ok value rfl pool bounded
  | error e => exact error e rfl pool

/-- What holds of the first value has to be kept while the second computation adds entries. -/
theorem bind {next : α → PoolM β} {post' : Pool → β → Prop} (first : Spec action post fault)
    (kept : ∀ {P Q : Pool} {value : α}, P ≤ Q → post P value → post Q value)
    (second : ∀ value pool, post pool value →
      Spec (next value) (fun pool result => post pool value → post' pool result) fault) :
    Spec (action >>= next) post' fault := by
  intro pool bounded
  obtain ⟨grown, bounded', outcome⟩ := first pool bounded
  rw [exec_bind]
  generalize action.exec pool = execution at grown bounded' outcome
  obtain ⟨_ | value, pool'⟩ := execution
  · exact ⟨grown, bounded', outcome⟩
  · obtain ⟨grown', bounded'', outcome'⟩ := second value pool' outcome pool' bounded'
    refine ⟨le_trans grown grown', bounded'', ?_⟩
    dsimp only at outcome outcome' ⊢
    split
    · next result same =>
      rw [same] at outcome'
      exact outcome' (kept grown' outcome)
    · next e same =>
      rw [same] at outcome'
      exact outcome'

theorem mono {post' : Pool → α → Prop} {fault' : Pool → Error → Prop} (h : Spec action post fault)
    (weaken : ∀ pool value, post pool value → post' pool value)
    (excuse : ∀ pool e, fault pool e → fault' pool e) : Spec action post' fault' := by
  intro pool bounded
  obtain ⟨grown, bounded', outcome⟩ := h pool bounded
  refine ⟨grown, bounded', ?_⟩
  split
  · next value same =>
    rw [same] at outcome
    exact weaken _ _ outcome
  · next e same =>
    rw [same] at outcome
    exact excuse _ _ outcome

end Spec

end PoolM

namespace Pool

/-- An interned entry stands where its reference points, and interning fails for want of room
only. -/
theorem intern_spec (constant : Constant) :
    (intern constant).Spec (fun pool index => pool.get? index = some constant)
      OutOfRoom := by
  intro pool bounded
  rcases intern_cases constant pool with ⟨position, found, run⟩ | ⟨room, fresh, run⟩ |
    ⟨full, run⟩
  · rw [run]
    have inside : position < pool.size := (Array.getElem?_eq_some_iff.mp found).1
    refine ⟨le_refl pool, bounded, ?_⟩
    dsimp only
    rw [get?_reference pool (Nat.lt_of_lt_of_le inside bounded), found]
  · rw [run]
    refine ⟨?_, ?_, ?_⟩
    · rw [le_iff, entries_push, Array.toList_push]
      exact List.prefix_append _ _
    · rw [Bounded, size, entries_push, Array.size_push]
      exact room
    · dsimp only
      rw [get?_reference _ room, entries_push, size, Array.getElem?_push_size]
  · rw [run]
    refine ⟨le_refl pool, bounded, ?_⟩
    have size : pool.size = countLimit := Nat.le_antisymm bounded full
    refine ⟨?_, size⟩
    change Error.limitExceeded _ (pool.size + 1) = _
    rw [size]

theorem internUtf8_spec (text : String) :
    (internUtf8 text).Spec (fun pool index => pool.get? index = some (.utf8 text))
      OutOfRoom :=
  intern_spec (.utf8 text)

/-- The entry of a class, and the entry of its name. -/
def RefersToClass (pool : Pool) (name : String) (index : UInt16) : Prop :=
  ∃ nameIndex, pool.get? index = some (.classRef nameIndex) ∧
    pool.get? nameIndex = some (.utf8 (Name.internal name))

theorem RefersToClass.of_le {P Q : Pool} (h : P ≤ Q) {name : String} {index : UInt16}
    (refers : P.RefersToClass name index) : Q.RefersToClass name index := by
  obtain ⟨nameIndex, entry, text⟩ := refers
  exact ⟨nameIndex, get?_of_le h entry, get?_of_le h text⟩

theorem internClass_spec (name : String) :
    (internClass name).Spec (fun pool index => pool.RefersToClass name index)
      OutOfRoom := by
  refine (internUtf8_spec (Name.internal name)).bind (fun h found => get?_of_le h found) ?_
  intro nameIndex _ _
  refine (intern_spec (.classRef nameIndex)).mono ?_ fun _ _ full => full
  intro pool index entry text
  exact ⟨nameIndex, entry, text⟩

/-- In the empty pool a class takes the second entry, after its name. -/
theorem exec_internClass_empty (name : String) :
    ∃ pool, (internClass name).exec empty = (.ok 2, pool) := by
  have absent : Constant.utf8 (Name.internal name) ∉ empty.entries := Array.not_mem_empty _
  obtain ⟨fresh, text⟩ := run_intern_of_not_mem absent
  have absent : Constant.classRef 1 ∉ (empty.push _ fresh).entries := by simp
  obtain ⟨fresh', entry⟩ := run_intern_of_not_mem absent
  exists (empty.push _ fresh).push _ fresh'
  rw [internClass, PoolM.exec_bind, internUtf8, PoolM.exec, text, if_pos (by decide)]
  exact entry

/-- The pools that interning makes of the empty one, whether it succeeds or fails. -/
inductive Reachable : Pool → Prop
  | empty : Reachable empty
  | internUtf8 (text : String) {pool : Pool} (h : Reachable pool) :
      Reachable ((internUtf8 text).exec pool).2
  | internClass (name : String) {pool : Pool} (h : Reachable pool) :
      Reachable ((internClass name).exec pool).2

theorem Reachable.bounded {pool : Pool} (h : pool.Reachable) : pool.Bounded := by
  induction h with
  | empty => exact bounded_empty
  | internUtf8 text _ ih => exact (internUtf8_spec text _ ih).2.1
  | internClass name _ ih => exact (internClass_spec name _ ih).2.1

/-- What interning a text keeps, and interning a class entry whose name is there, holds of every
pool that interning makes. -/
theorem Reachable.invariant {holds : Pool → Prop} {pool : Pool} (h : pool.Reachable)
    (start : holds Pool.empty)
    (utf8 : ∀ {pool : Pool} (text : String), holds pool →
      holds ((intern (.utf8 text)).exec pool).2)
    (classRef : ∀ {pool : Pool} {index : UInt16} (name : String),
      pool.get? index = some (.utf8 (Name.internal name)) → holds pool →
      holds ((intern (.classRef index)).exec pool).2) : holds pool := by
  induction h with
  | empty => exact start
  | internUtf8 text _ ih => exact utf8 text ih
  | @internClass name pool reachable ih =>
      have named := utf8 (Name.internal name) ih
      obtain ⟨-, -, points⟩ := internUtf8_spec (Name.internal name) pool reachable.bounded
      rw [Pool.internClass, PoolM.exec_bind]
      rw [Pool.internUtf8] at points ⊢
      generalize (Pool.intern _).exec pool = execution at named points
      rcases execution with ⟨error | index, left⟩
      · exact named
      · exact classRef name points named

end Pool

end DescriptorCodec
