import DescriptorCodec.Proofs.Pool.Symbols

/-!
# References are permanent

A pool is only ever changed by interning. Whatever is interned, in whatever order, whether it
succeeds or finds the pool full, a class entry refers to a text in stored form that stands before
it, and a reference that was handed out points at the same symbol from then on.

`Pool.Answers` relates what a call returned to the pool of any later time: the symbol is at the
reference that was returned, or the pool is full and will never have the symbol. So two calls get
the same reference exactly when they ask for the same symbol.
-/

namespace DescriptorCodec

namespace Name

/-- The name is in stored form. -/
def IsInternal (name : String) : Prop :=
  '.' ∉ name.toList

theorem isInternal_internal (name : String) : IsInternal (internal name) := by
  intro member
  rw [toList_internal, List.mem_map] at member
  obtain ⟨c, -, same⟩ := member
  unfold slash at same
  split at same
  · cases same
  · next other => exact other same

end Name

namespace Pool

/-! ### Class entries -/

/-- Every class entry refers to a text in stored form that stands before it. -/
def Grounded (pool : Pool) : Prop :=
  ∀ index name, pool.get? index = some (.classRef name) →
    name.toNat < index.toNat ∧
      ∃ text, pool.get? name = some (.utf8 text) ∧ Name.IsInternal text

/-- An index that points at an entry is at most the number of entries. -/
theorem toNat_le_size {pool : Pool} {index : UInt16} {constant : Constant}
    (found : pool.get? index = some constant) : index.toNat ≤ pool.size := by
  obtain ⟨-, entry⟩ := getElem?_of_get? found
  have inside := (Array.getElem?_eq_some_iff.mp entry).1
  rw [size]
  omega

theorem get?_eq_none_of_size_lt {pool : Pool} {index : UInt16} (beyond : pool.size < index.toNat) :
    pool.get? index = none := by
  cases found : pool.get? index with
  | none => rfl
  | some constant => exact absurd (toNat_le_size found) (Nat.not_le_of_lt beyond)

theorem get?_push_cases {pool : Pool} {constant other : Constant}
    {fresh : pool.index[constant]? = none} {index : UInt16}
    (found : (pool.push constant fresh).get? index = some other) :
    pool.get? index = some other ∨ other = constant ∧ pool.size < index.toNat := by
  obtain ⟨nonzero, entry⟩ := getElem?_of_get? found
  rw [entries_push, Array.getElem?_push] at entry
  split at entry
  · next last =>
    have pos := toNat_pos nonzero
    exact .inr ⟨(Option.some.inj entry).symm, by rw [size]; omega⟩
  · rw [get?, if_neg nonzero]
    exact .inl entry

theorem Grounded.push {pool : Pool} (grounded : pool.Grounded) {constant : Constant}
    (names : ∀ name, constant = .classRef name →
      ∃ text, pool.get? name = some (.utf8 text) ∧ Name.IsInternal text)
    (fresh : pool.index[constant]? = none) : (pool.push constant fresh).Grounded := by
  have grown := pool.le_push constant fresh
  intro index name found
  rcases get?_push_cases found with before | ⟨added, last⟩
  · obtain ⟨earlier, text, there, stored⟩ := grounded index name before
    exact ⟨earlier, text, get?_of_le grown there, stored⟩
  · obtain ⟨text, there, stored⟩ := names name added.symm
    exact ⟨Nat.lt_of_le_of_lt (toNat_le_size there) last, text, get?_of_le grown there, stored⟩

theorem Grounded.intern {pool : Pool} (grounded : pool.Grounded) {constant : Constant}
    (names : ∀ name, constant = .classRef name →
      ∃ text, pool.get? name = some (.utf8 text) ∧ Name.IsInternal text) :
    ((Pool.intern constant).exec pool).2.Grounded := by
  rcases intern_cases constant pool with ⟨position, -, run⟩ | ⟨-, fresh, run⟩ | ⟨-, run⟩
  · rw [run]
    exact grounded
  · rw [run]
    exact grounded.push names fresh
  · rw [run]
    exact grounded

theorem Reachable.grounded {pool : Pool} (h : pool.Reachable) : pool.Grounded := by
  refine h.invariant ?_ ?_ ?_
  · intro index name found
    obtain ⟨-, entry⟩ := getElem?_of_get? found
    cases entry
  · intro pool text grounded
    exact grounded.intern fun name impossible => by cases impossible
  · intro pool index name points grounded
    refine grounded.intern fun other same => ?_
    cases same
    exact ⟨_, points, Name.isInternal_internal name⟩

/-! ### Resolving -/

theorem resolveUtf8_of_ne {pool : Pool} {index : UInt16}
    (other : ∀ text, pool.get? index ≠ some (.utf8 text)) :
    pool.resolveUtf8 index = .error (.invalidSymbol index .utf8) := by
  unfold resolveUtf8
  split
  · next text found => exact absurd found (other text)
  · rfl

theorem resolveClass_of_ne {pool : Pool} {index : UInt16}
    (other : ∀ name, pool.get? index ≠ some (.classRef name)) :
    pool.resolveClass index = .error (.invalidSymbol index .classRef) := by
  unfold resolveClass
  split
  · next name found => exact absurd found (other name)
  · rfl

/-- A text is resolved, and is not taken for a class. -/
theorem resolve_of_utf8 {pool : Pool} {index : UInt16} {text : String}
    (points : pool.symbolAt? index = some (.utf8 text)) :
    pool.resolveUtf8 index = .ok text ∧
      pool.resolveClass index = .error (.invalidSymbol index .classRef) := by
  obtain ⟨constant, found, stands⟩ := Option.bind_eq_some_iff.mp points
  cases constant with
  | utf8 text' =>
      cases stands
      refine ⟨?_, resolveClass_of_ne fun name same => ?_⟩
      · rw [resolveUtf8, found]
      · rw [found] at same
        cases same
  | classRef name =>
      obtain ⟨text', -, same⟩ := symbol?_classRef_eq_some stands
      cases same

/-- A class is resolved, and is not taken for a text. -/
theorem resolve_of_classOf {pool : Pool} {index : UInt16} {name : String}
    (points : pool.symbolAt? index = some (.classOf name)) :
    pool.resolveClass index = .ok (Name.dotted name) ∧
      pool.resolveUtf8 index = .error (.invalidSymbol index .utf8) := by
  obtain ⟨constant, found, stands⟩ := Option.bind_eq_some_iff.mp points
  cases constant with
  | utf8 text => cases stands
  | classRef nameIndex =>
      obtain ⟨text, there, same⟩ := symbol?_classRef_eq_some stands
      cases same
      refine ⟨?_, resolveUtf8_of_ne fun text same => ?_⟩
      · rw [resolveClass, found]
        dsimp only
        rw [resolveUtf8, there]
        rfl
      · rw [found] at same
        cases same

/-- The listed references are those that point at an entry. -/
theorem mem_toList_iff {pool : Pool} (bounded : pool.Bounded) {index : UInt16}
    {constant : Constant} :
    (index, constant) ∈ pool.toList ↔ pool.get? index = some constant := by
  rw [toList, List.mem_map]
  constructor
  · rintro ⟨⟨entry, position⟩, listed, same⟩
    cases same
    have found := List.mem_zipIdx_iff_getElem?.mp listed
    rw [Array.getElem?_toList] at found
    have inside : position < pool.size := (Array.getElem?_eq_some_iff.mp found).1
    rw [get?_reference pool (Nat.lt_of_lt_of_le inside bounded), found]
  · intro found
    obtain ⟨nonzero, entry⟩ := getElem?_of_get? found
    have pos := toNat_pos nonzero
    have inside : index.toNat - 1 < pool.size := (Array.getElem?_eq_some_iff.mp entry).1
    have same : reference (index.toNat - 1) = index := by
      apply UInt16.toNat_inj.mp
      rw [toNat_reference (Nat.lt_of_lt_of_le inside bounded)]
      omega
    refine ⟨(constant, index.toNat - 1), ?_, congrArg (·, constant) same⟩
    rw [List.mem_zipIdx_iff_getElem?, Array.getElem?_toList]
    exact entry

/-! ### Answers -/

theorem mem_symbols_of_symbolAt? {pool : Pool} {index : UInt16} {symbol : Symbol}
    (points : pool.symbolAt? index = some symbol) : symbol ∈ pool.symbols := by
  obtain ⟨constant, found, stands⟩ := Option.bind_eq_some_iff.mp points
  obtain ⟨-, entry⟩ := getElem?_of_get? found
  rw [← Array.getElem?_toList] at entry
  exact mem_symbols.mpr ⟨constant, List.mem_of_getElem? entry, stands⟩

theorem symbolAt?_of_le {P Q : Pool} (h : P ≤ Q) {index : UInt16} {symbol : Symbol}
    (points : P.symbolAt? index = some symbol) : Q.symbolAt? index = some symbol := by
  obtain ⟨constant, found, stands⟩ := Option.bind_eq_some_iff.mp points
  exact Option.bind_eq_some_iff.mpr ⟨constant, get?_of_le h found, symbol?_of_le h stands⟩

/-- The symbol is where the answer says, or the pool is full and does not have it. -/
def Answers (pool : Pool) (symbol : Symbol) : Except Error UInt16 → Prop
  | .ok index => pool.symbolAt? index = some symbol
  | .error _ => pool.size = countLimit ∧ symbol ∉ pool.symbols

/-- A full pool stays as it is. -/
theorem symbols_of_full {P Q : Pool} (closed : P.Closed) (full : P.size = countLimit) (h : P ≤ Q)
    (bounded : Q.Bounded) : Q.symbols = P.symbols := by
  obtain ⟨added, entries⟩ := h
  have lengths : P.entries.size + added.length = Q.entries.size := by
    simpa using congrArg List.length entries
  rw [size] at full
  rw [Bounded, size] at bounded
  have nothing : added = [] := List.length_eq_zero_iff.mp (by omega)
  subst nothing
  rw [closed.symbols_of_append entries, List.filterMap_nil, List.append_nil]

theorem Answers.of_le {P Q : Pool} (closed : P.Closed) (h : P ≤ Q) (bounded : Q.Bounded)
    {symbol : Symbol} {answer : Except Error UInt16} (answers : P.Answers symbol answer) :
    Q.Answers symbol answer := by
  cases answer with
  | ok index => exact symbolAt?_of_le h answers
  | error e =>
      obtain ⟨full, absent⟩ := answers
      have larger : P.entries.toList.length ≤ Q.entries.toList.length := h.length_le
      rw [Array.length_toList, Array.length_toList] at larger
      refine ⟨Nat.le_antisymm bounded (full ▸ larger), ?_⟩
      rwa [symbols_of_full closed full h bounded]

/-- Answers for the same pool agree exactly if they are about the same symbol. -/
theorem Answers.eq_ok_iff {pool : Pool} (closed : pool.Closed) {symbol symbol' : Symbol}
    {index : UInt16} {answer : Except Error UInt16}
    (points : pool.symbolAt? index = some symbol) (answers : pool.Answers symbol' answer) :
    answer = .ok index ↔ symbol' = symbol := by
  constructor
  · rintro rfl
    have also : pool.symbolAt? index = some symbol' := answers
    exact Option.some.inj (also.symm.trans points)
  · rintro rfl
    cases answer with
    | ok index' =>
        have number := closed.toNat_eq_indexOf points
        rw [← closed.toNat_eq_indexOf answers] at number
        rw [UInt16.toNat_inj.mp number]
    | error e => exact absurd (mem_symbols_of_symbolAt? points) answers.2

theorem Closed.intern_answers {pool : Pool} (closed : pool.Closed) (bounded : pool.Bounded)
    {constant : Constant} {symbol : Symbol} (stands : pool.symbol? constant = some symbol) :
    ((Pool.intern constant).exec pool).2.Answers symbol ((Pool.intern constant).exec pool).1 := by
  obtain ⟨grown, -, points⟩ := intern_spec constant pool bounded
  have stands' := symbol?_of_le grown stands
  rcases closed.exec_intern stands with ⟨-, index, run⟩ | ⟨-, index, left, run, -, -⟩ |
    ⟨new, full, run⟩
  · rw [run] at points ⊢
    exact Option.bind_eq_some_iff.mpr ⟨constant, points, stands⟩
  · rw [run] at points stands' ⊢
    exact Option.bind_eq_some_iff.mpr ⟨constant, points, stands'⟩
  · rw [run]
    exact ⟨Nat.le_antisymm bounded full, new⟩

/-- A class entry can only be there after its name. -/
theorem mem_utf8_of_mem_classOf {pool : Pool} {name : String}
    (listed : .classOf name ∈ pool.symbols) : .utf8 name ∈ pool.symbols := by
  obtain ⟨constant, -, stands⟩ := mem_symbols.mp listed
  cases constant with
  | utf8 text => cases stands
  | classRef index =>
      obtain ⟨text, there, same⟩ := symbol?_classRef_eq_some stands
      cases same
      have points : pool.symbolAt? index = some (.utf8 name) := by
        rw [symbolAt?, there]
        rfl
      exact mem_symbols_of_symbolAt? points

/-! ### Histories -/

/-- A call that interns something. -/
inductive Call where
  | internUtf8 (text : String)
  | internClass (name : String)

namespace Call

def symbol : Call → Symbol
  | internUtf8 text => .utf8 text
  | internClass name => .classOf (Name.internal name)

def perform : Call → PoolM UInt16
  | internUtf8 text => Pool.internUtf8 text
  | internClass name => Pool.internClass name

theorem le_exec_perform (call : Call) {pool : Pool} (bounded : pool.Bounded) :
    pool ≤ (call.perform.exec pool).2 := by
  cases call with
  | internUtf8 text => exact (internUtf8_spec text pool bounded).1
  | internClass name => exact (internClass_spec name pool bounded).1

theorem reachable_perform (call : Call) {pool : Pool} (reachable : pool.Reachable) :
    (call.perform.exec pool).2.Reachable := by
  cases call with
  | internUtf8 text => exact reachable.internUtf8 text
  | internClass name => exact reachable.internClass name

/-- The reference is resolved to what the call asked for, and not under the other kind. -/
def Resolved (pool : Pool) (index : UInt16) : Call → Prop
  | internUtf8 text => pool.resolveUtf8 index = .ok text ∧
      pool.resolveClass index = .error (.invalidSymbol index .classRef)
  | internClass name => pool.resolveClass index = .ok (Name.dotted name) ∧
      pool.resolveUtf8 index = .error (.invalidSymbol index .utf8)

theorem resolved_of_symbolAt? {pool : Pool} {index : UInt16} {call : Call}
    (points : pool.symbolAt? index = some call.symbol) : call.Resolved pool index := by
  cases call with
  | internUtf8 text => exact resolve_of_utf8 points
  | internClass name =>
      have resolved := resolve_of_classOf points
      rwa [Name.dotted_internal] at resolved

/-- Where the name of a class has no room, there is none for its entry either. -/
theorem perform_answers (call : Call) {pool : Pool} (reachable : pool.Reachable) :
    (call.perform.exec pool).2.Answers call.symbol (call.perform.exec pool).1 := by
  cases call with
  | internUtf8 text =>
      exact reachable.closed.intern_answers reachable.bounded (symbol?_utf8 pool text)
  | internClass name =>
      have text := reachable.closed.intern_answers reachable.bounded
        (symbol?_utf8 pool (Name.internal name))
      have reachable' := reachable.internUtf8 (Name.internal name)
      obtain ⟨-, -, points⟩ := internUtf8_spec (Name.internal name) pool reachable.bounded
      rw [perform, Pool.internClass, PoolM.exec_bind]
      rw [Pool.internUtf8] at reachable' points ⊢
      generalize (Pool.intern _).exec pool = execution at text reachable' points
      rcases execution with ⟨error | index, left⟩
      · exact ⟨text.1, fun listed => text.2 (mem_utf8_of_mem_classOf listed)⟩
      · exact reachable'.closed.intern_answers reachable'.bounded (symbol?_classRef points)

end Call

/-- The pool after the calls, each of which may succeed or fail. -/
def after (pool : Pool) (calls : List Call) : Pool :=
  calls.foldl (fun pool call => (call.perform.exec pool).2) pool

/-- The calls with what they returned, in order. -/
def history (pool : Pool) : List Call → List (Call × Except Error UInt16)
  | [] => []
  | call :: calls =>
    let (answer, left) := call.perform.exec pool
    (call, answer) :: left.history calls

theorem Reachable.after {pool : Pool} (reachable : pool.Reachable) (calls : List Call) :
    (pool.after calls).Reachable ∧ pool ≤ pool.after calls := by
  induction calls generalizing pool with
  | nil => exact ⟨reachable, le_refl pool⟩
  | cons call calls ih =>
      obtain ⟨reachable', grown⟩ := ih (call.reachable_perform reachable)
      exact ⟨reachable', le_trans (call.le_exec_perform reachable.bounded) grown⟩

/-- What a call returned holds of the pool that the calls after it leave. -/
theorem answers_of_mem_history {pool : Pool} (reachable : pool.Reachable) {calls : List Call}
    {call : Call} {answer : Except Error UInt16} (returned : (call, answer) ∈ pool.history calls) :
    (pool.after calls).Answers call.symbol answer := by
  induction calls generalizing pool with
  | nil => cases returned
  | cons first calls ih =>
      have reachable' := first.reachable_perform reachable
      rw [history, List.mem_cons] at returned
      rcases returned with same | later
      · obtain ⟨rfl, rfl⟩ := Prod.mk.inj same
        obtain ⟨final, grown⟩ := reachable'.after calls
        exact (call.perform_answers reachable).of_le reachable'.closed grown final.bounded
      · exact ih reachable' later

/-! ### Short histories -/

theorem size_exec_intern_le (constant : Constant) (pool : Pool) :
    ((intern constant).exec pool).2.size ≤ pool.size + 1 := by
  rcases intern_cases constant pool with ⟨position, -, run⟩ | ⟨-, fresh, run⟩ | ⟨-, run⟩
  · rw [run]
    exact Nat.le_add_right _ _
  · rw [run, size, entries_push, Array.size_push]
    exact Nat.le_refl _
  · rw [run]
    exact Nat.le_add_right _ _

namespace Call

theorem size_exec_perform_le (call : Call) (pool : Pool) :
    (call.perform.exec pool).2.size ≤ pool.size + 2 := by
  cases call with
  | internUtf8 text => exact Nat.le_succ_of_le (size_exec_intern_le (.utf8 text) pool)
  | internClass name =>
      have text := size_exec_intern_le (.utf8 (Name.internal name)) pool
      rw [perform, Pool.internClass, PoolM.exec_bind, Pool.internUtf8]
      generalize (intern (.utf8 (Name.internal name))).exec pool = execution at text
      rcases execution with ⟨error | index, left⟩
      · exact Nat.le_succ_of_le text
      · exact Nat.le_trans (size_exec_intern_le (.classRef index) left) (Nat.succ_le_succ text)

end Call

theorem size_after_le (pool : Pool) (calls : List Call) :
    (pool.after calls).size ≤ pool.size + 2 * calls.length := by
  induction calls generalizing pool with
  | nil => exact Nat.le_refl _
  | cons call calls ih =>
      have first := call.size_exec_perform_le pool
      have rest := ih (call.perform.exec pool).2
      rw [List.length_cons]
      change ((call.perform.exec pool).2.after calls).size ≤ _
      omega

/-- No call fails while there is room for two entries for each. -/
theorem exists_ok_of_mem_history {pool : Pool} (reachable : pool.Reachable) {calls : List Call}
    (room : pool.size + 2 * calls.length < countLimit) {call : Call} {answer : Except Error UInt16}
    (returned : (call, answer) ∈ pool.history calls) : ∃ index, answer = .ok index := by
  have answers := answers_of_mem_history reachable returned
  cases answer with
  | ok index => exact ⟨index, rfl⟩
  | error e =>
      have full : (pool.after calls).size = countLimit := answers.1
      have small := size_after_le pool calls
      omega

/-! ### All histories of the empty pool -/

/-- After any calls on the empty pool, its entries are distinct and few enough to have references,
which are the ones that are listed. A class entry refers to an earlier text in stored form, so it
can be resolved, and nothing else is resolved than entries. A reference that was returned is
resolved to what was asked for and to nothing of the other kind, and was returned exactly when the
same symbol was asked for. -/
theorem after_permanent (calls : List Call) :
    let pool := empty.after calls
    (pool.size ≤ countLimit ∧ pool.entries.toList.Nodup) ∧
    (∀ index name, pool.get? index = some (.classRef name) →
      name.toNat < index.toNat ∧ ∃ text, pool.get? name = some (.utf8 text) ∧
        '.' ∉ text.toList ∧ pool.resolveClass index = .ok (Name.dotted text)) ∧
    (∀ index constant, (index, constant) ∈ pool.toList ↔ pool.get? index = some constant) ∧
    (∀ index, index = 0 ∨ pool.size < index.toNat →
      pool.resolveUtf8 index = .error (.invalidSymbol index .utf8) ∧
      pool.resolveClass index = .error (.invalidSymbol index .classRef)) ∧
    ∀ call index, (call, .ok index) ∈ empty.history calls →
      call.Resolved pool index ∧
      ∀ call' answer, (call', answer) ∈ empty.history calls →
        (answer = .ok index ↔ call'.symbol = call.symbol) := by
  intro pool
  have reachable : pool.Reachable := (Reachable.empty.after calls).1
  refine ⟨⟨reachable.bounded, pool.nodup_entries⟩, ?_, ?_, ?_, ?_⟩
  · intro index name found
    obtain ⟨earlier, text, there, stored⟩ := reachable.grounded index name found
    refine ⟨earlier, text, there, stored, ?_⟩
    have points : pool.symbolAt? index = some (.classOf text) := by
      rw [symbolAt?, found]
      exact symbol?_classRef there
    exact (resolve_of_classOf points).1
  · exact fun index constant => mem_toList_iff reachable.bounded
  · intro index outside
    have absent : pool.get? index = none := by
      rcases outside with rfl | beyond
      · rfl
      · exact get?_eq_none_of_size_lt beyond
    constructor
    · exact resolveUtf8_of_ne fun text => by simp [absent]
    · exact resolveClass_of_ne fun name => by simp [absent]
  · intro call index returned
    have points : pool.symbolAt? index = some call.symbol :=
      answers_of_mem_history .empty returned
    refine ⟨Call.resolved_of_symbolAt? points, fun call' answer returned' => ?_⟩
    exact Answers.eq_ok_iff reachable.closed points (answers_of_mem_history .empty returned')

/-- A text that is asked for twice has the same reference both times, and a class another one. -/
theorem after_permanent_repeated :
    ∃ (calls : List Call) (text name : UInt16),
      empty.history calls = [(.internUtf8 "x", .ok text), (.internClass "a.B", .ok name),
        (.internUtf8 "x", .ok text)] ∧
      text ≠ name ∧ (empty.after calls).resolveUtf8 text = .ok "x" ∧
      (empty.after calls).resolveClass name = .ok "a.B" := by
  let calls : List Call := [.internUtf8 "x", .internClass "a.B", .internUtf8 "x"]
  obtain ⟨first, second, third, returned⟩ : ∃ first second third, empty.history calls =
      [(.internUtf8 "x", first), (.internClass "a.B", second), (.internUtf8 "x", third)] :=
    ⟨_, _, _, rfl⟩
  have room : empty.size + 2 * calls.length < countLimit := by decide
  have succeeds {call : Call} {answer : Except Error UInt16}
      (member : (call, answer) ∈ empty.history calls) : ∃ index, answer = .ok index :=
    exists_ok_of_mem_history .empty room member
  have one : (.internUtf8 "x", first) ∈ empty.history calls := by simp [returned]
  have two : (.internClass "a.B", second) ∈ empty.history calls := by simp [returned]
  have three : (.internUtf8 "x", third) ∈ empty.history calls := by simp [returned]
  obtain ⟨text, rfl⟩ := succeeds one
  obtain ⟨name, rfl⟩ := succeeds two
  obtain ⟨-, -, -, -, permanent⟩ := after_permanent calls
  obtain ⟨resolved, same⟩ := permanent _ _ one
  obtain ⟨resolved', -⟩ := permanent _ _ two
  have again := (same _ _ three).mpr rfl
  subst again
  refine ⟨calls, text, name, returned, ?_, resolved.1, ?_⟩
  · rintro rfl
    have equal := (same _ _ two).mp rfl
    cases equal
  · exact resolved'.1.trans (by decide +kernel)

end Pool

end DescriptorCodec
