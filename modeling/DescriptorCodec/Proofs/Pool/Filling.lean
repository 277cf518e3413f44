import DescriptorCodec.Proofs.Pool.Permanence
import DescriptorCodec.Proofs.Record.Room

/-!
# When interning fails

A call needs a text, or the name of a class and the class entry behind it. The pool may have some of
this already. It never has a class entry without the name, so what it lacks is the last part of what
the call needs.

The call succeeds exactly if there is room for what is lacking. The pool is full after a failure,
and if there was room for the name of a class but not for its entry, the name has been added.
-/

namespace DescriptorCodec

namespace Pool

open Collection

/-- What the call needs, in the order in which it asks for it. -/
def Call.needs : Call → List Symbol
  | internUtf8 text => [.utf8 text]
  | internClass name => Symbol.ofClass name

theorem Call.perform_takes (call : Call) : call.perform.Takes call.needs [] := by
  cases call with
  | internUtf8 text => exact .internUtf8 text
  | internClass name => exact .internClass name

theorem missing_eq_filter (pool : Pool) {needed : List Symbol} (distinct : needed.Nodup) :
    pool.missing needed = needed.filter fun symbol => symbol ∉ pool.symbols :=
  eraseDups_eq_self (distinct.filter _)

/-- A pool that lacks the name of a class lacks its entry too. -/
theorem missing_needs_suffix (pool : Pool) (call : Call) :
    pool.missing call.needs <:+ call.needs := by
  cases call with
  | internUtf8 text =>
      rw [Call.needs, missing_eq_filter _ (List.nodup_singleton _)]
      by_cases there : .utf8 text ∈ pool.symbols
      · simp [there]
      · simp [there]
  | internClass name =>
      have distinct : (Symbol.ofClass name).Nodup := by simp [Symbol.ofClass]
      rw [Call.needs, missing_eq_filter _ distinct, Symbol.ofClass]
      by_cases entry : .classOf (Name.internal name) ∈ pool.symbols
      · simp [entry, mem_utf8_of_mem_classOf entry]
      · by_cases there : .utf8 (Name.internal name) ∈ pool.symbols
        · simp [entry, there]
        · simp [entry, there]

/-- What a larger pool has at its end, as entries and as symbols. -/
theorem exists_added {P Q : Pool} (closed : P.Closed) (closed' : Q.Closed) (h : P ≤ Q) :
    ∃ added symbols, Q.entries.toList = P.entries.toList ++ added ∧
      Q.symbols = P.symbols ++ symbols ∧ added.map Q.symbol? = symbols.map some := by
  obtain ⟨added, entries⟩ := h
  refine ⟨added, _, entries.symm, closed.symbols_of_append entries, ?_⟩
  refine (map_some_filterMap fun constant member => ?_).symm
  refine closed' constant ?_
  rw [← entries]
  exact List.mem_append_right _ member

/-- Less than what is lacking is nothing, or the name of a class whose entry is lacking too. -/
theorem eq_nil_or_name_of_prefix_missing {pool : Pool} {call : Call} {symbols : List Symbol}
    (first : symbols <+: pool.missing call.needs)
    (fewer : symbols.length < (pool.missing call.needs).length) :
    symbols = [] ∨ ∃ name, call = .internClass name ∧ symbols = [.utf8 (Name.internal name)] := by
  have last := pool.missing_needs_suffix call
  have most := last.length_le
  cases symbols with
  | nil => exact .inl rfl
  | cons symbol symbols =>
      rw [List.length_cons] at fewer
      cases call with
      | internUtf8 text =>
          have one : (Call.internUtf8 text).needs.length = 1 := rfl
          omega
      | internClass name =>
          have two : (Call.internClass name).needs.length = 2 := rfl
          have whole := last.eq_of_length (by omega)
          rw [whole, Call.needs, Symbol.ofClass, List.cons_prefix_cons] at first
          have none : symbols = [] := List.length_eq_zero_iff.mp (by omega)
          exact .inr ⟨name, rfl, by rw [first.1, none]⟩

section Outcome

variable {pool left : Pool} {call : Call} (reachable : pool.Reachable)
include reachable

theorem exists_exec_perform_iff (call : Call) :
    (∃ index left, call.perform.exec pool = (.ok index, left)) ↔
      pool.size + (pool.missing call.needs).length ≤ countLimit := by
  obtain ⟨reachable', taken⟩ := call.perform_takes pool reachable
  have succeeds := taken.exists_ok_iff reachable'
  rw [HasRoomFor, eraseDups_symbols_append, List.length_append,
    reachable.closed.length_symbols] at succeeds
  simpa using succeeds

theorem exists_added_of_exec_perform {answer : Except Error UInt16}
    (run : call.perform.exec pool = (answer, left)) :
    left.Closed ∧ ∃ added symbols, left.entries.toList = pool.entries.toList ++ added ∧
      left.symbols = pool.symbols ++ symbols ∧ added.map left.symbol? = symbols.map some := by
  have grown := call.le_exec_perform reachable.bounded
  have reachable' := call.reachable_perform reachable
  rw [run] at grown reachable'
  exact ⟨reachable'.closed, exists_added reachable.closed reachable'.closed grown⟩

/-- After a success the pool has what was lacking at its end, and the reference is one of its
own. -/
theorem added_of_exec_perform_ok {index : UInt16}
    (run : call.perform.exec pool = (.ok index, left)) :
    (∃ added, left.entries.toList = pool.entries.toList ++ added ∧
      added.map left.symbol? = (pool.missing call.needs).map some) ∧
    1 ≤ index.toNat ∧ index.toNat ≤ left.size := by
  obtain ⟨-, added, symbols, entries, listed, same⟩ := exists_added_of_exec_perform reachable run
  obtain ⟨-, taken⟩ := call.perform_takes pool reachable
  have points := call.perform_answers reachable
  rw [run] at taken points
  have lacking : symbols = pool.missing call.needs := by
    have all := taken.1
    rw [listed, eraseDups_symbols_append] at all
    exact List.append_cancel_left all
  obtain ⟨constant, found, -⟩ := Option.bind_eq_some_iff.mp points
  refine ⟨⟨added, entries, lacking ▸ same⟩, ?_, toNat_le_size found⟩
  exact toNat_pos (getElem?_of_get? found).1

/-- After a failure the pool is full, and at most the name of a class has been added. -/
theorem added_of_exec_perform_error {e : Error}
    (run : call.perform.exec pool = (.error e, left)) :
    left.OutOfRoom e ∧ ∃ added, left.entries.toList = pool.entries.toList ++ added ∧
      (added = [] ∨ ∃ name, call = .internClass name ∧ added = [.utf8 (Name.internal name)]) := by
  obtain ⟨closed, added, symbols, entries, listed, same⟩ :=
    exists_added_of_exec_perform reachable run
  obtain ⟨-, taken⟩ := call.perform_takes pool reachable
  rw [run] at taken
  obtain ⟨first, ⟨full, excess⟩ | ⟨count, impossible, -⟩⟩ := taken
  · have filled := closed.length_symbols
    rw [listed, eraseDups_symbols_append, List.prefix_append_right_inj] at first
    rw [eraseDups_symbols_append] at excess
    rw [listed, full.2] at filled
    rw [List.length_append] at excess filled
    refine ⟨full, added, entries, ?_⟩
    rcases eq_nil_or_name_of_prefix_missing first (by omega) with rfl | ⟨name, rfl, rfl⟩
    · exact .inl (List.map_eq_nil_iff.mp same)
    · obtain ⟨constant, rfl, stands⟩ := List.map_eq_singleton_iff.mp same
      exact .inr ⟨name, rfl, by rw [symbol?_inj stands (left.symbol?_utf8 _)]⟩
  · cases impossible

end Outcome

/-- Interning succeeds exactly if the pool has room for the entries that it lacks. These are
nothing, the last entry that the call needs, or both that it needs. After a success they are at the
end of the pool, and the reference is one of the pool's own. After a failure, which is always for
want of room, the pool is full; its entries stand where they stood, and at most the name of the
class was added behind them. -/
theorem exec_perform_iff_room {pool : Pool} (reachable : pool.Reachable) (call : Call) :
    let lacking := pool.missing call.needs
    lacking <:+ call.needs ∧
    ∃ answer left, call.perform.exec pool = (answer, left) ∧
      ((∃ index, answer = .ok index) ↔ pool.size + lacking.length ≤ 65535) ∧
      (∀ index, answer = .ok index →
        (∃ added, left.entries.toList = pool.entries.toList ++ added ∧
          added.map left.symbol? = lacking.map some) ∧
        1 ≤ index.toNat ∧ index.toNat ≤ left.size ∧ left.size = pool.size + lacking.length) ∧
      ∀ e, answer = .error e →
        e = .limitExceeded "constant pool entries" 65536 ∧ left.size = 65535 ∧
        ∃ added, left.entries.toList = pool.entries.toList ++ added ∧
          (added = [] ∨
            ∃ name, call = .internClass name ∧ added = [.utf8 (Name.internal name)]) := by
  intro lacking
  refine ⟨pool.missing_needs_suffix call, ?_⟩
  have succeeds := exists_exec_perform_iff reachable call
  obtain ⟨answer, left, run⟩ : ∃ answer left, call.perform.exec pool = (answer, left) :=
    ⟨_, _, rfl⟩
  refine ⟨answer, left, run, ?_, ?_, ?_⟩
  · rw [run] at succeeds
    have room : (∃ index, answer = .ok index) ↔ pool.size + lacking.length ≤ countLimit := by
      simpa using succeeds
    exact room
  · rintro index rfl
    obtain ⟨⟨added, entries, same⟩, least, most⟩ := added_of_exec_perform_ok reachable run
    refine ⟨⟨added, entries, same⟩, least, most, ?_⟩
    have total := congrArg List.length entries
    have lengths := congrArg List.length same
    rw [List.length_append, Array.length_toList, Array.length_toList] at total
    rw [List.length_map, List.length_map] at lengths
    rw [size, size, total, lengths]
  · rintro e rfl
    obtain ⟨⟨limit, full⟩, rest⟩ := added_of_exec_perform_error reachable run
    exact ⟨limit, full, rest⟩

/-- The texts that a pool is asked for are all that is in it, if they are few enough. -/
theorem exists_symbols_eq_utf8 {texts : List String} (distinct : texts.Nodup)
    (room : texts.length ≤ countLimit) :
    ∃ pool : Pool, pool.Reachable ∧ pool.symbols = texts.map .utf8 := by
  have listed : (texts.flatMap fun text => [Symbol.utf8 text]).eraseDups = texts.map .utf8 := by
    rw [← List.map_eq_flatMap, eraseDups_eq_self]
    exact distinct.map fun text text' same => Symbol.utf8.inj same
  rw [← listed]
  refine (PoolM.Takes.mapM PoolM.Takes.internUtf8 texts).exists_symbols_eq (by simp) ?_
  rwa [listed, List.length_map]

/-- With room for one entry, interning a new class adds its name and fails. -/
theorem exec_internClass_of_one_left :
    ∃ pool left : Pool, pool.Reachable ∧ pool.size = 65534 ∧
      (internClass "b").exec pool =
        (.error (.limitExceeded "constant pool entries" 65536), left) ∧
      left.size = 65535 ∧ left.entries.toList = pool.entries.toList ++ [.utf8 "b"] := by
  let texts := (List.range 65534).map fun count => String.ofList (List.replicate count 'a')
  have distinct : texts.Nodup := by
    refine List.nodup_range.map fun count count' same => ?_
    simpa using congrArg List.length (String.ofList_injective same)
  have total : texts.length = 65534 := by simp [texts]
  obtain ⟨pool, reachable, listed⟩ := exists_symbols_eq_utf8 distinct (total ▸ by decide)
  have size : pool.size = 65534 := by
    rw [← reachable.closed.length_symbols, listed, List.length_map, total]
  have stored : Name.internal "b" = "b" := by decide +kernel
  have other : ∀ text ∈ texts, text ≠ "b" := by
    intro text member same
    obtain ⟨count, -, rfl⟩ := List.mem_map.mp member
    have letters : List.replicate count 'a' = ['b'] := by
      simpa using congrArg String.toList same
    have letter : 'b' ∈ List.replicate count 'a' := letters ▸ List.mem_singleton_self _
    exact absurd (List.eq_of_mem_replicate letter) (by decide)
  have new : pool.missing (Call.internClass "b").needs = [.utf8 "b", .classOf "b"] := by
    rw [Call.needs, missing_eq_filter _ (by simp [Symbol.ofClass]), Symbol.ofClass, stored, listed]
    simpa using other
  obtain ⟨-, answer, left, run, succeeds, -, fails⟩ :=
    exec_perform_iff_room reachable (.internClass "b")
  rw [new, size] at succeeds
  rcases answer with e | index
  · obtain ⟨rfl, full, added, entries, rfl | ⟨name, same, rfl⟩⟩ := fails e rfl
    · have unchanged := congrArg List.length entries
      rw [List.append_nil, Array.length_toList, Array.length_toList] at unchanged
      exact absurd (full.symm.trans (unchanged.trans size)) (by decide)
    · cases same
      rw [stored] at entries
      exact ⟨pool, left, reachable, size, run, full, entries⟩
  · exact absurd (succeeds.mp ⟨index, rfl⟩) (by decide)

end Pool

end DescriptorCodec
