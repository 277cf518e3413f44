import DescriptorCodec.Proofs.Version.Caching

/-!
# What a computation reports

A log shows an event as a line with its level, its message and its fields. `CacheM.Reports` says
what a computation comes to if it starts from some store, and which lines it adds to the log. What
is in the log before makes no difference.

Looking a version up in a cache adds one line, which tells whether the cache holds the version of
this very text. Parsing the text adds none, whether it succeeds or not.
-/

namespace DescriptorCodec

/-- What a log shows of an event. -/
abbrev Event.Line := Event.Level × String × List (String × Event.Value)

/-- The line of an event. -/
def Event.line (event : Event) : Event.Line :=
  (event.level, event.message, event.fields)

/-- What a log shows. -/
def linesOf (log : Array Event) : List Event.Line :=
  log.toList.map Event.line

@[simp] theorem linesOf_push (log : Array Event) (event : Event) :
    linesOf (log.push event) = linesOf log ++ [event.line] := by
  simp [linesOf]

namespace CacheM

variable {α β : Type}

/-- From this store, the computation comes to this outcome, leaves this store behind and adds these
lines to any log. -/
def Reports (action : CacheM α) (store : VersionStore) (outcome : Except Error α)
    (left : VersionStore) (added : List Event.Line) : Prop :=
  ∀ log, (action.exec store log).1 = (outcome, left) ∧
    linesOf (action.exec store log).2 = linesOf log ++ added

namespace Reports

variable {action : CacheM α} {store middle left : VersionStore} {added more : List Event.Line}

theorem ofExcept {computed outcome : Except Error α} (h : computed = outcome)
    (store : VersionStore) : Reports (MonadExcept.ofExcept computed) store outcome store [] := by
  intro log
  rw [exec_ofExcept, h, List.append_nil]
  exact ⟨rfl, rfl⟩

theorem pure (value : α) (store : VersionStore) :
    Reports (Pure.pure value) store (.ok value) store [] :=
  fun _ => ⟨rfl, (List.append_nil _).symm⟩

theorem event (event : Event) (store : VersionStore) :
    Reports (liftM (report event) : CacheM Unit) store (.ok ()) store [event.line] :=
  fun log => ⟨rfl, linesOf_push log event⟩

/-- A computation goes on from the store that the one before it has left. -/
theorem bind {value : α} {next : α → CacheM β} {outcome : Except Error β}
    (first : action.Reports store (.ok value) middle added)
    (second : (next value).Reports middle outcome left more) :
    (action >>= next).Reports store outcome left (added ++ more) := by
  intro log
  obtain ⟨came, lines⟩ := first log
  rw [exec_bind]
  generalize action.exec store log = execution at came lines
  obtain ⟨execution, log'⟩ := execution
  cases came
  obtain ⟨came', lines'⟩ := second log'
  exact ⟨came', by rw [lines', lines, List.append_assoc]⟩

/-- After an error nothing is reported. -/
theorem bind_error {e : Error} (failed : action.Reports store (.error e) left added)
    (next : α → CacheM β) : (action >>= next).Reports store (.error e) left added := by
  intro log
  obtain ⟨came, lines⟩ := failed log
  rw [exec_bind]
  generalize action.exec store log = execution at came lines
  obtain ⟨execution, log'⟩ := execution
  cases came
  exact ⟨rfl, lines⟩

theorem map {outcome : Except Error α} (f : α → β)
    (h : action.Reports store outcome left added) :
    (f <$> action).Reports store (outcome.map f) left added := by
  rw [map_eq_pure_bind]
  cases outcome with
  | error e => exact h.bind_error _
  | ok value =>
      rw [← List.append_nil added]
      exact h.bind (Reports.pure (f value) left)

/-- The outcome is the result, whatever has been reported before. -/
theorem result_eq {outcome : Except Error α} (h : action.Reports store outcome left added)
    (log : Array Event) : action.result store log = outcome :=
  congrArg Prod.fst (h log).1

end Reports

end CacheM

/-- The lines for looking a version up: one that says whether the cache holds the version of this
very text, or none if there is no cache. -/
def VersionStore.lookupLines (store : VersionStore) (cache : Option CacheId) (text : String) :
    List Event.Line :=
  match cache with
  | none => []
  | some cache =>
    if (store.cached? cache).map (fun shared => shared.version.source) = some text then
      [(.trace, "version cache hit", [("version", .text text)])]
    else [(.trace, "version cache miss", [("version", .text text)])]

theorem VersionStore.lookupLines_some (store : VersionStore) (cache : CacheId) (text : String) :
    store.lookupLines (some cache) text =
      match store.hit? cache text with
      | some _ => [(Event.cacheHit text).line]
      | none => [(Event.cacheMiss text).line] := by
  rw [lookupLines]
  cases held : store.hit? cache text with
  | some shared =>
      obtain ⟨there, same⟩ := hit?_eq_some_iff.mp held
      rw [there, Option.map_some, if_pos (congrArg some same)]
      rfl
  | none =>
      rw [if_neg]
      · rfl
      · intro same
        obtain ⟨shared, there, same⟩ := Option.map_eq_some_iff.mp same
        rw [hit?_eq_some_iff.mpr ⟨there, same⟩] at held
        cases held

namespace SharedVersion

theorem parse_reports (cache : Option CacheId) (text : String) (store : VersionStore) :
    ∃ outcome left,
      (parse cache text).Reports store outcome left (store.lookupLines cache text) := by
  cases cache with
  | none =>
      have run := run_parseFresh text store
      cases parsed : Version.parse text with
      | ok version =>
          refine ⟨.ok ⟨version, store.tickets⟩, { store with tickets := store.tickets + 1 },
            fun log => ?_⟩
          rw [CacheM.exec, run_parse_none, run, parsed]
          exact ⟨rfl, (List.append_nil _).symm⟩
      | error e =>
          refine ⟨.error e, store, fun log => ?_⟩
          rw [CacheM.exec, run_parse_none, run, parsed]
          exact ⟨rfl, (List.append_nil _).symm⟩
  | some cache =>
      rw [VersionStore.lookupLines_some]
      cases held : store.hit? cache text with
      | some shared =>
          refine ⟨.ok shared, store, fun log => ?_⟩
          rw [CacheM.exec, run_parse_of_hit log held]
          exact ⟨rfl, linesOf_push log _⟩
      | none =>
          cases parsed : Version.parse text with
          | ok version =>
              refine ⟨.ok ⟨version, store.tickets⟩,
                { store with tickets := store.tickets + 1 }.put cache ⟨version, store.tickets⟩,
                fun log => ?_⟩
              rw [CacheM.exec, run_parse_of_miss log held, parsed]
              exact ⟨rfl, linesOf_push log _⟩
          | error e =>
              refine ⟨.error e, store, fun log => ?_⟩
              rw [CacheM.exec, run_parse_of_miss log held, parsed]
              exact ⟨rfl, linesOf_push log _⟩

end SharedVersion

end DescriptorCodec
