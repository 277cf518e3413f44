import Mathlib.Data.List.Induction
import Mathlib.Tactic.ByContra
import DescriptorCodec.Proofs.Version.Caching

/-!
# What a cache holds, and who shares it

A cache is used by parsing through it and by clearing it. A run of such calls leaves a history:
which texts were parsed, to which objects, and when the cache was cleared. The history alone says
what the cache holds, which is what was parsed last since it was last cleared, and which parses
returned one and the same object.

Two objects are the same if their tickets are. The converse parts need that a miss draws a ticket
that no object has: all tickets that were drawn are below the number of the next one. So an object
that has left the cache never comes back.
-/

namespace DescriptorCodec

namespace CacheRun

/-- What is done with a cache. -/
inductive Call where
  | parse (text : String)
  | clear

/-- What came of a call. -/
inductive Step where
  | parsed (text : String) (shared : SharedVersion)
  | failed (text : String) (error : Error)
  | cleared

/-- The store and the log at some time of a run. -/
structure State where
  store : VersionStore
  log : Array Event

variable {cache : CacheId}

/-- What the cache holds. -/
def State.held? (state : State) (cache : CacheId) : Option SharedVersion :=
  state.store.cached? cache

/-- What comes of a call, and what it leaves. -/
def perform (cache : CacheId) (state : State) : Call → Step × State
  | .parse text =>
    match (SharedVersion.parse (some cache) text).exec state.store state.log with
    | ((.ok shared, store), log) => (.parsed text shared, ⟨store, log⟩)
    | ((.error error, store), log) => (.failed text error, ⟨store, log⟩)
  | .clear => (.cleared, { state with store := state.store.clear cache })

/-- What the calls leave. -/
def after (cache : CacheId) (state : State) (calls : List Call) : State :=
  calls.foldl (fun state call => (perform cache state call).2) state

/-- What came of the calls, in order. -/
def history (cache : CacheId) (state : State) : List Call → List Step
  | [] => []
  | call :: calls =>
    let (step, next) := perform cache state call
    step :: history cache next calls

/-- The object was parsed from the text, and since then nothing but failed parses happened. -/
def Recent (steps : List Step) (text : String) (shared : SharedVersion) : Prop :=
  ∃ before later, steps = before ++ .parsed text shared :: later ∧
    ∀ step ∈ later, ∃ text error, step = .failed text error

/-- No parse has succeeded since the cache was last cleared. -/
def Idle (steps : List Step) : Prop :=
  ∀ before text shared later, steps = before ++ .parsed text shared :: later → .cleared ∈ later

/-- The cache was not cleared, and whatever was parsed was parsed from the text. -/
def Keeps (text : String) (steps : List Step) : Prop :=
  .cleared ∉ steps ∧ ∀ other shared, .parsed other shared ∈ steps → other = text

/-- The call returned the very object that the cache held. -/
def ReturnsHeld (held : Option SharedVersion) (step : Step) : Prop :=
  ∃ text shared returned, held = some shared ∧ step = .parsed text returned ∧
    returned.ticket = shared.ticket

/-! ### One call -/

theorem tickets_empty : VersionStore.empty.tickets = 0 := rfl

theorem tickets_put (store : VersionStore) (shared : SharedVersion) :
    (store.put cache shared).tickets = store.tickets := rfl

/-- What a parse does depends on what the cache holds and on the parser. -/
theorem perform_parse (cache : CacheId) (state : State) (text : String) :
    perform cache state (.parse text) =
      match state.store.hit? cache text, Version.parse text with
      | some shared, _ => (.parsed text shared, ⟨state.store, state.log.push (.cacheHit text)⟩)
      | none, .ok version =>
        let shared : SharedVersion := ⟨version, state.store.tickets⟩
        (.parsed text shared, ⟨{ state.store with tickets := state.store.tickets + 1 }.put cache
          shared, state.log.push (.cacheMiss text)⟩)
      | none, .error error =>
        (.failed text error, ⟨state.store, state.log.push (.cacheMiss text)⟩) := by
  cases hit : state.store.hit? cache text with
  | some shared =>
      simp only [perform, CacheM.exec, SharedVersion.run_parse_of_hit state.log hit]
  | none =>
      have run := SharedVersion.run_parse_of_miss state.log hit
      cases parsed : Version.parse text with
      | ok version =>
          rw [parsed] at run
          simp only [perform, CacheM.exec, run]
      | error error =>
          rw [parsed] at run
          simp only [perform, CacheM.exec, run]

/-- A parse finds the text in the cache, or parses it and puts it there, or fails. -/
theorem parse_cases (cache : CacheId) (state : State) (text : String) :
    (∃ shared, state.held? cache = some shared ∧ shared.version.source = text ∧
      perform cache state (.parse text) =
        (.parsed text shared, ⟨state.store, state.log.push (.cacheHit text)⟩)) ∨
    (∃ shared : SharedVersion, shared.version.source = text ∧
      shared.ticket = state.store.tickets ∧
      (∀ held, state.held? cache = some held → held.version.source ≠ text) ∧
      perform cache state (.parse text) =
        (.parsed text shared,
          ⟨{ state.store with tickets := state.store.tickets + 1 }.put cache shared,
            state.log.push (.cacheMiss text)⟩)) ∨
    ∃ error, perform cache state (.parse text) =
      (.failed text error, ⟨state.store, state.log.push (.cacheMiss text)⟩) := by
  rw [perform_parse]
  cases hit : state.store.hit? cache text with
  | some shared =>
      obtain ⟨held, source⟩ := VersionStore.hit?_eq_some_iff.mp hit
      exact .inl ⟨shared, held, source, rfl⟩
  | none =>
      cases parsed : Version.parse text with
      | ok version =>
          refine .inr (.inl ⟨_, Version.source_of_parse parsed, rfl, ?_, rfl⟩)
          intro held found source
          rw [VersionStore.hit?_eq_some_iff.mpr ⟨found, source⟩] at hit
          cases hit
      | error error => exact .inr (.inr ⟨error, rfl⟩)

@[simp] theorem held?_put (store : VersionStore) (log : Array Event) (shared : SharedVersion) :
    State.held? ⟨store.put cache shared, log⟩ cache = some shared := by
  simp [State.held?]

@[simp] theorem held?_clear (store : VersionStore) (log : Array Event) :
    State.held? ⟨store.clear cache, log⟩ cache = none := by
  simp [State.held?]

/-- The tickets that the cache holds have been drawn. -/
def State.Drawn (state : State) (cache : CacheId) : Prop :=
  ∀ shared, state.held? cache = some shared → shared.ticket < state.store.tickets

theorem State.Drawn.perform {state : State} (drawn : state.Drawn cache) (call : Call) :
    (CacheRun.perform cache state call).2.Drawn cache := by
  cases call with
  | parse text =>
      rcases parse_cases cache state text with ⟨_, -, -, run⟩ | ⟨new, -, ticket, -, run⟩ | ⟨_, run⟩
      · rw [run]
        exact drawn
      · rw [run]
        intro shared held
        rw [held?_put] at held
        cases held
        rw [ticket]
        exact Nat.lt_succ_self _
      · rw [run]
        exact drawn
  | clear =>
      intro shared held
      rw [CacheRun.perform, held?_clear] at held
      cases held

/-! ### Runs -/

theorem after_append_singleton (state : State) (calls : List Call) (call : Call) :
    after cache state (calls ++ [call]) = (perform cache (after cache state calls) call).2 := by
  simp [after]

theorem history_cons (state : State) (call : Call) (calls : List Call) :
    history cache state (call :: calls) =
      (perform cache state call).1 :: history cache (perform cache state call).2 calls := rfl

theorem history_append_singleton (state : State) (calls : List Call) (call : Call) :
    history cache state (calls ++ [call]) =
      history cache state calls ++ [(perform cache (after cache state calls) call).1] := by
  induction calls generalizing state with
  | nil => rfl
  | cons first calls ih => exact congrArg _ (ih _)

/-- A history that is cut in front of a step is the history of two runs and the call between. -/
theorem exists_call_of_history {state : State} {calls : List Call} {before later : List Step}
    {step : Step} (cut : history cache state calls = before ++ step :: later) :
    ∃ earlier call rest, history cache state earlier = before ∧
      (perform cache (after cache state earlier) call).1 = step ∧
      history cache (perform cache (after cache state earlier) call).2 rest = later := by
  induction before generalizing state calls with
  | nil =>
      cases calls with
      | nil => cases cut
      | cons call calls =>
          rw [history_cons] at cut
          obtain ⟨same, rest⟩ := List.cons.inj cut
          exact ⟨[], call, calls, rfl, same, rest⟩
  | cons first before ih =>
      cases calls with
      | nil => cases cut
      | cons call calls =>
          rw [history_cons, List.cons_append] at cut
          obtain ⟨same, rest⟩ := List.cons.inj cut
          obtain ⟨earlier, next, others, front, here, back⟩ := ih rest
          refine ⟨call :: earlier, next, others, ?_, here, back⟩
          rw [history_cons, same, front]

/-- What is known of a step of a parse. -/
theorem parsed_eq {state : State} {call : Call} {text : String} {shared : SharedVersion}
    (step : (perform cache state call).1 = .parsed text shared) : call = .parse text := by
  cases call with
  | parse other =>
      rcases parse_cases cache state other with ⟨_, -, -, run⟩ | ⟨_, -, -, -, run⟩ | ⟨_, run⟩
      · rw [run] at step
        cases step
        rfl
      · rw [run] at step
        cases step
        rfl
      · rw [run] at step
        cases step
  | clear => cases step

/-- The object that a parse returned is in the cache, and its source is the text. -/
theorem held?_of_parsed {state : State} {call : Call} {text : String} {shared : SharedVersion}
    (step : (perform cache state call).1 = .parsed text shared) :
    (perform cache state call).2.held? cache = some shared ∧ shared.version.source = text := by
  cases parsed_eq step
  rcases parse_cases cache state text with ⟨_, held, source, run⟩ | ⟨_, source, -, -, run⟩ |
    ⟨_, run⟩
  · rw [run] at step ⊢
    cases step
    exact ⟨held, source⟩
  · rw [run] at step ⊢
    cases step
    exact ⟨held?_put _ _ _, source⟩
  · rw [run] at step
    cases step

theorem drawn_after {state : State} (drawn : state.Drawn cache) (calls : List Call) :
    (after cache state calls).Drawn cache := by
  induction calls generalizing state with
  | nil => exact drawn
  | cons call calls ih => exact ih (drawn.perform call)

/-! ### What the cache holds -/

theorem Recent.append_failed {steps : List Step} {text : String} {shared : SharedVersion}
    (recent : Recent steps text shared) (other : String) (error : Error) :
    Recent (steps ++ [.failed other error]) text shared := by
  obtain ⟨before, later, rfl, failed⟩ := recent
  refine ⟨before, later ++ [.failed other error], by simp, ?_⟩
  intro step member
  rcases List.mem_append.mp member with member | member
  · exact failed step member
  · exact ⟨other, error, List.mem_singleton.mp member⟩

theorem Recent.not_idle {steps : List Step} {text : String} {shared : SharedVersion}
    (recent : Recent steps text shared) : ¬ Idle steps := by
  obtain ⟨before, later, cut, failed⟩ := recent
  intro idle
  obtain ⟨other, error, impossible⟩ := failed _ (idle before text shared later cut)
  cases impossible

/-- A step that is no successful parse belongs to what came after the last one. -/
theorem later_of_append_singleton {steps before later : List Step} {step : Step} {text : String}
    {shared : SharedVersion} (other : step ≠ .parsed text shared)
    (cut : steps ++ [step] = before ++ .parsed text shared :: later) :
    ∃ front, later = front ++ [step] ∧ steps = before ++ .parsed text shared :: front := by
  rcases List.eq_nil_or_concat later with rfl | ⟨front, last, rfl⟩
  · obtain ⟨-, same⟩ := List.append_inj' cut rfl
    exact absurd (List.singleton_inj.mp same) other
  · rw [List.concat_eq_append, ← List.cons_append, ← List.append_assoc] at cut
    obtain ⟨front', same⟩ := List.append_inj' cut rfl
    cases same
    exact ⟨front, by simp, front'⟩

theorem Idle.append_failed {steps : List Step} (idle : Idle steps) (other : String)
    (error : Error) : Idle (steps ++ [.failed other error]) := by
  intro before text shared later cut
  obtain ⟨front, rfl, cut'⟩ := later_of_append_singleton (by simp) cut
  exact List.mem_append_left _ (idle before text shared front cut')

theorem idle_append_cleared (steps : List Step) : Idle (steps ++ [.cleared]) := by
  intro before text shared later cut
  obtain ⟨front, rfl, -⟩ := later_of_append_singleton (by simp) cut
  exact List.mem_append_right _ (List.mem_singleton_self _)

/-- What the cache holds was parsed last, and it is empty if there is no such object. -/
def Holds (steps : List Step) : Option SharedVersion → Prop
  | none => Idle steps
  | some shared => Recent steps shared.version.source shared

theorem Holds.append_failed {steps : List Step} {held : Option SharedVersion}
    (holds : Holds steps held) (text : String) (error : Error) :
    Holds (steps ++ [.failed text error]) held := by
  cases held with
  | none => exact Idle.append_failed holds text error
  | some shared => exact Recent.append_failed holds text error

/-- The induction is on the calls from the last one back, as the cache depends on what came last. -/
theorem holds_after {start : State} (empty : start.held? cache = none) (calls : List Call) :
    Holds (history cache start calls) ((after cache start calls).held? cache) := by
  induction calls using List.reverseRecOn with
  | nil =>
      have nothing : (after cache start []).held? cache = none := empty
      rw [nothing]
      intro before text shared later cut
      cases before <;> cases cut
  | append_singleton calls call ih =>
      rw [history_append_singleton, after_append_singleton]
      cases call with
      | parse text =>
          have parsed (shared : SharedVersion) (source : shared.version.source = text) :
              Holds (history cache start calls ++ [.parsed text shared]) (some shared) := by
            refine ⟨history cache start calls, [], ?_, fun _ impossible => by cases impossible⟩
            rw [source]
          rcases parse_cases cache (after cache start calls) text with
            ⟨shared, held, source, run⟩ | ⟨shared, source, -, -, run⟩ | ⟨error, run⟩
          · rw [run]
            change Holds _ ((after cache start calls).held? cache)
            rw [held]
            exact parsed shared source
          · rw [run, held?_put]
            exact parsed shared source
          · rw [run]
            exact ih.append_failed text error
      | clear =>
          rw [perform, held?_clear]
          exact idle_append_cleared _

/-! ### Who shares an object -/

/-- The object is in the cache as long as the steps keep it. Once they do not, it never returns,
because objects that are made later have later tickets. -/
def Follows (object : SharedVersion) (steps : List Step) (state : State) (cache : CacheId) :
    Prop :=
  object.ticket < state.store.tickets ∧
    (Keeps object.version.source steps → state.held? cache = some object) ∧
    (¬ Keeps object.version.source steps →
      ∀ held, state.held? cache = some held → held.ticket ≠ object.ticket)

theorem keeps_append_singleton {text : String} {steps : List Step} {step : Step} :
    Keeps text (steps ++ [step]) ↔ Keeps text steps ∧ Keeps text [step] := by
  simp only [Keeps, List.mem_append]
  constructor
  · rintro ⟨uncleared, same⟩
    exact ⟨⟨fun member => uncleared (.inl member), fun other shared member =>
      same other shared (.inl member)⟩, fun member => uncleared (.inr member),
      fun other shared member => same other shared (.inr member)⟩
  · rintro ⟨⟨uncleared, same⟩, uncleared', same'⟩
    exact ⟨fun member => member.elim uncleared uncleared', fun other shared member =>
      member.elim (same other shared) (same' other shared)⟩

theorem keeps_parsed {text other : String} {shared : SharedVersion} :
    Keeps text [.parsed other shared] ↔ other = text := by
  simp [Keeps]

theorem keeps_failed (text other : String) (error : Error) : Keeps text [.failed other error] := by
  simp [Keeps]

theorem not_keeps_cleared (text : String) : ¬ Keeps text [.cleared] := by
  simp [Keeps]

theorem Follows.perform {object : SharedVersion} {steps : List Step} {state : State}
    (follows : Follows object steps state cache) (call : Call) :
    Follows object (steps ++ [(CacheRun.perform cache state call).1])
      (CacheRun.perform cache state call).2 cache := by
  obtain ⟨drawn, kept, lost⟩ := follows
  unfold Follows
  rw [keeps_append_singleton]
  cases call with
  | parse text =>
      rcases parse_cases cache state text with ⟨shared, held, source, run⟩ |
        ⟨shared, source, ticket, absent, run⟩ | ⟨error, run⟩
      · -- What is in the cache stays there, and if that is the object, the text is its own.
        rw [run, keeps_parsed]
        refine ⟨drawn, fun keeps => kept keeps.1, fun other => ?_⟩
        refine lost fun keeps => other ⟨keeps, ?_⟩
        have same := (kept keeps).symm.trans held
        cases same
        exact source.symm
      · -- What is put into the cache has a ticket of its own.
        rw [run, keeps_parsed]
        refine ⟨Nat.lt_succ_of_lt drawn, fun keeps => ?_, fun _ held found => ?_⟩
        · exact absurd keeps.2.symm (absent object (kept keeps.1))
        · rw [held?_put] at found
          cases found
          rw [ticket]
          exact Nat.ne_of_gt drawn
      · rw [run]
        refine ⟨drawn, fun keeps => kept keeps.1, fun other => ?_⟩
        exact lost fun keeps => other ⟨keeps, keeps_failed _ _ _⟩
  | clear =>
      refine ⟨drawn, fun keeps => absurd keeps.2 (not_keeps_cleared _), fun _ held found => ?_⟩
      rw [CacheRun.perform, held?_clear] at found
      cases found

theorem Follows.after {object : SharedVersion} {start : State}
    (held : start.held? cache = some object) (drawn : start.Drawn cache) (calls : List Call) :
    Follows object (history cache start calls) (after cache start calls) cache := by
  induction calls using List.reverseRecOn with
  | nil =>
      refine ⟨drawn object held, fun _ => held, fun lost => absurd ?_ lost⟩
      exact ⟨List.not_mem_nil, fun _ _ impossible => absurd impossible List.not_mem_nil⟩
  | append_singleton calls call ih =>
      rw [history_append_singleton, after_append_singleton]
      exact ih.perform call

/-- A later parse returns the object exactly if it is still there and was parsed from the text. -/
theorem Follows.ticket_eq_iff {object returned : SharedVersion} {steps : List Step}
    {state : State} {call : Call} {text : String} (follows : Follows object steps state cache)
    (step : (CacheRun.perform cache state call).1 = .parsed text returned) :
    object.ticket = returned.ticket ↔
      Keeps object.version.source steps ∧ text = object.version.source := by
  obtain ⟨drawn, kept, lost⟩ := follows
  cases parsed_eq step
  rcases parse_cases cache state text with ⟨shared, held, source, run⟩ |
    ⟨shared, source, ticket, absent, run⟩ | ⟨error, run⟩
  · rw [run] at step
    cases step
    constructor
    · intro same
      have keeps : Keeps object.version.source steps := by
        by_contra other
        exact lost other returned held same.symm
      have here := (kept keeps).symm.trans held
      cases here
      exact ⟨keeps, source.symm⟩
    · rintro ⟨keeps, -⟩
      have here := (kept keeps).symm.trans held
      cases here
      rfl
  · rw [run] at step
    cases step
    constructor
    · intro same
      rw [same, ticket] at drawn
      exact absurd drawn (Nat.lt_irrefl _)
    · rintro ⟨keeps, same⟩
      exact absurd same.symm (absent object (kept keeps))
  · rw [run] at step
    cases step

/-! ### Reports -/

/-- A parse that returns what the cache holds is a hit, and every other one is a miss. -/
theorem log_perform {state : State} (drawn : state.Drawn cache) (text : String) :
    (ReturnsHeld (state.held? cache) (perform cache state (.parse text)).1 →
      (perform cache state (.parse text)).2.log = state.log.push (.cacheHit text)) ∧
    (¬ ReturnsHeld (state.held? cache) (perform cache state (.parse text)).1 →
      (perform cache state (.parse text)).2.log = state.log.push (.cacheMiss text)) := by
  rcases parse_cases cache state text with ⟨shared, held, source, run⟩ |
    ⟨shared, source, ticket, absent, run⟩ | ⟨error, run⟩
  · rw [run, held]
    exact ⟨fun _ => rfl, fun other => absurd ⟨text, shared, shared, rfl, rfl, rfl⟩ other⟩
  · rw [run]
    refine ⟨?_, fun _ => rfl⟩
    rintro ⟨other, old, returned, held, same, tickets⟩
    cases same
    have older := drawn old held
    rw [← tickets, ticket] at older
    exact absurd older (Nat.lt_irrefl _)
  · rw [run]
    refine ⟨?_, fun _ => rfl⟩
    rintro ⟨other, old, returned, -, impossible, -⟩
    cases impossible

/-- After any calls on a cache that is empty at first, it is empty exactly if no parse has succeeded
since it was last cleared, and else it holds what was parsed last. Two parses returned the same
object exactly if the cache was not cleared in between and all that was parsed from the first to
the second was parsed from the same text. The next parse reports a hit if it returns what the
cache holds, and else a miss; if it fails, the caches are as before. -/
theorem held_after {cache : CacheId} {start : State} (empty : start.held? cache = none)
    (calls : List Call) :
    let steps := history cache start calls
    let state := after cache start calls
    (state.held? cache = none ↔ Idle steps) ∧
    (∀ shared, state.held? cache = some shared → Recent steps shared.version.source shared) ∧
    (∀ before text shared between text' shared' later,
      steps = before ++ .parsed text shared :: (between ++ .parsed text' shared' :: later) →
      (shared.ticket = shared'.ticket ↔ Keeps text between ∧ text' = text)) ∧
    (∀ text,
      (ReturnsHeld (state.held? cache) (perform cache state (.parse text)).1 →
        (perform cache state (.parse text)).2.log = state.log.push (.cacheHit text)) ∧
      (¬ ReturnsHeld (state.held? cache) (perform cache state (.parse text)).1 →
        (perform cache state (.parse text)).2.log = state.log.push (.cacheMiss text)) ∧
      ∀ error, (perform cache state (.parse text)).1 = .failed text error →
        (perform cache state (.parse text)).2.store = state.store) ∧
    (perform cache state .clear).2.log = state.log := by
  intro steps state
  have drawn : start.Drawn cache := by
    intro shared held
    rw [empty] at held
    cases held
  have holds : Holds steps (state.held? cache) := holds_after empty calls
  refine ⟨?_, ?_, ?_, ?_, rfl⟩
  · cases held : state.held? cache with
    | none =>
        rw [held] at holds
        exact ⟨fun _ => holds, fun _ => rfl⟩
    | some shared =>
        rw [held] at holds
        have active : ¬ Idle steps := Recent.not_idle holds
        exact ⟨fun impossible => (by cases impossible), fun idle => absurd idle active⟩
  · intro shared held
    rw [held] at holds
    exact holds
  · intro before text shared between text' shared' later cut
    obtain ⟨earlier, call, rest, -, first, cut⟩ := exists_call_of_history cut
    obtain ⟨middle, call', rest', rfl, second, -⟩ := exists_call_of_history cut
    obtain ⟨held, rfl⟩ := held?_of_parsed first
    have drawn' := (drawn_after drawn earlier).perform call
    exact (Follows.after held drawn' middle).ticket_eq_iff second
  · intro text
    have reported := log_perform (drawn_after drawn calls) text
    refine ⟨reported.1, reported.2, fun error failed => ?_⟩
    rcases parse_cases cache state text with ⟨_, -, -, run⟩ | ⟨_, -, -, -, run⟩ | ⟨_, run⟩
    · rw [run] at failed
      cases failed
    · rw [run] at failed
      cases failed
    · rw [run]

/-- A failed parse in between leaves the object shared; an equal version in between does not. -/
theorem held_after_reparsed :
    ∃ (start : State) (calls : List Call) (a b c d : SharedVersion) (error : Error),
      start.held? .shared = none ∧
      history .shared start calls = [.parsed "1" a, .failed "x" error, .parsed "1" b,
        .parsed "1.0" c, .parsed "1" d] ∧
      a.ticket = b.ticket ∧ a.ticket ≠ d.ticket := by
  let start : State := ⟨.empty, #[]⟩
  let calls : List Call := [.parse "1", .parse "x", .parse "1", .parse "1.0", .parse "1"]
  let one (ticket : Nat) : SharedVersion := ⟨⟨"1", [.number 1], [], []⟩, ticket⟩
  let other : SharedVersion := ⟨⟨"1.0", [.number 1, .number 0], [], []⟩, 1⟩
  let error : Error := .invalidVersion "x" .noLeadingNumber
  have empty : start.held? .shared = none := VersionStore.cached?_empty _
  have steps : history .shared start calls = [.parsed "1" (one 0), .failed "x" error,
      .parsed "1" (one 0), .parsed "1.0" other, .parsed "1" (one 2)] := by
    have parsed : Version.parse "1" = .ok (one 0).version := rfl
    have parsed' : Version.parse "1.0" = .ok other.version := rfl
    have failed : Version.parse "x" = .error error := rfl
    simp [calls, start, history, perform_parse, VersionStore.hit?, parsed, parsed', failed, one,
      other, Option.filter, tickets_empty, tickets_put]
  have shared := (held_after empty calls).2.2.1
  refine ⟨start, calls, one 0, one 0, other, one 2, error, empty, steps, ?_, ?_⟩
  · refine (shared [] "1" _ [.failed "x" error] "1" _ _ steps).mpr ⟨?_, rfl⟩
    exact keeps_failed _ _ _
  · intro same
    have keeps := ((shared [] "1" _ [.failed "x" error, .parsed "1" (one 0), .parsed "1.0" other]
      "1" _ _ steps).mp same).1
    have equal := keeps.2 "1.0" other (by simp)
    exact absurd equal (by decide)

end CacheRun

end DescriptorCodec
