import DescriptorCodec.Version.Store

/-!
# What caches cannot change

A cache slot holds what parsing the slot's own text gives. A store in which this is so is sound,
and every parse through a sound store returns what parsing afresh would return, up to the ticket
that says which parse made it.

`CacheM.Spec` states what a computation returns on every sound store. `CacheM.Follows` compares
two computations that run on two sound stores of their own: the second one returns what the first
one returns, unless the first is lost to an error that the second need not share.
-/

namespace DescriptorCodec

/-- The outcome of a computation, the store it leaves and the log it leaves. -/
def CacheM.exec {α : Type} (action : CacheM α) (store : VersionStore) (log : Array Event) :
    (Except Error α × VersionStore) × Array Event :=
  (action.run.run store).run log

def CacheM.result {α : Type} (action : CacheM α) (store : VersionStore) (log : Array Event) :
    Except Error α :=
  (action.exec store log).1.1

namespace VersionStore

/-- Every cached version is what its own text is parsed to. -/
def Sound (store : VersionStore) : Prop :=
  ∀ cache shared, store.cached? cache = some shared →
    Version.parse shared.version.source = .ok shared.version

theorem sound_empty : empty.Sound := by
  intro cache shared held
  rw [cached?_empty] at held
  cases held

theorem Sound.put {store : VersionStore} (sound : store.Sound) (cache : CacheId)
    {shared : SharedVersion} (h : Version.parse shared.version.source = .ok shared.version) :
    (store.put cache shared).Sound := by
  intro other held found
  rw [cached?_put] at found
  split at found
  · cases found
    exact h
  · exact sound other held found

theorem Sound.clear {store : VersionStore} (sound : store.Sound) (cache : CacheId) :
    (store.clear cache).Sound := by
  intro other held found
  rw [cached?_clear] at found
  split at found
  · cases found
  · exact sound other held found

end VersionStore

namespace CacheM

variable {α β γ δ : Type}

theorem exec_bind (action : CacheM α) (next : α → CacheM β) (store : VersionStore)
    (log : Array Event) :
    (action >>= next).exec store log =
      match action.exec store log with
      | ((.ok value, store'), log') => (next value).exec store' log'
      | ((.error error, store'), log') => ((.error error, store'), log') := by
  simp only [exec, ExceptT.run_bind, StateT.run_bind]
  rcases (action.run.run store).run log with ⟨⟨_ | value, store'⟩, log'⟩
  · rfl
  · rfl

@[simp] theorem exec_pure (value : α) (store : VersionStore) (log : Array Event) :
    (pure value : CacheM α).exec store log = ((.ok value, store), log) := rfl

@[simp] theorem exec_ofExcept (outcome : Except Error α) (store : VersionStore)
    (log : Array Event) :
    (MonadExcept.ofExcept outcome : CacheM α).exec store log = ((outcome, store), log) := by
  cases outcome <;> rfl

/-- On every sound store, `post` holds of what the computation returns and `fault` of its error;
the store it leaves is sound. -/
def Spec (action : CacheM α) (post : α → Prop) (fault : Error → Prop) : Prop :=
  ∀ store : VersionStore, store.Sound → ∀ log,
    (action.exec store log).1.2.Sound ∧
      match action.result store log with
      | .ok value => post value
      | .error error => fault error

namespace Spec

variable {action : CacheM α} {post : α → Prop} {fault : Error → Prop}

theorem pure {value : α} (h : post value) : Spec (Pure.pure value) post fault :=
  fun _ sound _ => ⟨sound, h⟩

theorem ofExcept {outcome : Except Error α} (ok : ∀ value, outcome = .ok value → post value)
    (error : ∀ e, outcome = .error e → fault e) :
    Spec (MonadExcept.ofExcept outcome) post fault := by
  intro store sound log
  rw [result, exec_ofExcept]
  refine ⟨sound, ?_⟩
  cases outcome with
  | ok value => exact ok value rfl
  | error e => exact error e rfl

theorem throw {e : Error} (h : fault e) : Spec (MonadExcept.throw e : CacheM α) post fault :=
  fun _ sound _ => ⟨sound, h⟩

theorem traced {action : Traced α} (h : ∀ log, post (action.run log).1) :
    Spec (liftM action : CacheM α) post fault :=
  fun _ sound log => ⟨sound, h log⟩

theorem report (event : Event) :
    Spec (liftM (DescriptorCodec.report event) : CacheM Unit) (fun _ => True) fault :=
  traced fun _ => trivial

theorem mono {post' : α → Prop} {fault' : Error → Prop} (h : Spec action post fault)
    (weaken : ∀ value, post value → post' value) (excuse : ∀ e, fault e → fault' e) :
    Spec action post' fault' := by
  intro store sound log
  obtain ⟨sound', outcome⟩ := h store sound log
  refine ⟨sound', ?_⟩
  split
  · next value same =>
    rw [same] at outcome
    exact weaken value outcome
  · next e same =>
    rw [same] at outcome
    exact excuse e outcome

/-- What a computation is specified to return is what it returns. -/
theorem of_ok (h : Spec action post fault) {store : VersionStore} (sound : store.Sound)
    {log : Array Event} {value : α} (ok : action.result store log = .ok value) : post value := by
  have outcome := (h store sound log).2
  rw [ok] at outcome
  exact outcome

theorem bind {next : α → CacheM β} {post' : β → Prop} (first : Spec action post fault)
    (second : ∀ value, post value → Spec (next value) post' fault) :
    Spec (action >>= next) post' fault := by
  intro store sound log
  obtain ⟨sound', outcome⟩ := first store sound log
  rw [result] at outcome
  rw [result, exec_bind]
  generalize action.exec store log = execution at sound' outcome
  obtain ⟨⟨_ | value, store'⟩, log'⟩ := execution
  · exact ⟨sound', outcome⟩
  · exact second value outcome store' sound' log'

theorem map {f : α → β} {post' : β → Prop} (first : Spec action post fault)
    (h : ∀ value, post value → post' (f value)) : Spec (f <$> action) post' fault := by
  rw [map_eq_pure_bind]
  exact first.bind fun value holds => Spec.pure (h value holds)

/-- A computation whose errors are impossible returns a value. -/
theorem exists_ok (h : Spec action post fun _ => False) {store : VersionStore}
    (sound : store.Sound) (log : Array Event) :
    ∃ value, action.result store log = .ok value ∧ post value := by
  have outcome := (h store sound log).2
  cases given : action.result store log with
  | ok value =>
      rw [given] at outcome
      exact ⟨value, rfl, outcome⟩
  | error e =>
      rw [given] at outcome
      cases outcome

/-- What holds of the value carried along may depend on the elements that are still to come. -/
theorem foldlM {step : β → α → CacheM β} (inv : List α → β → Prop)
    (each : ∀ x xs value, inv (x :: xs) value → Spec (step value x) (inv xs) fault)
    {xs : List α} {value : β} (start : inv xs value) :
    Spec (xs.foldlM step value) (inv []) fault := by
  induction xs generalizing value with
  | nil => exact Spec.pure start
  | cons x xs ih =>
      rw [List.foldlM_cons]
      exact (each x xs value start).bind fun next holds => ih holds

end Spec

/-- Two outcomes are the same error, or values that are related. -/
inductive Related (rel : α → β → Prop) : Except Error α → Except Error β → Prop
  | ok {a : α} {b : β} (h : rel a b) : Related rel (.ok a) (.ok b)
  | error (e : Error) : Related rel (.error e) (.error e)

theorem Related.refl (outcome : Except Error α) : Related (fun a b => a = b) outcome outcome := by
  cases outcome with
  | ok value => exact .ok rfl
  | error e => exact .error e

/-- The second computation gives what the first one gives, each on a sound store of its own,
unless the first one ends in an error that is `lost`. -/
def Follows (lost : Error → Prop) (rel : α → β → Prop) (first : CacheM α) (second : CacheM β) :
    Prop :=
  ∀ s t : VersionStore, s.Sound → t.Sound → ∀ log log',
    (∃ e, first.result s log = .error e ∧ lost e) ∨
      ((first.exec s log).1.2.Sound ∧ (second.exec t log').1.2.Sound ∧
        Related rel (first.result s log) (second.result t log'))

namespace Follows

variable {lost : Error → Prop} {rel : α → β → Prop}

theorem pure {a : α} {b : β} (h : rel a b) : Follows lost rel (Pure.pure a) (Pure.pure b) :=
  fun _ _ soundS soundT _ _ => .inr ⟨soundS, soundT, .ok h⟩

theorem ofExcept {x : Except Error α} {y : Except Error β}
    (h : (∃ e, x = .error e ∧ lost e) ∨ Related rel x y) :
    Follows lost rel (MonadExcept.ofExcept x) (MonadExcept.ofExcept y) := by
  intro s t soundS soundT log log'
  simp only [result, exec_ofExcept]
  exact h.imp_right fun related => ⟨soundS, soundT, related⟩

theorem throw (e : Error) : Follows lost rel (MonadExcept.throw e) (MonadExcept.throw e) :=
  fun _ _ soundS soundT _ _ => .inr ⟨soundS, soundT, .error e⟩

theorem traced {x : Traced α} {y : Traced β} (h : ∀ log log', rel (x.run log).1 (y.run log').1) :
    Follows lost rel (liftM x : CacheM α) (liftM y : CacheM β) :=
  fun _ _ soundS soundT log log' => .inr ⟨soundS, soundT, .ok (h log log')⟩

theorem report (event event' : Event) :
    Follows lost (fun _ _ => True) (liftM (DescriptorCodec.report event) : CacheM Unit)
      (liftM (DescriptorCodec.report event') : CacheM Unit) :=
  traced fun _ _ => trivial

theorem bind {first : CacheM α} {second : CacheM β} {next : α → CacheM γ} {next' : β → CacheM δ}
    {rel' : γ → δ → Prop} (h : Follows lost rel first second)
    (h' : ∀ a b, rel a b → Follows lost rel' (next a) (next' b)) :
    Follows lost rel' (first >>= next) (second >>= next') := by
  intro s t soundS soundT log log'
  have step := h s t soundS soundT log log'
  simp only [result, exec_bind] at step ⊢
  generalize first.exec s log = one at step
  generalize second.exec t log' = two at step
  obtain ⟨⟨x, s'⟩, log₁⟩ := one
  obtain ⟨⟨y, t'⟩, log₂⟩ := two
  rcases step with ⟨e, same, lose⟩ | ⟨soundS', soundT', related⟩
  · dsimp only at same
    subst same
    exact .inl ⟨e, rfl, lose⟩
  · cases related with
    | ok holds => exact h' _ _ holds s' t' soundS' soundT' log₁ log₂
    | error e => exact .inr ⟨soundS', soundT', .error e⟩

theorem map {first : CacheM α} {second : CacheM β} {f : α → γ} {g : β → δ} {rel' : γ → δ → Prop}
    (h : Follows lost rel first second) (h' : ∀ a b, rel a b → rel' (f a) (g b)) :
    Follows lost rel' (f <$> first) (g <$> second) := by
  rw [map_eq_pure_bind, map_eq_pure_bind]
  exact h.bind fun a b holds => Follows.pure (h' a b holds)

theorem foldlM {step : β → α → CacheM β} {step' : γ → α → CacheM γ}
    (inv : List α → β → γ → Prop)
    (each : ∀ x xs b c, inv (x :: xs) b c → Follows lost (inv xs) (step b x) (step' c x))
    {xs : List α} {b : β} {c : γ} (start : inv xs b c) :
    Follows lost (inv []) (xs.foldlM step b) (xs.foldlM step' c) := by
  induction xs generalizing b c with
  | nil => exact Follows.pure start
  | cons x xs ih =>
      rw [List.foldlM_cons, List.foldlM_cons]
      exact (each x xs b c start).bind fun b' c' holds => ih holds

end Follows

end CacheM

namespace SharedVersion

open VersionStore

/-- The version without the ticket of the parse that made it. -/
def untagged (shared : SharedVersion) : SharedVersion :=
  { shared with ticket := 0 }

theorem untagged_eq_iff {a b : SharedVersion} :
    a.untagged = b.untagged ↔ a.version = b.version := by
  cases a
  cases b
  simp [untagged]

/-- Parsing through any cache of a sound store gives what parsing afresh gives. -/
theorem exec_parse {store : VersionStore} (sound : store.Sound) (cache : Option CacheId)
    (text : String) (log : Array Event) :
    ((parse cache text).exec store log).1.2.Sound ∧
      ((parse cache text).result store log).map SharedVersion.version = Version.parse text := by
  cases cache with
  | none =>
      rw [CacheM.result, CacheM.exec, run_parse_none, run_parseFresh]
      cases Version.parse text with
      | ok version => exact ⟨sound, rfl⟩
      | error e => exact ⟨sound, rfl⟩
  | some cache =>
      rw [CacheM.result, CacheM.exec]
      cases held : store.hit? cache text with
      | some shared =>
          obtain ⟨found, same⟩ := hit?_eq_some_iff.mp held
          have parsed := sound cache shared found
          rw [run_parse_of_hit log held]
          refine ⟨sound, ?_⟩
          rw [← same, parsed]
          rfl
      | none =>
          rw [run_parse_of_miss log held]
          cases parsed : Version.parse text with
          | ok version =>
              have source := Version.source_of_parse parsed
              have drawn : Sound { store with tickets := store.tickets + 1 } := sound
              refine ⟨drawn.put cache ?_, rfl⟩
              dsimp only
              rw [source, parsed]
          | error e => exact ⟨sound, rfl⟩

theorem parse_spec (cache : Option CacheId) (text : String) :
    (parse cache text).Spec (fun shared => Version.parse text = .ok shared.version)
      fun e => Version.parse text = .error e := by
  intro store sound log
  obtain ⟨sound', same⟩ := exec_parse sound cache text log
  refine ⟨sound', ?_⟩
  split
  · next shared given =>
    rw [given] at same
    exact same.symm
  · next e given =>
    rw [given] at same
    exact same.symm

theorem parse_follows (lost : Error → Prop) (cache cache' : Option CacheId) (text : String) :
    (parse cache text).Follows lost (fun a b => a.untagged = b.untagged) (parse cache' text) := by
  intro s t soundS soundT log log'
  obtain ⟨soundS', same⟩ := exec_parse soundS cache text log
  obtain ⟨soundT', same'⟩ := exec_parse soundT cache' text log'
  refine .inr ⟨soundS', soundT', ?_⟩
  generalize (parse cache text).result s log = x at same
  generalize (parse cache' text).result t log' = y at same'
  rw [← same'] at same
  cases x with
  | ok a =>
      cases y with
      | ok b => exact .ok (untagged_eq_iff.mpr (Except.ok.inj same))
      | error e => cases same
  | error e =>
      cases y with
      | ok b => cases same
      | error e' =>
          cases same
          exact .error e

end SharedVersion

namespace VersionStore

/-- The stores that parsing through caches and clearing them make of the empty one. -/
inductive Reachable : VersionStore → Prop
  | empty : Reachable empty
  | parse (cache : Option CacheId) (text : String) (log : Array Event) {store : VersionStore}
      (h : Reachable store) :
      Reachable ((SharedVersion.parse cache text).exec store log).1.2
  | clear (cache : CacheId) {store : VersionStore} (h : Reachable store) :
      Reachable (store.clear cache)

theorem Reachable.sound {store : VersionStore} (h : store.Reachable) : store.Sound := by
  induction h with
  | empty => exact sound_empty
  | parse cache text log _ ih => exact (SharedVersion.exec_parse ih cache text log).1
  | clear cache _ ih => exact ih.clear cache

end VersionStore

end DescriptorCodec
