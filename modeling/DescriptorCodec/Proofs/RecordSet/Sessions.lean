import DescriptorCodec.Proofs.RecordSet.Comparison

/-!
# Sessions with caches

A session is a list of calls, made one after another, that parse versions, clear caches, set the
versions of builders and decode records. All of them share the caches they name, and a builder
keeps the version it was given for the calls that follow.

A call gives the same answer whatever the caches hold, as long as every cached version is the
parse of its own text, and it leaves the caches so. Hence a whole session gives the same answers
as the session that uses no cache, tickets apart.
-/

namespace DescriptorCodec

namespace Builder

def uncached (builder : Builder) : Builder :=
  { builder with cache := none }

@[simp] theorem untagged_uncached (builder : Builder) :
    builder.uncached.untagged = builder.untagged := rfl

/-- Builders that are the same up to tickets and caches accept the same versions. -/
theorem setVersion_follows {lost : Error → Prop} {b c : Builder} (same : b.untagged = c.untagged)
    (text : String) :
    (b.setVersion text).Follows lost (fun a a' => a.untagged = a'.untagged)
      (c.setVersion text) := by
  have versions : b.version.map SharedVersion.untagged = c.version.map SharedVersion.untagged :=
    congrArg Builder.version same
  unfold setVersion setSharedVersion
  cases held : b.version with
  | some shared =>
      cases held' : c.version with
      | some shared' => exact CacheM.Follows.throw _
      | none =>
          rw [held, held'] at versions
          cases versions
  | none =>
      cases held' : c.version with
      | some shared' =>
          rw [held, held'] at versions
          cases versions
      | none =>
          refine (SharedVersion.parse_follows lost b.cache c.cache text).bind ?_
          intro shared shared' parsed
          refine CacheM.Follows.pure ?_
          have others := congrArg
            (fun builder : Builder => { builder with version := some shared.untagged }) same
          exact others.trans (by rw [parsed]; rfl)

end Builder

namespace Session

/-- What can be called. A builder is told by its number. -/
inductive Call where
  | parse (cache : Option CacheId) (text : String)
  | clear (cache : CacheId)
  | setVersion (builder : Nat) (text : String)
  | decodeVersion (record : Bytes) (pool : Pool) (cache : Option CacheId)
  | decode (set : RecordSet) (name : String) (pool : Pool) (cache : Option CacheId)

/-- What a call returns if it succeeds. -/
inductive Answer where
  | version (shared : SharedVersion)
  | cleared
  | builder (builder : Builder)
  | attr (attr : Attribute)
  | descriptor (descriptor : Descriptor)

namespace Answer

/-- The answer without the tickets of versions, and without the cache of a builder. -/
def untagged : Answer → Answer
  | version shared => version shared.untagged
  | cleared => cleared
  | builder made => builder made.untagged
  | attr decoded => attr decoded.untagged
  | descriptor decoded => descriptor decoded.untagged

end Answer

namespace Call

def uncached : Call → Call
  | parse _ text => parse none text
  | clear cache => clear cache
  | setVersion builder text => setVersion builder text
  | decodeVersion record pool _ => decodeVersion record pool none
  | decode set name pool _ => decode set name pool none

def perform (builders : Nat → Builder) : Call → CacheM Answer
  | parse cache text => .version <$> SharedVersion.parse cache text
  | clear cache => do
    modify fun store => store.clear cache
    return .cleared
  | setVersion builder text => .builder <$> (builders builder).setVersion text
  | decodeVersion record pool cache => .attr <$> Attribute.decode .version record pool cache
  | decode set name pool cache => .descriptor <$> set.decode name pool cache

def leave (builders : Nat → Builder) : Call → Except Error Answer → Nat → Builder
  | setVersion builder _, .ok (.builder made) =>
    fun other => if other = builder then made else builders other
  | _, _ => builders

end Call

/-- The answers to the calls, in order. -/
def answers (builders : Nat → Builder) (store : VersionStore) (log : Array Event) :
    List Call → List (Except Error Answer)
  | [] => []
  | call :: calls =>
    let ((answer, store), log) := (call.perform builders).exec store log
    answer :: answers (call.leave builders answer) store log calls

/-! ### Comparing sessions -/

/-- The builders of two sessions are the same up to tickets and caches. -/
def Alike (builders builders' : Nat → Builder) : Prop :=
  ∀ i, (builders i).untagged = (builders' i).untagged

variable {builders builders' : Nat → Builder}

/-- Without its cache, a call gives the same answer. -/
theorem perform_follows (alike : Alike builders builders') (call : Call) :
    (call.perform builders).Follows (fun _ => False) (fun a b => a.untagged = b.untagged)
      (call.uncached.perform builders') := by
  cases call with
  | parse cache text =>
      exact (SharedVersion.parse_follows _ cache none text).map
        fun _ _ same => congrArg Answer.version same
  | clear cache =>
      intro s t soundS soundT log log'
      exact .inr ⟨soundS.clear cache, soundT.clear cache, .ok rfl⟩
  | setVersion builder text =>
      exact (Builder.setVersion_follows (alike builder) text).map
        fun _ _ same => congrArg Answer.builder same
  | decodeVersion record pool cache =>
      exact (Attribute.decode_follows (.refl _ pool) .version record cache none).map
        fun _ _ same => congrArg Answer.attr same.2
  | decode set name pool cache =>
      exact (RecordSet.decode_follows_of_agrees (.refl _ pool) set name cache none).map
        fun _ _ same => congrArg Answer.descriptor same

/-- Answers that are the same leave builders that are the same. -/
theorem leave_alike (alike : Alike builders builders') (call : Call)
    {answer answer' : Except Error Answer}
    (related : CacheM.Related (fun a b => a.untagged = b.untagged) answer answer') :
    Alike (call.leave builders answer) (call.uncached.leave builders' answer') := by
  cases related with
  | error e => cases call <;> exact alike
  | @ok a b same =>
      cases call with
      | setVersion builder text =>
          cases a with
          | builder made =>
              cases b with
              | builder made' =>
                  intro other
                  simp only [Call.leave, Call.uncached]
                  by_cases own : other = builder
                  · rw [if_pos own, if_pos own]
                    exact Answer.builder.inj same
                  · rw [if_neg own, if_neg own]
                    exact alike other
              | _ => cases same
          | _ =>
              cases b with
              | builder made' => cases same
              | _ => exact alike
      | _ => exact alike

/-- The induction is on the calls that are still to be made. Whatever the two sessions have done
so far, their caches are sound and their builders alike. -/
theorem answers_alike (calls : List Call) (alike : Alike builders builders')
    {store store' : VersionStore} (sound : store.Sound) (sound' : store'.Sound)
    (log log' : Array Event) :
    (answers builders store log calls).map (Except.map Answer.untagged) =
      (answers builders' store' log' (calls.map Call.uncached)).map
        (Except.map Answer.untagged) := by
  induction calls generalizing builders builders' store store' log log' with
  | nil => rfl
  | cons call calls ih =>
      have step := perform_follows alike call store store' sound sound' log log'
      rw [CacheM.result, CacheM.result] at step
      rw [List.map_cons, answers, answers]
      generalize (call.perform builders).exec store log = one at step ⊢
      generalize (call.uncached.perform builders').exec store' log' = two at step ⊢
      obtain ⟨⟨answer, left⟩, log₁⟩ := one
      obtain ⟨⟨answer', left'⟩, log₂⟩ := two
      rcases step with ⟨e, -, impossible⟩ | ⟨soundLeft, soundLeft', related⟩
      · cases impossible
      · have rest := ih (leave_alike alike call related) soundLeft soundLeft' log₁ log₂
        have first : answer.map Answer.untagged = answer'.map Answer.untagged := by
          cases related with
          | ok same => exact congrArg Except.ok same
          | error e => rfl
        rw [List.map_cons, List.map_cons, first, rest]

/-- Whatever is called in whatever order, through any caches, which are empty at first, every call
gives the answer that it gives in the session without caches. Only tickets may differ. -/
theorem answers_uncached (calls : List Call) (builders : Nat → Builder) :
    (answers builders .empty #[] calls).map (Except.map Answer.untagged) =
      (answers (fun i => (builders i).uncached) .empty #[] (calls.map Call.uncached)).map
        (Except.map Answer.untagged) :=
  answers_alike calls (fun i => (builders i).untagged_uncached.symm) VersionStore.sound_empty
    VersionStore.sound_empty _ _

end Session

end DescriptorCodec
