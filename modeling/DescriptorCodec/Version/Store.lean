import Std.Data.HashMap
import DescriptorCodec.Event
import DescriptorCodec.Text.Quoted
import DescriptorCodec.Version.Parser

/-!
# Version caches

Descriptors made one after another mostly carry the same version text, so a cache keeps the
version it parsed last and hands it out again for the same text. What is handed out is a shared
version: the version together with a ticket that is drawn anew for every parse. Two shared
versions are one object exactly when their tickets agree, whatever their values.

A store holds all caches, each with one slot, and the number of tickets drawn. A failed parse
changes nothing; it is still reported as a miss, because the report comes before the parse.
-/

namespace DescriptorCodec

/-- A parsed version and the ticket of the parse that made it. -/
structure SharedVersion where
  version : Version
  ticket : Nat
  deriving Repr

/-- Which cache versions are parsed through: the one everybody uses, or a private one. -/
inductive CacheId where
  | shared
  | named (name : String)
  deriving DecidableEq, Hashable, Repr

/-- The slots of all caches, and the number of tickets drawn so far. -/
structure VersionStore where
  slots : Std.HashMap CacheId SharedVersion
  tickets : Nat

/-- A computation that parses versions through caches. It can fail, but what the caches hold and
what was reported up to then stays. -/
abbrev CacheM := ExceptT Error (StateT VersionStore Traced)

namespace VersionStore

/-- The store in which every cache is empty. -/
def empty : VersionStore := ⟨∅, 0⟩

/-- The version that a cache holds. -/
def cached? (store : VersionStore) (cache : CacheId) : Option SharedVersion :=
  store.slots[cache]?

/-- The version that a cache holds, provided that it was read from this very text. -/
def hit? (store : VersionStore) (cache : CacheId) (text : String) : Option SharedVersion :=
  (store.cached? cache).filter fun shared => shared.version.source == text

/-- Puts a version into the slot of a cache. -/
def put (store : VersionStore) (cache : CacheId) (shared : SharedVersion) : VersionStore :=
  { store with slots := store.slots.insert cache shared }

/-- Empties the slot of a cache. -/
def clear (store : VersionStore) (cache : CacheId) : VersionStore :=
  { store with slots := store.slots.erase cache }

@[simp] theorem cached?_empty (cache : CacheId) : empty.cached? cache = none := by
  simp [empty, cached?]

@[simp] theorem cached?_put (store : VersionStore) (cache other : CacheId)
    (shared : SharedVersion) :
    (store.put cache shared).cached? other =
      if cache = other then some shared else store.cached? other := by
  simp [put, cached?, Std.HashMap.getElem?_insert]

@[simp] theorem cached?_clear (store : VersionStore) (cache other : CacheId) :
    (store.clear cache).cached? other =
      if cache = other then none else store.cached? other := by
  simp [clear, cached?, Std.HashMap.getElem?_erase]

theorem hit?_eq_some_iff {store : VersionStore} {cache : CacheId} {text : String}
    {shared : SharedVersion} :
    store.hit? cache text = some shared ↔
      store.cached? cache = some shared ∧ shared.version.source = text := by
  simp [hit?, Option.filter_eq_some_iff]

/-- The slot of a cache in diagnostics. -/
def describe (store : VersionStore) (cache : CacheId) : String :=
  let slot :=
    match store.cached? cache with
    | none => "None"
    | some shared => "Some(" ++ Text.quote shared.version.source ++ ")"
  "VersionCache \x7b cached: " ++ slot ++ " \x7d"

end VersionStore

namespace SharedVersion

/-- Gives a version a ticket of its own. -/
def ofVersion (version : Version) : StateT VersionStore Traced SharedVersion :=
  modifyGet fun store => (⟨version, store.tickets⟩, { store with tickets := store.tickets + 1 })

/-- Parses a version that is shared with nothing made before. -/
def parseFresh (text : String) : CacheM SharedVersion := do
  let version ← MonadExcept.ofExcept (Version.parse text)
  ofVersion version

/-- Hands out what a cache holds for a text, or else parses the text and puts the version into
the cache's slot. -/
def reuseOrParse (cache : CacheId) (text : String) : Option SharedVersion → CacheM SharedVersion
  | some shared => do
    report (.cacheHit text)
    return shared
  | none => do
    report (.cacheMiss text)
    let shared ← parseFresh text
    modify fun store => store.put cache shared
    return shared

/-- Parses a version through a cache, or without one. -/
def parse (cache : Option CacheId) (text : String) : CacheM SharedVersion :=
  match cache with
  | none => parseFresh text
  | some cache => do
    let store ← get
    reuseOrParse cache text (store.hit? cache text)

/-- A fresh parse draws a ticket if it succeeds, touches no slot and reports nothing. -/
theorem run_parseFresh (text : String) (store : VersionStore) (log : Array Event) :
    ((parseFresh text).run.run store).run log =
      match Version.parse text with
      | .ok version =>
        ((.ok ⟨version, store.tickets⟩, { store with tickets := store.tickets + 1 }), log)
      | .error error => ((.error error, store), log) := by
  unfold parseFresh
  cases Version.parse text <;> rfl

theorem run_parse_none (text : String) (store : VersionStore) (log : Array Event) :
    ((parse none text).run.run store).run log = ((parseFresh text).run.run store).run log := rfl

/-- On a hit the cache hands out what it holds. -/
theorem run_parse_of_hit {cache : CacheId} {text : String} {store : VersionStore}
    {shared : SharedVersion} (log : Array Event) (h : store.hit? cache text = some shared) :
    ((parse (some cache) text).run.run store).run log =
      ((.ok shared, store), log.push (.cacheHit text)) := by
  change ((reuseOrParse cache text (store.hit? cache text)).run.run store).run log = _
  rw [h]
  rfl

/-- On a miss the text is parsed, and the slot is filled if that succeeds. -/
theorem run_parse_of_miss {cache : CacheId} {text : String} {store : VersionStore}
    (log : Array Event) (h : store.hit? cache text = none) :
    ((parse (some cache) text).run.run store).run log =
      match Version.parse text with
      | .ok version =>
        let shared : SharedVersion := ⟨version, store.tickets⟩
        ((.ok shared, { store with tickets := store.tickets + 1 }.put cache shared),
          log.push (.cacheMiss text))
      | .error error => ((.error error, store), log.push (.cacheMiss text)) := by
  change ((reuseOrParse cache text (store.hit? cache text)).run.run store).run log = _
  rw [h]
  change (((do
    let shared ← parseFresh text
    modify fun store => store.put cache shared
    return shared : CacheM SharedVersion)).run.run store).run (log.push (.cacheMiss text)) = _
  unfold parseFresh
  cases Version.parse text <;> rfl

end SharedVersion

end DescriptorCodec
