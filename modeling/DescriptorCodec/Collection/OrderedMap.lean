import Std.Data.HashMap
import DescriptorCodec.Collection.Distinct

/-!
# Ordered maps

An ordered map is a list of entries with distinct keys. A list of entries with repeated keys
becomes a map in one of two ways: `ofList` lets the last value of a key win, and `group` collects
all values of a key. Either way a key stands where it stood first. Values that have a key in them
are entered under it by `keyBy`.

Like ordered sets, ordered maps remember their order and ignore it in `==`. Hash tables appear
only while a map is built or compared; `lastValue?` and `valuesOf` say what they hold.
-/

namespace DescriptorCodec

/-- Entries in a fixed order, no two of them with equal keys. -/
structure OrderedMap (κ ν : Type) [BEq κ] where
  toList : List (κ × ν)
  distinct : Collection.Distinct (toList.map Prod.fst)

namespace Collection

variable {κ ν : Type} [BEq κ]

/-- The value of the last entry with this key. -/
def lastValue? (key : κ) : List (κ × ν) → Option ν
  | [] => none
  | entry :: rest =>
    (lastValue? key rest).or (if entry.1 == key then some entry.2 else none)

@[simp] theorem lastValue?_nil (key : κ) : lastValue? key ([] : List (κ × ν)) = none := rfl

theorem lastValue?_cons (key : κ) (entry : κ × ν) (rest : List (κ × ν)) :
    lastValue? key (entry :: rest) =
      (lastValue? key rest).or (if entry.1 == key then some entry.2 else none) := rfl

/-- The values of all entries with this key, in order. -/
def valuesOf (key : κ) (entries : List (κ × ν)) : List ν :=
  entries.filterMap fun entry => if entry.1 == key then some entry.2 else none

@[simp] theorem valuesOf_nil (key : κ) : valuesOf key ([] : List (κ × ν)) = [] := rfl

theorem valuesOf_cons (key : κ) (entry : κ × ν) (rest : List (κ × ν)) :
    valuesOf key (entry :: rest) =
      if entry.1 == key then entry.2 :: valuesOf key rest else valuesOf key rest := by
  unfold valuesOf
  rw [List.filterMap_cons]
  split <;> simp_all

variable [Hashable κ]

/-- A table of the last value of each key. -/
def lastValues (entries : List (κ × ν)) : Std.HashMap κ ν :=
  entries.foldl (fun table entry => table.insert entry.1 entry.2) ∅

/-- A table of all values of each key. -/
def groups (entries : List (κ × ν)) : Std.HashMap κ (List ν) :=
  entries.foldr (fun entry table => table.insert entry.1 (entry.2 :: table.getD entry.1 [])) ∅

variable [EquivBEq κ] [LawfulHashable κ]

theorem getElem?_foldl_insert (entries : List (κ × ν)) (table : Std.HashMap κ ν) (key : κ) :
    (entries.foldl (fun table entry => table.insert entry.1 entry.2) table)[key]? =
      (lastValue? key entries).or table[key]? := by
  induction entries generalizing table with
  | nil => simp
  | cons entry rest ih =>
    rw [List.foldl_cons, ih, lastValue?_cons, Std.HashMap.getElem?_insert]
    cases lastValue? key rest with
    | some value => simp
    | none => by_cases h : entry.1 == key <;> simp [h]

@[simp] theorem getElem?_lastValues (entries : List (κ × ν)) (key : κ) :
    (lastValues entries)[key]? = lastValue? key entries := by
  rw [lastValues, getElem?_foldl_insert]
  simp

@[simp] theorem getD_groups (entries : List (κ × ν)) (key : κ) :
    (groups entries).getD key [] = valuesOf key entries := by
  induction entries with
  | nil => simp [groups]
  | cons entry rest ih =>
    rw [groups, List.foldr_cons, Std.HashMap.getD_insert, valuesOf_cons]
    change (if entry.1 == key then entry.2 :: (groups rest).getD entry.1 []
      else (groups rest).getD key []) = _
    by_cases h : entry.1 == key
    · simp only [h, ↓reduceIte, List.cons.injEq, true_and]
      rw [Std.HashMap.getD_congr h, ih]
    · simp [h, ih]

end Collection

namespace OrderedMap

open Collection

variable {κ ν μ : Type} [BEq κ]

@[ext] theorem ext {a b : OrderedMap κ ν} (h : a.toList = b.toList) : a = b := by
  cases a
  cases b
  cases h
  rfl

def empty : OrderedMap κ ν := ⟨[], Collection.distinct_nil⟩

@[simp] theorem toList_empty : (empty : OrderedMap κ ν).toList = [] := rfl

instance : Inhabited (OrderedMap κ ν) := ⟨empty⟩

instance [Repr κ] [Repr ν] : Repr (OrderedMap κ ν) where
  reprPrec map precedence := reprPrec map.toList precedence

def size (map : OrderedMap κ ν) : Nat :=
  map.toList.length

def isEmpty (map : OrderedMap κ ν) : Bool :=
  map.toList.isEmpty

def keys (map : OrderedMap κ ν) : List κ :=
  map.toList.map Prod.fst

def values (map : OrderedMap κ ν) : List ν :=
  map.toList.map Prod.snd

def get? (map : OrderedMap κ ν) (key : κ) : Option ν :=
  lastValue? key map.toList

/-- Adds an entry at the end, unless the key is there already. -/
def insertNew? (map : OrderedMap κ ν) (key : κ) (value : ν) : Option (OrderedMap κ ν) :=
  if h : map.toList.any (fun entry => entry.1 == key) then none
  else
    some
      { toList := map.toList ++ [(key, value)]
        distinct := by
          refine List.map_append ▸ List.pairwise_append.mpr ⟨map.distinct, by simp, ?_⟩
          intro a ha b hb
          obtain ⟨entry, hentry, rfl⟩ := List.mem_map.mp ha
          simp only [List.map_cons, List.map_nil, List.mem_singleton] at hb
          subst hb
          simp only [List.any_eq_true, not_exists, not_and, Bool.not_eq_true] at h
          exact h entry hentry }

def map (f : κ → ν → μ) (map : OrderedMap κ ν) : OrderedMap κ μ where
  toList := map.toList.map fun entry => (entry.1, f entry.1 entry.2)
  distinct := by
    rw [List.map_map]
    exact map.distinct

@[simp] theorem toList_map (f : κ → ν → μ) (table : OrderedMap κ ν) :
    (table.map f).toList = table.toList.map fun entry => (entry.1, f entry.1 entry.2) := rfl

section Hashed

variable [Hashable κ]

/-- Whether every entry of one map is in the other, with an equal value. -/
def subset [BEq ν] (a b : OrderedMap κ ν) : Bool :=
  let table := lastValues b.toList
  a.toList.all fun entry => table[entry.1]? == some entry.2

/-- Maps are equal when each is contained in the other, whatever the order. -/
instance [BEq ν] : BEq (OrderedMap κ ν) := ⟨fun a b => a.subset b && b.subset a⟩

theorem beq_def [BEq ν] (a b : OrderedMap κ ν) : (a == b) = (a.subset b && b.subset a) := rfl

variable [EquivBEq κ] [LawfulHashable κ]

/-- Looking keys up one by one may drop some of them but repeats none. -/
theorem distinct_filterMap (entries : List (κ × μ)) (find : κ → Option ν) :
    Distinct (((firstOccurrences (entries.map Prod.fst)).filterMap fun key =>
      (find key).map fun value => (key, value)).map Prod.fst) := by
  have sub (keys : List κ) :
      ((keys.filterMap fun key => (find key).map fun value => (key, value)).map
        Prod.fst).Sublist keys := by
    induction keys with
    | nil => exact List.Sublist.slnil
    | cons key keys ih =>
      rw [List.filterMap_cons]
      cases find key with
      | none => exact ih.cons key
      | some value => exact ih.cons_cons key
  exact List.Pairwise.sublist (sub _) (distinct_firstOccurrences _)

/-- One entry for each key, at the place of its first entry and with the value of its last. -/
def ofList (entries : List (κ × ν)) : OrderedMap κ ν :=
  let table := lastValues entries
  { toList := (firstOccurrences (entries.map Prod.fst)).filterMap fun key =>
      table[key]?.map fun value => (key, value)
    distinct := distinct_filterMap entries fun key => table[key]? }

theorem toList_ofList (entries : List (κ × ν)) :
    (ofList entries).toList =
      (firstOccurrences (entries.map Prod.fst)).filterMap fun key =>
        (lastValue? key entries).map fun value => (key, value) := by
  simp [ofList]

/-- The values under keys of their own. -/
def keyBy (key : ν → κ) (values : List ν) : OrderedMap κ ν :=
  ofList (values.map fun value => (key value, value))

/-- One entry for each key, at the place of its first entry and with all its values in order. -/
def group (entries : List (κ × ν)) : OrderedMap κ (List ν) :=
  let table := groups entries
  { toList := (firstOccurrences (entries.map Prod.fst)).map fun key => (key, table.getD key [])
    distinct := by
      rw [List.map_map]
      simpa [Function.comp_def] using distinct_firstOccurrences (entries.map Prod.fst) }

theorem toList_group (entries : List (κ × ν)) :
    (group entries).toList =
      (firstOccurrences (entries.map Prod.fst)).map fun key => (key, valuesOf key entries) := by
  simp [group]

theorem subset_iff [BEq ν] {a b : OrderedMap κ ν} :
    a.subset b = true ↔ ∀ entry ∈ a.toList, (b.get? entry.1 == some entry.2) = true := by
  simp [subset, get?]

end Hashed

end OrderedMap

end DescriptorCodec
