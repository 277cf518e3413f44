import DescriptorCodec.Collection.Distinct

/-!
# Ordered sets

An ordered set is a list without repeats. It remembers the order in which its elements were
given, because records are written in that order, but `==` compares members only. Plain equality
of ordered sets is equality in the same order.
-/

namespace DescriptorCodec

/-- Elements in a fixed order, no two of them equal. -/
structure OrderedSet (α : Type) [BEq α] where
  toList : List α
  distinct : Collection.Distinct toList

namespace OrderedSet

variable {α : Type} [BEq α]

@[ext] theorem ext {a b : OrderedSet α} (h : a.toList = b.toList) : a = b := by
  cases a
  cases b
  cases h
  rfl

def empty : OrderedSet α := ⟨[], Collection.distinct_nil⟩

@[simp] theorem toList_empty : (empty : OrderedSet α).toList = [] := rfl

instance : Inhabited (OrderedSet α) := ⟨empty⟩

instance [Repr α] : Repr (OrderedSet α) where
  reprPrec set precedence := reprPrec set.toList precedence

def size (set : OrderedSet α) : Nat :=
  set.toList.length

def isEmpty (set : OrderedSet α) : Bool :=
  set.toList.isEmpty

theorem isEmpty_iff {set : OrderedSet α} : set.isEmpty = true ↔ set.toList = [] :=
  List.isEmpty_iff

def contains (set : OrderedSet α) (x : α) : Bool :=
  set.toList.contains x

section Hashed

variable [Hashable α]

def subset (a b : OrderedSet α) : Bool :=
  let members := Std.HashSet.ofList b.toList
  a.toList.all fun x => members.contains x

/-- Sets are equal when each is contained in the other, whatever the order. -/
instance : BEq (OrderedSet α) := ⟨fun a b => a.subset b && b.subset a⟩

theorem beq_def (a b : OrderedSet α) : (a == b) = (a.subset b && b.subset a) := rfl

variable [EquivBEq α] [LawfulHashable α]

/-- The elements of a list in order, without later repeats. -/
def ofList (xs : List α) : OrderedSet α :=
  ⟨Collection.firstOccurrences xs, Collection.distinct_firstOccurrences xs⟩

@[simp] theorem toList_ofList (xs : List α) :
    (ofList xs).toList = Collection.firstOccurrences xs := rfl

@[simp] theorem ofList_toList (set : OrderedSet α) : ofList set.toList = set :=
  ext (Collection.firstOccurrences_eq_self set.distinct)

@[simp] theorem contains_ofList (xs : List α) (x : α) : (ofList xs).contains x = xs.contains x :=
  Collection.contains_firstOccurrences xs x

theorem subset_iff {a b : OrderedSet α} :
    a.subset b = true ↔ ∀ x, a.contains x = true → b.contains x = true := by
  simp only [subset, List.all_eq_true, Std.HashSet.contains_ofList, contains]
  constructor
  · intro h x hx
    obtain ⟨y, hy, hxy⟩ := List.contains_iff_exists_mem_beq.mp hx
    obtain ⟨z, hz, hyz⟩ := List.contains_iff_exists_mem_beq.mp (h y hy)
    exact List.contains_iff_exists_mem_beq.mpr ⟨z, hz, BEq.trans hxy hyz⟩
  · intro h x hx
    exact h x (List.contains_iff_exists_mem_beq.mpr ⟨x, hx, BEq.rfl⟩)

/-- Sets are equal exactly when they have the same members. -/
theorem beq_iff {a b : OrderedSet α} :
    (a == b) = true ↔ ∀ x, a.contains x = b.contains x := by
  rw [beq_def, Bool.and_eq_true, subset_iff, subset_iff]
  constructor
  · intro ⟨ab, ba⟩ x
    exact Bool.eq_iff_iff.mpr ⟨ab x, ba x⟩
  · intro h
    exact ⟨fun x hx => h x ▸ hx, fun x hx => (h x).symm ▸ hx⟩

instance : EquivBEq (OrderedSet α) where
  rfl := beq_iff.mpr fun _ => rfl
  symm h := beq_iff.mpr fun x => (beq_iff.mp h x).symm
  trans h₁ h₂ := beq_iff.mpr fun x => (beq_iff.mp h₁ x).trans (beq_iff.mp h₂ x)

end Hashed

end OrderedSet

end DescriptorCodec
