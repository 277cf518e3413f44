/-!
# Attribute kinds

A module descriptor is spread over up to six attributes. The kinds are listed in the order in
which their records are decoded, and they compare in that order.
-/

namespace DescriptorCodec

/-- The attributes that carry parts of a module descriptor. -/
inductive AttributeKind where
  | module
  | packages
  | version
  | mainClass
  | targetPlatform
  | hashes
  deriving DecidableEq, Hashable, Repr

namespace AttributeKind

/-- Every kind once, in declaration order. -/
def all : List AttributeKind :=
  [module, packages, version, mainClass, targetPlatform, hashes]

theorem mem_all (kind : AttributeKind) : kind ∈ all := by
  cases kind <;> decide

/-- The name under which a container stores an attribute of this kind. -/
def name : AttributeKind → String
  | module => "Module"
  | packages => "Packages"
  | version => "Version"
  | mainClass => "MainClass"
  | targetPlatform => "TargetPlatform"
  | hashes => "Hashes"

theorem name_injective {a b : AttributeKind} (h : a.name = b.name) : a = b := by
  revert h
  cases a <;> cases b <;> decide

def ofName? (text : String) : Option AttributeKind :=
  all.find? fun kind => kind.name == text

@[simp] theorem ofName?_name (kind : AttributeKind) : ofName? kind.name = some kind := by
  cases kind <;> decide

/-- A name stands for the kind that bears it and for no other. -/
theorem ofName?_eq_some_iff {text : String} {kind : AttributeKind} :
    ofName? text = some kind ↔ text = kind.name := by
  constructor
  · intro h
    unfold ofName? at h
    have found := List.find?_some h
    simp only [beq_iff_eq] at found
    exact found.symm
  · rintro rfl
    exact ofName?_name kind

instance : Ord AttributeKind where
  compare a b := compare a.ctorIdx b.ctorIdx

end AttributeKind

end DescriptorCodec
