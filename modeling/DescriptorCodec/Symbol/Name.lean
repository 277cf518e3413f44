/-!
# The two forms of a name

Packages and classes are written with dots between their parts, and stored with slashes. Both
conversions replace one character by the other throughout and leave the rest alone.
-/

namespace DescriptorCodec

namespace Name

/-- One character of a name in stored form. -/
def slash (c : Char) : Char :=
  if c = '.' then '/' else c

/-- One character of a name in written form. -/
def dot (c : Char) : Char :=
  if c = '/' then '.' else c

/-- The stored form of a name, with slashes for dots. -/
def internal (name : String) : String :=
  String.ofList (name.toList.map slash)

/-- The written form of a name, with dots for slashes. -/
def dotted (name : String) : String :=
  String.ofList (name.toList.map dot)

@[simp] theorem toList_internal (name : String) :
    (internal name).toList = name.toList.map slash := by
  simp [internal]

@[simp] theorem toList_dotted (name : String) :
    (dotted name).toList = name.toList.map dot := by
  simp [dotted]

theorem dot_slash (c : Char) : dot (slash c) = dot c := by
  unfold dot slash
  by_cases h : c = '.' <;> simp [h]

theorem slash_dot (c : Char) : slash (dot c) = slash c := by
  unfold dot slash
  by_cases h : c = '/' <;> simp [h]

theorem dot_dot (c : Char) : dot (dot c) = dot c := by
  unfold dot
  by_cases h : c = '/' <;> simp [h]

theorem slash_slash (c : Char) : slash (slash c) = slash c := by
  unfold slash
  by_cases h : c = '.' <;> simp [h]

/-- Storing a name does not change its written form. -/
@[simp] theorem dotted_internal (name : String) : dotted (internal name) = dotted name := by
  simp [dotted, internal, Function.comp_def, dot_slash]

/-- Writing a name does not change its stored form. -/
@[simp] theorem internal_dotted (name : String) : internal (dotted name) = internal name := by
  simp [dotted, internal, Function.comp_def, slash_dot]

@[simp] theorem dotted_dotted (name : String) : dotted (dotted name) = dotted name := by
  simp [dotted, Function.comp_def, dot_dot]

@[simp] theorem internal_internal (name : String) : internal (internal name) = internal name := by
  simp [internal, Function.comp_def, slash_slash]

end Name

end DescriptorCodec
