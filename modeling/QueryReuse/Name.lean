/-!
# Names

Functions are found by name, and names are compared up to the case of the letters A to Z.
No other character has a case here: `é` and `É` are different names.
-/

namespace QueryReuse.Name

/-- The name with the letters a to z in upper case. -/
def upper (name : String) : String := String.ofList (name.toList.map Char.toUpper)

/-- The name with the letters A to Z in lower case. -/
def lower (name : String) : String := String.ofList (name.toList.map Char.toLower)

/-- Two names are alike when they differ at most in the case of the letters A to Z. -/
def Alike (a b : String) : Prop := lower a = lower b

instance (a b : String) : Decidable (Alike a b) := inferInstanceAs (Decidable (_ = _))

end QueryReuse.Name
