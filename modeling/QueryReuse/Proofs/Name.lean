import Mathlib
import QueryReuse.Name

/-!
# Letter case

To write a name in upper case or in lower case forgets the case of its letters and nothing
else. So names that agree in lower case agree in upper case, and the other way round.
-/

namespace QueryReuse.Name

/-- None of the characters of the name is one of A to Z. -/
def IsLower (name : String) : Prop := ∀ char ∈ name.toList, char.isUpper = false

theorem IsLower.lower_eq {name : String} (h : IsLower name) :
  lower name = name
  := by
  have hmap : name.toList.map Char.toLower = name.toList := by
    conv_rhs => rw [← List.map_id name.toList]
    apply List.map_congr_left
    intro char hchar
    apply Char.toLower_eq_of_not_isUpper
    rw [h char hchar]
    apply Bool.false_ne_true
  rw [lower, hmap, String.ofList_toList]

theorem lower_upper (name : String) :
  lower (upper name) = lower name
  := by
  rw [lower, upper, String.toList_ofList, List.map_map]
  simp only [Function.comp_def, Char.toLower_toUpper_eq_toLower]
  rfl

theorem upper_lower (name : String) :
  upper (lower name) = upper name
  := by
  rw [upper, lower, String.toList_ofList, List.map_map]
  simp only [Function.comp_def, Char.toUpper_toLower_eq_toUpper]
  rfl

theorem alike_iff_upper_eq {a b : String} :
  Alike a b ↔ upper a = upper b
  := by
  constructor
  · intro h
    rw [← upper_lower a, h, upper_lower]
  · intro h
    rw [Alike, ← lower_upper a, h, lower_upper]

theorem upper_upper (name : String) :
  upper (upper name) = upper name
  := alike_iff_upper_eq.mp (lower_upper name)

end QueryReuse.Name
