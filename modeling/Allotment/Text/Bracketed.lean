/-! Lists as text: items between brackets, set apart by a comma and a space. -/

namespace Allotment.Text

/-- The text `[a, b, c]` for the items `a`, `b` and `c`. -/
def bracketed (items : List String) : String := "[" ++ ", ".intercalate items ++ "]"

end Allotment.Text
