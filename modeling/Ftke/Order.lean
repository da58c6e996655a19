import Mathlib.Order.Defs.Unbundled

/-!
# Ftke.Order

Comparisons as programs run them: a Boolean `lt` that is the strict part of a
total preorder, in the two laws that are used — asymmetry, and transitivity of
"not less than".
-/

namespace Ftke

/-- `lt` is the strict part of a total preorder (a strict weak order). -/
structure StrictWeak {α : Type*} (lt : α → α → Bool) : Prop where
  asymm : ∀ {a b}, lt a b = true → lt b a = false
  negTrans : ∀ {a b c}, lt a b = false → lt b c = false → lt a c = false

namespace StrictWeak

variable {α : Type*} {lt : α → α → Bool}

end StrictWeak

end Ftke
