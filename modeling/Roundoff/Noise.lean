/-
# Supply of noise symbols

A noise symbol names one independent source of error.  Symbols are numbers handed out in
ascending order by a counter, so a fresh symbol is larger than every symbol in use.
-/
namespace Roundoff

/-- The name of one independent source of error, a quantity between -1 and 1. -/
abbrev Symbol := Nat

/-- A computation that may take fresh noise symbols. -/
abbrev Fresh := StateM Symbol

namespace Fresh

/-- The next unused symbol. -/
def symbol : Fresh Symbol := fun next => (next, next + 1)

theorem bind_apply {α β : Type} (m : Fresh α) (f : α → Fresh β) (n : Symbol) :
    (m >>= f) n = f (m n).1 (m n).2 := rfl

end Fresh

end Roundoff
