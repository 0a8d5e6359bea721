/-
# Affine forms

An affine form `c + Σ aᵢ·εᵢ` stands for a quantity that is known up to noise: every symbol `εᵢ`
is an unknown number between -1 and 1, and forms that share a symbol share the error it stands
for.  Sums and differences are exact, term by term.  A product keeps the terms of first order and
bounds the rest by one fresh symbol.
-/
import Roundoff.Number
import Roundoff.Noise

namespace Roundoff

/-- The noise terms of an affine form, in ascending order of their symbols. -/
abbrev Terms (R : Type) := List (Symbol × R)

namespace Terms

variable {R : Type}

/-- Put a term in front, if it has a coefficient. -/
def push (s : Symbol) : Option R → Terms R → Terms R
  | none, ts => ts
  | some a, ts => (s, a) :: ts

/-- Merge the terms `(s, a) :: xs` of one side with terms of the other side, where `rest` merges
`xs` with them. -/
def mergeStep (f : Option R → Option R → Option R) (s : Symbol) (a : R)
    (rest : Terms R → Terms R) : Terms R → Terms R
  | [] => push s (f (some a) none) (rest [])
  | (t, b) :: ys =>
    if s < t then push s (f (some a) none) (rest ((t, b) :: ys))
    else if t < s then push t (f none (some b)) (mergeStep f s a rest ys)
    else push s (f (some a) (some b)) (rest ys)

/-- Combine two lists of terms symbol by symbol.  The function `f` receives the coefficients that
a symbol has on the two sides and answers the combined one, or `none` to drop the symbol. -/
def merge (f : Option R → Option R → Option R) : Terms R → Terms R → Terms R
  | [], ys => ys.foldr (fun (t, b) rest => push t (f none (some b)) rest) []
  | (s, a) :: xs, ys => mergeStep f s a (merge f xs) ys

end Terms

/-- A central value and noise terms. -/
structure Affine (R : Type) where
  /-- The value without noise. -/
  central : R
  /-- The noise terms, in ascending order of their symbols. -/
  terms : Terms R
deriving BEq, Repr

namespace Affine

variable {R : Type} [Number R]

/-- A quantity without noise. -/
def const (c : R) : Affine R := ⟨c, []⟩

/-- The quantity zero, without noise. -/
def zero : Affine R := const 0

instance : Inhabited (Affine R) := ⟨zero⟩

/-- Add a fresh noise term of the given magnitude; the magnitude zero makes no term. -/
def addNoise (f : Affine R) (magnitude : R) : Fresh (Affine R) := do
  if 0 < Number.abs magnitude then
    let s ← Fresh.symbol
    return { f with terms := f.terms ++ [(s, Number.abs magnitude)] }
  else
    return f

/-- The quantity `c ± |m|`, with one fresh noise symbol. -/
def withError (c m : R) : Fresh (Affine R) := (const c).addNoise m

/-- The coefficient of a symbol, zero if the form does not depend on it. -/
def coefficient (f : Affine R) (s : Symbol) : R :=
  match f.terms.find? fun (t, _) => t == s with
  | some (_, a) => a
  | none => 0

/-- The sum of the magnitudes of the noise terms: the form deviates from its central value by at
most this much. -/
def noiseBound (f : Affine R) : R := Number.sum (f.terms.map fun (_, a) => Number.abs a)

/-- Replace all noise by one fresh term of the same bound. -/
def flatten (f : Affine R) : Fresh (Affine R) := withError f.central f.noiseBound

/-- Multiply by an exact number. -/
def scale (f : Affine R) (k : R) : Affine R :=
  if k == 0 then zero
  else ⟨f.central * k, f.terms.map fun (s, a) => (s, a * k)⟩

/-- The negated quantity. -/
def neg (f : Affine R) : Affine R := f.scale (-1)

/-- A coefficient, unless it is zero. -/
def nonzero (a : R) : Option R := if a == 0 then none else some a

/-- The combined coefficient of a symbol in a sum or difference.  Terms of the left side alone are
kept as they are. -/
def joinCoefficient (op : R → R → R) : Option R → Option R → Option R
  | a, none => a
  | a, some b => nonzero (op (a.getD 0) b)

/-- The combined coefficient of a symbol in the product of forms with the central values `c` on
the left and `d` on the right. -/
def productCoefficient (c d : R) : Option R → Option R → Option R
  | some a, some b => nonzero (a * d + b * c)
  | some a, none => nonzero (a * d)
  | none, some b => nonzero (b * c)
  | none, none => none

/-- The sum of two quantities. -/
def add (f g : Affine R) : Affine R :=
  ⟨f.central + g.central, Terms.merge (joinCoefficient (· + ·)) f.terms g.terms⟩

/-- The difference of two quantities; shared noise cancels. -/
def sub (f g : Affine R) : Affine R :=
  ⟨f.central - g.central, Terms.merge (joinCoefficient (· - ·)) f.terms g.terms⟩

/-- The product of two quantities:
`(c + Σ aᵢ·εᵢ)·(d + Σ bᵢ·εᵢ) = c·d + Σ (aᵢ·d + bᵢ·c)·εᵢ + q`, where one fresh term bounds the
quadratic remainder `q`. -/
def mul (f g : Affine R) : Fresh (Affine R) :=
  addNoise
    ⟨f.central * g.central, Terms.merge (productCoefficient f.central g.central) f.terms g.terms⟩
    (f.noiseBound * g.noiseBound)

end Affine

end Roundoff
