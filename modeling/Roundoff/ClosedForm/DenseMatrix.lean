/-
# Dense matrices

Matrices of numbers with all that is needed to iterate a linear bound: products, powers by repeated
squaring, and the inverse by Gauss-Jordan elimination.  Every operation is given entry by entry.
-/
import Roundoff.Number
import Roundoff.Decimal.Text

namespace Roundoff

/-- A matrix with `m` rows and `n` columns. -/
structure DenseMatrix (R : Type) (m n : Nat) where
  /-- The rows. -/
  rows : Vector (Vector R n) m
deriving BEq, Repr

namespace DenseMatrix

variable {R : Type} {m n p : Nat}

/-- The matrix with the given entries. -/
def ofFn (f : Fin m → Fin n → R) : DenseMatrix R m n :=
  ⟨Vector.ofFn fun i => Vector.ofFn fun j => f i j⟩

/-- An entry. -/
def get (a : DenseMatrix R m n) (i : Fin m) (j : Fin n) : R := a.rows[i][j]

@[simp] theorem get_ofFn (f : Fin m → Fin n → R) (i : Fin m) (j : Fin n) :
    (ofFn f).get i j = f i j := by
  simp [ofFn, get]

/-- The rows as lists. -/
def toLists (a : DenseMatrix R m n) : List (List R) := a.rows.toList.map Vector.toList

variable [Number R]

/-- The width of a list of rows: that of the first row. -/
def width : List (List R) → Nat
  | [] => 0
  | row :: _ => row.length

/-- The matrix of a list of rows.  Rows that are shorter than the first one are filled with zeros,
and longer ones are cut. -/
def ofLists (rows : List (List R)) : DenseMatrix R rows.length (width rows) :=
  ofFn fun i j => (rows.get i).getD j 0

/-- The unit matrix. -/
def identity (n : Nat) : DenseMatrix R n n := ofFn fun i j => if i = j then 1 else 0

/-- The matrix of zeros. -/
def zero (m n : Nat) : DenseMatrix R m n := ofFn fun _ _ => 0

/-- The sum of two matrices. -/
def add (a b : DenseMatrix R m n) : DenseMatrix R m n := ofFn fun i j => a.get i j + b.get i j

/-- The difference of two matrices. -/
def sub (a b : DenseMatrix R m n) : DenseMatrix R m n := ofFn fun i j => a.get i j - b.get i j

/-- The product of two matrices.  A factor zero on the left adds nothing, whatever the factor on the
right is. -/
def mul (a : DenseMatrix R m n) (b : DenseMatrix R n p) : DenseMatrix R m p :=
  ofFn fun i j =>
    (List.finRange n).foldl
      (fun sum k => if a.get i k == 0 then sum else sum + a.get i k * b.get k j) 0

/-- The product of a matrix and a column. -/
def mulVec (a : DenseMatrix R m n) (v : Vector R n) : Vector R m :=
  Vector.ofFn fun i => Number.sum ((List.finRange n).map fun k => a.get i k * v[k])

/-! ## Powers -/

/-- The product `result · base ^ k` by repeated squaring. -/
def mulPow (result base : DenseMatrix R n n) (k : Nat) : DenseMatrix R n n :=
  if k = 0 then result
  else mulPow (if k % 2 = 1 then result.mul base else result) (base.mul base) (k / 2)
termination_by k

/-- A power of a square matrix. -/
def pow (a : DenseMatrix R n n) (k : Nat) : DenseMatrix R n n := mulPow (identity n) a k

/-- The sum `sum + power · (1 + a + … + a ^ (k - 1))`. -/
def addPowers (a sum power : DenseMatrix R n n) : Nat → DenseMatrix R n n
  | 0 => sum
  | k + 1 => addPowers a (sum.add power) (power.mul a) k

/-- The sum `1 + a + … + a ^ (k - 1)`. -/
def powerSum (a : DenseMatrix R n n) (k : Nat) : DenseMatrix R n n :=
  addPowers a (zero n n) (identity n) k

/-! ## Inverse -/

/-- Exchange two rows. -/
def swapRows (a : DenseMatrix R m n) (i j : Fin m) : DenseMatrix R m n :=
  ofFn fun r c => a.get (if r = i then j else if r = j then i else r) c

/-- The row with the entry of largest magnitude in a column, among the given row and further rows.
Of equal entries the last one is taken, and an undefined entry counts as larger than all others. -/
def pivotRow (a : DenseMatrix R n n) (col best : Fin n) (rows : List (Fin n)) : Fin n :=
  rows.foldl
    (fun best r =>
      let x := Number.abs (a.get r col)
      if Number.abs (a.get best col) ≤ x ∨ Number.isNaN x then r else best) best

/-- Entries of less than this magnitude do not serve as a divisor. -/
def pivotEpsilon : R := Number.ofDecimal 1 (-12)

/-- Divide the row `i` by `pivot`, and subtract from every other row its multiple by the factor of
that row; rows with the factor zero stay as they are. -/
def reduce (a : DenseMatrix R m n) (i : Fin m) (pivot : R) (factor : Fin m → R) :
    DenseMatrix R m n :=
  ofFn fun r c =>
    let scaled := a.get i c / pivot
    if r = i then scaled
    else if factor r == 0 then a.get r c
    else a.get r c - factor r * scaled

/-- One step of the elimination: clear a column of the left matrix up to the diagonal, and do the
same to the rows of the right one.  The step fails if no entry on or below the diagonal can serve as
a divisor. -/
def eliminate (col : Fin n) (a b : DenseMatrix R n n) :
    Option (DenseMatrix R n n × DenseMatrix R n n) :=
  let row := pivotRow a col col ((List.finRange n).filter (col < ·))
  let pivot := a.get row col
  if Number.abs pivot < pivotEpsilon then none
  else
    let a := a.swapRows col row
    let b := b.swapRows col row
    let factor (r : Fin n) : R := a.get r col
    some (a.reduce col pivot factor, b.reduce col pivot factor)

/-- Eliminate one column after the other. -/
def eliminateAll (a b : DenseMatrix R n n) :
    List (Fin n) → Option (DenseMatrix R n n × DenseMatrix R n n)
  | [] => some (a, b)
  | col :: cols =>
    match eliminate col a b with
    | none => none
    | some (a, b) => eliminateAll a b cols

/-- The inverse of a square matrix, unless it is singular or close to being singular. -/
def inverse? (a : DenseMatrix R n n) : Option (DenseMatrix R n n) :=
  (eliminateAll a (identity n) (List.finRange n)).map Prod.snd

/-- The text of a matrix of doubles: a line per row, six places per entry. -/
def text (a : DenseMatrix Float m n) : String :=
  String.join (a.toLists.map fun row =>
    "[" ++ String.intercalate ", " (row.map (Decimal.fixed 6)) ++ "]\n")

end DenseMatrix

end Roundoff
