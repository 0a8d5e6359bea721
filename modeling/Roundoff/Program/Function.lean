/-
# Functions

A function is a list of formal parameters, blocks and instructions.  Blocks list the positions of
their instructions; the first block is the entry, and a function without blocks is a declaration.
-/
import Roundoff.Program.Instruction

namespace Roundoff

/-- A formal parameter. -/
structure Param (R : Type) where
  /-- The name of the parameter. -/
  name : String
  /-- The type of the parameter. -/
  ty : Ty
  /-- What is known of the parameter. -/
  info : Option (ValueInfo R)
deriving BEq, Repr

/-- A basic block. -/
structure Block where
  /-- The position of the block in its function. -/
  id : BlockId
  /-- The name of the block. -/
  name : String
  /-- The instructions of the block in order. -/
  insts : List InstId
  /-- How often the loop that starts here is to be unrolled. -/
  unrollHint : Option UInt32
  /-- The known number of iterations of the loop that starts here. -/
  tripCount : Option UInt32
deriving DecidableEq, Repr

/-- A function. -/
structure Function (R : Type) where
  /-- The position of the function in its module. -/
  id : FunctionId
  /-- The name of the function. -/
  name : String
  /-- The formal parameters. -/
  params : Array (Param R)
  /-- The type of the returned value. -/
  retTy : Ty
  /-- The blocks; none for a declaration. -/
  blocks : Array Block
  /-- The instructions of all blocks. -/
  insts : Array (Instruction R)
  /-- How many activations of the function may be nested, if not the default number. -/
  maxRecursion : Option UInt32
  /-- Whether the function is marked as an entry point of the analysis. -/
  entryPoint : Bool
deriving BEq, Repr

namespace Function

variable {R : Type}

/-- A function without a body. -/
def declaration (id : FunctionId) (name : String) (params : Array (Param R)) (retTy : Ty) :
    Function R :=
  ⟨id, name, params, retTy, #[], #[], none, false⟩

/-- Whether the function has no body. -/
def isDeclaration (f : Function R) : Bool := f.blocks.isEmpty

/-- The entry block. -/
def entry? (f : Function R) : Option BlockId := f.blocks[0]?.map Block.id

/-- The block at a position. -/
def block? (f : Function R) (b : BlockId) : Option Block := f.blocks[b.val.toNat]?

/-- The instruction at a position. -/
def inst? (f : Function R) (i : InstId) : Option (Instruction R) := f.insts[i.val.toNat]?

/-- The formal parameter at a position. -/
def param? (f : Function R) (index : UInt32) : Option (Param R) := f.params[index.toNat]?

/-- The instruction whose result an operand is. -/
def definition? (f : Function R) (v : Value R) : Option (Instruction R) := v.inst?.bind f.inst?

/-- The instructions of a block; positions without an instruction are skipped. -/
def blockInsts (f : Function R) (b : BlockId) : List (Instruction R) :=
  match f.block? b with
  | some block => block.insts.filterMap f.inst?
  | none => []

/-- The phis at the top of a block. -/
def phis (f : Function R) (b : BlockId) : List (Instruction R) :=
  (f.blockInsts b).takeWhile Instruction.isPhi

/-- The last instruction of a block, if it ends the block. -/
def terminator? (f : Function R) (b : BlockId) : Option (Instruction R) :=
  match (f.block? b).bind fun block => block.insts.getLast?.bind f.inst? with
  | some i => if i.op.isTerminator then some i else none
  | none => none

/-- The blocks that may follow a block. -/
def successors (f : Function R) (b : BlockId) : List BlockId :=
  match f.terminator? b with
  | some i => i.op.successors
  | none => []

/-- The blocks that a block may follow, in block order. -/
def predecessors (f : Function R) (b : BlockId) : List BlockId :=
  (f.blocks.toList.map Block.id).filter fun p => (f.successors p).contains b

/-- The functions that are called directly, each once, in the order of their first call. -/
def directCallees (f : Function R) : List FunctionId :=
  (f.insts.toList.filterMap fun i =>
    match i.op.callSite? with
    | some (.direct id, _) => some id
    | _ => none).eraseDups

end Function

end Roundoff
