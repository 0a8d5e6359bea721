/-
# Validity of modules

A module is valid if the positions that functions, globals, blocks and instructions carry are their
own, every block lists instructions that belong to it, and branches, phis and direct calls refer to
blocks and functions that exist.  The first defect found is reported: functions come before
globals, and within a function the blocks before the instructions.
-/
import Roundoff.Program.Module

namespace Roundoff

/-- A defect in the body of a function. -/
inductive BodyDefect where
  /-- A block carries a position that is not its own. -/
  | blockPosition (id : BlockId) (index : Nat)
  /-- A block lists an instruction of another block. -/
  | foreignInstruction (inst : InstId) (block : BlockId)
  /-- A block lists an instruction that does not exist. -/
  | danglingInstruction (inst : InstId)
  /-- An instruction carries a position that is not its own. -/
  | instructionPosition (id : InstId) (index : Nat)
  /-- A branch leads to a block that does not exist. -/
  | missingTarget (block : BlockId)
  /-- A phi has a value for a block that does not exist. -/
  | missingIncoming (block : BlockId)
deriving DecidableEq, Repr

/-- A defect of a module. -/
inductive Defect where
  /-- A function carries a position that is not its own. -/
  | functionPosition (name : String) (id : FunctionId) (index : Nat)
  /-- A global variable carries a position that is not its own. -/
  | globalPosition (name : String) (id : GlobalId) (index : Nat)
  /-- The body of a function has a defect. -/
  | body (function : String) (defect : BodyDefect)
  /-- A function is called that does not exist. -/
  | unknownCallee (callee : FunctionId) (caller : String)
deriving DecidableEq, Repr

/-- The text of a defect in the body of a function. -/
def BodyDefect.message : BodyDefect → String
  | blockPosition id index => s!"block id {id.val} at index {index}"
  | foreignInstruction inst block =>
    s!"instruction {inst.val} listed in block {block.val} it does not belong to"
  | danglingInstruction inst => s!"dangling instruction id {inst.val}"
  | instructionPosition id index => s!"instruction id {id.val} at index {index}"
  | missingTarget block => s!"branch to missing block {block.val}"
  | missingIncoming block => s!"phi incoming from missing block {block.val}"

/-- The text of a defect. -/
def Defect.message : Defect → String
  | functionPosition name id index =>
    s!"Malformed input: function '{name}' has id {id.val} but sits at index {index}"
  | globalPosition name id index =>
    s!"Malformed input: global '{name}' has id {id.val} but sits at index {index}"
  | body function defect => s!"Malformed input: {function}: {defect.message}"
  | unknownCallee callee caller => s!"Unknown function: {callee.val} (called from {caller})"

/-- The first defect that a test finds in a list whose items are numbered from `n`. -/
def firstDefect {α ε : Type} (test : Nat → α → Option ε) (n : Nat) : List α → Option ε
  | [] => none
  | x :: xs => (test n x).or (firstDefect test (n + 1) xs)

namespace Function

variable {R : Type}

/-- The defect of an entry in the list of instructions of a block. -/
def entryDefect? (f : Function R) (b : Block) (i : InstId) : Option BodyDefect :=
  match f.inst? i with
  | some inst => if inst.block = b.id then none else some (.foreignInstruction i b.id)
  | none => some (.danglingInstruction i)

/-- The first defect of a block. -/
def blockDefect? (f : Function R) (index : Nat) (b : Block) : Option BodyDefect :=
  if b.id.val.toNat = index then b.insts.findSome? (f.entryDefect? b)
  else some (.blockPosition b.id index)

/-- The defect of a branch target. -/
def targetDefect? (f : Function R) (b : BlockId) : Option BodyDefect :=
  if (f.block? b).isSome then none else some (.missingTarget b)

/-- The first missing block among the incoming edges of a phi. -/
def incomingDefect? (f : Function R) (op : Operation R) : Option BodyDefect :=
  (op.incoming?.getD []).findSome? fun (_, b) =>
    if (f.block? b).isSome then none else some (.missingIncoming b)

/-- The first defect of an instruction, apart from calls. -/
def instructionDefect? (f : Function R) (index : Nat) (i : Instruction R) : Option BodyDefect :=
  if i.id.val.toNat = index then
    (i.op.successors.findSome? f.targetDefect?).or (f.incomingDefect? i.op)
  else some (.instructionPosition i.id index)

end Function

namespace Module

variable {R : Type}

/-- The defect of a direct call. -/
def callDefect? (m : Module R) (f : Function R) (i : Instruction R) : Option Defect :=
  match i.op.callSite? with
  | some (.direct id, _) =>
    if (m.function? id).isSome then none else some (.unknownCallee id f.name)
  | _ => none

/-- The first defect of the body of a function. -/
def bodyDefect? (m : Module R) (f : Function R) : Option Defect :=
  ((firstDefect f.blockDefect? 0 f.blocks.toList).map (Defect.body f.name)).or
    (firstDefect
      (fun n i => ((f.instructionDefect? n i).map (Defect.body f.name)).or (m.callDefect? f i))
      0 f.insts.toList)

/-- The first defect of a function. -/
def functionDefect? (m : Module R) (index : Nat) (f : Function R) : Option Defect :=
  if f.id.val.toNat = index then m.bodyDefect? f
  else some (.functionPosition f.name f.id index)

/-- The defect of a global variable. -/
def globalDefect? (index : Nat) (g : Global R) : Option Defect :=
  if g.id.val.toNat = index then none else some (.globalPosition g.name g.id index)

/-- The first defect of a module. -/
def defect? (m : Module R) : Option Defect :=
  (firstDefect m.functionDefect? 0 m.functions.toList).or
    (firstDefect globalDefect? 0 m.globals.toList)

/-- Check that a module is valid. -/
def validate (m : Module R) : Except Defect Unit :=
  match m.defect? with
  | some d => .error d
  | none => .ok ()

end Module

end Roundoff
