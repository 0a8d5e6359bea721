/-
# Building modules

Modules are built step by step: struct types, globals and declarations are appended to the module,
and the body of a function is built apart under a position that is reserved for it, and installed
there when it is finished.  Every step answers the position or operand of what it adds.
-/
import Roundoff.Program.Module

namespace Roundoff

/-- A function body under construction. -/
structure FunctionBuilder (R : Type) where
  /-- The function built so far. -/
  function : Function R
  /-- The block to which instructions are appended. -/
  current : Option BlockId
deriving Repr

/-- A module under construction. -/
structure ModuleBuilder (R : Type) where
  /-- The module built so far. -/
  module : Module R
deriving Repr

namespace FunctionBuilder

variable {R : Type}

/-- A function without parameters and blocks. -/
def start (id : FunctionId) (name : String) (retTy : Ty) : FunctionBuilder R :=
  ⟨Function.declaration id name #[] retTy, none⟩

/-- Add a formal parameter, with what is known of it. -/
def addParam (b : FunctionBuilder R) (name : String) (ty : Ty) (info : Option (ValueInfo R)) :
    Value R × FunctionBuilder R :=
  (.arg (UInt32.ofNat b.function.params.size),
    { b with function.params := b.function.params.push ⟨name, ty, info⟩ })

/-- Bound the number of nested activations. -/
def setMaxRecursion (b : FunctionBuilder R) (bound : UInt32) : FunctionBuilder R :=
  { b with function.maxRecursion := some bound }

/-- Mark the function as an entry point. -/
def markEntryPoint (b : FunctionBuilder R) : FunctionBuilder R :=
  { b with function.entryPoint := true }

/-- Add an empty block. -/
def addBlock (b : FunctionBuilder R) (name : String) : BlockId × FunctionBuilder R :=
  let id : BlockId := ⟨UInt32.ofNat b.function.blocks.size⟩
  (id, { b with function.blocks := b.function.blocks.push ⟨id, name, [], none, none⟩ })

/-- Append further instructions to the given block. -/
def positionAt (b : FunctionBuilder R) (block : BlockId) : FunctionBuilder R :=
  { b with current := some block }

/-- Change the block at a position, if there is one. -/
def modifyBlock (b : FunctionBuilder R) (id : BlockId) (change : Block → Block) :
    FunctionBuilder R :=
  { b with function.blocks := b.function.blocks.modify id.val.toNat change }

/-- Change the instruction that an operand names, if there is one. -/
def modifyInst (b : FunctionBuilder R) (v : Value R) (change : Instruction R → Instruction R) :
    FunctionBuilder R :=
  match v.inst? with
  | some id => { b with function.insts := b.function.insts.modify id.val.toNat change }
  | none => b

/-- Say how often the loop that starts at a block is to be unrolled and how often it runs. -/
def setLoopHints (b : FunctionBuilder R) (block : BlockId) (unrollHint tripCount : Option UInt32) :
    FunctionBuilder R :=
  b.modifyBlock block fun bl => { bl with unrollHint := unrollHint, tripCount := tripCount }

/-- The block for the next instruction; a first block is made if none was chosen. -/
def ensureBlock (b : FunctionBuilder R) : BlockId × FunctionBuilder R :=
  match b.current with
  | some block => (block, b)
  | none =>
    let (block, b) := b.addBlock "entry"
    (block, b.positionAt block)

/-- Append an instruction to the current block. -/
def push (b : FunctionBuilder R) (name : String) (ty : Ty) (op : Operation R) :
    Value R × FunctionBuilder R :=
  let (block, b) := b.ensureBlock
  let id : InstId := ⟨UInt32.ofNat b.function.insts.size⟩
  let b := { b with function.insts := b.function.insts.push ⟨id, block, name, ty, op, none, none⟩ }
  (.inst id, b.modifyBlock block fun bl => { bl with insts := bl.insts ++ [id] })

/-- Say what is known of the result of an instruction. -/
def annotate (b : FunctionBuilder R) (v : Value R) (info : ValueInfo R) : FunctionBuilder R :=
  b.modifyInst v fun i => { i with info := some info }

/-- Label the result of an instruction. -/
def setTarget (b : FunctionBuilder R) (v : Value R) (label : String) : FunctionBuilder R :=
  b.modifyInst v fun i => { i with target := some label }

/-- Add an incoming value to a phi. -/
def addIncoming (b : FunctionBuilder R) (phi value : Value R) (block : BlockId) :
    FunctionBuilder R :=
  b.modifyInst phi fun i =>
    match i.op with
    | .phi incoming => { i with op := .phi (incoming ++ [(value, block)]) }
    | _ => i

/-- Append an integer comparison; its result has one bit. -/
def icmp (b : FunctionBuilder R) (p : Predicate) (name : String) (lhs rhs : Value R) :
    Value R × FunctionBuilder R :=
  b.push name (.int 1) (.icmp p lhs rhs)

/-- Append a comparison of real numbers; its result has one bit. -/
def fcmp (b : FunctionBuilder R) (p : Predicate) (name : String) (lhs rhs : Value R) :
    Value R × FunctionBuilder R :=
  b.push name (.int 1) (.fcmp p lhs rhs)

/-- Append a stack slot; its result is a pointer to the allocated type. -/
def alloca (b : FunctionBuilder R) (name : String) (allocated : Ty) :
    Value R × FunctionBuilder R :=
  b.push name (.pointer allocated) (.alloca allocated)

/-- Append an instruction whose result has no name and no value. -/
def pushVoid (b : FunctionBuilder R) (op : Operation R) : Value R × FunctionBuilder R :=
  b.push "" .void op

end FunctionBuilder

namespace ModuleBuilder

variable {R : Type}

/-- An empty module. -/
def start (name : String) : ModuleBuilder R := ⟨Module.empty name⟩

/-- Add a struct type. -/
def addStruct (b : ModuleBuilder R) (name : String) (fields : List Ty) :
    StructId × ModuleBuilder R :=
  (⟨UInt32.ofNat b.module.structs.size⟩,
    { b with module.structs := b.module.structs.push ⟨name, fields⟩ })

/-- Add a global variable. -/
def addGlobal (b : ModuleBuilder R) (name : String) (ty : Ty) (info : Option (ValueInfo R)) :
    GlobalId × ModuleBuilder R :=
  let id : GlobalId := ⟨UInt32.ofNat b.module.globals.size⟩
  (id, { b with module.globals := b.module.globals.push ⟨id, name, ty, info, none⟩ })

/-- Label a global variable, if it exists. -/
def setGlobalTarget (b : ModuleBuilder R) (id : GlobalId) (label : String) : ModuleBuilder R :=
  { b with
    module.globals := b.module.globals.modify id.val.toNat fun g =>
      { g with target := some label } }

/-- Add a function without a body. -/
def declare (b : ModuleBuilder R) (name : String) (params : Array (Param R)) (retTy : Ty) :
    FunctionId × ModuleBuilder R :=
  let id : FunctionId := ⟨UInt32.ofNat b.module.functions.size⟩
  (id, { b with
    module.functions := b.module.functions.push (Function.declaration id name params retTy) })

/-- Reserve a position for a function and start its body. -/
def startFunction (b : ModuleBuilder R) (name : String) (retTy : Ty) :
    FunctionBuilder R × ModuleBuilder R :=
  let (id, b) := b.declare name #[] retTy
  (.start id name retTy, b)

/-- Install a finished body at its position, or at the end if the position does not exist. -/
def define (b : ModuleBuilder R) (f : FunctionBuilder R) : FunctionId × ModuleBuilder R :=
  let n := f.function.id.val.toNat
  (f.function.id, { b with
    module.functions :=
      if n < b.module.functions.size then b.module.functions.modify n fun _ => f.function
      else b.module.functions.push f.function })

end ModuleBuilder

end Roundoff
