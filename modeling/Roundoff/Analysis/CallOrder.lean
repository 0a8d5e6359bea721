/-
# Callees before callers

Functions that call each other in a circle form a *component*.  Components are listed so that the
callees of a component come before it.

A depth-first search over the calls leaves a component for good when it leaves the function of the
component that it entered first, which is also the one of the component that it leaves last.
Listing the components in the order in which these functions are left puts callees before callers.
-/
import Roundoff.Program.Module
import Roundoff.Flow.Graph
import Roundoff.Settings

namespace Roundoff

namespace Module

variable {R : Type}

/-- The functions of a module. -/
def functionIds (m : Module R) : List FunctionId :=
  (List.range m.functions.size).map fun n => ⟨UInt32.ofNat n⟩

/-- The functions of the module that a function calls directly, the one called last first. -/
def callees (m : Module R) (id : FunctionId) : List FunctionId :=
  match m.function? id with
  | some f => (f.directCallees.filter fun callee => (m.function? callee).isSome).reverse
  | none => []

/-- The functions that are called by a function or by functions that it calls, and the function
itself. -/
def reachableFrom (m : Module R) (id : FunctionId) : List FunctionId :=
  (Search.visit m.callees m.functions.size (.avoiding []) id).seen

/-- The functions in the order in which a depth-first search over the calls leaves them, the one
left last in front. -/
def callSearch (m : Module R) : List FunctionId :=
  (m.functionIds.foldl (Search.visit m.callees m.functions.size) (.avoiding [])).finished

/-- The component of a function in ascending order: the functions that call it and are called by it,
if only through others. -/
def componentOf (m : Module R) (id : FunctionId) : List FunctionId :=
  let reached := m.reachableFrom id
  m.functionIds.filter fun other => reached.contains other && (m.reachableFrom other).contains id

/-- The components, callees before callers. -/
def components (m : Module R) : List (List FunctionId) :=
  (m.callSearch.map m.componentOf).eraseDups.reverse

/-- All functions, callees before callers. -/
def bottomUp (m : Module R) : List FunctionId := m.components.flatten

/-- Whether the analysis starts from a function: it has a body, and if only marked functions are
asked for, it is marked. -/
def isEntry (m : Module R) (settings : Settings) (id : FunctionId) : Bool :=
  match m.function? id with
  | some f => !f.isDeclaration && (!settings.propagateOnlyFlagged || f.entryPoint)
  | none => false

/-- The functions from which the analysis starts, callees before callers. -/
def entries (m : Module R) (settings : Settings) : List FunctionId :=
  m.bottomUp.filter (m.isEntry settings)

end Module

end Roundoff
