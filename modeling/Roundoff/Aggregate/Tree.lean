/-
# Errors of the fields of an aggregate

The estimates of the scalars inside an aggregate form a tree.  Its nodes are kept in an arena, in
the order in which they are made: the root is node zero, a node for an aggregate has a slot for each
field, and every other node knows its parent.  Dimensions of arrays have no nodes of their own, so
all elements of an array share what is known of them.
-/
import Roundoff.Program.Module

namespace Roundoff

/-- A step of a path into an aggregate. -/
inductive PathIndex where
  /-- A constant index. -/
  | const (n : Nat)
  /-- An index that is not constant, which may select an array element but no field. -/
  | dynamic
deriving DecidableEq, Repr

/-- The number of a node in its arena. -/
abbrev NodeId := Nat

/-- What a node stands for. -/
inductive NodeKind (R : Type) where
  /-- An aggregate, with the nodes of those fields that have one. -/
  | aggregate (ty : StructId) (fields : List (Option NodeId))
  /-- A scalar. -/
  | leaf (estimate : Estimate R)
deriving Repr

/-- A node of a tree. -/
structure Node (R : Type) where
  /-- The node that has this one in a slot. -/
  parent : Option NodeId
  /-- What the node stands for. -/
  kind : NodeKind R
deriving Repr

/-- The estimates of the scalars inside an aggregate. -/
structure Tree (R : Type) where
  /-- The nodes in the order in which they were made. -/
  nodes : Array (Node R)
deriving Repr

/-- A node for an aggregate whose fields have no nodes yet. -/
def Module.aggregateNode {R : Type} (m : Module R) (ty : StructId) : NodeKind R :=
  .aggregate ty (List.replicate (m.structWidth ty) none)

/-- The type of a field of a struct type. -/
def Module.fieldType? {R : Type} (m : Module R) (ty : StructId) (field : Nat) : Option Ty :=
  (m.struct? ty).bind fun s => s.fields[field]?

namespace Tree

variable {R : Type} [Number R]

/-- The tree of an aggregate of which nothing is known. -/
def new (m : Module R) (ty : StructId) : Tree R := ⟨#[⟨none, m.aggregateNode ty⟩]⟩

/-- The number of nodes. -/
def size (t : Tree R) : Nat := t.nodes.size

/-- The node of a number. -/
def node? (t : Tree R) (n : NodeId) : Option (Node R) := t.nodes[n]?

/-- What a node stands for. -/
def kind? (t : Tree R) (n : NodeId) : Option (NodeKind R) := (t.node? n).map Node.kind

/-- Make a node for a field of an aggregate and put it into the slot of the field. -/
def addChild (t : Tree R) (parent : NodeId) (field : Nat) (kind : NodeKind R) :
    Option (NodeId × Tree R) :=
  match t.node? parent with
  | some ⟨above, .aggregate ty fields⟩ =>
    if field < fields.length then
      let filled : Node R := ⟨above, .aggregate ty (fields.set field (some t.size))⟩
      some (t.size, ⟨(t.nodes.setIfInBounds parent filled).push ⟨some parent, kind⟩⟩)
    else none
  | _ => none

/-- The estimate of an annotated scalar. -/
def annotated (info : ScalarInfo R) : Fresh (Estimate R) := do
  return ⟨info.range?.getD Range.unknown, ← info.error?⟩

mutual

/-- Make the node of a field from its annotation.  An aggregate annotation counts for an aggregate
only. -/
def seedField (m : Module R) (ty : StructId) (parent : NodeId) (field : Nat) (t : Tree R) :
    ValueInfo R → Fresh (Tree R)
  | .scalar info =>
    match m.fieldType? ty field with
    | none => return t
    | some _ => do
      let e ← annotated info
      return match t.addChild parent field (.leaf e) with
        | some (_, t) => t
        | none => t
  | .struct infos =>
    match (m.fieldType? ty field).map Ty.stripArrays with
    | some (.struct inner) =>
      match t.addChild parent field (m.aggregateNode inner) with
      | some (child, t) => seedFields m inner child 0 t infos
      | none => return t
    | _ => return t

/-- Make the nodes of the fields of an aggregate from their annotations, where the first annotation
belongs to the given field. -/
def seedFields (m : Module R) (ty : StructId) (parent : NodeId) (field : Nat) (t : Tree R) :
    List (Option (ValueInfo R)) → Fresh (Tree R)
  | [] => return t
  | none :: infos => seedFields m ty parent (field + 1) t infos
  | some info :: infos => do
    let t ← seedField m ty parent field t info
    seedFields m ty parent (field + 1) t infos

end

/-- The tree of an annotated aggregate. -/
def ofInfo (m : Module R) (ty : StructId) (infos : List (Option (ValueInfo R))) : Fresh (Tree R) :=
  seedFields m ty 0 0 (new m ty) infos

/-- Follow a path from a node to a scalar and make the nodes that are missing on the way, where
the next `skip` steps select array elements.  The answer names no node if the path ends at an
aggregate, selects a field by an index that is not constant, or leaves the fields of a type; the
nodes made before that are kept. -/
def locate (m : Module R) (t : Tree R) (n : NodeId) (skip : Nat) :
    List PathIndex → Option NodeId × Tree R
  | [] =>
    match t.kind? n with
    | some (.leaf _) => (some n, t)
    | _ => (none, t)
  | step :: path =>
    match t.kind? n, skip, step with
    | none, _, _ => (none, t)
    | some (.leaf _), _, _ => (some n, t)
    | some (.aggregate _ _), skip + 1, _ => locate m t n skip path
    | some (.aggregate _ _), 0, .dynamic => (none, t)
    | some (.aggregate ty fields), 0, .const field =>
      match fields[field]?, m.fieldType? ty field with
      | some (some child), some fieldTy => locate m t child fieldTy.arrayDepth path
      | some none, some fieldTy =>
        let kind :=
          match fieldTy.stripArrays with
          | .struct inner => m.aggregateNode inner
          | _ => .leaf Estimate.unknown
        match t.addChild n field kind with
        | some (child, t) => locate m t child fieldTy.arrayDepth path
        | none => (none, t)
      | _, _ => (none, t)

/-- Set the estimate of the scalar at a path, and say whether there is one. -/
def set (m : Module R) (t : Tree R) (path : List PathIndex) (e : Estimate R) : Bool × Tree R :=
  match locate m t 0 0 path with
  | (none, t) => (false, t)
  | (some n, t) =>
    match t.node? n with
    | some ⟨parent, .leaf _⟩ => (true, ⟨t.nodes.setIfInBounds n ⟨parent, .leaf e⟩⟩)
    | _ => (false, t)

/-- The estimate at the end of a path from a node, where the next `skip` steps select array
elements. -/
def find? (m : Module R) (t : Tree R) (n : NodeId) (skip : Nat) :
    List PathIndex → Option (Estimate R)
  | [] =>
    match t.kind? n with
    | some (.leaf e) => some e
    | _ => none
  | step :: path =>
    match t.kind? n, skip, step with
    | none, _, _ => none
    | some (.leaf e), _, _ => some e
    | some (.aggregate _ _), skip + 1, _ => find? m t n skip path
    | some (.aggregate _ _), 0, .dynamic => none
    | some (.aggregate ty fields), 0, .const field =>
      match fields[field]?, m.fieldType? ty field with
      | some (some child), some fieldTy => find? m t child fieldTy.arrayDepth path
      | _, _ => none

/-- The estimate of the scalar at a path. -/
def get? (m : Module R) (t : Tree R) (path : List PathIndex) : Option (Estimate R) :=
  find? m t 0 0 path

/-- Change the estimates of all scalars. -/
def mapLeaves (f : Estimate R → Estimate R) (t : Tree R) : Tree R :=
  ⟨t.nodes.map fun n =>
    match n.kind with
    | .leaf e => { n with kind := .leaf (f e) }
    | .aggregate .. => n⟩

/-- Set all known errors to zero. -/
def zeroed (t : Tree R) : Tree R := t.mapLeaves Estimate.zeroed

/-- The estimates of all scalars in the order in which their nodes were made. -/
def leaves (t : Tree R) : List (Estimate R) :=
  t.nodes.toList.filterMap fun n =>
    match n.kind with
    | .leaf e => some e
    | .aggregate .. => none

/-- Whether every node that fills a field of an aggregate names that aggregate as its parent. -/
def linked (t : Tree R) : Bool :=
  t.nodes.toList.zipIdx.all fun (n, id) =>
    match n.kind with
    | .leaf _ => true
    | .aggregate _ fields =>
      fields.all fun field => field.all fun child => (t.node? child).any fun c => c.parent == some id

end Tree

end Roundoff
