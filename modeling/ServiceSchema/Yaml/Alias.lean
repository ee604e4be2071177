import ServiceSchema.Yaml.Outline

/-! # Aliases
An alias stands for the node that carries its anchor. Anchors are numbered by how many different names came
before; a later node with the same number takes the place of an earlier one. -/
namespace ServiceSchema.Yaml

/-- A node as it is met: itself, or through an alias. -/
structure Met where
  node : Node
  isAlias : Bool
deriving DecidableEq

namespace Anchors

/-- A node, or the number of the anchor that stands for one. -/
inductive Item where
  | node (n : Node)
  | reference (number : Nat)
deriving DecidableEq

structure Table where
  /-- The number that each name has now. -/
  numbers : List (String × Nat)
  /-- The nodes that were given a number, the latest first. -/
  targets : List (Nat × Node)
deriving DecidableEq

def Table.add (t : Table) (name : String) (n : Node) : Table :=
  let number := t.numbers.length
  ⟨(name, number) :: t.numbers.filter (·.1 ≠ name), (number, n) :: t.targets⟩

/-- Numbers the anchors of the nodes. An alias without anchor before it ends them. -/
def collect : Table → List Node → List Item × Table × Option Fault
  | t, [] => ([], t, none)
  | t, n :: ns =>
    match n.content with
    | .alias name =>
      match t.numbers.lookup name with
      | none => ([], t, some (.unknownAnchor n.mark))
      | some number =>
        let (items, t, fault) := collect t ns
        (.reference number :: items, t, fault)
    | _ =>
      let t := match n.anchor with
        | some name => t.add name n
        | none => t
      let (items, t, fault) := collect t ns
      (.node n :: items, t, fault)

def Table.resolve (t : Table) : Item → Option Met
  | .node n => some ⟨n, false⟩
  | .reference number => (t.targets.lookup number).map fun n => ⟨n, true⟩

end Anchors

/-- The nodes of an outline with each alias replaced, and how they end. -/
def Outline.resolved (o : Outline) : List Met × Ending :=
  let (items, t, fault) := Anchors.collect ⟨[], []⟩ o.nodes
  (items.filterMap t.resolve, fault.elim o.ending .fault)

end ServiceSchema.Yaml
