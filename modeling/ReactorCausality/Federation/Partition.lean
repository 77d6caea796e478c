import ReactorCausality.Federation.Federate
import ReactorCausality.Index.Basic

/-!
Partitions of a program into federates. A reactor belongs to the federate that it is assigned to,
by its id or else by its hierarchical name; without an assignment it goes with its parent, and the
main reactor goes with the default federate. Federates are numbered in the order in which they are
first named, the default federate first.
-/
namespace ReactorCausality

/-- An assignment of reactors to federates. -/
structure Partition where
  names : List String
  byReactor : List (ReactorId × FederateId) := []
  byPath : List (String × FederateId) := []
  deriving DecidableEq, Repr

/-- An assignment that names no reactor of the program. -/
inductive PartitionProblem where
  | unknownReactor (id : ReactorId)
  | unknownPath (path : String)
  deriving DecidableEq, Repr

def PartitionProblem.message : PartitionProblem → String
  | unknownReactor id => s!"federate partition assigns unknown reactor id {id.text}"
  | unknownPath path => s!"federate partition assigns unknown reactor {path}"

namespace Partition

def defaultName : String := "default"

def single : Partition :=
  { names := [defaultName] }

/-- The number of the federate with a name, which gets the next number if it is new. -/
def federate (partition : Partition) (name : String) : Partition × FederateId :=
  match partition.names.idxOf? name with
  | some position => (partition, ⟨position⟩)
  | none => ({ partition with names := partition.names ++ [name] }, ⟨partition.names.length⟩)

/-- A list of pairs with one pair put in; it takes the place of one with the same key. -/
def put {κ ν : Type} [DecidableEq κ] (pairs : List (κ × ν)) (key : κ) (value : ν) :
    List (κ × ν) :=
  pairs.filter (fun pair => pair.1 ≠ key) ++ [(key, value)]

/-- Assigns a reactor by its id. -/
def assignReactor (partition : Partition) (reactor : ReactorId) (name : String) :
    Partition × FederateId :=
  let (partition, id) := partition.federate name
  ({ partition with byReactor := put partition.byReactor reactor id }, id)

/-- Assigns a reactor by its hierarchical name. -/
def assignPath (partition : Partition) (path : String) (name : String) :
    Partition × FederateId :=
  let (partition, id) := partition.federate name
  ({ partition with byPath := put partition.byPath path id }, id)

/-- The name of a federate; a number that is not in use has the default name. -/
def federateName (partition : Partition) (id : FederateId) : String :=
  partition.names.getD id.number defaultName

def assigned? (partition : Partition) (index : Index) (reactor : ReactorId) :
    Option FederateId :=
  (partition.byReactor.lookup reactor).or
    (partition.byPath.lookup (index.reactorName reactor))

def federateOf (partition : Partition) (index : Index) (reactor : ReactorId) : FederateId :=
  ((index.ancestorsOrSelf reactor).findSome? (partition.assigned? index)).getD .ofUnassigned

/-- The federates of all reactors of the program, each once. -/
def federates (partition : Partition) (index : Index) : List FederateId :=
  distinct (index.reactors.map fun entry => partition.federateOf index entry.reactor.id)

def isFederated (partition : Partition) (index : Index) : Bool :=
  1 < (partition.federates index).length

/-- Assignments that name no reactor of the program: first those by id and then those by name,
each in ascending order. -/
def problems (partition : Partition) (index : Index) : List PartitionProblem :=
  let ids := (partition.byReactor.map Prod.fst).filter fun id => (index.reactor? id).isNone
  let paths := (partition.byPath.map Prod.fst).filter fun path =>
    !(index.reactors.any fun entry => entry.name = path)
  (ids.mergeSort EntityId.precedes).map .unknownReactor
    ++ (paths.mergeSort fun left right => left ≤ right).map .unknownPath

end Partition

end ReactorCausality
