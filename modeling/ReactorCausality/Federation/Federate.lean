import ReactorCausality.Json.Value

/-!
Federates, the units that a program is split into for execution. A federate is known by its number,
its position among the names of a partition.
-/
namespace ReactorCausality

/-- The number of a federate. -/
structure FederateId where
  number : Nat
  deriving DecidableEq, Repr

namespace FederateId

def ofUnassigned : FederateId := ⟨0⟩

def toJson (id : FederateId) : Json :=
  .nat id.number

end FederateId

end ReactorCausality
