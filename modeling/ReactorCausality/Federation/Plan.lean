import ReactorCausality.Federation.Partition
import ReactorCausality.Federation.Policy

/-!
Federation plans: which reactors go to which federates, by hierarchical names, and what is known
about coordination and delays. A plan says nothing about what it leaves out.
-/
namespace ReactorCausality

/-- A plan for the federates of a program. -/
structure FederationPlan where
  coordination : Option Coordination := none
  networkLatency : Option TimeValue := none
  defaultOffset : Option TimeValue := none
  /-- The federate for each hierarchical name, in ascending order of the names. -/
  federates : List (String × String) := []
  deriving DecidableEq, Repr, Inhabited

namespace FederationPlan

/-- Pairs in ascending order of their keys. Of several pairs with one key the last one stays. -/
def sorted (pairs : List (String × String)) : List (String × String) :=
  (pairs.foldl (fun kept pair => Partition.put kept pair.1 pair.2) []).mergeSort
    fun left right => left.1 ≤ right.1

/-- The fields of a plan, none of which has to be given. -/
def fields (depth : Nat) : List (Decoder.Field FederationPlan) :=
  [.defaulted "coordination" (.optional (Coordination.decode depth))
      fun plan coordination => { plan with coordination },
    .defaulted "network_latency" (.optional .time)
      fun plan networkLatency => { plan with networkLatency },
    .defaulted "default_stp" (.optional .time)
      fun plan defaultOffset => { plan with defaultOffset },
    .defaulted "federates" (.members (fun _ => .string) depth)
      fun plan federates => { plan with federates := sorted federates }]

def decode : Nat → Decoder FederationPlan :=
  .record {} fields

def ofText (text : String) : Except DecodeFault FederationPlan :=
  Decoder.text decode text

def partition (plan : FederationPlan) : Partition :=
  plan.federates.foldl (fun partition (path, name) => (partition.assignPath path name).1) .single

end FederationPlan

end ReactorCausality
