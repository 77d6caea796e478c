import ReactorCausality.Program.Interchange

/-!
How federates agree on the time, and what is known about the delays between them.
-/
namespace ReactorCausality

/-- How federates agree on going on to the next tag. -/
inductive Coordination where
  /-- A coordinator grants it; it can settle waits that have no bound of their own. -/
  | centralized
  /-- Every federate goes by its own clock, so every wait needs a bound. -/
  | decentralized
  deriving DecidableEq, Repr, Inhabited

namespace Coordination

def word : Coordination → String
  | centralized => "centralized"
  | decentralized => "decentralized"

def decode : Nat → Decoder Coordination :=
  .choice [(word centralized, centralized), (word decentralized, decentralized)] []

end Coordination

/-- What bounds are computed from. No latency is assumed unless one is given. -/
structure Policy where
  coordination : Coordination := .centralized
  networkLatency : Option TimeValue := none
  /-- The safe-to-process offset where no reaction that waits declares one. -/
  defaultOffset : Option TimeValue := none
  deriving DecidableEq, Repr, Inhabited

namespace Policy

/-- The fields of a policy, none of which has to be given. -/
def fields (depth : Nat) : List (Decoder.Field Policy) :=
  [.defaulted "coordination" (Coordination.decode depth)
      fun policy coordination => { policy with coordination },
    .defaulted "network_latency" (.optional .time)
      fun policy networkLatency => { policy with networkLatency },
    .defaulted "default_stp" (.optional .time)
      fun policy defaultOffset => { policy with defaultOffset }]

def decode : Nat → Decoder Policy :=
  .record {} fields

def ofText (text : String) : Except DecodeFault Policy :=
  Decoder.text decode text

end Policy

end ReactorCausality
