/-!
The status of a port behind a boundary, within one tag. The first message or the end of the wait
settles it until the next tag. A wait that ends once the port is settled changes nothing; a message
that comes then is refused, as late if the wait had ended and as a duplicate otherwise.
-/
namespace ReactorCausality

/-- What is known about a port at the current tag. -/
inductive PortStatus where
  | pending
  | dataReceived
  | absentReceived
  | timedOut
  deriving DecidableEq, Repr

/-- What can happen to a port. -/
inductive PortEvent where
  /-- A value arrives. -/
  | data
  /-- The sender announces that there is no value. -/
  | absent
  /-- The wait has reached its bound. -/
  | timeout
  /-- The receiver goes on to the next tag. -/
  | newTag
  deriving DecidableEq, Repr

/-- A message that is refused. -/
inductive ProtocolFault where
  | duplicate (status : PortStatus) (event : PortEvent)
  | late (event : PortEvent)
  deriving DecidableEq, Repr

namespace PortEvent

def title : PortEvent → String
  | data => "Data"
  | absent => "Absent"
  | timeout => "Timeout"
  | newTag => "NewTag"

end PortEvent

namespace PortStatus

def text : PortStatus → String
  | pending => "pending"
  | dataReceived => "data-received"
  | absentReceived => "absent-received"
  | timedOut => "timed-out"

def isSettled (status : PortStatus) : Bool :=
  status != .pending

def after : PortStatus → PortEvent → Except ProtocolFault PortStatus
  | _, .newTag => .ok pending
  | pending, .data => .ok dataReceived
  | pending, .absent => .ok absentReceived
  | pending, .timeout => .ok timedOut
  | status, .timeout => .ok status
  | timedOut, event => .error (.late event)
  | status, event => .error (.duplicate status event)

/-- The statuses that a sequence of events leads through. An event that is refused leaves the
status as it was. -/
def run (status : PortStatus) : List PortEvent → List (Except ProtocolFault PortStatus)
  | [] => []
  | event :: events =>
    match status.after event with
    | .ok next => .ok next :: run next events
    | .error fault => .error fault :: run status events

end PortStatus

def ProtocolFault.message : ProtocolFault → String
  | duplicate status event =>
    s!"duplicate {event.title} message: port already {status.text}"
  | late event => s!"late {event.title} message: port already timed out"

end ReactorCausality
