import ReactorCausality.Time.Unit

/-!
Logical durations. A duration is a count of nanoseconds in one 64-bit word. The largest word
stands for `forever`, a wait that never ends. Sums stop at `forever`, differences stop at zero,
and `forever` less a finite duration is still `forever`.

A duration is written as a literal: `forever`, `0`, or a count of the longest unit that divides
it exactly.
-/
namespace ReactorCausality

/-- A logical duration that is not negative. -/
structure TimeValue where
  nanos : UInt64
  deriving DecidableEq, Repr

namespace TimeValue

def zero : TimeValue := ⟨0⟩

/-- The wait that never ends. It is the largest of all durations. -/
def forever : TimeValue := ⟨UInt64.ofNat (UInt64.size - 1)⟩

def isZero (value : TimeValue) : Bool :=
  value.nanos == 0

def isForever (value : TimeValue) : Bool :=
  value == forever

/-- So many of a unit, if that is less than `forever`. -/
def ofParts? (magnitude : UInt64) (unit : TimeUnit) : Option TimeValue :=
  let nanos := magnitude.toNat * unit.nanos
  if nanos < UInt64.size - 1 then some ⟨UInt64.ofNat nanos⟩ else none

instance : LE TimeValue where
  le left right := left.nanos ≤ right.nanos

instance : LT TimeValue where
  lt left right := left.nanos < right.nanos

instance (left right : TimeValue) : Decidable (left ≤ right) :=
  inferInstanceAs (Decidable (left.nanos ≤ right.nanos))

instance (left right : TimeValue) : Decidable (left < right) :=
  inferInstanceAs (Decidable (left.nanos < right.nanos))

instance : Max TimeValue where
  max left right := if left ≤ right then right else left

/-- The sum, or `forever` where the sum does not fit. -/
def add (left right : TimeValue) : TimeValue :=
  ⟨UInt64.ofNat (min (left.nanos.toNat + right.nanos.toNat) (UInt64.size - 1))⟩

/-- The difference, or zero where the second is the longer. `forever` less a finite duration is
`forever`. -/
def sub (left right : TimeValue) : TimeValue :=
  if left.isForever && !right.isForever then left
  else ⟨UInt64.ofNat (left.nanos.toNat - right.nanos.toNat)⟩

/-- The longest unit that divides the duration exactly. -/
def unit (value : TimeValue) : TimeUnit :=
  (TimeUnit.descending.find? fun unit => value.nanos.toNat % unit.nanos == 0).getD .nsec

def literal (value : TimeValue) : String :=
  if value.isForever then "forever"
  else if value.isZero then "0"
  else toString (value.nanos.toNat / value.unit.nanos) ++ " " ++ value.unit.name

end TimeValue

end ReactorCausality
