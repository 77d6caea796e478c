/-!
The units of logical time. A unit has a length in nanoseconds, one canonical name under which
durations are written, and a few other words by which it is understood.
-/
namespace ReactorCausality

/-- A unit of logical time. -/
inductive TimeUnit where
  | nsec
  | usec
  | msec
  | sec
  | min
  | hour
  | day
  | week
  deriving DecidableEq, Repr

namespace TimeUnit

def nanos : TimeUnit → Nat
  | nsec => 1
  | usec => 1000
  | msec => 1000000
  | sec => 1000000000
  | min => 60 * 1000000000
  | hour => 3600 * 1000000000
  | day => 86400 * 1000000000
  | week => 604800 * 1000000000

/-- The canonical name, the one that is written. -/
def name : TimeUnit → String
  | nsec => "nsec"
  | usec => "usec"
  | msec => "msec"
  | sec => "sec"
  | min => "min"
  | hour => "hour"
  | day => "day"
  | week => "week"

/-- The words that name the unit, its canonical name among them. -/
def words : TimeUnit → List String
  | nsec => ["ns", "nsec", "nsecs"]
  | usec => ["us", "usec", "usecs"]
  | msec => ["ms", "msec", "msecs"]
  | sec => ["s", "sec", "secs", "second", "seconds"]
  | min => ["min", "mins", "minute", "minutes"]
  | hour => ["h", "hour", "hours"]
  | day => ["d", "day", "days"]
  | week => ["week", "weeks"]

def descending : List TimeUnit :=
  [week, day, hour, min, sec, msec, usec, nsec]

/-- The unit that a word names. Case matters, and no word names two units. -/
def ofWord? (word : String) : Option TimeUnit :=
  descending.find? fun unit => unit.words.contains word

theorem mem_descending (unit : TimeUnit) : unit ∈ descending := by
  cases unit <;> decide

end TimeUnit

end ReactorCausality
