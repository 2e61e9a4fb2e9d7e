import CHeader.Text.Columns
import CHeader.Text.Trim

/- How much of a bench's time is spent in the project. -/

namespace CHeader

namespace Bench

-- Runs

/- A run of a bench: its time, the part of it that was spent
  in the project, and the kind of failure that ended it. -/
structure Run where
  name : String
  time : Float := 0.0
  projectTime : Float := 0.0
  failure : Option String := none
  deriving Inhabited

def isBenchName (name : String) : Bool := Text.hasStart name "bench_"

/- The part of the time that is spent in the project, in percent; a run that failed has minus one. -/
def Run.share (run : Run) : Float :=
  if run.failure.isSome then -1.0
  else if run.time == 0.0 then 0.0
  else Text.roundTo 1 (100.0 * run.projectTime / run.time)

def Run.label? (run : Run) : Option String := run.failure.map (fun kind => "<" ++ kind ++ ">")

end Bench

end CHeader
