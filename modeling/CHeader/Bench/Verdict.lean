import CHeader.Data.Basic
import CHeader.Text.Trim

/-
  Whether a bench checks itself.

  A bench is watched in several runs. It has to give a value that is the same in each of them, that
  follows its parameters and is none of them, and to spend its time in the project.
-/

namespace CHeader

-- Numbers

def Data.toReal : Data → Float
| .real x => x
| .int n => Float.ofInt n
| _ => 0.0

namespace Bench

/- The middle of numbers, or the mean of the two middle ones. -/
def median (numbers : List Float) : Float :=
  let sorted := numbers.mergeSort (fun x y => decide (x ≤ y))
  let half := sorted.length / 2
  let upper := sorted.getD half 0.0
  if sorted.length % 2 = 1 then upper
  else (sorted.getD (half - 1) 0.0 + upper) / 2.0

def least : List Float → Float
| [] => 0.0
| first :: rest =>
    rest.foldl (fun x y => if y < x then y else x) first

-- Watching a bench

structure Watch where
  name : String
  /- The type of its value, or its failure in brackets. -/
  valueType : String
  /- The fingerprints of its value in runs that are alike. -/
  repeated : List String
  /- The fingerprints of its value for each parameter. -/
  byParameter : List String
  parameters : List String
  /- The time of each run in milliseconds. -/
  times : List Float
  /- The part of the time in the project, for each run. -/
  shares : List Float
  deriving Inhabited

def valuesOf (data : Data) : List Data := data.fields.map Prod.snd

def Watch.ofData (name : String) (row : Data) : Watch :=
  { name := name,
    valueType := (row.get "ret_type").toText,
    repeated := (row.get "fp_stable").items.map Data.toText,
    byParameter := (valuesOf (row.get "fp_by_param")).map Data.toText,
    parameters := (row.get "param_fps").items.map Data.toText,
    times := (valuesOf (row.get "repo_tt_ms")).map Data.toReal,
    shares := (valuesOf (row.get "repo_frac")).map Data.toReal }

def Watch.time (watch : Watch) : Float := median watch.times

def Watch.share (watch : Watch) : Float := least watch.shares

-- Verdicts

inductive Verdict where
  | repoModified
  | failed
  | returnsNone
  | unstable
  | returnsInput
  | tooFast
  | lowRepoTime
  | paramInvariant
  | okWithoutParameters
  | ok
  deriving DecidableEq, Inhabited, Repr

def Verdict.text : Verdict → String
| .repoModified => "repo-modified"
| .failed => "error"
| .returnsNone => "returns-none"
| .unstable => "unstable"
| .returnsInput => "returns-input"
| .tooFast => "too-fast"
| .lowRepoTime => "low-repo-time"
| .paramInvariant => "param-invariant"
| .okWithoutParameters => "ok-unparam"
| .ok => "ok"

def Verdict.isOk (verdict : Verdict) : Bool := verdict = .ok || verdict = .okWithoutParameters

def allSame (list : List String) : Bool := list.all (fun item => list.head? = some item)

/- What is wrong with a bench; nothing of it counts once the project was changed. -/
def Watch.verdict (watch : Watch) (isModified : Bool) : Verdict :=
  if isModified then .repoModified
  else if watch.valueType.isEmpty || Text.hasStart watch.valueType "<" then .failed
  else if watch.valueType = "NoneType" then .returnsNone
  else if watch.repeated.isEmpty || !allSame watch.repeated then
    .unstable
  else if watch.repeated.any watch.parameters.contains then
    .returnsInput
  else if watch.time < 1.0 then .tooFast
  else if watch.share < 0.5 then .lowRepoTime
  else if watch.byParameter.length < 2 then
    .okWithoutParameters
  else if allSame watch.byParameter then .paramInvariant
  else .ok

end Bench

end CHeader
