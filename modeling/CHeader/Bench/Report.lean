import CHeader.Bench.TimeShare
import CHeader.Bench.Verdict
import CHeader.Data.Json

/-
  The report on a round of measuring.

  A round measures what the benches cover, how much of their time is spent in the project and
  whether they check themselves. The report shows each of these, and a row that sums the round up is
  added to the history.

  Key definitions include:
    * `Bench.Setting`
    * `Bench.coverageLines`
    * `Bench.shareLines`
-/

namespace CHeader

namespace Bench

-- Settings

structure Child where
  code : Int := 0
  output : String := ""
  failure : Option Fault := none
  deriving Inhabited

/- What a round finds. A program that is not there is not run. -/
structure Setting where
  coverage : Child := {}
  coverageText : Option String := none
  benchText : String := ""
  timing : Option Child := none
  checking : Option Child := none
  changes : Child := {}
  history : String := ""
  clock : Float := 0.0
  seconds : Float := 0.0
  deriving Inhabited

/- What a round shows, the rows it adds to the history, and how it ends. -/
structure Report where
  lines : List String := []
  added : List String := []
  ended : Except Fault Unit := .ok ()

def Child.data? (child : Child) : Option Data :=
  if child.failure.isSome then none
  else Json.read? child.output

-- Coverage

/- The files of a table are named in a column of at most this width. -/
def nameWidth : Nat := 60

/- At most so many missing lines are shown. -/
def shownLines : Nat := 12

def shortName (name : String) : String :=
  let dir := "/repo/"
  Text.cutTo nameWidth (if Text.hasStart name dir then
      String.ofList (name.toList.drop dir.length)
    else name)

def numberColumns (statements missed : Int) (share : Float) : String :=
  "  " ++ Text.padLeft 5 (toString statements) ++ "  " ++ Text.padLeft 4 (toString missed) ++
    "  " ++ Text.padLeft 4 (Text.fixed 0 share) ++ "%"

def missingText (lines : List Data) : String :=
  Text.joinWith "," ((lines.take shownLines).map (fun n => toString n.toInt)) ++
    (if lines.length > shownLines then "…" else "")

def fileLine (width : Nat) (name : String) (data : Data) : String :=
  let summary := data.get "summary"
  Text.padRight width (shortName name) ++ numberColumns (summary.get "num_statements").toInt
      (summary.get "missing_lines").toInt
      (summary.get "percent_covered").toReal ++
    "  " ++ missingText (data.get "missing_lines").items

def coveredShare (data : Data) : Float := ((data.get "summary").get "percent_covered").toReal

/- The table of the files, those that are covered least first. -/
def coverageLines (coverage : Data) : List String :=
  let files := (coverage.get "files").fields.mergeSort (fun x y =>
      decide (coveredShare x.2 ≤ coveredShare y.2))
  let width := files.foldl (fun width file => max width (shortName file.1).length) 4
  let rule := String.ofList (List.replicate (width + 42) '-')
  let totals := coverage.get "totals"
  let statements := (totals.get "num_statements").toInt
  [Text.padRight width "Name" ++ "  Stmts  Miss  Cover  Missing", rule] ++
    files.map (fun file => fileLine width file.1 file.2) ++
    [rule, Text.padRight width "TOTAL" ++ numberColumns statements
        (statements - (totals.get "covered_lines").toInt)
        (totals.get "percent_covered").toReal]

def errorLines (errors : List (String × Data)) : List String :=
  if errors.isEmpty then []
  else
    ["", toString errors.length ++ " bench error(s):"] ++ errors.map (fun error =>
        "  " ++ error.1 ++ ": " ++ error.2.toText)

-- Time

/- Less time in the project is marked. -/
def leastShare : Float := 45.0

/- Whether too little time is spent in the project. -/
def isBelow (share : Float) : Bool := decide (0.0 ≤ share) && decide (share < leastShare)

def marked (isMarked : Bool) (name : String) : String :=
  (if isMarked then "  * " else "    ") ++ Text.padRight 32 name

def elsewhere (hot : List Data) : String :=
  if hot.isEmpty then ""
  else
    " (hot: " ++ Text.joinWith " " (hot.map (fun place =>
        (place.items.getD 1 .null).toText ++ " " ++
          Text.fixed 0 (place.items.getD 0 .null).toReal ++
          "%")) ++
      ")"

def shareLine (hot : Data) (name : String) (share : Float) : String :=
  let shown := if share < 0.0 then 0.0 else share
  marked (isBelow share) name ++ " " ++ Text.padLeft 5 (Text.fixed 1 shown) ++ "%" ++
    (if share < 0.0 then "  <error>"
    else if isBelow share then elsewhere (hot.get name).items
    else "")

def shareLines (shares : List (String × Data)) (hot : Data) : List String :=
  let sorted := shares.mergeSort (fun x y =>
      decide (x.2.toReal ≤ y.2.toReal))
  if shares.isEmpty then []
  else
    ["", "repo_time (target 50%; * = below 45%):"] ++ sorted.map (fun entry =>
        shareLine hot entry.1 entry.2.toReal)

-- Changes

/- The files that were changed, after the two letters and the blank that tell how. -/
def changedFiles (changes : Child) : List String :=
  if changes.failure.isSome then []
  else
    ((Text.fields '\n' changes.output).filter (fun line => !(Text.trim line).isEmpty)).map
      (fun line => String.ofList (line.toList.drop 3))

def changeLines (files : List String) : List String :=
  if files.isEmpty then []
  else
    ["", "** repo modified (" ++ toString files.length ++ " file(s)) — revert these; " ++
        "only microbench.py is yours to edit:"] ++
      files.map ("   " ++ ·)

-- Checks

def adviceLines : List String :=
  ["  returns-none: run() has no return — " ++ "collect and return the call results",
    "  unstable: seed RNG in setup; " ++ "avoid time/uuid/id in the return",
    "  returns-input: return repo output, " ++ "not the parameter value",
    "  low-repo-time: <50% of run() time is in repo code — " ++ "move glue to setup",
    "  param-invariant: return something derived from " ++ "run()'s work, not setup",
    "  repo-modified: revert edits to repo files " ++
      "(git checkout -- <path>)"]

def checkLine (watch : Watch) (verdict : Verdict) : String :=
  let valueType :=
    if watch.valueType.isEmpty then "?" else watch.valueType
  marked (!verdict.isOk) watch.name ++ " " ++ Text.padRight 16 verdict.text ++ " (" ++ valueType ++
    ", repo " ++ Text.fixed 0 (100.0 * watch.share) ++ "%) " ++
    Text.fixed 1 watch.time ++ "ms"

/- What was found of the benches, those to be mended first. -/
def checkLines (found : List (Watch × Verdict)) : List String :=
  let bad := found.filter (fun entry => !entry.2.isOk)
  let good := found.filter (fun entry => entry.2.isOk)
  if found.isEmpty then []
  else
    ["", "self-check (* = fix needed):"] ++ adviceLines ++ (bad ++ good).map (fun entry =>
        checkLine entry.1 entry.2)

def watches (rows : Data) : List Watch :=
  (Data.sortedBy Prod.fst rows.fields).filterMap (fun row =>
      match row.2 with
      | .record _ => some (Watch.ofData row.1 row.2)
      | _ => none)

-- Rounds

def definesBench (line : String) : Bool :=
  let start := "def bench_"
  let rest := line.toList.drop start.length
  let name := rest.takeWhile Text.isWord
  let after := (rest.dropWhile Text.isWord).dropWhile Text.isSpace
  Text.hasStart line start && !name.isEmpty && after.head? = some '('

def benchCount (text : String) : Nat := (Text.fields '\n' text).countP definesBench

def pastRounds (history : String) : List String :=
  (Text.fields '\n' history).filter (fun line => !(Text.trim line).isEmpty)

structure Round where
  number : Nat
  benches : Nat
  covered : Float
  coveredLines : Int
  statements : Int
  errors : Nat
  shares : List (String × Data)
  found : List (Watch × Verdict)
  seconds : Float
  clock : Float

variable (round : Round)

/- How many benches of those that ran spend too little time in the project. -/
def Round.below : Nat × Nat :=
  let shares := round.shares.map (fun entry => entry.2.toReal)
  (shares.countP isBelow, shares.countP (fun share => decide (0.0 ≤ share)))

def Round.unchecked : Nat := round.found.countP (fun entry => !entry.2.isOk)

def Round.line : String :=
  let (below, all) := round.below
  "[round " ++ toString round.number ++ ": " ++ toString round.benches ++ " benches, " ++
    Text.fixed 1 round.covered ++ "% covered, " ++
    (if round.shares.isEmpty then ""
    else
      toString below ++ "/" ++ toString all ++ " below repo_time 45%, ") ++
    (if round.found.isEmpty then ""
    else
      toString round.unchecked ++ "/" ++ toString round.found.length ++ " not self-checking, ") ++
    "measured in " ++ Text.fixed 1 round.seconds ++ "s]"

/- From this coverage on a round may be the last one. -/
def enoughCovered : Float := 60.0

/- Whether nothing is left to be mended. -/
def Round.isLast : Bool :=
  !round.shares.isEmpty && round.below.1 = 0 && decide (enoughCovered ≤ round.covered)

def Round.lines : List String :=
  ["", round.line] ++ (if round.isLast then
      ["", ">>> STOP: repo_time converged (0 below). " ++ "Finalize microbench.py now. <<<"]
    else [])

/- A round as a row of the history; `since` is the time since the round before. -/
def Round.row (since : Float) : Data :=
  .record [("round", .nat round.number), ("ts", .real round.clock),
      ("wall_since_prev_s", .real (Text.roundTo 2 since)), ("coverage_pct", .real round.covered),
      ("covered_lines", .int round.coveredLines), ("num_statements", .int round.statements),
      ("n_bench_fns", .nat round.benches), ("n_bench_errors", .nat round.errors),
      ("cov_measure_s", .real (Text.roundTo 3 round.seconds)),
      ("repo_time_pct", .record round.shares), ("n_below_repo_time",
        if round.shares.isEmpty then .null
        else .nat round.below.1),
      ("semcheck", .record (round.found.map (fun entry =>
          (entry.1.name, .text entry.2.text)))),
      ("n_not_self_checking", .nat round.unchecked)]

/- The rows that a round adds; none if the last row of the history cannot be read. -/
def Round.added (past : List String) : List String :=
  match past.getLast? with
  | none => [Json.write (round.row 0.0)]
  | some line =>
      match Json.read? line with
      | none => []
      | some row =>
          [Json.write (round.row (round.clock - (row.get "ts").toReal))]

-- Reports

def failedReport (child : Child) : Report :=
  { lines := ["coverage measurement failed (exit " ++ toString child.code ++ ")", child.output],
    ended := .error (.badUsage child.code) }

/- The report on a round with the coverage that was measured. -/
def fullReport (setting : Setting) (coverage : Data) : Report :=
  let timing := (setting.timing.bind Child.data?).getD .null
  let checking := (setting.checking.bind Child.data?).getD .null
  let changed := changedFiles setting.changes
  let errors := ((coverage.get "meta").get "_pti_bench_errors").fields
  let shares := (timing.get "repo_time_pct").fields
  let found := (watches (checking.get "semcheck")).map (fun watch =>
      (watch, watch.verdict (!changed.isEmpty)))
  let past := pastRounds setting.history
  let totals := coverage.get "totals"
  let round : Round :=
    { number := past.length + 1,
      benches := benchCount setting.benchText,
      covered := (totals.get "percent_covered").toReal,
      coveredLines := (totals.get "covered_lines").toInt,
      statements := (totals.get "num_statements").toInt,
      errors := errors.length,
      shares := shares,
      found := found,
      seconds := setting.seconds,
      clock := setting.clock }
  { lines := coverageLines coverage ++ errorLines errors ++
      shareLines shares (timing.get "hot_ext") ++
      changeLines changed ++ checkLines found ++ round.lines,
    added := round.added past }

def report (setting : Setting) : Report :=
  match setting.coverage.failure, setting.coverageText with
  | some fault, _ => { ended := .error fault }
  | none, text =>
      if setting.coverage.code ≠ 0 then
        failedReport setting.coverage
      else
        match text with
        | none => { ended := .error .noSuchFile }
        | some text =>
            match Json.read? text with
            | none => { ended := .error .unreadableData }
            | some coverage => fullReport setting coverage

end Bench

end CHeader
