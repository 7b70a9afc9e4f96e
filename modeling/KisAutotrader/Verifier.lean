import KisAutotrader.Market
import KisAutotrader.OrderedDict
import KisAutotrader.Text

/-!
# The verifier of a change

The tools are run over the changed files, their reports are read, and the contract is evaluated
on what was read. The parsers of JSON and XML are functions given from outside, as are the
texts Python gives to values.
-/
namespace KisAutotrader.Verifier
open OrderedDict Text

/-- What ends a call: the errors of `subprocess`, which the runner catches, and all others. -/
inductive Raised where
  | subprocess (text : String)
  | other
  deriving DecidableEq

/-- A finite number of a JSON text, or none for an infinite one. -/
inductive Json where
  | null
  | bool (b : Bool)
  | int (z : ℤ)
  | float (q : Option ℚ)
  | str (s : String)
  | arr (items : List Json)
  | obj (fields : List (String × Json))

inductive Element where
  | mk (tag : String) (attrib : List (String × String)) (children : List Element)

def Element.tag : Element → String
  | .mk tag _ _ => tag

def Element.attrib : Element → List (String × String)
  | .mk _ attrib _ => attrib

def Element.children : Element → List Element
  | .mk _ _ children => children

/-- The parsers of the standard library; a text that is none is an error with a message. -/
structure Library where
  json : String → Except String Json
  xml : String → Except String Element
  str : Json → String

def clip (n : ℕ) (s : String) : String := String.ofList (s.toList.take n)

/-! ### ruff -/

structure RuffViolation where
  code : String
  message : String
  filename : String
  row : ℤ
  column : ℤ
  deriving DecidableEq

structure RuffArtifact where
  violations : List RuffViolation := []
  parseError : Option String := none
  deriving DecidableEq

def RuffArtifact.passed (a : RuffArtifact) : Bool := a.parseError.isNone && a.violations.length = 0

def Json.truthy : Json → Bool
  | .null => false
  | .bool b => b
  | .int z => z ≠ 0
  | .float q => q ≠ some 0
  | .str s => s ≠ ""
  | .arr items => !items.isEmpty
  | .obj fields => !fields.isEmpty

/-- `int` of a JSON value. -/
def Json.toInt : Json → Except Raised ℤ
  | .bool b => .ok (if b then 1 else 0)
  | .int z => .ok z
  | .float (some q) => .ok (truncate q)
  | .str s =>
      match parseInt s.toList with
      | some z => .ok z
      | none => .error .other
  | .null | .float none | .arr _ | .obj _ => .error .other

/-- `int(loc.get(key, 0) or 0)`. -/
def position (loc : List (String × Json)) (key : String) : Except Raised ℤ :=
  match lookup key loc with
  | some v => if v.truthy then v.toInt else .ok 0
  | none => .ok 0

def textOf (lib : Library) (item : List (String × Json)) (key : String) : String :=
  match lookup key item with
  | some v => lib.str v
  | none => ""

def violationOf (lib : Library) (item : List (String × Json)) : Except Raised RuffViolation := do
  let loc ← match lookup "location" item with
    | some (.obj fields) => .ok fields
    | some v => if v.truthy then .error .other else .ok []
    | none => .ok []
  pure { code := textOf lib item "code", message := textOf lib item "message",
         filename := textOf lib item "filename", row := ← position loc "row",
         column := ← position loc "column" }

def Json.fields? : Json → Option (List (String × Json))
  | .obj fields => some fields
  | _ => none

/-- Items that are no objects are passed over. -/
def parseRuffJson (lib : Library) (raw : String) : Except Raised RuffArtifact :=
  match lib.json raw with
  | .error e => .ok { parseError := some ("json decode: " ++ clip 100 e) }
  | .ok (.arr items) => do pure { violations := ← (items.filterMap Json.fields?).mapM (violationOf lib) }
  | .ok _ => .ok { parseError := some "expected top-level array" }

/-! ### pytest -/

structure PytestFailure where
  classname : String
  name : String
  message : String
  deriving DecidableEq

structure PytestArtifact where
  tests : ℤ := 0
  failures : ℤ := 0
  errors : ℤ := 0
  skipped : ℤ := 0
  failedTests : List PytestFailure := []
  parseError : Option String := none
  deriving DecidableEq

def PytestArtifact.passed (a : PytestArtifact) : Bool :=
  a.parseError.isNone && a.failures = 0 && a.errors = 0

/-- The number in an attribute, if it is there and is one. -/
def Element.number (e : Element) (attr : String) : Option ℤ :=
  (lookup attr e.attrib).bind fun s => parseInt s.toList

/-- `_int`. -/
def Element.int (e : Element) (attr : String) : ℤ := (e.number attr).getD 0

/-- The element that is read: the first suite, or the root itself. -/
def Element.suite (root : Element) : Option Element :=
  if root.tag = "testsuites" then root.children.find? (·.tag = "testsuite") else some root

def failureOf (tc : Element) : Option PytestFailure :=
  (tc.children.find? (·.tag = "failure")).map fun f =>
    { classname := (lookup "classname" tc.attrib).getD "", name := (lookup "name" tc.attrib).getD "",
      message := clip 200 ((lookup "message" f.attrib).getD "") }

def parsePytestJunit (lib : Library) (raw : String) : PytestArtifact :=
  match lib.xml raw with
  | .error e => { parseError := some ("xml parse: " ++ clip 100 e) }
  | .ok root =>
      match root.suite with
      | none => { parseError := some "no testsuite element" }
      | some suite =>
          { tests := suite.int "tests", failures := suite.int "failures", errors := suite.int "errors",
            skipped := suite.int "skipped",
            failedTests := (suite.children.filter (·.tag = "testcase")).filterMap failureOf }

/-! ### mypy -/

structure MypyError where
  file : String
  line : ℕ
  message : String
  code : String
  deriving DecidableEq

structure MypyArtifact where
  errors : List MypyError := []
  filesChecked : ℕ := 0
  parseError : Option String := none
  passedOverride : Option Bool := none
  deriving DecidableEq

def MypyArtifact.passed (a : MypyArtifact) : Bool :=
  a.passedOverride.getD (a.parseError.isNone && a.errors.length = 0 && 0 < a.filesChecked)

/-- `_MYPY_ERROR_RE`: the file, the digits of the line, and what follows `error:`. -/
def matchError (line : List Char) : Option (List Char × List Char × List Char) :=
  match line.takeWhile (· ≠ ':') with
  | [] => none
  | file => do
      let cs ← literal [':'] (line.dropWhile (· ≠ ':'))
      let (number, cs) ← digits cs
      let cs ← literal [':'] cs
      let cs ← literal "error:".toList (cs.dropWhile isSpace)
      pure (file, number, cs.dropWhile isSpace)

/-- The code in brackets that a text ends with after white space, if it begins here. -/
def codeHere (cs : List Char) : Option (List Char) := do
  let cs ← literal ['['] (← spaces cs)
  match cs.takeWhile (· ≠ ']') with
  | [] => none
  | code => if cs.dropWhile (· ≠ ']') = [']'] then some code else none

/-- The shortest message, and the code. -/
def splitCode : List Char → List Char × List Char
  | [] => ([], [])
  | c::cs =>
      match codeHere (c::cs) with
      | some code => ([], code)
      | none => (c::(splitCode cs).1, (splitCode cs).2)

def optionalS (cs : List Char) : List Char := (literal ['s'] cs).getD cs

/-- `_MYPY_SUMMARY_OK`, at the start of a line. -/
def matchOk (line : List Char) : Option (List Char) := do
  let cs ← literal "Success:".toList line
  let cs ← literal "no issues found in".toList (cs.dropWhile isSpace)
  let (number, cs) ← digits (← spaces cs)
  let _ ← literal "source file".toList (← spaces cs)
  pure number

/-- `_MYPY_SUMMARY_FAIL`, if it begins here. -/
def failHere (cs : List Char) : Option (List Char) := do
  let cs ← spaces (← literal "Found".toList cs)
  let (_, cs) ← digits cs
  let cs ← literal "error".toList (← spaces cs)
  let cs ← literal "in".toList (← spaces (optionalS cs))
  let (_, cs) ← digits (← spaces cs)
  let cs ← literal "file".toList (← spaces cs)
  let cs ← literal "(checked".toList (← spaces (optionalS cs))
  let (number, _) ← digits (← spaces cs)
  pure number

/-- The number of checked files in a summary line. -/
def matchSummary (line : List Char) : Option (List Char) :=
  (matchOk line).or (line.tails.findSome? failHere)

def toNat (number : List Char) : Except Raised ℕ :=
  match parseNat number with
  | some n => .ok n
  | none => .error .other

/-- One line of the output: an error, a summary, or neither. -/
def scanLine (a : MypyArtifact) (line : List Char) : Except Raised MypyArtifact :=
  match matchError line with
  | some (file, number, rest) => do
      let error : MypyError :=
        { file := String.ofList file, line := ← toNat number,
          message := String.ofList (stripChars (splitCode rest).1), code := String.ofList (splitCode rest).2 }
      pure { a with errors := a.errors ++ [error] }
  | none =>
      match matchSummary line with
      | some number => do pure { a with filesChecked := ← toNat number }
      | none => .ok a

def linesOf (raw : String) : List (List Char) := (splitLines (stripChars raw.toList)).map stripChars

def parseMypyText (raw : String) : Except Raised MypyArtifact := do
  if stripChars raw.toList = [] then pure { parseError := some "empty output" }
  else
    let a ← (linesOf raw).foldlM scanLine {}
    if a.filesChecked = 0 ∧ a.errors = [] then pure { parseError := some "no mypy summary found" }
    else pure a

/-! ### git -/

structure ChangedFile where
  path : String
  additions : ℤ
  deletions : ℤ
  deriving DecidableEq

structure DiffSummary where
  files : List ChangedFile := []
  deriving DecidableEq

def changedFile (line : List Char) : Option ChangedFile :=
  match (stripChars line).splitOn '\t' with
  | [add, dele, path] =>
      if add = ['-'] ∨ dele = ['-'] then none
      else do
        pure { path := String.ofList path, additions := ← parseInt add, deletions := ← parseInt dele }
  | _ => none

def parseNumstat (raw : String) : DiffSummary :=
  { files := ((splitLines raw.toList).filter (stripChars · ≠ [])).filterMap changedFile }

/-! ### The runner -/

structure Completed where
  stdout : String
  stderr : String := ""

inductive Report where
  | text (raw : String)
  | undecodable

/-- What the tools do in a run, whatever they are called with: each ends or raises; pytest writes
its report or does not; a report of an earlier run may be there. -/
structure Outcome where
  git : Except Raised Completed
  ruff : Except Raised Completed
  mypy : Except Raised Completed
  pytest : Except Raised Completed
  written : Option Report := none
  leftover : Option Report := none

structure RunnerResult where
  ruff : Option RuffArtifact := none
  mypy : Option MypyArtifact := none
  pytest : Option PytestArtifact := none
  diff : Option DiffSummary := none
  runnerError : Option String := none

def pyFiles (d : DiffSummary) : List String :=
  (d.files.map ChangedFile.path).filter fun p => ".py".toList <:+ p.toList

def isTest (p : String) : Bool := "tests/".toList <+: p.toList

def srcFiles (d : DiffSummary) : List String := (pyFiles d).filter (! isTest ·)

def testFiles (d : DiffSummary) : List String := (pyFiles d).filter isTest

section Run
variable (lib : Library)

def runDiff (o : Outcome) : Except Raised DiffSummary := do
  pure (parseNumstat (← o.git).stdout)

def runRuff (o : Outcome) (files : List String) : Except Raised RuffArtifact :=
  if files = [] then .ok {} else do parseRuffJson lib (← o.ruff).stdout

/-- Only errors located in the files asked for are kept. -/
def inScope (files : List String) (a : MypyArtifact) : MypyArtifact :=
  if a.parseError = none ∧ a.errors ≠ [] then { a with errors := a.errors.filter (·.file ∈ files) } else a

def mypyText (cp : Completed) : String := cp.stdout ++ "\n" ++ cp.stderr

def runMypy (o : Outcome) (files : List String) : Except Raised MypyArtifact :=
  if files = [] then .ok { passedOverride := some true }
  else do pure (inScope files (← parseMypyText (mypyText (← o.mypy))))

/-- The report at the path after pytest has run. -/
def Outcome.report (o : Outcome) : Option Report := o.written.or o.leftover

def runPytest (o : Outcome) (files : List String) : Except Raised PytestArtifact :=
  if files = [] then .ok {}
  else do
    let _ ← o.pytest
    match o.report with
    | none => pure { parseError := some "junit file not produced" }
    | some .undecodable => .error .other
    | some (.text raw) => pure (parsePytestJunit lib raw)

/-- The body of the `try`: the result is filled in as the tools end. -/
def collect (o : Outcome) : ExceptT Raised (StateM RunnerResult) Unit := do
  let d ← liftExcept (runDiff o)
  modify fun r => { r with diff := some d }
  let ruff ← liftExcept (runRuff lib o (pyFiles d))
  modify fun r => { r with ruff := some ruff }
  let mypy ← liftExcept (runMypy o (srcFiles d))
  modify fun r => { r with mypy := some mypy }
  let pytest ← liftExcept (runPytest lib o (testFiles d))
  modify fun r => { r with pytest := some pytest }
where
  liftExcept {α : Type} (x : Except Raised α) : ExceptT Raised (StateM RunnerResult) α :=
    ExceptT.mk (pure x)

/-- The `except` clause: an error of `subprocess` is noted, any other leaves `run`. -/
def caught : Except Raised Unit × RunnerResult → Except Raised RunnerResult
  | (.ok (), r) => .ok r
  | (.error (.subprocess e), r) => .ok { r with runnerError := some ("subprocess: " ++ clip 200 e) }
  | (.error .other, _) => .error .other

/-- `VerifierRunner.run`. -/
def run (o : Outcome) : Except Raised RunnerResult := caught ((collect lib o).run.run {})

end Run

/-! ### The contract -/

structure ContractResult where
  passed : Bool
  reasons : List String := []
  warnings : List String := []

def pytestReasons : Option PytestArtifact → List String
  | none => ["pytest artifact missing"]
  | some a =>
      if a.passed then []
      else ["pytest failed (failures=" ++ toString a.failures ++ ", errors=" ++ toString a.errors ++ ")"]

def mypyReasons : Option MypyArtifact → List String
  | none => ["mypy artifact missing"]
  | some a => if a.passed then [] else ["mypy failed (errors=" ++ toString a.errors.length ++ ")"]

def ruffReasons : Option RuffArtifact → List String
  | none => ["ruff artifact missing"]
  | some a => if a.passed then [] else ["ruff failed (violations=" ++ toString a.violations.length ++ ")"]

def diffReasons : Option DiffSummary → List String
  | none => ["diff artifact missing or empty"]
  | some d => if d.files = [] then ["diff artifact missing or empty"] else []

def diffWarnings (threshold : ℕ) : Option DiffSummary → List String
  | none => []
  | some d =>
      if threshold < d.files.length then
        ["file_count=" ++ toString d.files.length ++ " exceeds threshold " ++ toString threshold]
      else []

def evaluateContract (pytest : Option PytestArtifact) (mypy : Option MypyArtifact)
    (ruff : Option RuffArtifact) (diff : Option DiffSummary) (threshold : ℕ := 5) : ContractResult :=
  let reasons := pytestReasons pytest ++ mypyReasons mypy ++ ruffReasons ruff ++ diffReasons diff
  { passed := reasons.isEmpty, reasons, warnings := diffWarnings threshold diff }

/-- Whether a contract is marked as passed: none is evaluated if `run` raises. -/
def marked : Except Raised RunnerResult → Bool
  | .ok r => (evaluateContract r.pytest r.mypy r.ruff r.diff).passed
  | .error _ => false

def verified (lib : Library) (o : Outcome) : Bool := marked (run lib o)

end KisAutotrader.Verifier
