import KisAutotrader.Fallible
import KisAutotrader.Verifier

/-!
# What a passed contract is worth

When the gate passes, and when the tools have then reported success in the same run.
-/
namespace KisAutotrader.Verifier.Gate
open Fallible OrderedDict Text

/-! ### Reported success -/

mutual

/-- An element and all elements inside it. -/
def elements : Element → List Element
  | .mk tag attrib children => .mk tag attrib children :: elementsOf children

def elementsOf : List Element → List Element
  | [] => []
  | e::es => elements e ++ elementsOf es

end

def suites (root : Element) : List Element := (elements root).filter (·.tag = "testsuite")

/-- A suite that counts no failure and no error and has no test that failed. -/
def SuiteOk (suite : Element) : Prop :=
  suite.number "failures" = some 0 ∧ suite.number "errors" = some 0 ∧
    ∀ tc ∈ suite.children, tc.tag = "testcase" → ∀ c ∈ tc.children, c.tag ≠ "failure" ∧ c.tag ≠ "error"

def isReport (root : Element) : Prop := root.tag = "testsuites" ∨ root.tag = "testsuite"

/-- `: error:` follows, after at most `n` numbers. -/
def errorFollows : ℕ → List Char → Bool
  | 0, cs => errorHere cs
  | n + 1, cs =>
      errorHere cs ||
        match (literal [':'] cs).bind digits with
        | some (_, rest) => errorFollows n rest
        | none => false
where
  errorHere (cs : List Char) : Bool :=
    ((literal [':'] cs).bind fun cs => literal "error:".toList (cs.dropWhile isSpace)).isSome

/-- A line that locates an error in the file, by its path or its absolute path, with a line, a
column and their ends or with fewer of them. -/
def reportsError (root p : String) (line : List Char) : Bool :=
  ((literal p.toList line).any (errorFollows 4)) ||
    ((literal (root ++ "/" ++ p).toList line).any (errorFollows 4))

section Success
variable (lib : Library) (root : String) (o : Outcome)

/-- The files that git lists. -/
def changed : DiffSummary :=
  match o.git with
  | .ok cp => parseNumstat cp.stdout
  | .error _ => {}

def RuffSuccess : Prop := ∃ cp, o.ruff = .ok cp ∧ lib.json cp.stdout = .ok (.arr [])

/-- mypy has finished, and no line locates an error in a changed file. -/
def MypySuccess : Prop := ∃ cp, o.mypy = .ok cp ∧
  (∃ line ∈ linesOf (mypyText cp), ∃ number, matchSummary line = some number ∧
    ∃ n, parseNat number = some n ∧ 0 < n) ∧
  ∀ line ∈ linesOf (mypyText cp), ∀ p ∈ srcFiles (changed o), reportsError root p line = false

/-- The report that pytest wrote in this run has suites, and all of them are fine. -/
def PytestSuccess : Prop := ∃ raw report, o.written = some (.text raw) ∧ lib.xml raw = .ok report ∧
  isReport report ∧ suites report ≠ [] ∧ ∀ suite ∈ suites report, SuiteOk suite

/-- Every tool that had files to check has reported success. -/
structure Success : Prop where
  ruff : pyFiles (changed o) ≠ [] → RuffSuccess lib o
  mypy : srcFiles (changed o) ≠ [] → MypySuccess root o
  pytest : testFiles (changed o) ≠ [] → PytestSuccess lib o

/-! ### What the gate looks at -/

def RuffAccepted : Prop := ∃ cp items, o.ruff = .ok cp ∧ lib.json cp.stdout = .ok (.arr items) ∧
  items.filterMap Json.fields? = []

def MypyAccepted : Prop := ∃ cp a, o.mypy = .ok cp ∧ parseMypyText (mypyText cp) = .ok a ∧
  0 < a.filesChecked ∧ ∀ e ∈ a.errors, e.file ∉ srcFiles (changed o)

def PytestAccepted : Prop := ∃ cp raw report suite, o.pytest = .ok cp ∧ o.report = some (.text raw) ∧
  lib.xml raw = .ok report ∧ report.suite = some suite ∧ suite.int "failures" = 0 ∧ suite.int "errors" = 0

/-- git lists a file, and nothing that is looked at speaks against the change. -/
structure Accepted : Prop where
  git : (changed o).files ≠ []
  ruff : pyFiles (changed o) ≠ [] → RuffAccepted lib o
  mypy : srcFiles (changed o) ≠ [] → MypyAccepted o
  pytest : testFiles (changed o) ≠ [] → PytestAccepted lib o

/-- What the gate does not look at says nothing else: ruff's array has no items but objects,
mypy locates errors of changed files by their paths and lines, the report is one of this run,
and a first suite that counts nothing speaks for all suites. -/
structure Honest : Prop where
  ruff : pyFiles (changed o) ≠ [] → ∀ cp items, o.ruff = .ok cp → lib.json cp.stdout = .ok (.arr items) →
    items.filterMap Json.fields? = [] → items = []
  mypy : ∀ cp, o.mypy = .ok cp → ∀ line ∈ linesOf (mypyText cp), ∀ p ∈ srcFiles (changed o),
    reportsError root p line = true → ∃ number rest, matchError line = some (p.toList, number, rest)
  fresh : testFiles (changed o) ≠ [] → o.written ≠ none
  junit : testFiles (changed o) ≠ [] → ∀ raw report, o.report = some (.text raw) →
    lib.xml raw = .ok report → isReport report ∧ ∀ suite, report.suite = some suite →
      suite.int "failures" = 0 → suite.int "errors" = 0 → ∀ s ∈ suites report, SuiteOk s

end Success

/-! ### The runner and the contract -/

section Run
variable {lib : Library} {o : Outcome}

/-- A step that raises leaves the result as it is. -/
theorem lift_bind {α : Type} (x : Except Raised α) (f : α → ExceptT Raised (StateM RunnerResult) Unit)
    (r : RunnerResult) : (collect.liftExcept x >>= f).run.run r =
      match x with
      | .ok a => (f a).run.run r
      | .error e => (.error e, r) := by
  cases x <;> rfl

theorem modify_bind (g : RunnerResult → RunnerResult) (f : Unit → ExceptT Raised (StateM RunnerResult) Unit)
    (r : RunnerResult) : ((modify g : ExceptT Raised (StateM RunnerResult) Unit) >>= f).run.run r =
      (f ()).run.run (g r) := rfl

theorem collect_run : (collect lib o).run.run {} =
    match runDiff o with
    | .error e => (.error e, {})
    | .ok d =>
      match runRuff lib o (pyFiles d) with
      | .error e => (.error e, { diff := some d })
      | .ok ruff =>
        match runMypy o (srcFiles d) with
        | .error e => (.error e, { diff := some d, ruff := some ruff })
        | .ok mypy =>
          match runPytest lib o (testFiles d) with
          | .error e => (.error e, { diff := some d, ruff := some ruff, mypy := some mypy })
          | .ok pytest => (.ok (), { diff := some d, ruff := some ruff, mypy := some mypy, pytest := some pytest }) := by
  unfold collect
  rw [lift_bind]
  cases runDiff o with
  | error e => rfl
  | ok d =>
    simp only [modify_bind]
    rw [lift_bind]
    cases runRuff lib o (pyFiles d) with
    | error e => rfl
    | ok ruff =>
      simp only [modify_bind]
      rw [lift_bind]
      cases runMypy o (srcFiles d) with
      | error e => rfl
      | ok mypy =>
        simp only [modify_bind]
        rw [lift_bind]
        cases runPytest lib o (testFiles d) with
        | error e => rfl
        | ok pytest => rfl
theorem contract_passed {pytest : Option PytestArtifact} {mypy : Option MypyArtifact}
    {ruff : Option RuffArtifact} {diff : Option DiffSummary} :
    (evaluateContract pytest mypy ruff diff).passed = true ↔
      (∃ a, pytest = some a ∧ a.passed = true) ∧ (∃ a, mypy = some a ∧ a.passed = true) ∧
        (∃ a, ruff = some a ∧ a.passed = true) ∧ ∃ d, diff = some d ∧ d.files ≠ [] := by
  have hpytest : pytestReasons pytest = [] ↔ ∃ a, pytest = some a ∧ a.passed = true := by
    cases pytest <;> simp [pytestReasons]
  have hmypy : mypyReasons mypy = [] ↔ ∃ a, mypy = some a ∧ a.passed = true := by
    cases mypy <;> simp [mypyReasons]
  have hruff : ruffReasons ruff = [] ↔ ∃ a, ruff = some a ∧ a.passed = true := by
    cases ruff <;> simp [ruffReasons]
  have hdiff : diffReasons diff = [] ↔ ∃ d, diff = some d ∧ d.files ≠ [] := by
    cases diff <;> simp [diffReasons]
  simp only [evaluateContract, List.isEmpty_iff, List.append_eq_nil_iff, hpytest, hmypy, hruff, hdiff,
    and_assoc]

theorem marked_raised (e : Raised) {r : RunnerResult} (hr : r.pytest = none) :
    marked (caught (.error e, r)) = false := by
  cases e with
  | subprocess text => simp [caught, marked, evaluateContract, pytestReasons, hr]
  | other => rfl

/-- The gate passes exactly if every step ends and every artifact passes. -/
theorem verified_steps : verified lib o = true ↔ ∃ d, runDiff o = .ok d ∧ d.files ≠ [] ∧
    (∃ a, runRuff lib o (pyFiles d) = .ok a ∧ a.passed = true) ∧
    (∃ a, runMypy o (srcFiles d) = .ok a ∧ a.passed = true) ∧
    ∃ a, runPytest lib o (testFiles d) = .ok a ∧ a.passed = true := by
  unfold verified run
  rw [collect_run]
  cases hd : runDiff o with
  | error e => simp [marked_raised e]
  | ok d =>
    cases hruff : runRuff lib o (pyFiles d) with
    | error e => simp [marked_raised e, hruff]
    | ok ruff =>
      cases hmypy : runMypy o (srcFiles d) with
      | error e => simp [marked_raised e, hruff, hmypy]
      | ok mypy =>
        cases hpytest : runPytest lib o (testFiles d) with
        | error e => simp [marked_raised e, hruff, hmypy, hpytest]
        | ok pytest =>
          simp only [hruff, hmypy, caught, marked, contract_passed, Except.ok.injEq, Option.some.injEq,
            exists_eq_left', hpytest]
          tauto

end Run

/-! ### What the parsers accept -/

section Parsers
variable {lib : Library} {o : Outcome} {files : List String}

theorem parseRuffJson_passed {raw : String} :
    (∃ a, parseRuffJson lib raw = .ok a ∧ a.passed = true) ↔
      ∃ items, lib.json raw = .ok (.arr items) ∧ items.filterMap Json.fields? = [] := by
  unfold parseRuffJson
  cases hjson : lib.json raw with
  | error e => simp [RuffArtifact.passed]
  | ok data =>
    cases data with
    | arr items =>
      simp only [bind_eq_ok, pure, Except.pure, Except.ok.injEq, Json.arr.injEq, exists_eq_left']
      constructor
      · rintro ⟨a, ⟨violations, hviolations, rfl⟩, hpassed⟩
        cases hfields : items.filterMap Json.fields? with
        | nil => rfl
        | cons x xs =>
          rw [hfields, List.mapM_cons, bind_eq_ok] at hviolations
          obtain ⟨v, -, hrest⟩ := hviolations
          obtain ⟨vs, -, hcons⟩ := bind_eq_ok.mp hrest
          obtain rfl : v::vs = violations := Except.ok.inj hcons
          simp [RuffArtifact.passed] at hpassed
      · intro hfields
        rw [hfields]
        exact ⟨{}, ⟨[], rfl, rfl⟩, rfl⟩
    | _ => simp [RuffArtifact.passed]

theorem runRuff_passed : (∃ a, runRuff lib o files = .ok a ∧ a.passed = true) ↔
    (files ≠ [] → RuffAccepted lib o) := by
  unfold runRuff RuffAccepted
  split_ifs with hfiles
  · simp [hfiles, RuffArtifact.passed]
  · simp only [bind_eq_ok, ne_eq, hfiles, not_false_eq_true, forall_const]
    constructor
    · rintro ⟨a, ⟨cp, hcp, hparse⟩, hpassed⟩
      obtain ⟨items, hjson, hnone⟩ := parseRuffJson_passed.mp ⟨a, hparse, hpassed⟩
      exact ⟨cp, items, hcp, hjson, hnone⟩
    · rintro ⟨cp, items, hcp, hjson, hnone⟩
      obtain ⟨a, hparse, hpassed⟩ := parseRuffJson_passed.mpr ⟨items, hjson, hnone⟩
      exact ⟨a, ⟨cp, hcp, hparse⟩, hpassed⟩

theorem parsePytestJunit_passed {raw : String} : (parsePytestJunit lib raw).passed = true ↔
    ∃ report suite, lib.xml raw = .ok report ∧ report.suite = some suite ∧
      suite.int "failures" = 0 ∧ suite.int "errors" = 0 := by
  unfold parsePytestJunit
  cases hxml : lib.xml raw with
  | error e => simp [PytestArtifact.passed]
  | ok report =>
    cases hsuite : report.suite with
    | none => simp [PytestArtifact.passed, hsuite]
    | some suite => simp [PytestArtifact.passed, hsuite]

theorem runPytest_passed : (∃ a, runPytest lib o files = .ok a ∧ a.passed = true) ↔
    (files ≠ [] → PytestAccepted lib o) := by
  unfold runPytest PytestAccepted
  split_ifs with hfiles
  · simp [hfiles, PytestArtifact.passed]
  · simp only [bind_eq_ok, ne_eq, hfiles, not_false_eq_true, forall_const]
    cases hreport : o.report with
    | none => simp [PytestArtifact.passed, pure, Except.pure]
    | some report =>
      cases report with
      | undecodable => simp
      | text raw =>
        simp only [pure, Except.pure, Except.ok.injEq, Option.some.injEq, Report.text.injEq]
        constructor
        · rintro ⟨a, ⟨cp, hcp, rfl⟩, hpassed⟩
          obtain ⟨report, suite, hrest⟩ := parsePytestJunit_passed.mp hpassed
          exact ⟨cp, raw, report, suite, hcp, rfl, hrest⟩
        · rintro ⟨cp, raw, report, suite, hcp, rfl, hrest⟩
          exact ⟨_, ⟨cp, hcp, rfl⟩, parsePytestJunit_passed.mpr ⟨report, suite, hrest⟩⟩

/-- What a scan of the lines has found. -/
structure Scanned (a : MypyArtifact) (lines : List (List Char)) (b : MypyArtifact) : Prop where
  kept : ∀ e ∈ a.errors, e ∈ b.errors
  errors : ∀ line ∈ lines, ∀ file number rest, matchError line = some (file, number, rest) →
    ∃ e ∈ b.errors, e.file = String.ofList file
  checked : b.filesChecked = a.filesChecked ∨ ∃ line ∈ lines, ∃ number,
    matchSummary line = some number ∧ parseNat number = some b.filesChecked
  parseError : b.parseError = a.parseError
  passedOverride : b.passedOverride = a.passedOverride

theorem toNat_eq_ok {number : List Char} {n : ℕ} : toNat number = .ok n ↔ parseNat number = some n := by
  unfold toNat
  cases parseNat number <;> simp

theorem scanLine_scanned {a b : MypyArtifact} {line : List Char} (h : scanLine a line = .ok b) :
    Scanned a [line] b := by
  unfold scanLine at h
  cases herror : matchError line with
  | some found =>
    obtain ⟨file, number, rest⟩ := found
    simp only [herror, bind_eq_ok, pure, Except.pure, Except.ok.injEq] at h
    obtain ⟨n, hn, rfl⟩ := h
    refine ⟨fun e he => List.mem_append_left _ he, ?_, Or.inl rfl, rfl, rfl⟩
    intro l hl file' number' rest' hmatch
    obtain rfl := List.mem_singleton.mp hl
    obtain ⟨rfl, -⟩ := Prod.mk.inj (Option.some.inj (herror.symm.trans hmatch))
    exact ⟨_, List.mem_append_right _ (List.mem_singleton_self _), rfl⟩
  | none =>
    have hno : ∀ l ∈ [line], ∀ file number rest, matchError l = some (file, number, rest) →
        ∃ e ∈ b.errors, e.file = String.ofList file := by
      intro l hl file number rest hmatch
      obtain rfl := List.mem_singleton.mp hl
      simp [herror] at hmatch
    cases hsummary : matchSummary line with
    | some number =>
      simp only [herror, hsummary, bind_eq_ok, pure, Except.pure, Except.ok.injEq] at h
      obtain ⟨n, hn, rfl⟩ := h
      exact ⟨fun e he => he, hno, Or.inr ⟨line, by simp, number, hsummary, toNat_eq_ok.mp hn⟩, rfl, rfl⟩
    | none =>
      simp only [herror, hsummary, Except.ok.injEq] at h
      subst h
      exact ⟨fun e he => he, hno, Or.inl rfl, rfl, rfl⟩

theorem foldlM_scanned {lines : List (List Char)} {a b : MypyArtifact}
    (h : lines.foldlM scanLine a = .ok b) : Scanned a lines b := by
  induction lines generalizing a with
  | nil =>
    obtain rfl : a = b := Except.ok.inj h
    exact ⟨fun e he => he, by simp, Or.inl rfl, rfl, rfl⟩
  | cons line lines ih =>
    rw [List.foldlM_cons, bind_eq_ok] at h
    obtain ⟨c, hc, hrest⟩ := h
    have hline := scanLine_scanned hc
    have hlines := ih hrest
    refine ⟨fun e he => hlines.kept e (hline.kept e he), ?_, ?_,
      hlines.parseError.trans hline.parseError, hlines.passedOverride.trans hline.passedOverride⟩
    · intro l hl file number rest hmatch
      rcases List.mem_cons.mp hl with rfl | htail
      · obtain ⟨e, he, hfile⟩ := hline.errors l (by simp) file number rest hmatch
        exact ⟨e, hlines.kept e he, hfile⟩
      · exact hlines.errors l htail file number rest hmatch
    · rcases hlines.checked with hsame | ⟨l, hl, hfound⟩
      · rcases hline.checked with hsame' | ⟨l, hl, hfound⟩
        · exact Or.inl (hsame.trans hsame')
        · obtain rfl := List.mem_singleton.mp hl
          exact Or.inr ⟨l, by simp, hsame ▸ hfound⟩
      · exact Or.inr ⟨l, List.mem_cons_of_mem line hl, hfound⟩

/-- An output is parsed into what the scan of its lines finds, or into nothing checked. -/
theorem parseMypyText_eq_ok {raw : String} {a : MypyArtifact} (h : parseMypyText raw = .ok a) :
    Scanned {} (linesOf raw) a ∨ a.filesChecked = 0 ∧ a.passedOverride = none := by
  unfold parseMypyText at h
  split_ifs at h with hblank
  · obtain rfl := Except.ok.inj h
    exact Or.inr ⟨rfl, rfl⟩
  · obtain ⟨b, hb, hrest⟩ := bind_eq_ok.mp h
    split_ifs at hrest with hnone
    · obtain rfl := Except.ok.inj hrest
      exact Or.inr ⟨rfl, rfl⟩
    · obtain rfl := Except.ok.inj hrest
      exact Or.inl (foldlM_scanned hb)

theorem inScope_passed {a : MypyArtifact} (hparse : a.parseError = none)
    (hoverride : a.passedOverride = none) : (inScope files a).passed = true ↔
      0 < a.filesChecked ∧ ∀ e ∈ a.errors, e.file ∉ files := by
  by_cases herrors : a.errors = []
  · simp [inScope, MypyArtifact.passed, hparse, hoverride, herrors]
  · simp [inScope, MypyArtifact.passed, hparse, hoverride, herrors, and_comm]

theorem inScope_unchecked {a : MypyArtifact} (hchecked : a.filesChecked = 0)
    (hoverride : a.passedOverride = none) : (inScope files a).passed = false := by
  unfold inScope
  split_ifs <;> simp [MypyArtifact.passed, hchecked, hoverride]

theorem runMypy_passed : (∃ a, runMypy o (srcFiles (changed o)) = .ok a ∧ a.passed = true) ↔
    (srcFiles (changed o) ≠ [] → MypyAccepted o) := by
  unfold runMypy MypyAccepted
  split_ifs with hfiles
  · simp [hfiles, MypyArtifact.passed]
  · simp only [bind_eq_ok, ne_eq, hfiles, not_false_eq_true, forall_const, pure, Except.pure,
      Except.ok.injEq]
    constructor
    · rintro ⟨_, ⟨cp, hcp, a, hparse, rfl⟩, hpassed⟩
      rcases parseMypyText_eq_ok hparse with hscan | ⟨hchecked, hoverride⟩
      · exact ⟨cp, a, hcp, hparse, (inScope_passed hscan.parseError hscan.passedOverride).mp hpassed⟩
      · simp [inScope_unchecked hchecked hoverride] at hpassed
    · rintro ⟨cp, a, hcp, hparse, hchecked, hfree⟩
      have hscan := (parseMypyText_eq_ok hparse).resolve_right fun hnone => by omega
      exact ⟨_, ⟨cp, hcp, a, hparse, rfl⟩,
        (inScope_passed hscan.parseError hscan.passedOverride).mpr ⟨hchecked, hfree⟩⟩

theorem verified_iff : verified lib o = true ↔ Accepted lib o := by
  rw [verified_steps]
  constructor
  · rintro ⟨d, hd, hfiles, hruff, hmypy, hpytest⟩
    obtain ⟨cp, hcp, hparse⟩ := bind_eq_ok.mp hd
    obtain rfl : changed o = d := by
      rw [changed, hcp]
      exact Except.ok.inj hparse
    exact ⟨hfiles, runRuff_passed.mp hruff, runMypy_passed.mp hmypy, runPytest_passed.mp hpytest⟩
  · intro h
    cases hgit : o.git with
    | error e => exact absurd (by simp [changed, hgit]) h.git
    | ok cp =>
      have hd : runDiff o = .ok (changed o) := by
        rw [runDiff, changed, hgit]
        rfl
      exact ⟨changed o, hd, h.git, runRuff_passed.mpr h.ruff, runMypy_passed.mpr h.mypy,
        runPytest_passed.mpr h.pytest⟩

end Parsers

/-! ### What acceptance leaves open -/

section Soundness
variable {lib : Library} {root : String} {o : Outcome}

theorem mem_elements (e : Element) : e ∈ elements e := by
  cases e with
  | mk tag attrib children => simp [elements]

theorem mem_elementsOf {e : Element} {es : List Element} (h : e ∈ es) : e ∈ elementsOf es := by
  induction es with
  | nil => simp at h
  | cons x xs ih =>
    rw [elementsOf, List.mem_append]
    rcases List.mem_cons.mp h with rfl | hrest
    · exact Or.inl (mem_elements e)
    · exact Or.inr (ih hrest)

/-- The suite that is read is one of the report's suites. -/
theorem suite_mem {report suite : Element} (hreport : isReport report)
    (hsuite : report.suite = some suite) : suite ∈ suites report := by
  unfold Element.suite at hsuite
  split_ifs at hsuite with htag
  · have hmem := List.mem_of_find?_eq_some hsuite
    have hname := List.find?_some hsuite
    refine List.mem_filter.mpr ⟨?_, hname⟩
    cases report with
    | mk tag attrib children =>
      rw [elements]
      exact List.mem_cons_of_mem _ (mem_elementsOf hmem)
  · obtain rfl := Option.some.inj hsuite
    exact List.mem_filter.mpr ⟨mem_elements _, decide_eq_true (hreport.resolve_left htag)⟩

theorem success_of_honest (haccepted : Accepted lib o) (h : Honest lib root o) : Success lib root o := by
  refine ⟨fun hfiles => ?_, fun hfiles => ?_, fun hfiles => ?_⟩
  · obtain ⟨cp, items, hcp, hjson, hnone⟩ := haccepted.ruff hfiles
    obtain rfl := h.ruff hfiles cp items hcp hjson hnone
    exact ⟨cp, hcp, hjson⟩
  · obtain ⟨cp, a, hcp, hparse, hchecked, hfree⟩ := haccepted.mypy hfiles
    have hscan := (parseMypyText_eq_ok hparse).resolve_right fun hnone => by omega
    refine ⟨cp, hcp, ?_, fun line hline p hp => ?_⟩
    · rcases hscan.checked with hzero | ⟨line, hline, number, hsummary, hnumber⟩
      · rw [hzero] at hchecked
        simp at hchecked
      · exact ⟨line, hline, number, hsummary, a.filesChecked, hnumber, hchecked⟩
    · by_contra hreports
      obtain ⟨number, rest, hmatch⟩ := h.mypy cp hcp line hline p hp (by simpa using hreports)
      obtain ⟨e, he, hfile⟩ := hscan.errors line hline _ number rest hmatch
      rw [String.ofList_toList] at hfile
      exact hfree e he (hfile ▸ hp)
  · obtain ⟨cp, raw, report, suite, hcp, hreport, hxml, hsuite, hfailures, herrors⟩ :=
      haccepted.pytest hfiles
    obtain ⟨written, hwritten⟩ := Option.ne_none_iff_exists'.mp (h.fresh hfiles)
    obtain rfl : written = .text raw := by
      simpa [Outcome.report, hwritten] using hreport
    obtain ⟨hroot, hall⟩ := h.junit hfiles raw report hreport hxml
    exact ⟨raw, report, hwritten, hxml, hroot, List.ne_nil_of_mem (suite_mem hroot hsuite),
      hall suite hsuite hfailures herrors⟩

theorem honest_of_success (h : Success lib root o) : Honest lib root o := by
  refine ⟨fun hfiles cp items hcp hjson _ => ?_, fun cp hcp line hline p hp hreports => ?_,
    fun hfiles => ?_, fun hfiles raw report hreport hxml => ?_⟩
  · obtain ⟨cp', hcp', hjson'⟩ := h.ruff hfiles
    obtain rfl := Except.ok.inj (hcp.symm.trans hcp')
    exact Json.arr.inj (Except.ok.inj (hjson.symm.trans hjson'))
  · obtain ⟨cp', hcp', -, hfree⟩ := h.mypy (List.ne_nil_of_mem hp)
    obtain rfl := Except.ok.inj (hcp.symm.trans hcp')
    simp [hfree line hline p hp] at hreports
  · obtain ⟨raw, -, hwritten, -⟩ := h.pytest hfiles
    simp [hwritten]
  · obtain ⟨raw', report', hwritten, hxml', hroot, -, hall⟩ := h.pytest hfiles
    obtain rfl : raw' = raw := by
      simpa [Outcome.report, hwritten] using hreport
    obtain rfl := Except.ok.inj (hxml.symm.trans hxml')
    exact ⟨hroot, fun suite _ _ _ => hall⟩

end Soundness

def junitText : String :=
  "<testsuites><testsuite tests=\"1\" failures=\"0\" errors=\"0\" skipped=\"0\"/></testsuites>"

/-- The parsers on the two texts of the run. -/
def parsers : Library where
  json s := if s = "[]" then .ok (.arr []) else .error "Expecting value"
  xml s :=
    if s = junitText then
      .ok (.mk "testsuites" [] [.mk "testsuite"
        [("tests", "1"), ("failures", "0"), ("errors", "0"), ("skipped", "0")] []])
    else .error "syntax error"
  str _ := ""

/-- One test file has changed; pytest crashes before it writes its report. -/
def crashed : Outcome where
  git := .ok { stdout := "3\t1\ttests/test_x.py\n" }
  ruff := .ok { stdout := "[]" }
  mypy := .ok { stdout := "" }
  pytest := .ok { stdout := "", stderr := "INTERNALERROR" }
  leftover := some (.text junitText)

end KisAutotrader.Verifier.Gate
