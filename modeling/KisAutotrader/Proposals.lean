import KisAutotrader.OrderedDict
import KisAutotrader.Text

/-!
# Proposals

The table of proposals, the calls that change it, and how the markdown of a proposal names its
state. What a call has written before it raises stays written.
-/
namespace KisAutotrader.Proposals
open OrderedDict Text

inductive ProposalState where
  | draft
  | ready
  | inFlight
  | implemented
  | failed
  | skipped
  | reviewRequired
  deriving DecidableEq

inductive ProposalPriority where
  | low
  | medium
  | high
  | critical
  deriving DecidableEq

inductive ImplementationCategory where
  | bugFix
  | refactor
  | paramTuning
  | feature
  | enhancement
  | performance
  | docs
  | config
  deriving DecidableEq

def ProposalState.value : ProposalState → String
  | draft => "draft"
  | ready => "ready"
  | inFlight => "in_flight"
  | implemented => "implemented"
  | failed => "failed"
  | skipped => "skipped"
  | reviewRequired => "review_required"

/-! ### Markdown -/

/-- Values that are not known become the default. -/
def coerceState : String → ProposalState
  | "ready" => .ready
  | "in_flight" => .inFlight
  | "implemented" => .implemented
  | "failed" => .failed
  | "skipped" => .skipped
  | "review_required" => .reviewRequired
  | _ => .draft

def coercePriority : String → ProposalPriority
  | "low" => .low
  | "high" => .high
  | "critical" => .critical
  | _ => .medium

def coerceCategory : String → ImplementationCategory
  | "bug_fix" => .bugFix
  | "refactor" => .refactor
  | "param_tuning" => .paramTuning
  | "feature" => .feature
  | "performance" => .performance
  | "docs" => .docs
  | "config" => .config
  | _ => .enhancement

/-- `TITLE_LINE` on a stripped line. -/
def titleLine (line : List Char) : Option (List Char) :=
  (literal ['#'] line).bind fun rest => (spaces rest).filter (· ≠ [])

/-- `META_LINE` on a stripped line: key and value around the first colon. -/
def metaLine (line : List Char) : Option (List Char × List Char) :=
  (literal ['-'] line).bind fun rest =>
    match rest.dropWhile (· ≠ ':') with
    | [] => none
    | _::value =>
        if stripChars value = [] then none
        else some (stripChars (rest.takeWhile (· ≠ ':')), stripChars value)

/-- `_KEY_MAP`. -/
def keyMap : String → Option String
  | "상태" => some "state"
  | "우선순위" => some "priority"
  | "카테고리" => some "category"
  | "일자" => some "date"
  | "작성" => some "author"
  | _ => none

structure Parsed where
  title : String
  state : String
  priority : String
  category : String

/-- The variables of the loop of `parse_proposal`. -/
structure Reading where
  title : String
  found : Dict String String := .empty
  inMeta : Bool := false

def startsMeta (line : List Char) : Bool :=
  "## 메타데이터".toList <+: line ∨ "## 메타 정보".toList <+: line

def Reading.note (r : Reading) (line : List Char) : Reading :=
  match metaLine line with
  | none => r
  | some (key, value) =>
      match keyMap (String.ofList key) with
      | none => r
      | some code => { r with found := r.found.set code (String.ofList value) }

/-- The lines up to the section after the metadata. -/
def Reading.read (stem : String) (r : Reading) : List (List Char) → Reading
  | [] => r
  | raw::rest =>
      let line := stripChars raw
      let r := if r.title = stem then { r with title := ((titleLine line).map String.ofList).getD r.title }
        else r
      if startsMeta line then Reading.read stem { r with inMeta := true } rest
      else if r.inMeta then
        if "## ".toList <+: line then r else Reading.read stem (r.note line) rest
      else Reading.read stem r rest

def parseProposal (stem text : String) : Parsed :=
  let r := Reading.read stem { title := stem } (splitLines text.toList)
  { title := String.ofList (r.title.toList.take 300)
    state := (r.found.get? "state").getD "draft"
    priority := (r.found.get? "priority").getD "medium"
    category := (r.found.get? "category").getD "enhancement" }

/-! ### The table -/

section Table
variable {P : Type}

/-- A row of `proposals`; a prediction is what its file says about it. -/
structure Proposal (P : Type) where
  id : ℕ
  path : String
  title : String
  category : ImplementationCategory
  state : ProposalState
  priority : ProposalPriority
  lastAttemptAt : Option ℤ := none
  failureReason : Option String := none
  skipReason : Option String := none
  cycleId : Option String := none
  prediction : Option P := none
  createdAt : ℤ
  updatedAt : ℤ

/-- Ids are given once, paths are unique. -/
structure Table (P : Type) where
  rows : List (Proposal P)
  nextId : ℕ
  fresh : ∀ p ∈ rows, p.id < nextId
  ids : (rows.map Proposal.id).Nodup
  paths : (rows.map Proposal.path).Nodup

inductive Error where
  | valueError (message : String)
  | lookupError (message : String)
  | integrityError
  deriving DecidableEq

namespace Table

def empty : Table P := ⟨[], 0, by simp, List.nodup_nil, List.nodup_nil⟩

def get? (t : Table P) (id : ℕ) : Option (Proposal P) := t.rows.find? (·.id = id)

def findByPath (t : Table P) (path : String) : Option (Proposal P) := t.rows.find? (·.path = path)

def listInFlightForCycle (t : Table P) (cycleId : String) : List (Proposal P) :=
  t.rows.filter fun p => p.state = .inFlight ∧ p.cycleId = some cycleId

/-- A new row, which gets the next id. -/
def add (t : Table P) (p : Proposal P) (hnew : t.findByPath p.path = none) : Table P where
  rows := t.rows ++ [{ p with id := t.nextId }]
  nextId := t.nextId + 1
  fresh q hq := by
    rcases List.mem_append.mp hq with hold | hadded
    · exact (t.fresh q hold).trans t.nextId.lt_succ_self
    · rw [List.mem_singleton.mp hadded]
      exact t.nextId.lt_succ_self
  ids := by
    rw [List.map_append, List.nodup_append]
    refine ⟨t.ids, List.nodup_singleton _, ?_⟩
    intro a ha b hb
    obtain ⟨q, hq, rfl⟩ := List.mem_map.mp ha
    rw [List.mem_singleton.mp hb]
    exact (t.fresh q hq).ne
  paths := by
    rw [List.map_append, List.nodup_append]
    refine ⟨t.paths, List.nodup_singleton _, ?_⟩
    intro a ha b hb
    obtain ⟨q, hq, rfl⟩ := List.mem_map.mp ha
    rw [List.mem_singleton.mp hb]
    simpa using List.find?_eq_none.mp hnew q hq

/-- A change of the other fields of a row. -/
def edit (t : Table P) (id : ℕ) (f : Proposal P → Proposal P)
    (hkeeps : ∀ p, (f p).id = p.id ∧ (f p).path = p.path) : Table P where
  rows := t.rows.map fun p => if p.id = id then f p else p
  nextId := t.nextId
  fresh q hq := by
    obtain ⟨p, hp, rfl⟩ := List.mem_map.mp hq
    split_ifs
    · rw [(hkeeps p).1]
      exact t.fresh p hp
    · exact t.fresh p hp
  ids := by
    have hsame : (t.rows.map fun p => if p.id = id then f p else p).map Proposal.id =
        t.rows.map Proposal.id := by
      rw [List.map_map]
      apply List.map_congr_left
      intro p _
      simp only [Function.comp_apply]
      split_ifs
      · exact (hkeeps p).1
      · rfl
    exact hsame ▸ t.ids
  paths := by
    have hsame : (t.rows.map fun p => if p.id = id then f p else p).map Proposal.path =
        t.rows.map Proposal.path := by
      rw [List.map_map]
      apply List.map_congr_left
      intro p _
      simp only [Function.comp_apply]
      split_ifs
      · exact (hkeeps p).2
      · rfl
    exact hsame ▸ t.paths

end Table

/-! ### The calls -/

/-- A call of the repository; what it has written stays when it raises. -/
abbrev Call (P α : Type) := ExceptT Error (StateM (Table P)) α

def require (proposalId : ℕ) : Call P (Proposal P) := do
  match (← get).get? proposalId with
  | none => throw (.lookupError s!"Proposal id={proposalId} not found")
  | some p => return p

/-- The row `create` adds, before it has its id. -/
def newProposal (now : ℤ) (path title : String) (category : ImplementationCategory)
    (state : ProposalState) (priority : ProposalPriority) : Proposal P :=
  { id := 0, path, title, category, state, priority, createdAt := now, updatedAt := now }

def create (now : ℤ) (path title : String) (category : ImplementationCategory) (state : ProposalState)
    (priority : ProposalPriority) : Call P ℕ := do
  let t ← get
  if hnew : t.findByPath path = none then
    set (t.add (newProposal now path title category state priority) hnew)
    return t.nextId
  else throw .integrityError

/-- The frame of the calls that change a state: the states they ask for, their message, and
the change. -/
def mark (proposalId : ℕ) (required : List ProposalState) (message : Proposal P → String)
    (f : Proposal P → Proposal P) (hkeeps : ∀ p, (f p).id = p.id ∧ (f p).path = p.path) :
    Call P Unit := do
  let p ← require proposalId
  if p.state ∉ required then throw (.valueError (message p))
  modify fun t => t.edit proposalId f hkeeps

def markInFlight (now : ℤ) (proposalId : ℕ) (cycleId : String) : Call P Unit :=
  mark proposalId [.ready]
    (fun p => s!"mark_in_flight requires READY, got {p.state.value} (id={proposalId})")
    (fun p => { p with
      state := .inFlight, cycleId := some cycleId, lastAttemptAt := some now, updatedAt := now })
    fun _ => ⟨rfl, rfl⟩

def markImplemented (now : ℤ) (proposalId : ℕ) : Call P Unit :=
  mark proposalId [.inFlight] (fun p => s!"mark_implemented requires IN_FLIGHT, got {p.state.value}")
    (fun p => { p with state := .implemented, cycleId := none, updatedAt := now })
    fun _ => ⟨rfl, rfl⟩

def markFailed (now : ℤ) (proposalId : ℕ) (reason : String) : Call P Unit :=
  mark proposalId [.inFlight] (fun p => s!"mark_failed requires IN_FLIGHT, got {p.state.value}")
    (fun p => { p with
      state := .failed, failureReason := some reason, cycleId := none, updatedAt := now })
    fun _ => ⟨rfl, rfl⟩

def markSkipped (now : ℤ) (proposalId : ℕ) (reason : String) : Call P Unit :=
  mark proposalId [.ready, .draft] (fun p => s!"mark_skipped requires READY|DRAFT, got {p.state.value}")
    (fun p => { p with state := .skipped, skipReason := some reason, updatedAt := now })
    fun _ => ⟨rfl, rfl⟩

def setPrediction (now : ℤ) (proposalId : ℕ) (prediction : Option P) : Call P Unit := do
  let _ ← require proposalId
  modify fun t => t.edit proposalId (fun p => { p with prediction, updatedAt := now })
    fun _ => ⟨rfl, rfl⟩

/-- A markdown file with the prediction it holds, if any. -/
structure MarkdownFile (P : Type) where
  path : String
  stem : String
  text : String
  prediction : Option P

def MarkdownFile.state (md : MarkdownFile P) : ProposalState :=
  coerceState (parseProposal md.stem md.text).state

/-- The body of the loop of `sync_directory`. -/
def syncFile (now : ℤ) (md : MarkdownFile P) : Call P Unit := do
  if ((← get).findByPath md.path).isSome then return
  let parsed := parseProposal md.stem md.text
  let id ← create now md.path parsed.title (coerceCategory parsed.category) (coerceState parsed.state)
    (coercePriority parsed.priority)
  if md.prediction.isSome then setPrediction now id md.prediction

def syncDirectory (now : ℤ) (files : List (MarkdownFile P)) : Call P Unit := files.forM (syncFile now)

structure ContractResult where
  passed : Bool
  reasons : List String

def failureReason (contract : ContractResult) : String :=
  let reason := "; ".intercalate contract.reasons
  if reason = "" then "contract failed without reasons" else reason

def applyVerificationResult (now : ℤ) (cycleId : String) (contract : ContractResult) : Call P Unit := do
  let inFlights := (← get).listInFlightForCycle cycleId
  if contract.passed then inFlights.forM fun p => markImplemented now p.id
  else inFlights.forM fun p =>
    markFailed now p.id (String.ofList ((failureReason contract).toList.take 1000))

end Table

end KisAutotrader.Proposals
