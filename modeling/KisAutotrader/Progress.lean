import Mathlib.Data.List.Nodup
import KisAutotrader.Market
import KisAutotrader.OrderedDict
import KisAutotrader.Text

/-!
# The progress of a cycle

The lists in which a cycle keeps its proposals. A transition takes a path out of the list that the
caller names as its origin, and puts it into the list it goes to.
-/
namespace KisAutotrader.Progress
open OrderedDict Text

/-! ### The state of a cycle -/

inductive InitializerCheckResult where
  | pass | fail | skip
  deriving DecidableEq

structure InitializerCheck where
  name : String
  result : InitializerCheckResult
  detail : Option String := none
  deriving DecidableEq

structure StateTransition where
  path : String
  fromState : String
  toState : String
  time : Time
  reason : Option String := none
  deriving DecidableEq

inductive Env where
  | virtual | real
  deriving DecidableEq

/-- The lists of the current states. -/
inductive ListField where
  | pending | inFlight | completed | failed | skipped
  deriving DecidableEq

/-- `_STATE_LIST_FIELD.get`. -/
def stateListField (label : String) : Option ListField :=
  lookup label
    [("pending", .pending), ("ready", .pending), ("in_flight", .inFlight), ("implemented", .completed),
     ("completed", .completed), ("failed", .failed), ("skipped", .skipped)]

structure CycleProgress where
  schemaVersion : ℤ := 1
  cycleId : String
  startedAt : Time
  env : Env
  lastSafeTag : Option String := none
  initializerChecks : List InitializerCheck := []
  pending : List String := []
  inFlight : List String := []
  completed : List String := []
  failed : List String := []
  skipped : List String := []
  history : List StateTransition := []
  deriving DecidableEq

namespace CycleProgress

/-- `getattr` of a list. -/
def list (c : CycleProgress) : ListField → List String
  | .pending => c.pending
  | .inFlight => c.inFlight
  | .completed => c.completed
  | .failed => c.failed
  | .skipped => c.skipped

def setList (c : CycleProgress) (field : ListField) (paths : List String) : CycleProgress :=
  match field with
  | .pending => { c with pending := paths }
  | .inFlight => { c with inFlight := paths }
  | .completed => { c with completed := paths }
  | .failed => { c with failed := paths }
  | .skipped => { c with skipped := paths }

/-- `from_list.remove(path)` where it is there. -/
def leave (c : CycleProgress) (fromState path : String) : CycleProgress :=
  match stateListField fromState with
  | some field => if path ∈ c.list field then c.setList field ((c.list field).erase path) else c
  | none => c

def enter (c : CycleProgress) (toState path : String) : CycleProgress :=
  match stateListField toState with
  | some field => if path ∈ c.list field then c else c.setList field (c.list field ++ [path])
  | none => c

/-- `transition`, with the time it reads. -/
def transition (c : CycleProgress) (t : StateTransition) : CycleProgress :=
  (({ c with history := c.history ++ [t] }).leave t.fromState t.path).enter t.toState t.path

end CycleProgress

/-! ### The file -/

/-- What the model classes make of their values and of a text. -/
structure Pydantic (ε : Type) where
  modelDumpJson : CycleProgress → String
  modelValidateJson : String → Except ε CycleProgress

/-- `read_text`: every end of a line is a newline. -/
def universalNewlines : List Char → List Char
  | [] => []
  | '\r' :: '\n' :: cs => '\n' :: universalNewlines cs
  | c::cs => (if c = '\r' then '\n' else c) :: universalNewlines cs

section Files
variable {ε : Type} (py : Pydantic ε)

def loadProgress (file : Option String) : Except ε (Option CycleProgress) :=
  match file with
  | none => .ok none
  | some content =>
      let raw := stripChars (universalNewlines content.toList)
      if raw = [] then .ok none else (py.modelValidateJson (String.ofList raw)).map some

def saveProgress (c : CycleProgress) : String := py.modelDumpJson c

/-- `pipeline_append_progress.main`: the exit code and the file afterwards. -/
def appendProgress (file : Option String) (t : StateTransition) : Except ε (ℕ × Option String) :=
  (loadProgress py file).map fun
    | none => (1, file)
    | some c => (0, some (saveProgress py (c.transition t)))

/-- A progress that is written is a JSON object without raw carriage returns, and is read as it was. -/
structure Pydantic.RoundTrips (c : CycleProgress) : Prop where
  object : ∃ body, (py.modelDumpJson c).toList = '{' :: body ++ ['}']
  escaped : '\r' ∉ (py.modelDumpJson c).toList
  same : py.modelValidateJson (py.modelDumpJson c) = .ok c

variable {py}

theorem universalNewlines_eq {cs : List Char} (h : '\r' ∉ cs) : universalNewlines cs = cs := by
  induction cs with
  | nil => rfl
  | cons c cs ih =>
    obtain ⟨hc, hcs⟩ := not_or.mp (List.mem_cons.not.mp h)
    rw [universalNewlines, if_neg (Ne.symm hc), ih hcs]
    rintro cs rfl _
    exact hc rfl

theorem loadProgress_save {c : CycleProgress} (h : py.RoundTrips c) :
    loadProgress py (some (saveProgress py c)) = .ok (some c) := by
  obtain ⟨body, hbody⟩ := h.object
  have hraw : stripChars (universalNewlines (py.modelDumpJson c).toList) = (py.modelDumpJson c).toList := by
    rw [universalNewlines_eq h.escaped, hbody]
    have hopen : isSpace '{' = false := by decide
    have hclose : isSpace '}' = false := by decide
    simp [stripChars, hopen, hclose]
  have hne : (py.modelDumpJson c).toList ≠ [] := by simp [hbody]
  rw [loadProgress, saveProgress]
  simp only [hraw]
  rw [if_neg hne, String.ofList_toList, h.same]
  rfl

/-- A call of the script is the transition of the file's progress. -/
theorem appendProgress_save {c : CycleProgress} (h : py.RoundTrips c) (t : StateTransition) :
    appendProgress py (some (saveProgress py c)) t = .ok (0, some (saveProgress py (c.transition t))) := by
  rw [appendProgress, loadProgress_save h]
  rfl

end Files

/-! ### The lists -/

section Lists
variable {c : CycleProgress} {field other : ListField} {label path p : String}

@[simp] theorem list_setList (c : CycleProgress) (field other : ListField) (paths : List String) :
    (c.setList field paths).list other = if other = field then paths else c.list other := by
  cases field <;> cases other <;> rfl

theorem list_leave (c : CycleProgress) (label path : String) (field : ListField) :
    (c.leave label path).list field =
      if stateListField label = some field then (c.list field).erase path else c.list field := by
  unfold CycleProgress.leave
  cases stateListField label with
  | none => simp
  | some origin =>
    by_cases hsame : origin = field
    · subst hsame
      by_cases hmem : path ∈ c.list origin
      · simp [hmem]
      · simp [hmem, List.erase_of_not_mem hmem]
    · simp only [Option.some.injEq, hsame, if_false]
      split_ifs
      · rw [list_setList, if_neg (Ne.symm hsame)]
      · rfl

theorem list_enter (c : CycleProgress) (label path : String) (field : ListField) :
    (c.enter label path).list field =
      if stateListField label = some field ∧ path ∉ c.list field then c.list field ++ [path]
      else c.list field := by
  unfold CycleProgress.enter
  cases stateListField label with
  | none => simp
  | some target =>
    by_cases hsame : target = field
    · subst hsame
      by_cases hmem : path ∈ c.list target <;> simp [hmem]
    · simp only [Option.some.injEq, hsame, false_and, if_false]
      split_ifs
      · rfl
      · rw [list_setList, if_neg (Ne.symm hsame)]

/-- No list has a path twice. -/
def Once (c : CycleProgress) : Prop := ∀ field, (c.list field).Nodup

theorem once_transition (h : Once c) (t : StateTransition) : Once (c.transition t) := by
  intro field
  have hleft : ((({ c with history := c.history ++ [t] } : CycleProgress).leave t.fromState t.path).list
      field).Nodup := by
    rw [list_leave]
    split_ifs
    · exact (h field).erase _
    · exact h field
  rw [CycleProgress.transition, list_enter]
  split_ifs with hnew
  · exact List.nodup_append.mpr ⟨hleft, List.nodup_singleton _, by
      intro a ha b hb hab
      rw [List.mem_singleton.mp hb] at hab
      exact hnew.2 (hab ▸ ha)⟩
  · exact hleft

/-- A path is in a list after a transition of it there, and as long as no transition of it leaves. -/
theorem mem_transition (h : Once c) (t : StateTransition) : p ∈ (c.transition t).list field ↔
    (t.path = p ∧ stateListField t.toState = some field) ∨
      (p ∈ c.list field ∧ ¬(t.path = p ∧ stateListField t.fromState = some field)) := by
  have hleft : p ∈ (({ c with history := c.history ++ [t] } : CycleProgress).leave t.fromState
      t.path).list field ↔
        p ∈ c.list field ∧ ¬(t.path = p ∧ stateListField t.fromState = some field) := by
    have hsame : ({ c with history := c.history ++ [t] } : CycleProgress).list field = c.list field := by
      cases field <;> rfl
    rw [list_leave, hsame]
    split_ifs with hfrom
    · rw [(h field).mem_erase_iff]
      simp only [hfrom, and_true]
      exact ⟨fun hmem => ⟨hmem.2, Ne.symm hmem.1⟩, fun hmem => ⟨Ne.symm hmem.2, hmem.1⟩⟩
    · simp [hfrom]
  rw [CycleProgress.transition, list_enter]
  split_ifs with hto
  · rw [List.mem_append, List.mem_singleton, hleft]
    simp only [hto.1, and_true]
    constructor
    · rintro (hmem | rfl)
      · exact Or.inr hmem
      · exact Or.inl rfl
    · rintro (rfl | hmem)
      · exact Or.inr rfl
      · exact Or.inl hmem
  · rw [hleft]
    constructor
    · exact Or.inr
    · rintro (⟨rfl, hfield⟩ | hmem)
      · rw [← hleft]
        by_contra hout
        exact hto ⟨hfield, hout⟩
      · exact hmem

end Lists

/-! ### Sequences of transitions -/

def after (c : CycleProgress) (ts : List StateTransition) : CycleProgress :=
  ts.foldl CycleProgress.transition c

/-- The transition names states that are known. -/
def StateTransition.Known (t : StateTransition) : Prop :=
  (stateListField t.fromState).isSome ∧ (stateListField t.toState).isSome

/-- The list of the state to which the latest transition of a path goes. -/
def latest (ts : List StateTransition) (path : String) : Option ListField :=
  (ts.filter fun t => t.path = path).getLast?.bind fun t => stateListField t.toState

/-- Every path of the transitions is in one list, the one of its latest transition. -/
structure Partitioned (ts : List StateTransition) (c : CycleProgress) : Prop where
  lists : ∀ path field, (c.list field).count path = if latest ts path = some field then 1 else 0
  total : c.pending.length + c.inFlight.length + c.completed.length + c.failed.length +
    c.skipped.length = (ts.map StateTransition.path).dedup.length

/-- And is so still when the progress has been written and read. -/
structure Kept {ε : Type} (py : Pydantic ε) (ts : List StateTransition) (c : CycleProgress) : Prop where
  partitioned : Partitioned ts c
  reloaded : ∃ d, loadProgress py (some (saveProgress py c)) = .ok (some d) ∧ Partitioned ts d

/-- The list that a transition enters is left or entered again, unless it is the latest one. -/
def Followed (ts : List StateTransition) : Prop :=
  ∀ before t rest, ts = before ++ t::rest → (∃ u ∈ rest, u.path = t.path) →
    ∃ u ∈ rest, u.path = t.path ∧ (stateListField u.fromState = stateListField t.toState ∨
      stateListField u.toState = stateListField t.toState)

/-- The progress that the initializer writes: nothing is in the lists. -/
def initial (cycleId : String) (startedAt : Time) (env : Env) (lastSafeTag : Option String)
    (initializerChecks : List InitializerCheck) : CycleProgress :=
  { cycleId, startedAt, env, lastSafeTag, initializerChecks }

section Sequences
variable {ts rest : List StateTransition} {t u : StateTransition} {p : String} {field : ListField}

def StateTransition.Leaves (u : StateTransition) (path : String) (field : ListField) : Prop :=
  u.path = path ∧ stateListField u.fromState = some field

/-- Some transition of a path enters the list, and no later one leaves it. -/
def Stays (path : String) (field : ListField) : List StateTransition → Prop
  | [] => False
  | t::rest => Stays path field rest ∨
      (t.path = path ∧ stateListField t.toState = some field ∧ ∀ u ∈ rest, ¬u.Leaves path field)

theorem mem_after (c : CycleProgress) (h : Once c) (ts : List StateTransition) :
    p ∈ (after c ts).list field ↔
      Stays p field ts ∨ (p ∈ c.list field ∧ ∀ u ∈ ts, ¬u.Leaves p field) := by
  induction ts generalizing c with
  | nil => simp [after, Stays]
  | cons t rest ih =>
    rw [after, List.foldl_cons, ← after, ih _ (once_transition h t), mem_transition h, Stays]
    simp only [List.forall_mem_cons, StateTransition.Leaves]
    tauto

theorem once_after {c : CycleProgress} (h : Once c) (ts : List StateTransition) :
    Once (after c ts) := by
  induction ts generalizing c with
  | nil => exact h
  | cons t rest ih => exact ih (once_transition h t)

theorem Stays.moved (h : Stays p field ts) : ∃ u ∈ ts, u.path = p := by
  induction ts with
  | nil => exact h.elim
  | cons t rest ih =>
    rcases h with hrest | ⟨hpath, -⟩
    · obtain ⟨u, hu, hup⟩ := ih hrest
      exact ⟨u, List.mem_cons_of_mem _ hu, hup⟩
    · exact ⟨t, List.mem_cons_self, hpath⟩

theorem stays_of_enters (hu : u ∈ ts) (hpath : u.path = p) (hto : stateListField u.toState = some field)
    (hleft : ∀ v ∈ ts, ¬v.Leaves p field) : Stays p field ts := by
  induction ts with
  | nil => simp at hu
  | cons t rest ih =>
    have hrest := (List.forall_mem_cons.mp hleft).2
    rcases List.mem_cons.mp hu with rfl | hu
    · exact Or.inr ⟨hpath, hto, hrest⟩
    · exact Or.inl (ih hu hrest)

theorem latest_cons_moved (h : ∃ u ∈ rest, u.path = p) : latest (t::rest) p = latest rest p := by
  obtain ⟨u, hu, hup⟩ := h
  have hne : rest.filter (fun t => t.path = p) ≠ [] :=
    List.ne_nil_of_mem (List.mem_filter.mpr ⟨hu, decide_eq_true hup⟩)
  rw [latest, latest, List.filter_cons]
  split_ifs
  · rw [List.getLast?_cons, List.getLast?_eq_some_getLast hne]
    rfl
  · rfl

theorem latest_cons_still (h : ¬∃ u ∈ rest, u.path = p) :
    latest (t::rest) p = if t.path = p then stateListField t.toState else none := by
  have hnil : rest.filter (fun t => t.path = p) = [] := by
    rw [List.filter_eq_nil_iff]
    intro u hu hup
    exact h ⟨u, hu, of_decide_eq_true hup⟩
  rw [latest, List.filter_cons, hnil]
  by_cases hpath : t.path = p <;> simp [hpath]

theorem stays_latest (h : latest ts p = some field) : Stays p field ts := by
  induction ts with
  | nil => simp [latest] at h
  | cons t rest ih =>
    by_cases hmoved : ∃ u ∈ rest, u.path = p
    · rw [latest_cons_moved hmoved] at h
      exact Or.inl (ih h)
    · rw [latest_cons_still hmoved] at h
      split_ifs at h with hpath
      exact Or.inr ⟨hpath, h, fun u hu hleaves => hmoved ⟨u, hu, hleaves.1⟩⟩

theorem latest_enters (h : latest ts p = some field) :
    ∃ u ∈ ts, u.path = p ∧ stateListField u.toState = some field := by
  obtain ⟨u, hu, hto⟩ := Option.bind_eq_some_iff.mp h
  obtain ⟨hmem, hpath⟩ := List.mem_filter.mp (List.mem_of_getLast? hu)
  exact ⟨u, hmem, of_decide_eq_true hpath, hto⟩

theorem followed_cons : Followed (t::rest) ↔ ((∃ u ∈ rest, u.path = t.path) →
    ∃ u ∈ rest, u.path = t.path ∧ (stateListField u.fromState = stateListField t.toState ∨
      stateListField u.toState = stateListField t.toState)) ∧ Followed rest := by
  constructor
  · intro h
    exact ⟨h [] t rest rfl, fun before v tail hsplit => h (t::before) v tail (by rw [hsplit]; rfl)⟩
  · rintro ⟨hhead, hrest⟩ before v tail hsplit
    cases before with
    | nil =>
      obtain ⟨rfl, rfl⟩ := List.cons.inj hsplit
      exact hhead
    | cons b before => exact hrest before v tail (List.cons.inj hsplit).2

/-- A sequence is followed exactly when no path stays in a list but the one of its latest transition. -/
theorem followed_iff_stays (hknown : ∀ t ∈ ts, t.Known) :
    Followed ts ↔ ∀ p field, Stays p field ts → latest ts p = some field := by
  induction ts with
  | nil =>
    refine ⟨fun _ _ _ h => h.elim, fun _ before t rest hsplit => ?_⟩
    simp at hsplit
  | cons t rest ih =>
    obtain ⟨ht, hrest⟩ := List.forall_mem_cons.mp hknown
    obtain ⟨target, htarget⟩ := Option.isSome_iff_exists.mp ht.2
    rw [followed_cons, ih hrest]
    constructor
    · rintro ⟨hhead, hlatest⟩ p field hstays
      by_cases hmoved : ∃ u ∈ rest, u.path = p
      · rw [latest_cons_moved hmoved]
        rcases hstays with hlater | ⟨rfl, hto, hleft⟩
        · exact hlatest p field hlater
        -- the later transition that the sequence owes to this one enters the list once more
        · obtain ⟨u, hu, hup, hfollow⟩ := hhead hmoved
          rw [hto] at hfollow
          have hagain := hfollow.resolve_left fun hfrom => hleft u hu ⟨hup, hfrom⟩
          exact hlatest _ field (stays_of_enters hu hup hagain hleft)
      · rcases hstays with hlater | ⟨hpath, hto, -⟩
        · exact absurd hlater.moved hmoved
        · rw [latest_cons_still hmoved, if_pos hpath, hto]
    · intro h
      constructor
      · intro hmoved
        by_cases hleft : ∀ u ∈ rest, ¬u.Leaves t.path target
        · have hlatest := h t.path target (Or.inr ⟨rfl, htarget, hleft⟩)
          rw [latest_cons_moved hmoved] at hlatest
          obtain ⟨u, hu, hup, hto⟩ := latest_enters hlatest
          exact ⟨u, hu, hup, Or.inr (hto.trans htarget.symm)⟩
        · push Not at hleft
          obtain ⟨u, hu, hup, hfrom⟩ := hleft
          exact ⟨u, hu, hup, Or.inl (hfrom.trans htarget.symm)⟩
      · intro p field hstays
        rw [← h p field (Or.inl hstays), latest_cons_moved hstays.moved]

end Sequences

section Partition
variable {ts : List StateTransition}

theorem moved_latest (hknown : ∀ t ∈ ts, t.Known) {p : String} :
    p ∈ ts.map StateTransition.path ↔ ∃ field, latest ts p = some field := by
  constructor
  · intro hp
    obtain ⟨t, ht, rfl⟩ := List.mem_map.mp hp
    have hne : ts.filter (fun u => u.path = t.path) ≠ [] :=
      List.ne_nil_of_mem (List.mem_filter.mpr ⟨ht, decide_eq_true rfl⟩)
    have hlast := List.getLast_mem hne
    obtain ⟨field, hfield⟩ := Option.isSome_iff_exists.mp (hknown _ (List.mem_filter.mp hlast).1).2
    exact ⟨field, by rw [latest, List.getLast?_eq_some_getLast hne, Option.bind_some, hfield]⟩
  · rintro ⟨field, hlatest⟩
    obtain ⟨u, hu, hup, -⟩ := latest_enters hlatest
    exact List.mem_map.mpr ⟨u, hu, hup⟩

/-- The lengths of the lists add up, as soon as every path is in the list of its latest transition alone. -/
theorem Partitioned.of_lists {c : CycleProgress} (hknown : ∀ t ∈ ts, t.Known)
    (h : ∀ path field, (c.list field).count path = if latest ts path = some field then 1 else 0) :
    Partitioned ts c := by
  refine ⟨h, ?_⟩
  let all := c.pending ++ c.inFlight ++ c.completed ++ c.failed ++ c.skipped
  have hcount : ∀ p, all.count p = if (latest ts p).isSome then 1 else 0 := by
    intro p
    have hpending := h p .pending
    have hinFlight := h p .inFlight
    have hcompleted := h p .completed
    have hfailed := h p .failed
    have hskipped := h p .skipped
    simp only [CycleProgress.list] at hpending hinFlight hcompleted hfailed hskipped
    simp only [all, List.count_append, hpending, hinFlight, hcompleted, hfailed, hskipped]
    cases latest ts p with
    | none => rfl
    | some field => cases field <;> rfl
  have hnodup : all.Nodup := by
    rw [List.nodup_iff_count_le_one]
    intro p
    rw [hcount]
    split_ifs <;> omega
  have hmem : ∀ p, p ∈ all ↔ p ∈ (ts.map StateTransition.path).dedup := by
    intro p
    rw [List.mem_dedup, moved_latest hknown, ← Option.isSome_iff_exists, ← List.count_pos_iff, hcount]
    split_ifs with hlatest <;> simp [hlatest]
  have hlength := ((List.perm_ext_iff_of_nodup hnodup (List.nodup_dedup _)).mpr hmem).length_eq
  simpa only [all, List.length_append] using hlength

end Partition

section Cycles
variable (cycleId : String) (startedAt : Time) (env : Env) (lastSafeTag : Option String)
  (checks : List InitializerCheck) (ts : List StateTransition)

theorem once_initial : Once (initial cycleId startedAt env lastSafeTag checks) := by
  intro field
  cases field <;> exact List.nodup_nil

theorem mem_after_initial {p : String} {field : ListField} :
    p ∈ (after (initial cycleId startedAt env lastSafeTag checks) ts).list field ↔ Stays p field ts := by
  have hempty : p ∉ (initial cycleId startedAt env lastSafeTag checks).list field := by
    cases field <;> exact List.not_mem_nil
  rw [mem_after _ (once_initial cycleId startedAt env lastSafeTag checks)]
  simp only [hempty, false_and, or_false]

/-- After the transitions of a cycle every path is in one list, before and after a save, exactly when
the sequence is followed. -/
theorem kept_after_iff {ε : Type} (py : Pydantic ε) (hknown : ∀ t ∈ ts, t.Known)
    (hjson : py.RoundTrips (after (initial cycleId startedAt env lastSafeTag checks) ts)) :
    Kept py ts (after (initial cycleId startedAt env lastSafeTag checks) ts) ↔ Followed ts := by
  have honce := once_after (once_initial cycleId startedAt env lastSafeTag checks) ts
  rw [followed_iff_stays hknown]
  constructor
  · intro h p field hstays
    have hone := h.partitioned.lists p field
    rw [(honce field).count, if_pos ((mem_after_initial ..).mpr hstays)] at hone
    by_contra hother
    rw [if_neg hother] at hone
    exact one_ne_zero hone
  · intro h
    have hpartitioned : Partitioned ts (after (initial cycleId startedAt env lastSafeTag checks) ts) := by
      refine Partitioned.of_lists hknown fun p field => ?_
      rw [(honce field).count]
      exact if_congr ((mem_after_initial ..).trans ⟨h p field, stays_latest⟩) rfl rfl
    exact ⟨hpartitioned, _, loadProgress_save hjson, hpartitioned⟩

end Cycles

/-- The classes at one progress, whose text is the object with this body. -/
def recorded (body : List Char) (c : CycleProgress) : Pydantic Unit where
  modelDumpJson := fun _ => String.ofList ('{' :: body ++ ['}'])
  modelValidateJson := fun text => if text = String.ofList ('{' :: body ++ ['}']) then .ok c else .error ()

theorem recorded_roundTrips {body : List Char} {c : CycleProgress} (h : '\r' ∉ body) :
    (recorded body c).RoundTrips c where
  object := ⟨body, by simp [recorded]⟩
  escaped := by simp [recorded, h]
  same := if_pos rfl

def pathsJson : List String → List Char
  | [] => "[]".toList
  | paths => "[\n".toList ++ ",\n".toList.intercalate (paths.map fun path =>
      "    \"".toList ++ path.toList ++ "\"".toList) ++ "\n  ]".toList

/-- A transition of `a.md` out of the queue. -/
def transitionJson (toState time : String) : List Char :=
  "    \x7b\n      \"path\": \"a.md\",\n".toList ++ "      \"from_state\": \"ready\",\n".toList ++
  "      \"to_state\": \"".toList ++ toState.toList ++ "\",\n      \"at\": \"".toList ++ time.toList ++
  "\",\n      \"reason\": null\n    \x7d".toList

/-- The body of a progress of one morning's cycle. -/
def cycleJson (c : CycleProgress) (transitions : List (List Char)) : List Char :=
  "\n  \"schema_version\": 1,\n".toList ++ "  \"cycle_id\": \"auto-20260612-090000\",\n".toList ++
  "  \"started_at\": ".toList ++ "\"2026-06-12T09:00:00+09:00\",\n".toList ++
  "  \"env\": \"virtual\",\n".toList ++ "  \"last_safe_tag\": null,\n".toList ++
  "  \"initializer_checks\": [],\n".toList ++
  "  \"pending\": ".toList ++ pathsJson c.pending ++
  ",\n  \"in_flight\": ".toList ++ pathsJson c.inFlight ++
  ",\n  \"completed\": ".toList ++ pathsJson c.completed ++
  ",\n  \"failed\": ".toList ++ pathsJson c.failed ++
  ",\n  \"skipped\": ".toList ++ pathsJson c.skipped ++
  ",\n  \"history\": [\n".toList ++ ",\n".toList.intercalate transitions ++ "\n  ]\n".toList

def cycle : CycleProgress := initial "auto-20260612-090000" (1781222400 * second) .virtual none []

instance (t : StateTransition) : Decidable t.Known := inferInstanceAs (Decidable (_ ∧ _))

/-- `a.md` is skipped, and skipped once more. -/
def skippedTwice : List StateTransition :=
  [⟨"a.md", "ready", "skipped", 1781222460 * second, none⟩,
    ⟨"a.md", "ready", "skipped", 1781222520 * second, none⟩]

def skippedTwiceJson : List Char :=
  cycleJson (after cycle skippedTwice)
    [transitionJson "skipped" "2026-06-12T00:01:00Z", transitionJson "skipped" "2026-06-12T00:02:00Z"]

theorem kept_after_skippedTwice :
    Kept (recorded skippedTwiceJson (after cycle skippedTwice)) skippedTwice (after cycle skippedTwice) ↔
      Followed skippedTwice :=
  kept_after_iff _ _ _ _ _ _ _ (by decide) (recorded_roundTrips (by decide +kernel))

/-- `a.md` goes in flight, and fails by a transition that still names the queue as its origin. -/
def failedFromQueue : List StateTransition :=
  [⟨"a.md", "ready", "in_flight", 1781222460 * second, none⟩,
    ⟨"a.md", "ready", "failed", 1781222520 * second, none⟩]

def failedFromQueueJson : List Char :=
  cycleJson (after cycle failedFromQueue)
    [transitionJson "in_flight" "2026-06-12T00:01:00Z", transitionJson "failed" "2026-06-12T00:02:00Z"]

/-- The path is then in flight and failed at once. -/
theorem failedFromQueue_twice : ¬∀ (ε : Type) (py : Pydantic ε) (ts : List StateTransition),
    (∀ t ∈ ts, t.Known) → py.RoundTrips (after cycle ts) → Kept py ts (after cycle ts) := by
  intro h
  have hkept := h Unit (recorded failedFromQueueJson (after cycle failedFromQueue)) failedFromQueue
    (by decide) (recorded_roundTrips (by decide +kernel))
  have hinFlight := hkept.partitioned.lists "a.md" .inFlight
  exact absurd hinFlight (by decide +kernel)

end KisAutotrader.Progress
