import KisAutotrader.OrderedDict
import KisAutotrader.Separated

/-!
# The guard of forbidden paths

The hook that sees every edit before it is made. It compares the text of the path, with `.` and repeated
slashes taken out, with the names and the beginnings of what may not be edited.
-/
namespace KisAutotrader.PathGuard
open OrderedDict Separated

/-! ### The hook -/

abbrev Name := List Char

def forbiddenExact : List Name :=
  [".env".toList, ".env.local".toList, ".env.production".toList, "credentials.json".toList,
    "token.json".toList]

def forbiddenPrefixes : List (List Char) := ["alembic/versions/".toList, "src/api/auth.py".toList]

def warnExact : List Name := ["pyproject.toml".toList]

structure HookDecision where
  blocked : Bool
  reason : List Char := []
  warning : Bool := false
  deriving DecidableEq

/-- The root and the names of a `PurePosixPath`. -/
structure PurePosixPath where
  root : List Char
  parts : List Name
  deriving DecidableEq

/-- `posixpath.splitroot`: exactly two slashes are a root of their own. -/
def splitroot : List Char → List Char × List Char
  | '/' :: '/' :: rest => if rest.head? = some '/' then (['/'], '/' :: rest) else (['/', '/'], rest)
  | '/' :: rest => (['/'], rest)
  | text => ([], text)

def parsePath (text : List Char) : PurePosixPath where
  root := (splitroot text).1
  parts := ((splitroot text).2.splitOn '/').filter fun name => name ≠ [] ∧ name ≠ ['.']

def PurePosixPath.str (p : PurePosixPath) : List Char :=
  if p.root = [] ∧ p.parts = [] then ['.'] else p.root ++ ['/'].intercalate p.parts

/-- `p.replace("\\", "/")`. -/
def slashes (text : List Char) : List Char := text.map fun c => if c = '\\' then '/' else c

def normalize (text : List Char) : List Char := (parsePath (slashes text)).str

/-- A value of the parameters of a tool: a text, or something else. -/
inductive Param where
  | text (s : List Char)
  | other (truthy : Bool)
  deriving DecidableEq

def Param.truthy : Param → Bool
  | .text s => s ≠ []
  | .other truthy => truthy

/-- `params.get("file_path") or params.get("path") or ""`. -/
def pathParam (params : List (String × Param)) : Param :=
  ((lookup "file_path" params).filter Param.truthy <|> (lookup "path" params).filter Param.truthy).getD
    (.text [])

/-- The decision on a normalised path and its last name. -/
def judge (norm leaf : List Char) : HookDecision :=
  if leaf ∈ forbiddenExact then { blocked := true, reason := "forbidden file: ".toList ++ leaf }
  else match forbiddenPrefixes.find? fun start => start.isPrefixOf norm || decide (norm = start) with
    | some start =>
        { blocked := true, reason := "forbidden path prefix: ".toList ++ start ++ " (path=".toList ++ norm ++
          ")".toList }
    | none =>
        if leaf ∈ warnExact then
          { blocked := false, warning := true, reason := "warn: ".toList ++ leaf ++ " edit detected".toList }
        else { blocked := false }

/-- The tools that edit. -/
def editTools : List String := ["Edit", "Write", "MultiEdit"]

def evaluate (tool : String) (params : List (String × Param)) : HookDecision :=
  if tool ∉ editTools then { blocked := false }
  else match pathParam params with
    | .other _ => { blocked := false }
    | .text path =>
        if path = [] then { blocked := false } else judge (normalize path) (afterLast '/' (normalize path))

structure Payload where
  hookEventName : String
  toolName : String
  toolInput : List (String × Param)

/-- The exit code and the message for a command. -/
def answerBash (decision : HookDecision) : ℕ × List Char :=
  if decision.blocked then (2, "[pre_bash] BLOCKED: ".toList ++ decision.reason) else (0, [])

def answerEdit (decision : HookDecision) : ℕ × List Char :=
  if decision.blocked then (2, "[pre_tool_use] BLOCKED: ".toList ++ decision.reason)
  else if decision.warning then (0, "[pre_tool_use] WARN: ".toList ++ decision.reason)
  else (0, [])

/-- `run_hook.main`. The decision on a command and what becomes of other events are given. -/
def main (preBash : Option Param → HookDecision) (otherEvents : Payload → ℕ × List Char)
    (payload : Payload) : ℕ × List Char :=
  if payload.hookEventName = "PreToolUse" then
    if payload.toolName = "Bash" then answerBash (preBash (lookup "command" payload.toolInput))
    else answerEdit (evaluate payload.toolName payload.toolInput)
  else otherEvents payload

/-! ### What a path denotes -/

def up : Name := ['.', '.']

/-- The file that the text denotes for a process in the repository. -/
def denoted (repository : List Name) (text : List Char) : List Name :=
  resolve up (if (parsePath (slashes text)).root = [] then repository else [])
    (parsePath (slashes text)).parts

/-- A file under `alembic/versions/`, or `src/api/auth.py`. -/
inductive GuardedParts : List Name → Prop
  | version (name : Name) (rest : List Name) :
      GuardedParts ("alembic".toList :: "versions".toList :: name :: rest)
  | auth : GuardedParts ["src".toList, "api".toList, "auth.py".toList]

def Guarded (repository file : List Name) : Prop :=
  ∃ parts, file = repository ++ parts ∧ GuardedParts parts

def Forbidden (repository file : List Name) : Prop :=
  (∃ name ∈ forbiddenExact, file.getLast? = some name) ∨ Guarded repository file

/-- The names whose text begins with one of the forbidden beginnings. -/
inductive Begins : List Name → Prop
  | version (name : Name) (rest : List Name) :
      Begins ("alembic".toList :: "versions".toList :: name :: rest)
  | auth (name : Name) (rest : List Name) (h : "auth.py".toList <+: name) :
      Begins ("src".toList :: "api".toList :: name :: rest)

/-- A text that goes on after `src/api/auth.py`. -/
def Extends (parts : List Name) : Prop :=
  ∃ name rest, parts = "src".toList :: "api".toList :: name :: rest ∧ "auth.py".toList <+: name ∧
    ¬(name = "auth.py".toList ∧ rest = [])

/-! ### The text of a path -/

section Texts
variable {text : List Char} {p : PurePosixPath} {name : Name} {parts : List Name}

/-- What the constructor makes of a text. -/
structure Parsed (p : PurePosixPath) : Prop where
  root : p.root = [] ∨ p.root = ['/'] ∨ p.root = ['/', '/']
  slash : ∀ name ∈ p.parts, '/' ∉ name

theorem parsed (text : List Char) : Parsed (parsePath text) where
  root := by
    unfold parsePath splitroot
    split
    · split_ifs <;> simp
    · simp
    · simp
  slash name hname := notMem_of_mem_splitOn (List.mem_filter.mp hname).1

/-- The last name of the text is the last one of the parts, where there are any. -/
theorem afterLast_str (hp : Parsed p) (hparts : p.parts = parts ++ [name]) : afterLast '/' p.str = name := by
  have hslash : '/' ∉ name := hp.slash name (hparts ▸ List.mem_append_right _ List.mem_cons_self)
  have hjoined := afterLast_intercalate parts hslash
  rw [PurePosixPath.str, hparts, if_neg (by simp)]
  rcases hp.root with hroot | hroot | hroot
  · rw [hroot, List.nil_append, hjoined]
  · rw [hroot, List.singleton_append, ← List.nil_append ('/' :: _), afterLast_append_sep, hjoined]
  · rw [hroot, List.cons_append, List.singleton_append, ← List.singleton_append, afterLast_append_sep,
      hjoined]

theorem exact_str_iff (hp : Parsed p) : afterLast '/' p.str ∈ forbiddenExact ↔
    ∃ name ∈ forbiddenExact, p.parts.getLast? = some name := by
  rcases List.eq_nil_or_concat' p.parts with hnil | ⟨parts, name, hparts⟩
  · have hleaf : afterLast '/' p.str ∉ forbiddenExact := by
      rw [PurePosixPath.str, hnil]
      rcases hp.root with hroot | hroot | hroot <;> rw [hroot] <;> decide
    simp [hleaf, hnil]
  · rw [afterLast_str hp hparts, hparts, List.getLast?_concat]
    simp

theorem begins_iff : Begins parts ↔
    (∃ name rest, parts = "alembic".toList :: "versions".toList :: name :: rest) ∨
      ∃ name rest, parts = "src".toList :: "api".toList :: name :: rest ∧ "auth.py".toList <+: name := by
  constructor
  · rintro (⟨name, rest⟩ | ⟨name, rest, h⟩)
    · exact Or.inl ⟨name, rest, rfl⟩
    · exact Or.inr ⟨name, rest, rfl, h⟩
  · rintro (⟨name, rest, rfl⟩ | ⟨name, rest, rfl, h⟩)
    · exact Begins.version name rest
    · exact Begins.auth name rest h

/-- The text of a relative path begins with `alembic/versions/` when its names do. -/
theorem versions_prefix_iff (hparts : ∀ name ∈ parts, '/' ∉ name) :
    "alembic/versions/".toList <+: ['/'].intercalate parts ↔
      ∃ name rest, parts = "alembic".toList :: "versions".toList :: name :: rest := by
  have htext : "alembic/versions/".toList = "alembic".toList ++ '/' :: ("versions".toList ++ ['/']) := by
    decide +kernel
  rw [htext, name_sep_prefix_iff (by decide) hparts]
  constructor
  · rintro ⟨rest, rfl, -, hrest⟩
    rw [name_sep_prefix_iff (by decide) fun other hmem => hparts other (List.mem_cons_of_mem _ hmem)] at hrest
    obtain ⟨rest, rfl, hne, -⟩ := hrest
    obtain ⟨name, rest, rfl⟩ := List.exists_cons_of_ne_nil hne
    exact ⟨name, rest, rfl⟩
  · rintro ⟨name, rest, rfl⟩
    refine ⟨_, rfl, List.cons_ne_nil _ _, ?_⟩
    rw [name_sep_prefix_iff (by decide) fun other hmem => hparts other (List.mem_cons_of_mem _ hmem)]
    exact ⟨_, rfl, List.cons_ne_nil _ _, List.nil_prefix⟩

theorem auth_prefix_iff (hparts : ∀ name ∈ parts, '/' ∉ name) :
    "src/api/auth.py".toList <+: ['/'].intercalate parts ↔
      ∃ name rest, parts = "src".toList :: "api".toList :: name :: rest ∧ "auth.py".toList <+: name := by
  have htext : "src/api/auth.py".toList = "src".toList ++ '/' :: ("api".toList ++ '/' :: "auth.py".toList) := by
    decide +kernel
  rw [htext, name_sep_prefix_iff (by decide) hparts]
  constructor
  · rintro ⟨rest, rfl, -, hrest⟩
    rw [name_sep_prefix_iff (by decide) fun other hmem => hparts other (List.mem_cons_of_mem _ hmem)] at hrest
    obtain ⟨rest, rfl, -, hauth⟩ := hrest
    obtain ⟨name, rest, rfl, hname⟩ := (prefix_intercalate_iff (by decide) (by decide)).mp hauth
    exact ⟨name, rest, rfl, hname⟩
  · rintro ⟨name, rest, rfl, hname⟩
    refine ⟨_, rfl, List.cons_ne_nil _ _, ?_⟩
    rw [name_sep_prefix_iff (by decide) fun other hmem => hparts other (List.mem_cons_of_mem _ hmem)]
    exact ⟨_, rfl, List.cons_ne_nil _ _,
      (prefix_intercalate_iff (by decide) (by decide)).mpr ⟨name, rest, rfl, hname⟩⟩

/-- Only relative paths begin with what is forbidden. -/
theorem prefix_str_iff (hp : Parsed p) :
    (∃ start ∈ forbiddenPrefixes, start <+: p.str) ↔ p.root = [] ∧ Begins p.parts := by
  have hboth : (∃ start ∈ forbiddenPrefixes, start <+: p.str) ↔
      "alembic/versions/".toList <+: p.str ∨ "src/api/auth.py".toList <+: p.str := by
    simp [forbiddenPrefixes]
  rw [hboth, begins_iff]
  by_cases hroot : p.root = []
  · by_cases hparts : p.parts = []
    · have hdot : p.str = ['.'] := by rw [PurePosixPath.str, if_pos ⟨hroot, hparts⟩]
      rw [hdot, hparts]
      simp
    · have hstr : p.str = ['/'].intercalate p.parts := by
        rw [PurePosixPath.str, if_neg fun h => hparts h.2, hroot, List.nil_append]
      rw [hstr, versions_prefix_iff hp.slash, auth_prefix_iff hp.slash]
      simp [hroot]
  · have hslash : ∃ rest, p.str = '/' :: rest := by
      rw [PurePosixPath.str, if_neg fun h => hroot h.1]
      rcases hp.root with h | h | h
      · exact absurd h hroot
      · exact ⟨_, by rw [h, List.singleton_append]⟩
      · exact ⟨_, by rw [h, List.cons_append]⟩
    obtain ⟨rest, hrest⟩ := hslash
    rw [hrest]
    simp [hroot]

end Texts

/-! ### The decision -/

/-- The last name of the text is that of a forbidden file. -/
def Named (text : List Char) : Prop :=
  ∃ name ∈ forbiddenExact, (parsePath (slashes text)).parts.getLast? = some name

section Decisions
variable {preBash : Option Param → HookDecision} {otherEvents : Payload → ℕ × List Char} {tool : String}
  {params : List (String × Param)} {text norm leaf : List Char} {repository : List Name}

theorem judge_blocked_iff : (judge norm leaf).blocked ↔
    leaf ∈ forbiddenExact ∨ ∃ start ∈ forbiddenPrefixes, start <+: norm := by
  by_cases hexact : leaf ∈ forbiddenExact
  · rw [judge, if_pos hexact]
    simp [hexact]
  · rw [judge, if_neg hexact]
    cases hfind : forbiddenPrefixes.find? fun start => start.isPrefixOf norm || decide (norm = start) with
    | some start =>
      have hstart : start <+: norm := by
        have hfound := List.find?_some hfind
        rw [Bool.or_eq_true, List.isPrefixOf_iff_prefix, decide_eq_true_eq] at hfound
        exact hfound.elim id fun heq => heq ▸ List.prefix_rfl
      simp only [true_iff]
      exact Or.inr ⟨start, List.mem_of_find?_eq_some hfind, hstart⟩
    | none =>
      have hnone : ¬∃ start ∈ forbiddenPrefixes, start <+: norm := by
        rintro ⟨start, hmem, hstart⟩
        have hmiss := List.find?_eq_none.mp hfind start hmem
        rw [List.isPrefixOf_iff_prefix.mpr hstart] at hmiss
        exact hmiss rfl
      by_cases hwarn : leaf ∈ warnExact <;> simp [hwarn, hexact, hnone]

theorem main_eq_two_iff (htool : tool ∈ editTools) : (main preBash otherEvents ⟨"PreToolUse", tool, params⟩).1 = 2 ↔
    (evaluate tool params).blocked := by
  have hbash : tool ≠ "Bash" := by
    rintro rfl
    exact absurd htool (by decide)
  rw [main, if_pos rfl, if_neg hbash, answerEdit]
  split_ifs with hblocked <;> simp [hblocked]

/-- An edit is stopped for the last name of its path, or for the beginning of a relative path. -/
theorem blocked_iff (htool : tool ∈ editTools) (hpath : pathParam params = .text text) (hne : text ≠ []) :
    (main preBash otherEvents ⟨"PreToolUse", tool, params⟩).1 = 2 ↔
      Named text ∨ ((parsePath (slashes text)).root = [] ∧ Begins (parsePath (slashes text)).parts) := by
  rw [main_eq_two_iff htool, evaluate, if_neg (not_not.mpr htool), hpath]
  simp only [if_neg hne]
  rw [judge_blocked_iff, normalize, exact_str_iff (parsed _), prefix_str_iff (parsed _)]
  rfl

end Decisions

/-! ### Texts that are decided rightly -/

/-- A call of a tool that edits, with the path that it names. -/
structure EditCall where
  tool : String
  params : List (String × Param)
  path : List Char
  edits : tool ∈ editTools
  named : pathParam params = .text path
  given : path ≠ []

/-- The hook ends the call. -/
def Stopped (preBash : Option Param → HookDecision) (otherEvents : Payload → ℕ × List Char)
    (call : EditCall) : Prop :=
  (main preBash otherEvents ⟨"PreToolUse", call.tool, call.params⟩).1 = 2

/-- The last name is forbidden anyway; or the path is absolute and denotes no forbidden file; or it goes up, or
nowhere, and begins like a forbidden path just when it denotes one; or it goes down and its text does not
go on after `src/api/auth.py`. -/
def Spelled (repository : List Name) (text : List Char) : Prop :=
  Named text ∨
    if (parsePath (slashes text)).root ≠ [] then ¬Forbidden repository (denoted repository text)
    else if (parsePath (slashes text)).parts = [] ∨ up ∈ (parsePath (slashes text)).parts then
      (Begins (parsePath (slashes text)).parts ↔ Forbidden repository (denoted repository text))
    else ¬Extends (parsePath (slashes text)).parts

section Spelling
variable {text : List Char} {repository : List Name} {parts : List Name}

theorem named_forbidden (h : Named text) : Forbidden repository (denoted repository text) := by
  obtain ⟨name, hname, hlast⟩ := h
  obtain ⟨parts, hparts⟩ := List.getLast?_eq_some_iff.mp hlast
  have hdown : name ≠ up := by
    rintro rfl
    exact absurd hname (by decide)
  exact Or.inl ⟨name, hname, by rw [denoted, hparts, getLast?_resolve hdown]⟩

theorem GuardedParts.begins (h : GuardedParts parts) : Begins parts := by
  cases h with
  | version name rest => exact Begins.version name rest
  | auth => exact Begins.auth _ _ List.prefix_rfl

theorem GuardedParts.not_extends (h : GuardedParts parts) : ¬Extends parts := by
  rintro ⟨name, rest, hparts, -, hproper⟩
  cases h with
  | version => exact absurd (List.cons.inj hparts).1 (by decide)
  | auth =>
    obtain ⟨rfl, rfl⟩ := List.cons.inj (List.cons.inj (List.cons.inj hparts).2).2
    exact hproper ⟨rfl, rfl⟩

theorem begins_split (h : Begins parts) : GuardedParts parts ∨ Extends parts := by
  cases h with
  | version name rest => exact Or.inl (GuardedParts.version name rest)
  | auth name rest hname =>
    by_cases hexact : name = "auth.py".toList ∧ rest = []
    · obtain ⟨rfl, rfl⟩ := hexact
      exact Or.inl GuardedParts.auth
    · exact Or.inr ⟨name, rest, rfl, hname, hexact⟩

/-- A relative path that goes down denotes what its names say. -/
theorem forbidden_down (hroot : (parsePath (slashes text)).root = [])
    (hparts : (parsePath (slashes text)).parts ≠ []) (hdown : up ∉ (parsePath (slashes text)).parts) :
    Forbidden repository (denoted repository text) ↔
      Named text ∨ GuardedParts (parsePath (slashes text)).parts := by
  rw [denoted, if_pos hroot, resolve_of_notMem hdown, Forbidden, Named, List.getLast?_append_of_ne_nil _ hparts]
  refine or_congr_right ⟨?_, fun h => ⟨_, rfl, h⟩⟩
  rintro ⟨parts, hsame, h⟩
  rwa [List.append_cancel_left hsame]

/-- The hook ends a call for a forbidden file, and no other one, exactly when its path is spelled so. -/
theorem decided_iff (preBash : Option Param → HookDecision) (otherEvents : Payload → ℕ × List Char)
    (repository : List Name) (call : EditCall) :
    (Stopped preBash otherEvents call ↔ Forbidden repository (denoted repository call.path)) ↔
      Spelled repository call.path := by
  rw [Stopped, blocked_iff call.edits call.named call.given, Spelled]
  by_cases hnamed : Named call.path
  · simp only [hnamed, true_or, named_forbidden]
  · simp only [hnamed, false_or]
    by_cases hroot : (parsePath (slashes call.path)).root = []
    · rw [if_neg (not_not.mpr hroot)]
      simp only [hroot, true_and]
      split_ifs with hup
      · rfl
      · obtain ⟨hparts, hdown⟩ := not_or.mp hup
        rw [forbidden_down hroot hparts hdown]
        simp only [hnamed, false_or]
        constructor
        · rintro h ⟨name, rest, heq, hname, hproper⟩
          have hguarded := h.mp (heq ▸ Begins.auth name rest hname)
          exact hguarded.not_extends ⟨name, rest, heq, hname, hproper⟩
        · exact fun h => ⟨fun hbegins => (begins_split hbegins).resolve_right h, GuardedParts.begins⟩
    · rw [if_pos hroot]
      simp only [hroot, false_and, false_iff]

/-- And calls whose paths are spelled so are decided alike when they name one file. -/
theorem stopped_iff (preBash : Option Param → HookDecision) (otherEvents : Payload → ℕ × List Char)
    (repository : List Name) :
    (∀ call : EditCall, (Stopped preBash otherEvents call ↔
      Forbidden repository (denoted repository call.path)) ↔ Spelled repository call.path) ∧
    ∀ a b : EditCall, denoted repository a.path = denoted repository b.path →
      Spelled repository a.path → Spelled repository b.path →
      (Stopped preBash otherEvents a ↔ Stopped preBash otherEvents b) := by
  have hright := decided_iff preBash otherEvents repository
  refine ⟨hright, fun a b hsame ha hb => ?_⟩
  rw [(hright a).mpr ha, (hright b).mpr hb, hsame]

theorem spelled_auth (h : parsePath (slashes text) = ⟨[], ["src".toList, "api".toList, "auth.py".toList]⟩) :
    Spelled repository text := by
  refine Or.inr ?_
  rw [h, if_neg (not_not.mpr rfl), if_neg (by decide)]
  exact GuardedParts.auth.not_extends

end Spelling

def pass : Option Param → HookDecision := fun _ => { blocked := false }

def editOf (text : List Char) (h : text ≠ []) : EditCall where
  tool := "Edit"
  params := [("file_path", .text text)]
  path := text
  edits := by decide
  named := by simp [pathParam, lookup, Option.filter, Param.truthy, h]
  given := h

/-- The credentials code by two of its names. -/
theorem stopped_iff_auth :
    Stopped pass (fun _ => (0, [])) (editOf "src/api/auth.py".toList (by decide)) ↔
      Stopped pass (fun _ => (0, [])) (editOf ".//src\\api/auth.py".toList (by decide)) :=
  (stopped_iff pass (fun _ => (0, [])) ["repo".toList]).2 _ _ (by decide +kernel)
    (spelled_auth (by decide +kernel)) (spelled_auth (by decide +kernel))

/-- By its absolute name it is open to edits. -/
theorem absolute_auth_open : ¬∀ (preBash : Option Param → HookDecision) (otherEvents : Payload → ℕ × List Char)
    (repository : List Name),
    (∀ call : EditCall,
      (Guarded repository (denoted repository call.path) → Stopped preBash otherEvents call) ∧
      (¬Forbidden repository (denoted repository call.path) → ¬Stopped preBash otherEvents call)) ∧
    ∀ a b : EditCall, denoted repository a.path = denoted repository b.path →
      (Stopped preBash otherEvents a ↔ Stopped preBash otherEvents b) := by
  intro h
  have hstopped := ((h pass (fun _ => (0, [])) ["repo".toList]).1
    (editOf "/repo/src/api/auth.py".toList (by decide))).1
    ⟨_, by decide +kernel, GuardedParts.auth⟩
  exact absurd hstopped (by unfold Stopped; decide +kernel)

end KisAutotrader.PathGuard
