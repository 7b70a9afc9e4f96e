import KisAutotrader.Decimal
import KisAutotrader.Proposals
import KisAutotrader.QuotedField

/-!
# The project's version

Each recorded change raises the version in two files, one write after the other. The versions
only go up, no two code changes have the same one, and nothing else in the files changes.
-/
namespace KisAutotrader.Versioning
open Decimal Proposals QuotedField Scanning Text

inductive BumpType where
  | major
  | minor
  | patch
  | none
  deriving DecidableEq

structure Semver where
  major : ℕ
  minor : ℕ
  patch : ℕ
  deriving DecidableEq

structure BumpResult where
  previous : List Char
  new : List Char
  bumpType : BumpType
  deriving DecidableEq

def categoryToBump : ImplementationCategory → BumpType
  | .bugFix | .paramTuning | .refactor | .performance | .config => .patch
  | .feature | .enhancement => .minor
  | .docs => .none

/-- `lstrip("v")` after `strip`, then the pattern; no match is a `ValueError`. -/
def parseSemver (version : List Char) : Option Semver := do
  let (major, rest) ← digits (((stripChars version).dropWhile (· = 'v')).dropWhile isSpace)
  let (minor, rest) ← digits (← literal ['.'] rest)
  let (patch, rest) ← digits (← literal ['.'] rest)
  if rest.all isSpace then
    return ⟨← parseNat major, ← parseNat minor, ← parseNat patch⟩
  else none

/-- `str` of a part; too many digits are a `ValueError`. -/
def str (n : ℕ) : Option (List Char) :=
  if maxDigits < (digitsOf n).length then none else some (digitsOf n)

def format (v : Semver) : Option (List Char) := do
  return (← str v.major) ++ '.' :: ((← str v.minor) ++ '.' :: (← str v.patch))

def bumpVersion (current : List Char) (bumpType : BumpType) : Option (List Char) := do
  let v ← parseSemver current
  match bumpType with
  | .major => format ⟨v.major + 1, 0, 0⟩
  | .minor => format ⟨v.major, v.minor + 1, 0⟩
  | .patch => format ⟨v.major, v.minor, v.patch + 1⟩
  | .none => some current

/-- The texts of `src/__version__.py` and of `pyproject.toml`. -/
structure Files where
  version : List Char
  pyproject : List Char
  deriving DecidableEq

def versionWords : List (List Char) := ["__version__".toList, [':'], "str".toList, ['=']]

def pyprojectWords : List (List Char) := ["version".toList, ['=']]

def anywhere (_ : Option Char) : Bool := true

/-- `^` with `re.MULTILINE`. -/
def lineStart (prev : Option Char) : Bool := prev = Option.none ∨ prev = some '\n'

def readCurrentVersion (f : Files) : Option (List Char) :=
  (find anywhere versionWords Option.none f.version).map fun m => m.2.1

/-- The files after the first and after the second write. -/
def writeVersionFiles (new : List Char) (f : Files) : Option (Files × Files) :=
  (parseSemver new).map fun _ =>
    ({ f with version := replace anywhere versionWords new f.version },
      ⟨replace anywhere versionWords new f.version, replace lineStart pyprojectWords new f.pyproject⟩)

def applyBump (category : ImplementationCategory) (f : Files) : Option ((Files × Files) × BumpResult) :=
  (readCurrentVersion f).bind fun previous =>
    if categoryToBump category = .none then some ((f, f), ⟨previous, previous, .none⟩)
    else
      (bumpVersion previous (categoryToBump category)).bind fun new =>
        (writeVersionFiles new f).map fun w => (w, ⟨previous, new, categoryToBump category⟩)

/-- A change is recorded with a bump, without one, or the process dies between the two writes. -/
inductive Event where
  | record (category : ImplementationCategory)
  | noBump
  | killed (category : ImplementationCategory)

/-- The files after an event and the version it records. -/
def step (f : Files) : Event → Files × Option BumpResult
  | .record category =>
    match applyBump category f with
    | some (w, r) => (w.2, some r)
    | Option.none => (f, Option.none)
  | .noBump => (f, (readCurrentVersion f).map fun v => ⟨v, v, .none⟩)
  | .killed category =>
    match applyBump category f with
    | some (w, _) => (w.1, Option.none)
    | Option.none => (f, Option.none)

def run (f : Files) : List Event → Files × List BumpResult
  | [] => (f, [])
  | e::es => ((run (step f e).1 es).1, (step f e).2.toList ++ (run (step f e).1 es).2)

/-! ### Versions -/

/-- The order of versions. -/
def Semver.Before (v w : Semver) : Prop :=
  v.major < w.major ∨ v.major = w.major ∧
    (v.minor < w.minor ∨ v.minor = w.minor ∧ v.patch < w.patch)

theorem Semver.Before.trans {u v w : Semver} (h : u.Before v) (h' : v.Before w) : u.Before w := by
  unfold Semver.Before at *
  omega

theorem digits_append {n : ℕ} {rest : List Char} (hrest : ∀ c ∈ rest.head?, isDecimal c = false) :
    digits (digitsOf n ++ rest) = some (digitsOf n, rest) := by
  obtain ⟨htake, hdrop⟩ := scan_iff.mpr ⟨rfl, fun c hc => isDecimal_of_mem (n := n) hc, hrest⟩
  rw [digits, htake, hdrop]
  cases hn : digitsOf n with
  | nil => exact absurd hn (digitsOf_ne_nil n)
  | cons c cs => rfl

/-- A part that is written reads back, and holds digits only. -/
theorem str_spec {n : ℕ} {cs : List Char} (h : str n = some cs) :
    cs ≠ [] ∧ (∀ c ∈ cs, isSpace c = false ∧ isDecimal c = true) ∧ parseNat cs = some n ∧
      ∀ rest : List Char, (∀ c ∈ rest.head?, isDecimal c = false) → digits (cs ++ rest) = some (cs, rest) := by
  unfold str at h
  split_ifs at h with hlong
  obtain rfl := Option.some.inj h
  refine ⟨digitsOf_ne_nil n, fun c hc => ⟨(plain_of_mem hc).1, isDecimal_of_mem hc⟩,
    parseNat_digitsOf (not_lt.mp hlong), fun rest hrest => digits_append hrest⟩

theorem parseSemver_format {v : Semver} {cs : List Char} (h : format v = some cs) :
    parseSemver cs = some v ∧ cs ≠ [] ∧ '"' ∉ cs := by
  simp only [format, Option.bind_eq_bind, Option.bind_eq_some_iff, Option.pure_def, Option.some.injEq] at h
  obtain ⟨major, hmajor, minor, hminor, patch, hpatch, rfl⟩ := h
  obtain ⟨hne, hplain, hreadMajor, hscanMajor⟩ := str_spec hmajor
  obtain ⟨-, hplain', hreadMinor, hscanMinor⟩ := str_spec hminor
  obtain ⟨-, hplain'', hreadPatch, hscanPatch⟩ := str_spec hpatch
  have hchars : ∀ c ∈ major ++ '.' :: (minor ++ '.' :: patch),
      isSpace c = false ∧ (isDecimal c = true ∨ c = '.') := by
    intro c hc
    simp only [List.mem_append, List.mem_cons] at hc
    rcases hc with hc | rfl | hc | rfl | hc
    · exact ⟨(hplain c hc).1, .inl (hplain c hc).2⟩
    · exact ⟨rfl, .inr rfl⟩
    · exact ⟨(hplain' c hc).1, .inl (hplain' c hc).2⟩
    · exact ⟨rfl, .inr rfl⟩
    · exact ⟨(hplain'' c hc).1, .inl (hplain'' c hc).2⟩
  refine ⟨?_, by simp, fun hquote => ?_⟩
  · obtain ⟨d, ds, rfl⟩ := List.exists_cons_of_ne_nil hne
    have hd := hplain d List.mem_cons_self
    have hv : ¬d = 'v' := by
      rintro rfl
      exact absurd hd.2 (by decide)
    have hpoint : ∀ rest : List Char, literal ['.'] ('.' :: rest) = some rest := fun rest => by simp [literal]
    have hstop : ∀ rest : List Char, ∀ c ∈ ('.' :: rest).head?, isDecimal c = false := by
      intro rest c hc
      obtain rfl : '.' = c := by simpa using hc
      decide
    have hend := hscanPatch [] (by simp)
    rw [List.append_nil] at hend
    have htrim : stripChars (d :: ds ++ '.' :: (minor ++ '.' :: patch)) = d :: ds ++ '.' :: (minor ++ '.' :: patch) :=
      stripChars_eq fun c hc => (hchars c hc).1
    unfold parseSemver
    rw [htrim]
    have hfirst : ((d :: ds ++ '.' :: (minor ++ '.' :: patch)).dropWhile (· = 'v')).dropWhile isSpace =
        d :: ds ++ '.' :: (minor ++ '.' :: patch) := by
      simp [hv, hd.1]
    rw [hfirst, hscanMajor _ (hstop _), Option.bind_eq_bind, Option.bind_some]
    simp only [hpoint, hscanMinor _ (hstop _), hend, hreadMajor, hreadMinor, hreadPatch, Option.bind_some,
      Option.bind_eq_bind, Option.pure_def, List.all_nil, if_true]
  · obtain ⟨-, hdigit | hpoint⟩ := hchars '"' hquote
    · exact absurd hdigit (by decide)
    · exact absurd hpoint (by decide)

/-- A bump of a version gives a later one. -/
theorem bumpVersion_spec {current new : List Char} {b : BumpType} (hb : b ≠ .none)
    (h : bumpVersion current b = some new) :
    ∃ v w, parseSemver current = some v ∧ parseSemver new = some w ∧ v.Before w ∧ new ≠ [] ∧ '"' ∉ new := by
  simp only [bumpVersion, Option.bind_eq_bind, Option.bind_eq_some_iff] at h
  obtain ⟨v, hv, h⟩ := h
  have hlater : ∀ w, format w = some new → v.Before w →
      ∃ v w, parseSemver current = some v ∧ parseSemver new = some w ∧ v.Before w ∧ new ≠ [] ∧ '"' ∉ new := by
    intro w hw hbefore
    obtain ⟨hread, hne, hquote⟩ := parseSemver_format hw
    exact ⟨v, w, hv, hread, hbefore, hne, hquote⟩
  cases b with
  | major => exact hlater _ h (.inl (Nat.lt_succ_self _))
  | minor => exact hlater _ h (.inr ⟨rfl, .inl (Nat.lt_succ_self _)⟩)
  | patch => exact hlater _ h (.inr ⟨rfl, .inr ⟨rfl, Nat.lt_succ_self _⟩⟩)
  | none => exact absurd rfl hb

/-! ### The files -/

/-- What stands around the version in each of the two files. -/
structure Frame where
  front : List Char
  post : List Char
  front' : List Char
  post' : List Char

/-- The files hold the two versions in the frame. -/
def Stands (fr : Frame) (f : Files) (v v' : Semver) : Prop :=
  ∃ w w', find anywhere versionWords Option.none f.version = some (fr.front, w, fr.post) ∧
    find lineStart pyprojectWords Option.none f.pyproject = some (fr.front', w', fr.post') ∧
    parseSemver w = some v ∧ parseSemver w' = some v'

theorem solid_versionWords : Solid versionWords := by
  simp [Solid, versionWords, isSpace]

theorem solid_pyprojectWords : Solid pyprojectWords := by
  simp [Solid, pyprojectWords, isSpace]

theorem replace_found {anchor : Option Char → Bool} {ws : List (List Char)} {text front v post new : List Char}
    (hsolid : Solid ws) (hplain : ∀ w ∈ ws, '"' ∉ w)
    (h : find anchor ws Option.none text = some (front, v, post)) (hnew : new ≠ []) (hquote : '"' ∉ new) :
    find anchor ws Option.none (replace anchor ws new text) = some (front, new, post) := by
  have htext : replace anchor ws new text = front ++ (new ++ '"' :: post) := by
    rw [replace, h]
    exact List.append_assoc _ _ _
  rw [htext]
  exact find_replaced hsolid hplain h hnew hquote

/-- What a code change does to the files: both writes raise the version that is read. -/
theorem applyBump_spec {fr : Frame} {f : Files} {v v' : Semver} (h : Stands fr f v v')
    {category : ImplementationCategory} {w : Files × Files} {r : BumpResult}
    (hbump : applyBump category f = some (w, r)) :
    (w = (f, f) ∧ r.bumpType = .none ∧ parseSemver r.new = some v) ∨
      ∃ n, v.Before n ∧ Stands fr w.1 n v' ∧ Stands fr w.2 n n ∧ r.bumpType ≠ .none ∧
        parseSemver r.new = some n := by
  obtain ⟨x, x', hx, hx', hv, hv'⟩ := h
  have hcurrent : readCurrentVersion f = some x := by rw [readCurrentVersion, hx]; rfl
  rw [applyBump, hcurrent, Option.bind_some] at hbump
  split_ifs at hbump with hnone
  · simp only [Option.some.injEq, Prod.mk.injEq] at hbump
    obtain ⟨rfl, rfl⟩ := hbump
    exact .inl ⟨rfl, rfl, hv⟩
  · obtain ⟨new, hnew, hbump⟩ := Option.bind_eq_some_iff.mp hbump
    obtain ⟨files, hwrite, hbump⟩ := Option.map_eq_some_iff.mp hbump
    simp only [Prod.mk.injEq] at hbump
    obtain ⟨rfl, rfl⟩ := hbump
    obtain ⟨u, n, hu, hn, hbefore, hne, hquote⟩ := bumpVersion_spec hnone hnew
    obtain rfl : v = u := Option.some.inj (hv.symm.trans hu)
    rw [writeVersionFiles, hn, Option.map_some, Option.some.injEq] at hwrite
    subst hwrite
    have hversion := replace_found solid_versionWords (by decide) hx hne hquote
    have hpyproject := replace_found solid_pyprojectWords (by decide) hx' hne hquote
    exact .inr ⟨n, hbefore, ⟨new, x', hversion, hx', hn, hv'⟩, ⟨new, new, hversion, hpyproject, hn, hn⟩,
      hnone, hn⟩

theorem Stands.text {fr : Frame} {f : Files} {v v' : Semver} (h : Stands fr f v v') :
    ∃ w w', f = ⟨fr.front ++ (w ++ '"' :: fr.post), fr.front' ++ (w' ++ '"' :: fr.post')⟩ := by
  obtain ⟨w, w', hw, hw', -, -⟩ := h
  obtain ⟨-, -, -, -, htext, -, -⟩ := find_spec solid_versionWords hw
  obtain ⟨-, -, -, -, htext', -, -⟩ := find_spec solid_pyprojectWords hw'
  refine ⟨w, w', ?_⟩
  rw [← htext, ← htext']

/-- What an event does: it changes nothing, or raises the version in the first file or in both. -/
theorem step_cases {fr : Frame} {f : Files} {v v' : Semver} (h : Stands fr f v v') (e : Event) :
    ((step f e).1 = f ∧ ∀ r ∈ (step f e).2, r.bumpType = .none ∧ parseSemver r.new = some v) ∨
      ∃ n, v.Before n ∧
        ((Stands fr (step f e).1 n v' ∧ (step f e).2 = Option.none) ∨
          (Stands fr (step f e).1 n n ∧
            ∃ r, (step f e).2 = some r ∧ r.bumpType ≠ .none ∧ parseSemver r.new = some n)) := by
  cases e with
  | record category =>
    cases hbump : applyBump category f with
    | none => exact .inl (by simp [step, hbump])
    | some x =>
      obtain ⟨w, r⟩ := x
      obtain ⟨rfl, hnone, hread⟩ | ⟨n, hbefore, -, hboth, hcode, hread⟩ := applyBump_spec h hbump
      · exact .inl (by simp [step, hbump, hnone, hread])
      · refine .inr ⟨n, hbefore, .inr ?_⟩
        simp only [step, hbump]
        exact ⟨hboth, r, rfl, hcode, hread⟩
  | noBump =>
    obtain ⟨x, -, hx, -, hv, -⟩ := h
    exact .inl (by simp [step, readCurrentVersion, hx, hv])
  | killed category =>
    cases hbump : applyBump category f with
    | none => exact .inl (by simp [step, hbump])
    | some x =>
      obtain ⟨w, r⟩ := x
      obtain ⟨rfl, -, -⟩ | ⟨n, hbefore, hfirst, -, -, -⟩ := applyBump_spec h hbump
      · exact .inl (by simp [step, hbump])
      · refine .inr ⟨n, hbefore, .inl ?_⟩
        simp only [step, hbump]
        exact ⟨hfirst, trivial⟩

/-- A version up to another. -/
def Semver.UpTo (v w : Semver) : Prop := v = w ∨ v.Before w

theorem Semver.Before.upTo {u v w : Semver} (h : u.Before v) (h' : v.UpTo w) : u.Before w := by
  obtain rfl | h' := h'
  · exact h
  · exact h.trans h'

theorem Semver.UpTo.before {u v w : Semver} (h : u.UpTo v) (h' : v.Before w) : u.Before w := by
  obtain rfl | h := h
  · exact h'
  · exact h.trans h'

/-- The versions stand in the frame after any events, and those recorded lie between. -/
theorem run_stands {fr : Frame} {f : Files} {v v' : Semver} (h : Stands fr f v v') (hle : v'.UpTo v)
    (es : List Event) :
    ∃ u u', Stands fr (run f es).1 u u' ∧ u'.UpTo u ∧ v.UpTo u ∧
      ∀ r ∈ (run f es).2, ∃ x, parseSemver r.new = some x ∧ v.UpTo x ∧ x.UpTo u ∧
        (r.bumpType ≠ .none → v.Before x) := by
  induction es generalizing f v v' with
  | nil => exact ⟨v, v', h, hle, .inl rfl, by simp [run]⟩
  | cons e es ih =>
    obtain ⟨hsame, hlog⟩ | ⟨n, hbefore, ⟨hfirst, hlog⟩ | ⟨hboth, r, hlog, -, hread⟩⟩ := step_cases h e
    · rw [← hsame] at h
      obtain ⟨u, u', hend, hle', hup, hrest⟩ := ih h hle
      refine ⟨u, u', hend, hle', hup, fun r hr => ?_⟩
      obtain hr | hr := List.mem_append.mp hr
      · obtain ⟨hnone, hread⟩ := hlog r (Option.mem_toList.mp hr)
        exact ⟨v, hread, .inl rfl, hup, fun hcode => absurd hnone hcode⟩
      · exact hrest r hr
    · obtain ⟨u, u', hend, hle', hup, hrest⟩ := ih hfirst (.inr (hle.before hbefore))
      refine ⟨u, u', hend, hle', .inr (hbefore.upTo hup), fun r hr => ?_⟩
      rw [run, hlog] at hr
      obtain ⟨x, hread, hx, hxu, -⟩ := hrest r hr
      exact ⟨x, hread, .inr (hbefore.upTo hx), hxu, fun _ => hbefore.upTo hx⟩
    · obtain ⟨u, u', hend, hle', hup, hrest⟩ := ih hboth (.inl rfl)
      refine ⟨u, u', hend, hle', .inr (hbefore.upTo hup), fun q hq => ?_⟩
      rw [run, hlog] at hq
      obtain rfl | hq := List.mem_cons.mp hq
      · exact ⟨n, hread, .inr hbefore, hup, fun _ => hbefore⟩
      · obtain ⟨x, hread', hx, hxu, -⟩ := hrest q hq
        exact ⟨x, hread', .inr (hbefore.upTo hx), hxu, fun _ => hbefore.upTo hx⟩

/-- Two results of code changes, the later of the later version. -/
def Later (r r' : BumpResult) : Prop :=
  ∃ x y, parseSemver r.new = some x ∧ parseSemver r'.new = some y ∧ x.Before y

theorem run_later {fr : Frame} {f : Files} {v v' : Semver} (h : Stands fr f v v') (hle : v'.UpTo v)
    (es : List Event) : ((run f es).2.filter (·.bumpType ≠ .none)).Pairwise Later := by
  induction es generalizing f v v' with
  | nil => exact .nil
  | cons e es ih =>
    obtain ⟨hsame, hlog⟩ | ⟨n, hbefore, ⟨hfirst, hlog⟩ | ⟨hboth, r, hlog, hcode, hread⟩⟩ := step_cases h e
    · have hnone : (step f e).2.toList.filter (·.bumpType ≠ .none) = [] := by
        apply List.filter_eq_nil_iff.mpr
        intro r hr
        simp [(hlog r (Option.mem_toList.mp hr)).1]
      rw [run, List.filter_append, hnone, List.nil_append]
      rw [← hsame] at h
      exact ih h hle
    · rw [run, hlog]
      exact ih hfirst (.inr (hle.before hbefore))
    · rw [run, hlog, List.filter_append]
      obtain ⟨_, _, _, _, _, hrest⟩ := run_stands hboth (.inl rfl) es
      have hfirst : [r].filter (·.bumpType ≠ .none) = [r] := by simp [hcode]
      rw [Option.toList_some, hfirst]
      apply List.pairwise_cons.mpr
      refine ⟨fun q hq => ?_, ih hboth (.inl rfl)⟩
      obtain ⟨hmem, hq⟩ := List.mem_filter.mp hq
      obtain ⟨x, hx, -, -, hlater⟩ := hrest q hmem
      exact ⟨n, x, hread, hx, hlater (by simpa using hq)⟩

/-- Over any events, kills between the two writes among them, the versions only go up: the first
file is never behind the second, the code changes have ever later ones, and a code change that is
recorded leaves both files at its version, whatever an earlier kill has left. Around the versions
the files stay as they are. -/
theorem versions_advance {fr : Frame} {f : Files} {v v' : Semver} (h : Stands fr f v v')
    (hle : v'.UpTo v) (es : List Event) :
    ∃ u u', Stands fr (run f es).1 u u' ∧ u'.UpTo u ∧ v.UpTo u ∧
      (∀ r ∈ (run f es).2, ∃ x, parseSemver r.new = some x ∧ v.UpTo x ∧ x.UpTo u) ∧
      ((run f es).2.filter (·.bumpType ≠ .none)).Pairwise Later ∧
      ∀ category, ∀ r ∈ (step (run f es).1 (.record category)).2, r.bumpType ≠ .none →
        ∃ n, parseSemver r.new = some n ∧ u.Before n ∧
          Stands fr (step (run f es).1 (.record category)).1 n n := by
  obtain ⟨u, u', hend, hle', hup, hlog⟩ := run_stands h hle es
  refine ⟨u, u', hend, hle', hup, fun r hr => ?_, run_later h hle es, fun category r hr hcode => ?_⟩
  · obtain ⟨x, hread, hx, hxu, -⟩ := hlog r hr
    exact ⟨x, hread, hx, hxu⟩
  · obtain ⟨-, hnone⟩ | ⟨n, hbefore, ⟨-, hnone⟩ | ⟨hboth, q, hq, -, hread⟩⟩ := step_cases hend (.record category)
    · exact absurd (hnone r hr).1 hcode
    · rw [hnone] at hr
      cases hr
    · obtain rfl : q = r := Option.some.inj (hq.symm.trans hr)
      exact ⟨n, hread, hbefore, hboth⟩

def sampleFrame : Frame where
  front := "# version\n__version__: str = \"".toList
  post := "\n".toList
  front' := "[project]\nversion = \"".toList
  post' := "\npython-version = \"3.12\"\n".toList

def sampleFiles : Files where
  version := sampleFrame.front ++ ("0.24.9".toList ++ '"' :: sampleFrame.post)
  pyproject := sampleFrame.front' ++ ("0.24.9".toList ++ '"' :: sampleFrame.post')

theorem sample_stands : Stands sampleFrame sampleFiles ⟨0, 24, 9⟩ ⟨0, 24, 9⟩ :=
  ⟨"0.24.9".toList, "0.24.9".toList, by decide +kernel, by decide +kernel, by decide +kernel, by decide +kernel⟩

/-- After a kill the next change brings the second file up again. -/
theorem versions_advance_killed :
    ∃ u u', Stands sampleFrame (run sampleFiles [.record .bugFix, .killed .feature]).1 u u' ∧
      Semver.UpTo ⟨0, 24, 9⟩ u ∧
        ∃ n, u.Before n ∧
          Stands sampleFrame (step (run sampleFiles [.record .bugFix, .killed .feature]).1 (.record .config)).1 n n := by
  obtain ⟨u, u', hend, -, hup, -, -, hnext⟩ := versions_advance sample_stands (.inl rfl) [.record .bugFix, .killed .feature]
  have hrecord : (step (run sampleFiles [.record .bugFix, .killed .feature]).1 (.record .config)).2 =
      some ⟨"0.25.0".toList, "0.25.1".toList, .patch⟩ := by decide +kernel
  obtain ⟨n, -, hbefore, hboth⟩ := hnext .config _ hrecord (by decide)
  exact ⟨u, u', hend, hup, n, hbefore, hboth⟩

example : (run sampleFiles [.record .bugFix, .killed .feature, .record .docs]).1.pyproject =
    sampleFrame.front' ++ ("0.24.10".toList ++ '"' :: sampleFrame.post') := by decide +kernel

end KisAutotrader.Versioning
