import KisAutotrader.Decimal
import KisAutotrader.VerifierGate

/-!
# The files that a verification covers

The changes between two revisions, the lines in which git prints them, and the files that the runner takes
from these lines to hand them to the tools.
-/
namespace KisAutotrader.Verifier.Scope
open Text Decimal Gate

/-! ### The changes and their lines -/

abbrev Name := List Char

inductive Change where
  | added (name : Name)
  | modified (name : Name)
  | deleted (name : Name)
  | renamed (old new : Name)
  deriving DecidableEq

/-- The lines that a change adds and deletes are not counted in a binary file. -/
structure Entry where
  change : Change
  counts : Option (UInt64 × UInt64)
  deriving DecidableEq

/-- The name at the head revision. -/
def Change.head : Change → Option Name
  | .added name => some name
  | .modified name => some name
  | .deleted _ => none
  | .renamed _ new => some new

/-- No file is both deleted and there at the head revision. -/
structure Diff where
  entries : List Entry
  gone : ∀ {e name}, e ∈ entries → e.change = .deleted name → ∀ f ∈ entries, f.change.head ≠ some name

/-- How git shows names: as they are, or in quotes where they are unusual. -/
structure Git where
  plain : Name → Bool
  quoted : Name → List Char
  renamed : Name → Name → List Char

namespace Git

def shown (git : Git) (name : Name) : List Char := if git.plain name then name else git.quoted name

def text (git : Git) : Change → List Char
  | .added name => git.shown name
  | .modified name => git.shown name
  | .deleted name => git.shown name
  | .renamed old new => git.renamed old new

def countText : Option (UInt64 × UInt64) → List Char × List Char
  | some (added, deleted) => (digitsOf added.toNat, digitsOf deleted.toNat)
  | none => (['-'], ['-'])

def line (git : Git) (e : Entry) : List Char :=
  (countText e.counts).1 ++ '\t' :: ((countText e.counts).2 ++ '\t' :: git.text e.change)

/-- `git diff --numstat`. -/
def numstat (git : Git) (diff : Diff) : String :=
  String.ofList (diff.entries.flatMap fun e => git.line e ++ ['\n'])

end Git

def Unbroken (text : List Char) : Prop := ∀ c ∈ text, c ≠ '\t' ∧ isLineBreak c = false

/-- A name is shown as it is only without tabs and line breaks; else it is enclosed in quotes, and these are
escaped in it. A rename is shown with an arrow. -/
structure Git.Documented (git : Git) : Prop where
  plain : ∀ name, git.plain name → Unbroken name
  quoted : ∀ name, ¬git.plain name → Unbroken (git.quoted name) ∧ ∃ body, git.quoted name = '"' :: body ++ ['"']
  renamed : ∀ old new, Unbroken (git.renamed old new) ∧ " => ".toList <:+: git.renamed old new

/-! ### What is due, and what is listed -/

def python (name : Name) : Option Name := if ".py".toList <:+ name then some name else none

/-- The Python file that a change leaves at the head revision. -/
def due (e : Entry) : Option Name := e.change.head.bind python

/-- What is left of the end of a line. -/
def trimmed (text : List Char) : List Char := (text.reverse.dropWhile isSpace).reverse

/-- The Python file that the runner reads off a line. -/
def listed (git : Git) (e : Entry) : Option Name :=
  if e.counts.isSome then python (trimmed (git.text e.change)) else none

/-- The tools get exactly the changed Python files that are there at the head revision, under their names. -/
structure Scoped (diff : Diff) (o : Outcome) : Prop where
  ruff : (pyFiles (changed o)).Perm ((diff.entries.filterMap due).map String.ofList)
  mypy : (srcFiles (changed o)).Perm (((diff.entries.filterMap due).map String.ofList).filter (! isTest ·))
  pytest : (testFiles (changed o)).Perm (((diff.entries.filterMap due).map String.ofList).filter isTest)

/-- What is listed for a name that is shown by itself. -/
def listedName (git : Git) (counts : Option (UInt64 × UInt64)) (name : Name) : Option Name :=
  if counts.isSome then python (trimmed (git.shown name)) else none

/-- The name is due but binary, or in quotes; or it is listed only because its end is lost. -/
def MisreadName (git : Git) (counts : Option (UInt64 × UInt64)) (name : Name) : Prop :=
  (".py".toList <:+ name ∧ ¬(counts.isSome ∧ git.plain name)) ∨
    (counts.isSome ∧ git.plain name ∧ ¬".py".toList <:+ name ∧ ".py".toList <:+ trimmed name)

/-- The line of a change is misread: a deleted file is listed; a renamed one is due, or something is
listed for it; or the name that is added or modified is misread. -/
def Misread (git : Git) (e : Entry) : Prop :=
  match e.change with
  | .added name => MisreadName git e.counts name
  | .modified name => MisreadName git e.counts name
  | .deleted name => e.counts.isSome ∧ git.plain name ∧ ".py".toList <:+ trimmed name
  | .renamed old new => ".py".toList <:+ new ∨ (e.counts.isSome ∧ ".py".toList <:+ trimmed (git.renamed old new))

instance (git : Git) (counts : Option (UInt64 × UInt64)) (name : Name) : Decidable (MisreadName git counts name) :=
  inferInstanceAs (Decidable (_ ∨ _))

instance (git : Git) : DecidablePred (Misread git) := fun e => by
  unfold Misread
  cases e.change <;> exact inferInstance

/-- What is listed for the misread lines makes up for what is due for them. -/
def Balanced (git : Git) (diff : Diff) : Prop :=
  ((diff.entries.filter (Misread git)).filterMap (listed git)).Perm
    ((diff.entries.filter (Misread git)).filterMap due)

/-- No name ends in white space or has an arrow in it. -/
def Ordinary (diff : Diff) : Prop :=
  ∀ e ∈ diff.entries, ∀ name, e.change.head = some name ∨ e.change = .deleted name →
    trimmed name = name ∧ ¬" => ".toList <:+: name

/-! ### The end of a line -/

section Trimming
variable {text xs ys : List Char} {c : Char}

theorem trimmed_append : trimmed (xs ++ ys) = if trimmed ys = [] then trimmed xs else xs ++ trimmed ys := by
  simp only [trimmed, List.reverse_append, List.dropWhile_append, List.reverse_eq_nil_iff, List.isEmpty_iff]
  split_ifs
  · rfl
  · rw [List.reverse_append, List.reverse_reverse]

theorem trimmed_concat (hc : isSpace c = false) : trimmed (xs ++ [c]) = xs ++ [c] := by
  have hone : trimmed [c] = [c] := by simp [trimmed, hc]
  rw [trimmed_append, hone, if_neg (List.cons_ne_nil _ _)]

theorem trimmed_begins (text : List Char) : trimmed text <+: text := by
  have hsuffix := List.dropWhile_suffix (l := text.reverse) isSpace
  have hprefix := List.reverse_prefix.mpr hsuffix
  rwa [List.reverse_reverse] at hprefix

theorem trimmed_of_suffix (ending : List Char) (hc : isSpace c = false) (h : ending ++ [c] <:+ text) :
    trimmed text = text := by
  obtain ⟨before, rfl⟩ := h
  rw [← List.append_assoc, trimmed_concat hc]

theorem trimmed_of_python (h : ".py".toList <:+ text) : trimmed text = text :=
  trimmed_of_suffix ['.', 'p'] (c := 'y') (by decide) h

end Trimming

/-! ### Reading a line -/

section Lines
variable {git : Git} {e : Entry} {name text : List Char} {diff : Diff}

theorem python_eq_some {x : Name} : python name = some x ↔ ".py".toList <:+ name ∧ name = x := by
  unfold python
  split_ifs with h
  · simp only [Option.some.injEq, h, true_and]
  · simp only [h, false_and]

theorem stripChars_line {c : Char} {cs ds : List Char} {d : Char} (hc : isSpace c = false)
    (hd : isSpace d = false) : stripChars (c :: cs ++ '\t' :: (ds ++ [d] ++ '\t' :: text)) =
      if trimmed text = [] then c :: cs ++ '\t' :: (ds ++ [d])
      else c :: cs ++ '\t' :: (ds ++ [d] ++ '\t' :: trimmed text) := by
  have hfront : ∀ rest, stripChars (c :: rest) = trimmed (c :: rest) := by
    intro rest
    rw [stripChars, List.dropWhile_cons_of_neg (by simp [hc])]
    rfl
  have hsplit : c :: cs ++ '\t' :: (ds ++ [d] ++ '\t' :: text) =
      (c :: cs ++ '\t' :: (ds ++ [d]) ++ ['\t']) ++ text := by simp
  have htab : trimmed (c :: cs ++ '\t' :: (ds ++ [d]) ++ ['\t']) = c :: cs ++ '\t' :: (ds ++ [d]) := by
    have hback : c :: cs ++ '\t' :: (ds ++ [d]) = (c :: cs ++ '\t' :: ds) ++ [d] := by simp
    rw [trimmed_append, if_pos (by decide), hback, trimmed_concat hd]
  rw [List.cons_append, hfront, ← List.cons_append, hsplit, trimmed_append, htab]
  split_ifs
  · rfl
  · simp

/-- A count is a text without white space. -/
def Solid (text : List Char) : Prop := text ≠ [] ∧ ∀ c ∈ text, isSpace c = false

theorem solid_digitsOf (n : ℕ) : Solid (digitsOf n) := ⟨digitsOf_ne_nil n, fun _ hc => (plain_of_mem hc).1⟩

theorem solid_countText (counts : Option (UInt64 × UInt64)) :
    Solid (Git.countText counts).1 ∧ Solid (Git.countText counts).2 := by
  have hdash : Solid ['-'] := ⟨List.cons_ne_nil _ _, List.forall_mem_singleton.mpr (by decide)⟩
  cases counts with
  | none => exact ⟨hdash, hdash⟩
  | some counts => exact ⟨solid_digitsOf _, solid_digitsOf _⟩

theorem Solid.not_tab (h : Solid text) : '\t' ∉ text := fun htab => absurd (h.2 _ htab) (by decide)

theorem Solid.unbroken (h : Solid text) : ∀ c ∈ text, isLineBreak c = false := by
  have hspace : ∀ c, isLineBreak c = true → isSpace c = true := by
    intro c hbreak
    simp only [isLineBreak, isSpace, Bool.or_eq_true, Bool.and_eq_true, decide_eq_true_eq] at hbreak ⊢
    omega
  intro c hc
  by_contra hbreak
  rw [Bool.not_eq_false] at hbreak
  exact absurd (hspace c hbreak) (by rw [h.2 c hc]; decide)

theorem unbroken_text (h : git.Documented) (change : Change) : Unbroken (git.text change) := by
  have hshown : ∀ name, Unbroken (git.shown name) := by
    intro name
    unfold Git.shown
    split_ifs with hplain
    · exact h.plain name hplain
    · exact (h.quoted name hplain).1
  cases change with
  | renamed old new => exact (h.renamed old new).1
  | added name => exact hshown name
  | modified name => exact hshown name
  | deleted name => exact hshown name

theorem stripChars_gitLine (git : Git) (e : Entry) : stripChars (git.line e) =
    if trimmed (git.text e.change) = [] then
      (Git.countText e.counts).1 ++ '\t' :: (Git.countText e.counts).2
    else (Git.countText e.counts).1 ++ '\t' :: ((Git.countText e.counts).2 ++
      '\t' :: trimmed (git.text e.change)) := by
  obtain ⟨⟨hane, ha⟩, hdne, hd⟩ := solid_countText e.counts
  obtain ⟨c, cs, hfirst⟩ := List.exists_cons_of_ne_nil hane
  obtain ⟨ds, d, hlast⟩ := (List.eq_nil_or_concat' (Git.countText e.counts).2).resolve_left hdne
  rw [hfirst] at ha
  rw [hlast] at hd
  rw [Git.line, hfirst, hlast]
  exact stripChars_line (ha c List.mem_cons_self) (hd d (List.mem_append_right _ List.mem_cons_self))

theorem parseInt_count {n : UInt64} : parseInt (digitsOf n.toNat) = some (n.toNat : ℤ) := by
  have hlength : (digitsOf n.toNat).length ≤ 20 :=
    (Nat.length_toDigits_le_iff (by decide) (by decide)).mpr (n.toNat_lt.trans (by decide))
  exact parseInt_digitsOf (hlength.trans (by decide))

/-- The path that is read off a line. -/
theorem changedFile_gitLine (h : git.Documented) : (changedFile (git.line e)).map ChangedFile.path =
    if e.counts.isSome ∧ trimmed (git.text e.change) ≠ [] then
      some (String.ofList (trimmed (git.text e.change))) else none := by
  obtain ⟨hadded, hdeleted⟩ := solid_countText e.counts
  have htext : '\t' ∉ trimmed (git.text e.change) := fun htab =>
    (unbroken_text h e.change _ ((trimmed_begins _).subset htab)).1 rfl
  rw [changedFile, stripChars_gitLine]
  by_cases hnil : trimmed (git.text e.change) = []
  · rw [if_pos hnil, if_neg fun hboth => hboth.2 hnil,
      List.splitOn_append_cons_self_of_not_mem hadded.not_tab, List.splitOn_eq_singleton hdeleted.not_tab]
    rfl
  · rw [if_neg hnil, List.splitOn_append_cons_self_of_not_mem hadded.not_tab,
      List.splitOn_append_cons_self_of_not_mem hdeleted.not_tab, List.splitOn_eq_singleton htext]
    cases hcounts : e.counts with
    | none => simp [Git.countText]
    | some counts =>
      have hdash : ∀ n : UInt64, digitsOf n.toNat ≠ ['-'] := by
        intro n heq
        have hnone : parseInt ['-'] = none := by decide
        have hread := parseInt_count (n := n)
        rw [heq, hnone] at hread
        exact absurd hread (Option.some_ne_none _).symm
      simp [Git.countText, hdash, parseInt_count, hnil]

theorem listed_gitLine (h : git.Documented) :
    ((changedFile (git.line e)).map ChangedFile.path).filter (fun p => ".py".toList <:+ p.toList) =
      (listed git e).map String.ofList := by
  rw [changedFile_gitLine h, listed, python]
  cases e.counts with
  | none => rfl
  | some counts =>
    by_cases hnil : trimmed (git.text e.change) = []
    · simp [hnil]
    · by_cases hpython : ".py".toList <:+ trimmed (git.text e.change) <;>
        simp only [Option.isSome_some, ne_eq, hnil, not_false_eq_true, and_self, if_true, Option.filter_some,
          String.toList_ofList, hpython, decide_true, decide_false, if_false, Option.map_some,
          Option.map_none, Bool.false_eq_true]

theorem gitLine_ne_nil (git : Git) (e : Entry) : stripChars (git.line e) ≠ [] := by
  rw [stripChars_gitLine]
  split_ifs <;> exact List.append_ne_nil_of_right_ne_nil _ (List.cons_ne_nil _ _)

theorem unbroken_gitLine (h : git.Documented) (e : Entry) : ∀ c ∈ git.line e, isLineBreak c = false := by
  obtain ⟨hadded, hdeleted⟩ := solid_countText e.counts
  intro c hc
  rw [Git.line, List.mem_append, List.mem_cons, List.mem_append, List.mem_cons] at hc
  rcases hc with hc | rfl | hc | rfl | hc
  · exact hadded.unbroken c hc
  · decide
  · exact hdeleted.unbroken c hc
  · decide
  · exact (unbroken_text h e.change c hc).2

/-- The runner takes from the output of git what its lines list. -/
theorem pyFiles_numstat (h : git.Documented) (diff : Diff) :
    pyFiles (parseNumstat (git.numstat diff)) = (diff.entries.filterMap (listed git)).map String.ofList := by
  have hlines : splitLines (git.numstat diff).toList = diff.entries.map git.line := by
    have hflat : (git.numstat diff).toList = (diff.entries.map git.line).flatMap fun l => l ++ ['\n'] := by
      rw [Git.numstat, String.toList_ofList, List.flatMap_map]
    rw [hflat, splitLines_flatMap]
    intro l hl
    obtain ⟨e, -, rfl⟩ := List.mem_map.mp hl
    exact unbroken_gitLine h e
  rw [pyFiles, parseNumstat, hlines]
  simp only
  induction diff.entries with
  | nil => rfl
  | cons e es ih =>
    have hread := listed_gitLine (e := e) h
    rw [List.map_cons, List.filter_cons_of_pos (by simpa using gitLine_ne_nil git e)]
    cases hfile : changedFile (git.line e) with
    | none =>
      have hlisted : listed git e = none := by
        rw [hfile] at hread
        exact Option.map_eq_none_iff.mp hread.symm
      rw [List.filterMap_cons_none hfile, List.filterMap_cons_none hlisted, ih]
    | some file =>
      rw [hfile, Option.map_some, Option.filter_some] at hread
      rw [List.filterMap_cons_some hfile, List.map_cons, List.filter_cons]
      split_ifs at hread ⊢ with hpython
      · obtain ⟨name, hname, hpath⟩ := Option.map_eq_some_iff.mp hread.symm
        rw [List.filterMap_cons_some hname, List.map_cons, hpath, ih]
      · rw [List.filterMap_cons_none (Option.map_eq_none_iff.mp hread.symm), ih]

end Lines

/-! ### Misread lines -/

section Misreadings
variable {git : Git} {e : Entry} {diff : Diff} {name : Name} {counts : Option (UInt64 × UInt64)}

theorem python_quoted (h : git.Documented) (hplain : ¬git.plain name) : python (trimmed (git.shown name)) = none := by
  obtain ⟨-, body, hquoted⟩ := h.quoted name hplain
  have hkept : trimmed (git.shown name) = '"' :: body ++ ['"'] := by
    rw [Git.shown, if_neg hplain, hquoted, trimmed_concat (by decide)]
  rw [hkept, python, if_neg]
  rintro ⟨before, hends⟩
  have hlast := congrArg List.getLast? hends
  have hy : ".py".toList.getLast? = some 'y' := by decide
  rw [List.getLast?_concat, List.getLast?_append, hy, Option.some_or] at hlast
  exact absurd hlast (by decide)

theorem shown_plain (hplain : git.plain name) : git.shown name = name := if_pos hplain

theorem listedName_eq (h : git.Documented) (hread : ¬MisreadName git counts name) :
    listedName git counts name = python name := by
  unfold listedName
  by_cases hshown : counts.isSome ∧ git.plain name
  · obtain ⟨hcounts, hplain⟩ := hshown
    rw [if_pos hcounts, shown_plain hplain]
    by_cases hpython : ".py".toList <:+ name
    · rw [trimmed_of_python hpython]
    · have htrimmed : ¬".py".toList <:+ trimmed name := fun htrimmed =>
        hread (Or.inr ⟨hcounts, hplain, hpython, htrimmed⟩)
      rw [python, python, if_neg hpython, if_neg htrimmed]
  · have hpython : ¬".py".toList <:+ name := fun hpython => hread (Or.inl ⟨hpython, hshown⟩)
    rw [python.eq_def name, if_neg hpython]
    split_ifs with hcounts
    · exact python_quoted h fun hplain => hshown ⟨hcounts, hplain⟩
    · rfl

/-- Nothing is listed for a name that is misread, unless its end is lost. -/
theorem listedName_misread (h : git.Documented) (hmisread : MisreadName git counts name)
    (htrimmed : trimmed name = name) : listedName git counts name = none := by
  rcases hmisread with ⟨-, hhidden⟩ | ⟨-, -, hpython, hends⟩
  · unfold listedName
    split_ifs with hcounts
    · exact python_quoted h fun hplain => hhidden ⟨hcounts, hplain⟩
    · rfl
  · exact absurd (htrimmed ▸ hends) hpython

theorem misreadName_some (h : MisreadName git counts name) :
    (∃ x, listedName git counts name = some x) ∨ ∃ x, python name = some x := by
  rcases h with ⟨hends, -⟩ | ⟨hcounts, hplain, -, hends⟩
  · exact Or.inr ⟨name, if_pos hends⟩
  · refine Or.inl ⟨trimmed name, ?_⟩
    rw [listedName, if_pos hcounts, shown_plain hplain, python, if_pos hends]

/-- A line that is not misread lists what is due. -/
theorem listed_eq_due (h : git.Documented) (hread : ¬Misread git e) : listed git e = due e := by
  obtain ⟨change, counts⟩ := e
  cases change with
  | added name => exact listedName_eq h hread
  | modified name => exact listedName_eq h hread
  | deleted name =>
    change listedName git counts name = none
    unfold listedName
    split_ifs with hcounts
    · by_cases hplain : git.plain name
      · rw [shown_plain hplain, python, if_neg fun hends => hread ⟨hcounts, hplain, hends⟩]
      · exact python_quoted h hplain
    · rfl
  | renamed old new =>
    obtain ⟨hnew, htext⟩ := not_or.mp hread
    simp only [listed, Git.text, due, Change.head, Option.bind_some]
    rw [python.eq_def new, if_neg hnew]
    split_ifs with hcounts
    · rw [python, if_neg fun hends => htext ⟨hcounts, hends⟩]
    · rfl

/-- The line of a change that is misread lists something, or something is due for it. -/
theorem misread_some (h : Misread git e) : (∃ x, listed git e = some x) ∨ ∃ x, due e = some x := by
  obtain ⟨change, counts⟩ := e
  cases change with
  | added name => exact misreadName_some h
  | modified name => exact misreadName_some h
  | deleted name =>
    obtain ⟨hcounts, hplain, hends⟩ := h
    refine Or.inl ⟨trimmed name, ?_⟩
    change listedName git counts name = _
    rw [listedName, if_pos hcounts, shown_plain hplain, python, if_pos hends]
  | renamed old new =>
    rcases h with hends | ⟨hcounts, hends⟩
    · exact Or.inr ⟨new, if_pos hends⟩
    · refine Or.inl ⟨trimmed (git.renamed old new), ?_⟩
      simp only [listed, Git.text]
      rw [if_pos hcounts, python, if_pos hends]

/-- The lines that are read rightly can be left out on both sides. -/
theorem perm_iff_balanced (h : git.Documented) (diff : Diff) :
    (diff.entries.filterMap (listed git)).Perm (diff.entries.filterMap due) ↔ Balanced git diff := by
  have hsplit : ∀ f : Entry → Option Name, (diff.entries.filterMap f).Perm
      ((diff.entries.filter (Misread git)).filterMap f ++
        (diff.entries.filter fun e => !decide (Misread git e)).filterMap f) := by
    intro f
    rw [← List.filterMap_append]
    exact ((List.filter_append_perm _ _).filterMap f).symm
  have hright : (diff.entries.filter fun e => !decide (Misread git e)).filterMap (listed git) =
      (diff.entries.filter fun e => !decide (Misread git e)).filterMap due := by
    refine List.filterMap_congr fun e he => ?_
    have hread := (List.mem_filter.mp he).2
    rw [Bool.not_eq_true', decide_eq_false_iff_not] at hread
    exact listed_eq_due h hread
  rw [(hsplit (listed git)).congr_left, (hsplit due).congr_right, hright, List.perm_append_right_iff]
  rfl

/-- An arrow is not lost with the end of a line that is listed. -/
theorem arrow_trimmed {text : List Char} (harrow : " => ".toList <:+: text) (hends : ".py".toList <:+ trimmed text) :
    " => ".toList <:+: trimmed text := by
  obtain ⟨before, behind, rfl⟩ := harrow
  rw [trimmed_append] at hends ⊢
  split_ifs at hends ⊢ with hblank
  · have harrowEnd : trimmed (before ++ " => ".toList) = before ++ [' ', '='] ++ ['>'] := by
      have hsplit : before ++ " => ".toList = before ++ [' ', '='] ++ ['>'] ++ [' '] := by simp
      rw [hsplit, trimmed_append, if_pos (by decide), trimmed_concat (by decide)]
    rw [harrowEnd] at hends
    obtain ⟨front, hfront⟩ := hends
    have hlast := congrArg List.getLast? hfront
    have hy : ".py".toList.getLast? = some 'y' := by decide
    rw [List.getLast?_concat, List.getLast?_append, hy, Option.some_or] at hlast
    exact absurd hlast (by decide)
  · exact ⟨before, trimmed behind, rfl⟩

/-- What an ordinary misread line lists is due for no change. -/
theorem misread_not_due (h : git.Documented) (hordinary : Ordinary diff) (he : e ∈ diff.entries)
    (hmisread : Misread git e) {x : Name} (hlisted : listed git e = some x) :
    x ∉ diff.entries.filterMap due := by
  intro hx
  obtain ⟨f, hf, hdue⟩ := List.mem_filterMap.mp hx
  obtain ⟨y, hhead, hpython⟩ := Option.bind_eq_some_iff.mp hdue
  obtain ⟨-, rfl⟩ := python_eq_some.mp hpython
  obtain ⟨change, counts⟩ := e
  cases change with
  | added name =>
    have hnone := listedName_misread h hmisread (hordinary _ he name (Or.inl rfl)).1
    exact absurd (hlisted.symm.trans hnone) (Option.some_ne_none _)
  | modified name =>
    have hnone := listedName_misread h hmisread (hordinary _ he name (Or.inl rfl)).1
    exact absurd (hlisted.symm.trans hnone) (Option.some_ne_none _)
  | deleted name =>
    obtain ⟨hcounts, hplain, -⟩ := hmisread
    have htrimmed := (hordinary _ he name (Or.inr rfl)).1
    simp only [listed, Git.text, if_pos hcounts, shown_plain hplain, htrimmed] at hlisted
    obtain ⟨-, rfl⟩ := python_eq_some.mp hlisted
    exact diff.gone he rfl f hf hhead
  | renamed old new =>
    simp only [listed, Git.text] at hlisted
    split_ifs at hlisted
    obtain ⟨hends, rfl⟩ := python_eq_some.mp hlisted
    exact (hordinary f hf _ (Or.inl hhead)).2 (arrow_trimmed (h.renamed old new).2 hends)

/-- In an ordinary diff nothing makes up for a misread line. -/
theorem balanced_iff (h : git.Documented) (hordinary : Ordinary diff) :
    Balanced git diff ↔ ∀ e ∈ diff.entries, ¬Misread git e := by
  constructor
  · intro hbalanced e he hmisread
    have hnone : ∀ f ∈ diff.entries, Misread git f → ∀ x, listed git f ≠ some x := by
      intro f hf hmisread x hlisted
      have hmem : x ∈ (diff.entries.filter (Misread git)).filterMap (listed git) :=
        List.mem_filterMap.mpr ⟨f, List.mem_filter.mpr ⟨hf, decide_eq_true hmisread⟩, hlisted⟩
      obtain ⟨g, hg, hdue⟩ := List.mem_filterMap.mp (hbalanced.mem_iff.mp hmem)
      exact misread_not_due h hordinary hf hmisread hlisted
        (List.mem_filterMap.mpr ⟨g, (List.mem_filter.mp hg).1, hdue⟩)
    rcases misread_some hmisread with ⟨x, hlisted⟩ | ⟨x, hdue⟩
    · exact hnone e he hmisread x hlisted
    · have hmem : x ∈ (diff.entries.filter (Misread git)).filterMap due :=
        List.mem_filterMap.mpr ⟨e, List.mem_filter.mpr ⟨he, decide_eq_true hmisread⟩, hdue⟩
      obtain ⟨f, hf, hlisted⟩ := List.mem_filterMap.mp (hbalanced.mem_iff.mpr hmem)
      obtain ⟨hf, hmisreadf⟩ := List.mem_filter.mp hf
      exact hnone f hf (of_decide_eq_true hmisreadf) x hlisted
  · intro hread
    have hnil : diff.entries.filter (Misread git) = [] :=
      List.filter_eq_nil_iff.mpr fun e he hmisread => hread e he (of_decide_eq_true hmisread)
    rw [Balanced, hnil]
    exact List.Perm.nil

/-- The tools get the right files exactly when the misread lines make up for each other; where no name is out
of the ordinary, exactly when no line is misread. -/
theorem scoped_iff {cp : Completed} {o : Outcome} (h : git.Documented) (ho : o.git = .ok cp)
    (hcp : cp.stdout = git.numstat diff) :
    (Scoped diff o ↔ Balanced git diff) ∧
      (Ordinary diff → (Scoped diff o ↔ ∀ e ∈ diff.entries, ¬Misread git e)) := by
  have hchanged : pyFiles (changed o) = (diff.entries.filterMap (listed git)).map String.ofList := by
    rw [changed, ho, ← pyFiles_numstat h diff, ← hcp]
  have hscoped : Scoped diff o ↔ Balanced git diff := by
    rw [← perm_iff_balanced h]
    constructor
    · intro hscoped
      have hperm := hscoped.ruff
      rw [hchanged] at hperm
      exact (List.map_perm_map_iff fun _ _ heq => String.ofList_injective heq).mp hperm
    · intro hperm
      have hruff : (pyFiles (changed o)).Perm ((diff.entries.filterMap due).map String.ofList) := by
        rw [hchanged]
        exact hperm.map _
      exact ⟨hruff, hruff.filter _, hruff.filter _⟩
  exact ⟨hscoped, fun hordinary => hscoped.trans (balanced_iff h hordinary)⟩

end Misreadings

/-! ### The default notation -/

def plainChar (c : Char) : Bool := 0x20 ≤ c.toNat && c.toNat ≤ 0x7e && c ≠ '"' && c ≠ '\\'

def octal (byte : UInt8) : List Char :=
  ['\\', (byte.toNat / 64).digitChar, (byte.toNat / 8 % 8).digitChar, (byte.toNat % 8).digitChar]

/-- The escapes with a letter, from the bell to the carriage return. -/
def letters : List Char := ['a', 'b', 't', 'n', 'v', 'f', 'r']

def letterOf (c : Char) : Option Char := if 7 ≤ c.toNat then letters[c.toNat - 7]? else none

def escape (c : Char) : List Char :=
  if plainChar c then [c]
  else if c = '"' ∨ c = '\\' then ['\\', c]
  else match letterOf c with
    | some letter => ['\\', letter]
    | none => (String.utf8EncodeChar c).flatMap octal

def enquote (name : Name) : List Char := '"' :: name.flatMap escape ++ ['"']

def enquoteUnusual (name : Name) : List Char := if name.all plainChar then name else enquote name

def commonPrefix : List Char → List Char → List Char
  | a::as, b::bs => if a = b then a :: commonPrefix as bs else []
  | _, _ => []

/-- The directories in which two names begin. -/
def commonFront (old new : Name) : List Char := ((commonPrefix old new).reverse.dropWhile (· ≠ '/')).reverse

/-- The directories and the file in which they end; the slash before them may be the last one in front. -/
def commonBack (old new : Name) : List Char :=
  let front := (commonFront old new).length - 1
  (commonPrefix (old.drop front).reverse (new.drop front).reverse).reverse.dropWhile (· ≠ '/')

/-- What is between them in one of the names. -/
def middle (old new name : Name) : List Char :=
  (name.drop (commonFront old new).length).take
    (name.length - (commonFront old new).length - (commonBack old new).length)

/-- The parts that differ, in braces. -/
def braced (old new : Name) : List Char :=
  if commonFront old new = [] ∧ commonBack old new = [] then old ++ " => ".toList ++ new
  else commonFront old new ++ '\x7b' :: (middle old new old ++ " => ".toList ++ middle old new new) ++
    '\x7d' :: commonBack old new

/-- Names outside printable ASCII, and those with quotes and backslashes, are unusual. -/
def defaultGit : Git where
  plain name := name.all plainChar
  quoted := enquote
  renamed old new :=
    if old.all plainChar ∧ new.all plainChar then braced old new
    else enquoteUnusual old ++ " => ".toList ++ enquoteUnusual new

example : defaultGit.renamed "arch/i386/Makefile".toList "arch/x86/Makefile".toList =
    "arch/\x7bi386 => x86\x7d/Makefile".toList := by decide +kernel

section Notation
variable {old new name text : List Char} {c : Char}

theorem unbroken_append : Unbroken (name ++ text) ↔ Unbroken name ∧ Unbroken text := List.forall_mem_append

theorem unbroken_cons : Unbroken (c :: text) ↔ (c ≠ '\t' ∧ isLineBreak c = false) ∧ Unbroken text :=
  List.forall_mem_cons

theorem Unbroken.subset (h : Unbroken text) (hsub : name ⊆ text) : Unbroken name := fun c hc => h c (hsub hc)

theorem unbroken_of_plain (h : name.all plainChar) : Unbroken name := by
  intro c hc
  have hplain := List.all_eq_true.mp h c hc
  simp only [plainChar, Bool.and_eq_true, decide_eq_true_eq] at hplain
  constructor
  · rintro rfl
    exact absurd hplain.1.1.1 (by decide)
  · simp only [isLineBreak, Bool.or_eq_false_iff, Bool.and_eq_false_iff, decide_eq_false_iff_not]
    omega

theorem unbroken_octal (byte : UInt8) : Unbroken (octal byte) := by
  have hdigit : ∀ d < 8, d.digitChar ≠ '\t' ∧ isLineBreak d.digitChar = false := by decide
  have hbyte := byte.toNat_lt
  have hbackslash : '\\' ≠ '\t' ∧ isLineBreak '\\' = false := by decide
  simp only [octal, unbroken_cons]
  exact ⟨hbackslash, hdigit _ (by omega), hdigit _ (Nat.mod_lt _ (by decide)), hdigit _ (Nat.mod_lt _ (by decide)),
    fun _ hc => absurd hc List.not_mem_nil⟩

theorem unbroken_escape (c : Char) : Unbroken (escape c) := by
  have hnil : Unbroken [] := fun _ hc => absurd hc List.not_mem_nil
  have hbackslash : '\\' ≠ '\t' ∧ isLineBreak '\\' = false := by decide
  have hletters : ∀ letter ∈ letters, letter ≠ '\t' ∧ isLineBreak letter = false := by
    intro letter hletter
    fin_cases hletter <;> decide
  have hbytes : Unbroken ((String.utf8EncodeChar c).flatMap octal) := by
    intro d hd
    obtain ⟨byte, -, hd⟩ := List.mem_flatMap.mp hd
    exact unbroken_octal byte d hd
  unfold escape
  split_ifs with hplain hmarks
  · exact unbroken_of_plain (by simpa using hplain)
  · rw [unbroken_cons, unbroken_cons]
    rcases hmarks with rfl | rfl
    · exact ⟨hbackslash, by decide, hnil⟩
    · exact ⟨hbackslash, hbackslash, hnil⟩
  · cases hletter : letterOf c with
    | none => exact hbytes
    | some letter =>
      have hmem : letter ∈ letters := by
        rw [letterOf] at hletter
        split_ifs at hletter
        exact List.mem_of_getElem? hletter
      simp only [unbroken_cons]
      exact ⟨hbackslash, hletters letter hmem, hnil⟩

theorem unbroken_enquote (name : Name) : Unbroken (enquote name) := by
  have hquote : '"' ≠ '\t' ∧ isLineBreak '"' = false := by decide
  rw [enquote, unbroken_append, unbroken_cons, unbroken_cons]
  refine ⟨⟨hquote, fun d hd => ?_⟩, hquote, fun _ hc => absurd hc List.not_mem_nil⟩
  obtain ⟨c, -, hd⟩ := List.mem_flatMap.mp hd
  exact unbroken_escape c d hd

theorem unbroken_enquoteUnusual (name : Name) : Unbroken (enquoteUnusual name) := by
  unfold enquoteUnusual
  split_ifs with hplain
  · exact unbroken_of_plain hplain
  · exact unbroken_enquote name

theorem unbroken_arrow : Unbroken " => ".toList := by
  intro c hc
  fin_cases hc <;> decide

theorem commonPrefix_subset : commonPrefix old new ⊆ old := by
  fun_induction commonPrefix old new with
  | case1 a as bs ih => exact List.cons_subset_cons _ ih
  | case2 => exact List.nil_subset _
  | case3 => exact List.nil_subset _

theorem commonFront_subset : commonFront old new ⊆ old := by
  intro c hc
  rw [commonFront, List.mem_reverse] at hc
  exact commonPrefix_subset (List.mem_reverse.mp ((List.dropWhile_sublist _).subset hc))

theorem commonBack_subset : commonBack old new ⊆ old := by
  intro c hc
  have hkept := (List.dropWhile_sublist _).subset hc
  exact List.mem_of_mem_drop (List.mem_reverse.mp (commonPrefix_subset (List.mem_reverse.mp hkept)))

theorem middle_subset : middle old new name ⊆ name := fun _ hc =>
  List.mem_of_mem_drop (List.mem_of_mem_take hc)

theorem braced_documented (hold : Unbroken old) (hnew : Unbroken new) :
    Unbroken (braced old new) ∧ " => ".toList <:+: braced old new := by
  have hopen : '\x7b' ≠ '\t' ∧ isLineBreak '\x7b' = false := by decide
  have hclose : '\x7d' ≠ '\t' ∧ isLineBreak '\x7d' = false := by decide
  unfold braced
  split_ifs
  · exact ⟨unbroken_append.mpr ⟨unbroken_append.mpr ⟨hold, unbroken_arrow⟩, hnew⟩, old, new, rfl⟩
  · constructor
    · simp only [unbroken_append, unbroken_cons]
      exact ⟨⟨hold.subset commonFront_subset, hopen, ⟨hold.subset middle_subset, unbroken_arrow⟩,
        hnew.subset middle_subset⟩, hclose, hold.subset commonBack_subset⟩
    · refine ⟨commonFront old new ++ '\x7b' :: middle old new old,
        middle old new new ++ '\x7d' :: commonBack old new, ?_⟩
      simp only [List.append_assoc, List.cons_append]

theorem defaultGit_documented : defaultGit.Documented where
  plain _ hplain := unbroken_of_plain hplain
  quoted name _ := ⟨unbroken_enquote name, name.flatMap escape, rfl⟩
  renamed old new := by
    simp only [defaultGit]
    split_ifs with hboth
    · exact braced_documented (unbroken_of_plain hboth.1) (unbroken_of_plain hboth.2)
    · exact ⟨unbroken_append.mpr ⟨unbroken_append.mpr ⟨unbroken_enquoteUnusual old, unbroken_arrow⟩,
        unbroken_enquoteUnusual new⟩, enquoteUnusual old, enquoteUnusual new, rfl⟩

end Notation

def outcome (diff : Diff) : Outcome where
  git := .ok { stdout := defaultGit.numstat diff }
  ruff := .ok { stdout := "[]" }
  mypy := .ok { stdout := "Success: no issues found in 1 source file" }
  pytest := .ok { stdout := "" }

/-- A source file is added, a test is modified, and a document is renamed. -/
def threeChanges : Diff where
  entries := [⟨.renamed "docs/a.md".toList "docs/b.md".toList, some (0, 0)⟩,
    ⟨.added "src/a.py".toList, some (3, 0)⟩, ⟨.modified "tests/test_a.py".toList, some (2, 1)⟩]
  gone := by
    intro e name he hdeleted
    fin_cases he <;> cases hdeleted

theorem scoped_iff_threeChanges : (Scoped threeChanges (outcome threeChanges) ↔ Balanced defaultGit threeChanges) ∧
    (Ordinary threeChanges → (Scoped threeChanges (outcome threeChanges) ↔
      ∀ e ∈ threeChanges.entries, ¬Misread defaultGit e)) :=
  scoped_iff defaultGit_documented rfl rfl

/-- A source file is deleted. -/
def deletion : Diff where
  entries := [⟨.deleted "src/a.py".toList, some (0, 3)⟩]
  gone := by simp [Change.head]

/-- The deleted file is handed to ruff and mypy. -/
theorem deletion_listed : ¬∀ (git : Git) (diff : Diff) (cp : Completed) (o : Outcome), git.Documented →
    o.git = .ok cp → cp.stdout = git.numstat diff → Scoped diff o := by
  intro h
  have hruff := (h defaultGit deletion _ (outcome deletion) defaultGit_documented rfl rfl).ruff
  have hlisted : pyFiles (changed (outcome deletion)) =
      (deletion.entries.filterMap (listed defaultGit)).map String.ofList :=
    pyFiles_numstat defaultGit_documented deletion
  have hone : deletion.entries.filterMap (listed defaultGit) = ["src/a.py".toList] := by decide +kernel
  have hnone : deletion.entries.filterMap due = [] := by decide +kernel
  rw [hlisted, hone, hnone] at hruff
  exact absurd hruff.length_eq (by decide)

end KisAutotrader.Verifier.Scope
