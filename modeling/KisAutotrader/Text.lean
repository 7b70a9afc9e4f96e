import Mathlib.Data.Int.Basic
import Mathlib.Data.List.Infix
import Mathlib.Data.List.TakeWhile

/-!
# Text

The functions of Python's `str` that the program uses, over lists of characters.
-/
namespace KisAutotrader.Text

/-- What counts as true: a text that is there and not empty. -/
def given (x : Option String) : Option String := x.filter (· ≠ "")

/-- `str.isspace` of one character. -/
def isSpace (c : Char) : Bool :=
  let n := c.toNat
  (9 ≤ n && n ≤ 13) || (28 ≤ n && n ≤ 32) || n = 0x85 || n = 0xA0 || n = 0x1680 ||
    (0x2000 ≤ n && n ≤ 0x200A) || n = 0x2028 || n = 0x2029 || n = 0x202F || n = 0x205F || n = 0x3000

def stripChars (cs : List Char) : List Char :=
  ((cs.dropWhile isSpace).reverse.dropWhile isSpace).reverse

/-- `str.strip`. -/
def strip (s : String) : String := String.ofList (stripChars s.toList)

/-- `split("\n\n")`. -/
def splitBlank : List Char → List (List Char)
  | [] => [[]]
  | '\n' :: '\n' :: cs => []::splitBlank cs
  | c::cs =>
      match splitBlank cs with
      | [] => [[c]]
      | p::ps => (c::p)::ps

/-- `"\n\n".join`. -/
def joinBlank (parts : List String) : String := "\n\n".intercalate parts

/-- `part in text`. -/
def contains (part text : String) : Bool := decide (part.toList <:+: text.toList)

/-- A text that is more than white space. -/
def Visible (s : String) : Prop := ∃ c ∈ s.toList, isSpace c = false

instance (s : String) : Decidable (Visible s) :=
  decidable_of_iff ((s.toList.any fun c => !isSpace c) = true) (by simp [Visible])

theorem given_some {o : Option String} {s : String} : given o = some s ↔ o = some s ∧ s ≠ "" := by
  simp [given, Option.filter_eq_some_iff]

theorem mem_dropWhile {p : Char → Bool} {c : Char} (hc : p c = false) {cs : List Char}
    (hmem : c ∈ cs) : c ∈ cs.dropWhile p := by
  induction cs with
  | nil => exact hmem
  | cons d ds ih =>
    rw [List.dropWhile_cons]
    split_ifs with hd
    · rcases List.mem_cons.mp hmem with rfl | hrest
      · simp [hc] at hd
      · exact ih hrest
    · exact hmem

theorem mem_stripChars {c : Char} (hc : isSpace c = false) {cs : List Char} (hmem : c ∈ cs) :
    c ∈ stripChars cs := by
  apply List.mem_reverse.mpr
  apply mem_dropWhile hc
  exact List.mem_reverse.mpr (mem_dropWhile hc hmem)

theorem Visible.strip {s : String} (h : Visible s) : Visible (strip s) := by
  obtain ⟨c, hmem, hc⟩ := h
  exact ⟨c, by simpa [Text.strip] using mem_stripChars hc hmem, hc⟩

theorem visible_strip_of_ne {s : String} (h : strip s ≠ "") : Visible (strip s) := by
  apply Visible.strip
  by_contra hblank
  have hspace : ∀ c ∈ s.toList, isSpace c = true := by
    intro c hc
    by_contra hvisible
    exact hblank ⟨c, hc, by simpa using hvisible⟩
  apply h
  rw [strip, stripChars, List.dropWhile_eq_nil_iff.mpr hspace]
  rfl

theorem Visible.ne_empty {s : String} (h : Visible s) : s ≠ "" := by
  rintro rfl
  obtain ⟨c, hmem, -⟩ := h
  simp at hmem

theorem mem_splitBlank {c : Char} (hc : isSpace c = false) {cs : List Char} (hmem : c ∈ cs) :
    ∃ p ∈ splitBlank cs, c ∈ p := by
  fun_induction splitBlank cs with
  | case1 => simp at hmem
  | case2 cs ih =>
    have hnewline : c ≠ '\n' := by
      rintro rfl
      simp [isSpace] at hc
    obtain ⟨p, hp, hmem⟩ := ih (by simpa [hnewline] using hmem)
    exact ⟨p, List.mem_cons_of_mem _ hp, hmem⟩
  | case3 d cs hne hnil ih =>
    rcases List.mem_cons.mp hmem with rfl | hrest
    · exact ⟨[c], by simp, by simp⟩
    · obtain ⟨p, hp, -⟩ := ih hrest
      simp [hnil] at hp
  | case4 d cs hne p ps hcons ih =>
    rcases List.mem_cons.mp hmem with rfl | hrest
    · exact ⟨c::p, by simp, by simp⟩
    · obtain ⟨q, hq, hmem⟩ := ih hrest
      rcases List.mem_cons.mp (hcons ▸ hq) with rfl | hq
      · exact ⟨d::q, by simp, List.mem_cons_of_mem d hmem⟩
      · exact ⟨q, List.mem_cons_of_mem _ hq, hmem⟩

theorem mem_intercalate {α : Type} {x : α} {sep xs : List α} {xss : List (List α)}
    (hxs : xs ∈ xss) (hmem : x ∈ xs) : x ∈ sep.intercalate xss := by
  induction xss with
  | nil => simp at hxs
  | cons ys yss ih =>
    cases yss with
    | nil =>
      obtain rfl := List.mem_singleton.mp hxs
      simpa using hmem
    | cons zs zss =>
      rw [List.intercalate_cons_cons]
      rcases List.mem_cons.mp hxs with rfl | hrest
      · simp [hmem]
      · simp [ih hrest]

theorem Visible.join {s : String} (h : Visible s) {parts : List String} (hs : s ∈ parts) :
    Visible (joinBlank parts) := by
  obtain ⟨c, hmem, hc⟩ := h
  refine ⟨c, ?_, hc⟩
  rw [joinBlank, String.toList_intercalate]
  exact mem_intercalate (List.mem_map_of_mem hs) hmem

/-! ### Lines and numbers -/

def isLineBreak (c : Char) : Bool :=
  let n := c.toNat
  (10 ≤ n && n ≤ 13) || (28 ≤ n && n ≤ 30) || n = 0x85 || n = 0x2028 || n = 0x2029

/-- `str.splitlines`. -/
def splitLines : List Char → List (List Char)
  | [] => []
  | '\r' :: '\n' :: cs => []::splitLines cs
  | c::cs =>
      if isLineBreak c then []::splitLines cs
      else
        match splitLines cs with
        | [] => [[c]]
        | l::ls => (c::l)::ls

theorem splitLines_append_line {l : List Char} (h : ∀ c ∈ l, isLineBreak c = false) (rest : List Char) :
    splitLines (l ++ '\n' :: rest) = l :: splitLines rest := by
  induction l with
  | nil => simp [splitLines, isLineBreak]
  | cons c l ih =>
    obtain ⟨hc, hl⟩ := List.forall_mem_cons.mp h
    have hreturn : c ≠ '\r' := by
      rintro rfl
      exact absurd hc (by decide)
    rw [List.cons_append, splitLines, hc, ih hl]
    · rfl
    · intro cs heq _
      exact hreturn heq

/-- Lines that end in a newline each. -/
theorem splitLines_flatMap {lines : List (List Char)} (h : ∀ l ∈ lines, ∀ c ∈ l, isLineBreak c = false) :
    splitLines (lines.flatMap fun l => l ++ ['\n']) = lines := by
  induction lines with
  | nil => rfl
  | cons l lines ih =>
    obtain ⟨hl, hlines⟩ := List.forall_mem_cons.mp h
    rw [List.flatMap_cons, List.append_assoc, List.singleton_append, splitLines_append_line hl, ih hlines]

/-- The digits zero of the decimal systems; the others of a system follow its zero. -/
def zeros : List ℕ :=
  [0x30, 0x660, 0x6f0, 0x7c0, 0x966, 0x9e6, 0xa66, 0xae6, 0xb66, 0xbe6, 0xc66, 0xce6, 0xd66,
   0xde6, 0xe50, 0xed0, 0xf20, 0x1040, 0x1090, 0x17e0, 0x1810, 0x1946, 0x19d0, 0x1a80, 0x1a90,
   0x1b50, 0x1bb0, 0x1c40, 0x1c50, 0xa620, 0xa8d0, 0xa900, 0xa9d0, 0xa9f0, 0xaa50, 0xabf0,
   0xff10, 0x104a0, 0x10d30, 0x11066, 0x110f0, 0x11136, 0x111d0, 0x112f0, 0x11450, 0x114d0,
   0x11650, 0x116c0, 0x11730, 0x118e0, 0x11950, 0x11c50, 0x11d50, 0x11da0, 0x11f50, 0x16a60,
   0x16ac0, 0x16b50, 0x1d7ce, 0x1d7d8, 0x1d7e2, 0x1d7ec, 0x1d7f6, 0x1e140, 0x1e2f0, 0x1e4f0,
   0x1e950, 0x1fbf0]

def digitVal (c : Char) : Option ℕ :=
  (zeros.find? fun z => z ≤ c.toNat ∧ c.toNat < z + 10).map (c.toNat - ·)

/-- `\d`. -/
def isDecimal (c : Char) : Bool := (digitVal c).isSome

/-- Digits after a first one; an underscore may stand between two. -/
def parseDigits (acc : ℕ) : List Char → Option ℕ
  | [] => some acc
  | '_'::c::cs => (digitVal c).bind fun d => parseDigits (10 * acc + d) cs
  | c::cs => (digitVal c).bind fun d => parseDigits (10 * acc + d) cs

/-- The longest number of digits that `int` reads. -/
def maxDigits : ℕ := 4300

def parseNat (cs : List Char) : Option ℕ :=
  if maxDigits < cs.countP isDecimal then none
  else
    match cs with
    | [] => none
    | c::cs => (digitVal c).bind fun d => parseDigits d cs

/-- `int` of a text; no number is a `ValueError`. -/
def parseInt (cs : List Char) : Option ℤ :=
  match stripChars cs with
  | '-'::cs => (parseNat cs).map fun n => -n
  | '+'::cs => (parseNat cs).map fun n => n
  | cs => (parseNat cs).map fun n => n

/-! ### Matching a pattern from the left -/

/-- The rest after a literal. -/
def literal (pattern cs : List Char) : Option (List Char) :=
  if pattern <+: cs then some (cs.drop pattern.length) else none

/-- The rest after `\s+`. -/
def spaces (cs : List Char) : Option (List Char) :=
  match cs with
  | c::cs => if isSpace c then some (cs.dropWhile isSpace) else none
  | [] => none

/-- `\d+` and the rest. -/
def digits (cs : List Char) : Option (List Char × List Char) :=
  match cs.takeWhile isDecimal with
  | [] => none
  | ds => some (ds, cs.dropWhile isDecimal)

end KisAutotrader.Text
