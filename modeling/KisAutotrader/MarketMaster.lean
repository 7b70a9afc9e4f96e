import KisAutotrader.Text

/-!
# The market master

`parse_master_file`: the lines of a master file, their fixed columns, and the rows that are
kept. A row that is dropped leaves its stock without a block at buy time.
-/
namespace KisAutotrader.MarketMaster
open Text

inductive MasterMarket where
  | kospi
  | kosdaq
  deriving DecidableEq, Repr

/-- `KOSPI_PART2_WIDTH` and `KOSDAQ_PART2_WIDTH`. -/
def part2Width : MasterMarket → ℕ
  | .kospi => 228
  | .kosdaq => 222

structure MasterRow where
  stockCode : String
  name : String
  market : MasterMarket
  isTradingHalted : Bool
  isAdministrative : Bool
  isLiquidation : Bool
  isMarketWarning : Bool
  isWarningPretrigger : Bool
  isDishonestDisclosure : Bool
  deriving DecidableEq, Repr

/-! ### Text of a file -/

/-- The lines of an open text file: each newline is read as one line feed. -/
def fileLines : List Char → List (List Char)
  | [] => []
  | '\r' :: '\n' :: cs => ['\n']::fileLines cs
  | c::cs =>
      if c = '\r' ∨ c = '\n' then ['\n']::fileLines cs
      else
        match fileLines cs with
        | [] => [[c]]
        | l::ls => (c::l)::ls

/-- `rstrip` of one character. -/
def rstripChar (c : Char) (cs : List Char) : List Char :=
  (cs.reverse.dropWhile (· = c)).reverse

def lstrip (cs : List Char) : List Char := cs.dropWhile isSpace

def rstrip (cs : List Char) : List Char := (cs.reverse.dropWhile isSpace).reverse

/-- `cs[i:j]`. -/
def slice (i j : ℕ) (cs : List Char) : List Char := (cs.drop i).take (j - i)

/-- Digits that belong to no decimal system: raised, lowered, and in a frame. -/
def isFramedDigit (c : Char) : Bool :=
  let n := c.toNat
  n = 0xB2 || n = 0xB3 || n = 0xB9 || (0x1369 ≤ n && n ≤ 0x1371) || n = 0x19DA || n = 0x2070 ||
    (0x2074 ≤ n && n ≤ 0x2079) || (0x2080 ≤ n && n ≤ 0x2089) || (0x2460 ≤ n && n ≤ 0x2468) ||
    (0x2474 ≤ n && n ≤ 0x247C) || (0x2488 ≤ n && n ≤ 0x2490) || n = 0x24EA ||
    (0x24F5 ≤ n && n ≤ 0x24FD) || n = 0x24FF || (0x2776 ≤ n && n ≤ 0x277E) ||
    (0x2780 ≤ n && n ≤ 0x2788) || (0x278A ≤ n && n ≤ 0x2792) || (0x10A40 ≤ n && n ≤ 0x10A43) ||
    (0x10E60 ≤ n && n ≤ 0x10E68) || (0x11052 ≤ n && n ≤ 0x1105A) || (0x1F100 ≤ n && n ≤ 0x1F10A)

/-- `str.isdigit` of a text that is not empty. -/
def allDigits (cs : List Char) : Bool := cs.all fun c => isDecimal c || isFramedDigit c

/-! ### Rows -/

/-- The starts of the columns halted, liquidation, administrative, warning, pretrigger and
dishonest, in this order. -/
structure Offsets where
  halted : ℕ
  liquidation : ℕ
  administrative : ℕ
  warning : ℕ
  pretrigger : ℕ
  dishonest : ℕ

/-- `_status_offsets`, the same for both markets. -/
def statusOffsets (_ : MasterMarket) : Offsets :=
  let base := 61
  ⟨base, base + 1, base + 2, base + 3, base + 5, base + 6⟩

def isYes (cs : List Char) : Bool := stripChars cs = ['Y']

/-- The two characters `00` are normal, and so is a blank column. -/
def isWarning (cs : List Char) : Bool := stripChars cs ≠ [] ∧ stripChars cs ≠ ['0', '0']

/-- A stock code of six digits. -/
def isStockCode (code : List Char) : Bool := code.length = 6 && allDigits code

/-- The loop body of `parse_master_file`; `none` is a `continue`. -/
def parseLine (market : MasterMarket) (raw : List Char) : Option MasterRow :=
  let line := rstripChar '\r' (rstripChar '\n' raw)
  if line.length ≤ part2Width market then none
  else
    let part1 := line.take (line.length - part2Width market)
    let part2 := line.drop (line.length - part2Width market)
    let stockCode := rstrip (slice 0 9 part1)
    let name := stripChars (part1.drop 21)
    if stockCode = [] then none
    else if ¬ isStockCode stockCode then none
    else if (lstrip part2).take 2 ≠ ['S', 'T'] then none
    else
      let offsets := statusOffsets market
      some {
        stockCode := String.ofList stockCode
        name := String.ofList name
        market
        isTradingHalted := isYes (slice offsets.halted (offsets.halted + 1) part2)
        isAdministrative := isYes (slice offsets.administrative (offsets.administrative + 1) part2)
        isLiquidation := isYes (slice offsets.liquidation (offsets.liquidation + 1) part2)
        isMarketWarning := isWarning (slice offsets.warning (offsets.warning + 2) part2)
        isWarningPretrigger := isYes (slice offsets.pretrigger (offsets.pretrigger + 1) part2)
        isDishonestDisclosure := isYes (slice offsets.dishonest (offsets.dishonest + 1) part2) }

def parseMasterFile (market : MasterMarket) (text : List Char) : List MasterRow :=
  (fileLines text).filterMap (parseLine market)

/-! ### The lines of a master -/

/-- A line as the master writes it. The record is one character shorter than the slice that is
taken of it. -/
structure Line (market : MasterMarket) where
  code : List Char
  standard : List Char
  name : List Char
  padding : ℕ
  record : List Char
  code_length : code.length = 9
  standard_length : standard.length = 12
  record_length : record.length + 1 = part2Width market
  unbroken : ∀ c ∈ code ++ standard ++ name ++ record, c ≠ '\n' ∧ c ≠ '\r'

namespace Line
variable {market : MasterMarket} (l : Line market)

def field : List Char := l.name ++ List.replicate l.padding ' '

/-- What stands before the record. -/
def head : List Char := l.code ++ l.standard ++ l.field

def text : List Char := l.head ++ l.record

def stockCode : List Char := rstrip l.code

def group : List Char := l.record.take 2

def column (i n : ℕ) : List Char := (l.record.drop i).take n

/-- The row of a stock, from the columns as the record has them. -/
def row : MasterRow where
  stockCode := String.ofList l.stockCode
  name := String.ofList l.name
  market := market
  isTradingHalted := l.column 60 1 = ['Y']
  isLiquidation := l.column 61 1 = ['Y']
  isAdministrative := l.column 62 1 = ['Y']
  isMarketWarning := isWarning (l.column 63 2)
  isWarningPretrigger := l.column 65 1 = ['Y']
  isDishonestDisclosure := l.column 66 1 = ['Y']

/-- The row the line should give: of a stock, and of nothing else. -/
def expected : Option MasterRow :=
  if isStockCode l.stockCode = true ∧ l.group = ['S', 'T'] then some l.row else none

/-- The character before the record. -/
def before : Char := l.head.getLast?.getD ' '

/-- The name of a stock has no blank at its ends and its field one after it. -/
def Padded : Prop :=
  stripChars l.name = l.name ∧ (0 < l.padding ∨ l.name = [] ∧ isSpace l.before = true)

/-- Read with the character before it, or without its own blanks, the record of another
group starts like that of a stock. -/
def Mistaken : Prop :=
  l.before = 'S' ∧ l.record.head? = some 'T' ∨
    isSpace l.before = true ∧ (lstrip l.record).take 2 = ['S', 'T']

instance : Decidable l.Padded := inferInstanceAs (Decidable (_ ∧ _))

instance : Decidable l.Mistaken := inferInstanceAs (Decidable (_ ∨ _))

/-- When the line is read as it is meant. -/
def Readable : Prop := isStockCode l.stockCode = true →
  if l.group = ['S', 'T'] then l.Padded else ¬ l.Mistaken

end Line

/-- A line feed, or a carriage return and a line feed. -/
def newline (crlf : Bool) : List Char := if crlf then ['\r', '\n'] else ['\n']

def fileText {market : MasterMarket} (crlf : Bool) (lines : List (Line market)) : List Char :=
  lines.flatMap fun l => l.text ++ newline crlf

/-! ### From the text to the lines -/

theorem fileLines_append {l : List Char} (h : ∀ c ∈ l, c ≠ '\n' ∧ c ≠ '\r') (crlf : Bool)
    (rest : List Char) :
    fileLines (l ++ newline crlf ++ rest) = (l ++ ['\n'])::fileLines rest := by
  induction l with
  | nil => cases crlf <;> simp [newline, fileLines]
  | cons c l ih =>
    have hc := h c List.mem_cons_self
    have hrest := ih fun d hd => h d (List.mem_cons_of_mem c hd)
    rw [List.cons_append, List.cons_append, fileLines, hrest]
    · simp [hc]
    · rintro _ rfl
      exact absurd rfl hc.2

theorem rstripChar_id {c : Char} {cs : List Char} (h : ∀ d ∈ cs, d ≠ c) : rstripChar c cs = cs := by
  have hall : ∀ d ∈ cs.reverse, ¬ (decide (d = c) = true) := by
    intro d hd
    simpa using h d (List.mem_reverse.mp hd)
  rw [rstripChar, List.dropWhile_eq_self_iff.mpr, List.reverse_reverse]
  intro hne
  exact hall _ (List.getElem_mem _)

theorem rstripChar_snoc (c : Char) (cs : List Char) : rstripChar c (cs ++ [c]) = rstripChar c cs := by
  simp [rstripChar]

section Parts
variable {market : MasterMarket} (l : Line market)

theorem text_unbroken : ∀ c ∈ l.text, c ≠ '\n' ∧ c ≠ '\r' := by
  intro c hc
  simp only [Line.text, Line.head, Line.field, List.mem_append] at hc
  rcases hc with ((hc | hc) | hc | hc) | hc
  · exact l.unbroken c (by simp [hc])
  · exact l.unbroken c (by simp [hc])
  · exact l.unbroken c (by simp [hc])
  · obtain rfl := List.eq_of_mem_replicate hc
    decide
  · exact l.unbroken c (by simp [hc])

theorem stripped_text : rstripChar '\r' (rstripChar '\n' (l.text ++ ['\n'])) = l.text := by
  have hunbroken := text_unbroken l
  rw [rstripChar_snoc, rstripChar_id fun d hd => (hunbroken d hd).1,
    rstripChar_id fun d hd => (hunbroken d hd).2]

theorem head_ne_nil : l.head ≠ [] := by
  intro hnil
  have hlength := l.code_length
  simp only [Line.head, List.append_eq_nil_iff] at hnil
  simp [hnil.1.1] at hlength

theorem head_eq : l.head = l.head.dropLast ++ [l.before] := by
  rw [Line.before, List.getLast?_eq_some_getLast (head_ne_nil l), Option.getD_some,
    List.dropLast_concat_getLast]

theorem text_length : l.text.length - part2Width market = l.head.dropLast.length := by
  rw [Line.text, List.length_append, List.length_dropLast, ← l.record_length]
  omega

theorem text_split : l.text = l.head.dropLast ++ l.before::l.record := by
  rw [Line.text]
  conv_lhs => rw [head_eq l]
  simp

/-- The slice starts one character before the record. -/
theorem part2_eq : l.text.drop (l.text.length - part2Width market) = l.before::l.record := by
  rw [text_length, text_split, List.drop_left]

theorem part1_eq : l.text.take (l.text.length - part2Width market) = l.head.dropLast := by
  rw [text_length, text_split, List.take_left]

theorem long_text : part2Width market < l.text.length := by
  have hrecord := l.record_length
  have hcode := l.code_length
  have hstandard := l.standard_length
  simp only [Line.text, Line.head, List.length_append]
  omega

theorem code_slice : slice 0 9 l.head.dropLast = l.code := by
  have hcode := l.code_length
  have hstandard := l.standard_length
  have hbegins : l.head.dropLast = l.code ++ (l.standard ++ l.field).dropLast := by
    rw [Line.head, List.append_assoc, List.dropLast_append_of_ne_nil]
    intro hnil
    simp only [List.append_eq_nil_iff] at hnil
    simp [hnil.1] at hstandard
  rw [slice, List.drop_zero, hbegins, ← hcode, Nat.sub_zero, List.take_left]

theorem name_slice : l.head.dropLast.drop 21 = l.field.dropLast := by
  have hlength : (l.code ++ l.standard).length = 21 := by
    rw [List.length_append, l.code_length, l.standard_length]
  rw [Line.head]
  cases hfield : l.field with
  | nil =>
    rw [List.append_nil, List.dropLast_nil, List.drop_eq_nil_iff, List.length_dropLast]
    omega
  | cons c cs =>
    rw [List.dropLast_append_of_ne_nil (List.cons_ne_nil c cs), ← hlength, List.drop_left]

/-- A column of the slice is the column of the record one place earlier. -/
theorem column_slice (i n : ℕ) : slice (i + 1) (i + 1 + n) (l.before::l.record) = l.column i n := by
  simp [slice, Line.column]

end Parts

/-! ### What is read off a line -/

theorem stripChars_short {cs : List Char} (h : cs.length ≤ 1) : stripChars cs = ['Y'] ↔ cs = ['Y'] := by
  match cs, h with
  | [], _ => simp [stripChars]
  | [c], _ =>
    cases hc : isSpace c with
    | true =>
      have hne : c ≠ 'Y' := by
        rintro rfl
        exact absurd hc (by decide)
      simp [stripChars, hc, hne]
    | false => simp [stripChars, hc]

theorem isYes_column {market : MasterMarket} (l : Line market) (i : ℕ) :
    isYes (l.column i 1) = decide (l.column i 1 = ['Y']) := by
  rw [isYes, decide_eq_decide]
  exact stripChars_short (List.length_take_le 1 _)

theorem allSpace_replicate (n : ℕ) : ∀ c ∈ List.replicate n ' ', isSpace c = true := by
  intro c hc
  rw [List.eq_of_mem_replicate hc]
  decide

theorem stripChars_padded (cs : List Char) (n : ℕ) :
    stripChars (cs ++ List.replicate n ' ') = stripChars cs := by
  have hblank : (List.replicate n ' ').dropWhile isSpace = [] :=
    List.dropWhile_eq_nil_iff.mpr (allSpace_replicate n)
  have hback : ∀ ds : List Char, ((ds ++ List.replicate n ' ').reverse.dropWhile isSpace) =
      ds.reverse.dropWhile isSpace := by
    intro ds
    rw [List.reverse_append, List.reverse_replicate, List.dropWhile_append, hblank]
    rfl
  rw [stripChars, stripChars]
  congr 1
  rw [List.dropWhile_append]
  cases hcs : cs.dropWhile isSpace with
  | nil => simp [hblank]
  | cons d ds => simpa using hback (d::ds)

theorem stripChars_length (cs : List Char) : (stripChars cs).length ≤ cs.length := by
  rw [stripChars, List.length_reverse]
  refine (List.dropWhile_suffix _).length_le.trans ?_
  rw [List.length_reverse]
  exact (List.dropWhile_suffix _).length_le

section Reading
variable {market : MasterMarket} (l : Line market)

/-- The row that is read off a line, with the name as the slice leaves it. -/
def readRow : MasterRow :=
  { l.row with name := String.ofList (stripChars l.field.dropLast) }

theorem isStockCode_nil : isStockCode [] = false := by decide

/-- What the loop makes of a line. -/
theorem parseLine_text : parseLine market (l.text ++ ['\n']) =
    if isStockCode l.stockCode = true ∧ (lstrip (l.before::l.record)).take 2 = ['S', 'T'] then
      some (readRow l) else none := by
  have hlong : ¬ l.text.length ≤ part2Width market := (long_text l).not_ge
  have hcolumn := column_slice l
  simp only [parseLine, stripped_text, hlong, if_false, part1_eq, part2_eq, code_slice, name_slice,
    statusOffsets]
  have hnil : rstrip l.code = [] → ¬ isStockCode l.stockCode = true := by
    intro h
    rw [Line.stockCode, h, isStockCode_nil]
    decide
  by_cases hcode : isStockCode l.stockCode = true
  · have hne : rstrip l.code ≠ [] := fun h => hnil h hcode
    rw [if_neg hne, if_neg (by simpa [Line.stockCode] using hcode)]
    by_cases hgroup : (lstrip (l.before::l.record)).take 2 = ['S', 'T']
    · rw [if_neg (by simpa using hgroup), if_pos ⟨hcode, hgroup⟩]
      simp only [readRow, Line.row, Line.stockCode, hcolumn 60 1, hcolumn 61 1, hcolumn 62 1,
        hcolumn 63 2, hcolumn 65 1, hcolumn 66 1, isYes_column]
    · rw [if_pos hgroup, if_neg fun h => hgroup h.2]
  · have hnot : ¬ (isStockCode l.stockCode = true ∧
        (lstrip (l.before::l.record)).take 2 = ['S', 'T']) := fun h => hcode h.1
    rw [if_neg hnot]
    by_cases hempty : rstrip l.code = []
    · rw [if_pos hempty]
    · rw [if_neg hempty, if_pos (by simpa [Line.stockCode] using hcode)]

theorem record_ne_nil : l.record ≠ [] := by
  have hrecord := l.record_length
  intro hnil
  rw [hnil, List.length_nil] at hrecord
  cases market <;> simp [part2Width] at hrecord

/-- The group as it is read is the group, unless it is mistaken or cut off. -/
theorem lstrip_group : (lstrip (l.before::l.record)).take 2 = ['S', 'T'] ↔
    isSpace l.before = true ∧ l.group = ['S', 'T'] ∨ l.group ≠ ['S', 'T'] ∧ l.Mistaken := by
  obtain ⟨r, rs, hrecord⟩ := List.exists_cons_of_ne_nil (record_ne_nil l)
  have hspaced : l.group = ['S', 'T'] → lstrip l.record = l.record := by
    intro hgroup
    rw [Line.group, hrecord] at hgroup
    have hr : r = 'S' := by simpa using congrArg List.head? hgroup
    rw [lstrip, hrecord, hr, List.dropWhile_cons_of_neg (by decide)]
  cases hbefore : isSpace l.before with
  | true =>
    have hS : l.before ≠ 'S' := by
      intro h
      rw [h] at hbefore
      exact absurd hbefore (by decide)
    have hdrop : lstrip (l.before::l.record) = lstrip l.record := by
      rw [lstrip, List.dropWhile_cons_of_pos hbefore, lstrip]
    simp only [Line.Mistaken, hS, hbefore, hdrop, false_and, false_or, true_and]
    by_cases hgroup : l.group = ['S', 'T']
    · rw [hspaced hgroup]
      exact ⟨fun _ => Or.inl hgroup, fun _ => hgroup⟩
    · simp [hgroup]
  | false =>
    have hdrop : lstrip (l.before::l.record) = l.before::l.record :=
      List.dropWhile_cons_of_neg (by simp [hbefore])
    have hexclusive : l.before = 'S' → r = 'T' → r = 'S' → ¬ rs.take 1 = ['T'] := by
      rintro - rfl hS
      exact absurd hS (by decide)
    rw [hdrop]
    simpa [Line.Mistaken, hbefore, hrecord, Line.group] using hexclusive

theorem readRow_eq : readRow l = l.row ↔ stripChars l.field.dropLast = l.name := by
  constructor
  · intro h
    exact String.ofList_injective (congrArg MasterRow.name h)
  · intro h
    rw [readRow, h]
    rfl

/-- A padded field loses one of its blanks, an unpadded one a character of its name. -/
theorem padded_iff :
    isSpace l.before = true ∧ stripChars l.field.dropLast = l.name ↔ l.Padded := by
  unfold Line.Padded
  cases hpadding : l.padding with
  | succ n =>
    have hfield : l.field = l.name ++ List.replicate n ' ' ++ [' '] := by
      rw [Line.field, hpadding, List.replicate_succ', List.append_assoc]
    have hbefore : l.before = ' ' := by
      rw [Line.before, Line.head, hfield]
      simp
    have hspace : isSpace ' ' = true := by decide
    rw [hbefore, hfield, List.dropLast_concat, stripChars_padded]
    simp [hspace]
  | zero =>
    have hfield : l.field = l.name := by simp [Line.field, hpadding]
    rw [hfield]
    by_cases hname : l.name = []
    · simp [hname, stripChars]
    · have hlength := stripChars_length l.name.dropLast
      have hpos := List.length_pos_iff.mpr hname
      rw [List.length_dropLast] at hlength
      have hne : stripChars l.name.dropLast ≠ l.name := by
        intro h
        rw [h] at hlength
        omega
      simp [hne, hname]

/-- A line gives the row it should exactly when it is readable. -/
theorem parseLine_expected_iff :
    parseLine market (l.text ++ ['\n']) = l.expected ↔ l.Readable := by
  rw [parseLine_text, Line.expected, Line.Readable]
  simp only [lstrip_group]
  by_cases hcode : isStockCode l.stockCode = true
  · by_cases hgroup : l.group = ['S', 'T']
    · simp only [hcode, hgroup, true_and, and_true, ne_eq, not_true, false_and, or_false, if_true,
        forall_const]
      rw [← padded_iff, ← readRow_eq]
      cases hbefore : isSpace l.before <;> simp
    · simp only [hcode, hgroup, true_and, and_false, false_or, ne_eq, not_false_eq_true, if_false,
        forall_const]
      by_cases hmistaken : l.Mistaken <;> simp [hmistaken]
  · simp [hcode]

end Reading

/-! ### Files -/

section Files
variable {market : MasterMarket}

/-- A file is read line by line. -/
theorem parseMasterFile_lines (crlf : Bool) (lines : List (Line market)) :
    parseMasterFile market (fileText crlf lines) =
      lines.filterMap fun l => parseLine market (l.text ++ ['\n']) := by
  have hlines : fileLines (fileText crlf lines) = lines.map fun l => l.text ++ ['\n'] := by
    induction lines with
    | nil => rfl
    | cons l lines ih =>
      rw [fileText, List.flatMap_cons, fileLines_append (text_unbroken l), List.map_cons, ← ih]
      rfl
  rw [parseMasterFile, hlines, List.filterMap_map]
  rfl

theorem parseMasterFile_line (crlf : Bool) (l : Line market) :
    parseMasterFile market (fileText crlf [l]) = (parseLine market (l.text ++ ['\n'])).toList := by
  rw [parseMasterFile_lines]
  cases h : parseLine market (l.text ++ ['\n']) <;> simp [h]

theorem parseMasterFile_each (crlf : Bool) (lines : List (Line market)) :
    parseMasterFile market (fileText crlf lines) =
      lines.flatMap fun l => parseMasterFile market (fileText crlf [l]) := by
  simp only [parseMasterFile_line]
  rw [parseMasterFile_lines]
  induction lines with
  | nil => rfl
  | cons l lines ih =>
    rw [List.filterMap_cons, List.flatMap_cons, ih]
    cases parseLine market (l.text ++ ['\n']) <;> rfl

theorem parseMasterFile_readable (crlf : Bool) {lines : List (Line market)}
    (h : ∀ l ∈ lines, l.Readable) :
    parseMasterFile market (fileText crlf lines) = lines.filterMap Line.expected := by
  rw [parseMasterFile_lines]
  induction lines with
  | nil => rfl
  | cons l lines ih =>
    have hl := (parseLine_expected_iff l).mpr (h l List.mem_cons_self)
    rw [List.filterMap_cons, List.filterMap_cons, hl, ih fun k hk => h k (List.mem_cons_of_mem l hk)]

end Files

/-- A file gives what its lines give one by one; each line gives the row it should exactly when it
is readable, so that a file of readable lines gives the rows of its stocks and no others. -/
theorem master_rows (market : MasterMarket) (crlf : Bool) (lines : List (Line market)) :
    (∀ l : Line market,
      parseMasterFile market (fileText crlf [l]) = l.expected.toList ↔ l.Readable) ∧
    parseMasterFile market (fileText crlf lines) =
      lines.flatMap (fun l => parseMasterFile market (fileText crlf [l])) ∧
    ((∀ l ∈ lines, l.Readable) →
      parseMasterFile market (fileText crlf lines) = lines.filterMap Line.expected) := by
  refine ⟨fun l => ?_, parseMasterFile_each crlf lines, parseMasterFile_readable crlf⟩
  rw [parseMasterFile_line, ← parseLine_expected_iff]
  cases parseLine market (l.text ++ ['\n']) <;> cases l.expected <;> simp

/-- A halted stock whose name fills its field. -/
def fullName : Line .kospi where
  code := "005930   ".toList
  standard := "KR7005930003".toList
  name := "삼성전자".toList
  padding := 0
  record := ['S', 'T'] ++ List.replicate 58 '0' ++ ['Y'] ++ List.replicate 166 '0'
  code_length := by decide
  standard_length := by decide
  record_length := by
    simp only [List.length_append, List.length_replicate, List.length_cons, List.length_nil]
    rfl
  unbroken := by
    have hhead : ∀ c ∈ "005930   ".toList ++ "KR7005930003".toList ++ "삼성전자".toList,
        c ≠ '\n' ∧ c ≠ '\r' := by simp
    intro c hc
    rcases List.mem_append.mp hc with hc | hc
    · exact hhead c hc
    · simp only [List.mem_append, List.mem_replicate, List.mem_cons, List.not_mem_nil, or_false] at hc
      rcases hc with (((rfl | rfl) | ⟨-, rfl⟩) | rfl) | ⟨-, rfl⟩ <;> decide

/-- The row of a stock whose name fills its field is dropped. -/
theorem full_name_dropped :
    ¬ ∀ (market : MasterMarket) (crlf : Bool) (lines : List (Line market)),
      parseMasterFile market (fileText crlf lines) = lines.filterMap Line.expected := by
  intro hall
  have hrows := hall .kospi false [fullName]
  revert hrows
  decide +kernel

end KisAutotrader.MarketMaster
