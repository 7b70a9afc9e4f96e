import Mathlib.Algebra.Order.Group.MinMax
import Mathlib.Algebra.Order.Ring.Abs
import Mathlib.Tactic.NormNum
import Mathlib.Tactic.Ring
import KisAutotrader.FlowText

/-!
# Round trip of the flow text

What the patterns find in a text that was built from a table, and the laws of the score.
-/
namespace KisAutotrader.FlowText
open Decimal Fallible Text

/-! ### A number and what follows it -/

section Stops
variable {f : Char → Bool} {stop : Char}

theorem takeWhile_stop (hstop : f stop = false) (cs rest : List Char) :
    (cs ++ stop::rest).takeWhile f = cs.takeWhile f := by
  induction cs with
  | nil => simp [hstop]
  | cons c cs ih => by_cases hc : f c <;> simp [hc, ih]

theorem dropWhile_stop (hstop : f stop = false) (cs rest : List Char) :
    (cs ++ stop::rest).dropWhile f = cs.dropWhile f ++ stop::rest := by
  induction cs with
  | nil => simp [hstop]
  | cons c cs ih => by_cases hc : f c <;> simp [hc, ih]

theorem prefix_stop {unit : List Char} (hunit : stop ∉ unit) (cs rest : List Char) :
    unit <+: cs ++ stop::rest ↔ unit <+: cs := by
  induction cs generalizing unit with
  | nil =>
      cases unit with
      | nil => simp
      | cons u us =>
          obtain ⟨hu, -⟩ := not_or.mp (List.mem_cons.not.mp hunit)
          simp [List.cons_prefix_cons, Ne.symm hu]
  | cons c cs ih =>
      cases unit with
      | nil => simp
      | cons u us =>
          obtain ⟨-, hus⟩ := not_or.mp (List.mem_cons.not.mp hunit)
          rw [List.cons_append, List.cons_prefix_cons, List.cons_prefix_cons, ih hus]

end Stops

theorem signOf_append {cs : List Char} (h : cs ≠ []) (rest : List Char) :
    signOf (cs ++ rest) = ((signOf cs).1, (signOf cs).2 ++ rest) := by
  obtain ⟨c, cs, rfl⟩ := List.exists_cons_of_ne_nil h
  by_cases hplus : c = '+'
  · subst c
    rfl
  · by_cases hminus : c = '-'
    · subst c
      rfl
    · simp [signOf, hplus, hminus]

/-- White space ends a number. -/
theorem matchSigned_append {unit cs : List Char} (hunit : ' ' ∉ unit) (h : cs ≠ [])
    (rest : List Char) : matchSigned unit (cs ++ ' '::rest) = matchSigned unit cs := by
  have hspace : numChar ' ' = false := by decide +kernel
  unfold matchSigned
  rw [signOf_append h]
  simp only [takeWhile_stop hspace, dropWhile_stop hspace, prefix_stop hunit]

theorem matchSigned_number {unit number rest : List Char} {sign stop : Char}
    (hsign : sign = '+' ∨ sign = '-') (hne : number ≠ []) (hall : ∀ c ∈ number, numChar c = true)
    (hstop : numChar stop = false) (hunit : unit <+: stop::rest) :
    matchSigned unit (sign::number ++ stop::rest) = some (sign::number) := by
  have hsigned : signOf (sign::number ++ stop::rest) = ([sign], number ++ stop::rest) := by
    rcases hsign with rfl | rfl <;> rfl
  have htake : number.takeWhile numChar = number := List.takeWhile_eq_self_iff.mpr hall
  have hdrop : number.dropWhile numChar = [] := List.dropWhile_eq_nil_iff.mpr hall
  unfold matchSigned
  rw [hsigned]
  simp only [takeWhile_stop hstop, dropWhile_stop hstop, htake, hdrop, List.nil_append]
  rw [if_pos ⟨hne, hunit⟩]
  rfl

/-! ### A line -/

theorem netSuffix_eq : netSuffix = ' '::['순', '매', '수', ':', ' '] := by decide

/-- What follows a label is neither a number nor the end of one. -/
theorem matchSigned_netSuffix {unit cs : List Char} (hunit : ' ' ∉ unit) (rest : List Char) :
    matchSigned unit ((cs ++ (netSuffix ++ rest)).dropWhile isSpace) =
      matchSigned unit (cs.dropWhile isSpace) := by
  have hword : numChar '순' = false := by decide +kernel
  rw [netSuffix_eq, List.dropWhile_append]
  by_cases hblank : cs.dropWhile isSpace = []
  · have hspace : isSpace ' ' = true := by decide
    have hother : isSpace '순' = false := by decide
    simp [hblank, matchSigned, signOf, hspace, hother, hword]
  · rw [if_neg (by simpa using hblank), List.cons_append, matchSigned_append hunit hblank]

/-- Where the literal does not reach into what follows the label, only the label counts. -/
theorem matchAt_line {p : Pattern} (hunit : ' ' ∉ p.unit) {label : List Char}
    (hclear : ∀ n < p.label.length, p.label.drop n <+: netSuffix ∨ netSuffix <+: p.label.drop n →
      p.label.take n ≠ label) (rest : List Char) :
    p.matchAt (label ++ (netSuffix ++ rest)) = p.matchAt label := by
  unfold Pattern.matchAt literal
  by_cases hlong : p.label.length ≤ label.length
  · have hiff : p.label <+: label ++ (netSuffix ++ rest) ↔ p.label <+: label :=
      ⟨fun h => List.prefix_of_prefix_length_le h (List.prefix_append _ _) hlong,
        fun h => h.trans (List.prefix_append _ _)⟩
    by_cases hbegins : p.label <+: label
    · rw [if_pos (hiff.mpr hbegins), if_pos hbegins, List.drop_append_of_le_length hlong]
      exact matchSigned_netSuffix hunit rest
    · rw [if_neg (hiff.not.mpr hbegins), if_neg hbegins]
  · have hnot : ¬ p.label <+: label ++ (netSuffix ++ rest) := by
      intro h
      have hlabel : label <+: p.label :=
        List.prefix_of_prefix_length_le (List.prefix_append _ _) h (by omega)
      have hsplit : label ++ p.label.drop label.length = p.label := by
        rw [← List.prefix_iff_eq_append]
        exact hlabel
      rw [← hsplit, List.prefix_append_right_inj] at h
      refine hclear label.length (by omega) ?_ (List.prefix_iff_eq_take.mp hlabel).symm
      exact List.prefix_or_prefix_of_prefix h (List.prefix_append _ _)
    have hnot' : ¬ p.label <+: label := fun h => hlong (List.IsPrefix.length_le h)
    rw [if_neg hnot, if_neg hnot']

/-- The labels whose amounts are read back. -/
def investors : List String := ["기관합계", "외국인", "연기금 등", "개인"]

def shortPatterns : List Pattern := [shortBalancePattern, shortVolumePattern]

/-- The literal of an investor reaches behind a label only where the label is the investor's. -/
theorem netPattern_clear : ∀ investor ∈ investors, ∀ n < (netPattern investor).label.length,
    ((netPattern investor).label.drop n <+: netSuffix ∨
      netSuffix <+: (netPattern investor).label.drop n) →
        (netPattern investor).label.take n = investor.toList := by
  decide +kernel

theorem shortPattern_clear : ∀ p ∈ shortPatterns, ∀ n < p.label.length,
    ¬ (p.label.drop n <+: netSuffix ∨ netSuffix <+: p.label.drop n) := by
  decide +kernel

theorem matchAt_other {investor label : String} (hinvestor : investor ∈ investors)
    (hne : label ≠ investor) (rest : List Char) :
    (netPattern investor).matchAt (label.toList ++ (netSuffix ++ rest)) =
      (netPattern investor).matchAt label.toList := by
  apply matchAt_line (by simp [netPattern])
  intro n hn hreach hlabel
  rw [netPattern_clear investor hinvestor n hn hreach] at hlabel
  exact hne (String.toList_injective hlabel.symm)

theorem matchAt_short {p : Pattern} (hp : p ∈ shortPatterns) (label rest : List Char) :
    p.matchAt (label ++ (netSuffix ++ rest)) = p.matchAt label := by
  have hunit : ∀ q ∈ shortPatterns, ' ' ∉ q.unit := by decide
  apply matchAt_line (hunit p hp)
  intro n hn hreach
  exact absurd hreach (shortPattern_clear p hp n hn)

/-- The pattern of an investor finds the amount in the investor's line. -/
theorem matchAt_own (investor : String) {number rest : List Char} {sign : Char}
    (hsign : sign = '+' ∨ sign = '-') (hne : number ≠ []) (hall : ∀ c ∈ number, numChar c = true) :
    (netPattern investor).matchAt (investor.toList ++ (netSuffix ++ (sign::number ++ '원'::rest))) =
      some (sign::number) := by
  have hstop : numChar '원' = false := by decide +kernel
  have hsuffix : netSuffix = " 순매수:".toList ++ [' '] := by decide
  have hline : investor.toList ++ (netSuffix ++ (sign::number ++ '원'::rest)) =
      (netPattern investor).label ++ ' '::(sign::number ++ '원'::rest) := by
    simp [netPattern, hsuffix]
  have hspace : isSpace ' ' = true := by decide
  have hsigned : isSpace sign = false := by
    rcases hsign with rfl | rfl <;> decide
  rw [hline, Pattern.matchAt, literal, if_pos (List.prefix_append _ _), List.drop_left]
  simp only [Option.bind_some]
  rw [List.dropWhile_cons, if_pos hspace, List.cons_append, List.dropWhile_cons,
    if_neg (by simp [hsigned]), ← List.cons_append]
  exact matchSigned_number hsign hne hall hstop (List.nil_prefix)

/-! ### The lines of a text -/

theorem afterBreaks_append {l : List Char} (hl : '\n' ∉ l) (rest : List Char) :
    afterBreaks (l ++ rest) = afterBreaks rest := by
  induction l with
  | nil => rfl
  | cons c l ih =>
      obtain ⟨hc, hl⟩ := not_or.mp (List.mem_cons.not.mp hl)
      rw [List.cons_append, afterBreaks, if_neg (Ne.symm hc), ih hl]

/-- A search goes through the lines, where what a line matches does not depend on the next. -/
theorem search_joinLines (p : Pattern) {l : List Char} {ls : List (List Char)}
    (hbreaks : ∀ m ∈ l::ls, '\n' ∉ m)
    (hsettled : ∀ m ∈ l::ls, ∀ rest, p.matchAt (m ++ rest) = p.matchAt m) :
    p.search (joinLines (l::ls)) = (l::ls).findSome? p.matchAt := by
  unfold Pattern.search lineStarts
  induction ls generalizing l with
  | nil =>
      have hnone : afterBreaks l = [] := by
        simpa [afterBreaks] using afterBreaks_append (hbreaks l List.mem_cons_self) []
      simp [joinLines, hnone]
  | cons l' ls ih =>
      have hbreak : afterBreaks (l ++ '\n'::joinLines (l'::ls)) =
          joinLines (l'::ls)::afterBreaks (joinLines (l'::ls)) := by
        rw [afterBreaks_append (hbreaks l List.mem_cons_self), afterBreaks, if_pos rfl]
      have hrest := ih (fun m hm => hbreaks m (List.mem_cons_of_mem l hm))
        fun m hm => hsettled m (List.mem_cons_of_mem l hm)
      have hjoin : joinLines (l::l'::ls) = l ++ '\n'::joinLines (l'::ls) := rfl
      rw [hjoin, hbreak, List.findSome?_cons, hsettled l List.mem_cons_self, hrest]
      exact List.findSome?_cons.symm

/-! ### The amounts of a table -/

/-- The net amount of an investor, if the table has one. -/
def netOf (rows : List Row) (investor : String) : Option ℤ :=
  (rows.find? (·.1 = investor)).bind Prod.snd

/-- A label that does not begin like the line of an investor whose amounts are read, with a number
of its own, nor with a short balance or volume that `int` refuses. -/
structure Plain (label : String) : Prop where
  nets : ∀ investor ∈ investors, (netPattern investor).matchAt label.toList = none
  shorts : ∀ p ∈ shortPatterns, ∀ group, p.matchAt label.toList = some group → toInt group ≠ none

theorem amountText_eq {amt : ℤ} (h : (digitsOf amt.natAbs).length ≤ maxDigits) :
    amountText amt = some ((if amt < 0 then '-' else '+')::grouped (digitsOf amt.natAbs)) := by
  unfold amountText formatComma
  rw [if_neg (not_lt.mpr h)]
  by_cases hneg : amt < 0
  · simp [hneg]
  · simp [hneg, not_lt.mp hneg]

theorem toInt_amountText {amt : ℤ} (h : (digitsOf amt.natAbs).length ≤ maxDigits) :
    (amountText amt).bind toInt = some amt := by
  have hcomma : ',' ∉ digitsOf amt.natAbs := fun hmem => (plain_of_mem hmem).2.2 rfl
  rw [amountText_eq h, Option.bind_some, toInt, List.filter_cons_of_pos, filter_grouped hcomma]
  · exact parseInt_signed h
  · split_ifs <;> decide

theorem numChar_of_mem_grouped {n : ℕ} {c : Char} (h : c ∈ grouped (digitsOf n)) :
    numChar c = true := by
  rcases mem_grouped h with rfl | hdigit
  · decide +kernel
  · simp [numChar, isDecimal_of_mem hdigit]

theorem grouped_ne_nil (n : ℕ) : grouped (digitsOf n) ≠ [] := by
  have hcomma : ',' ∉ digitsOf n := fun hmem => (plain_of_mem hmem).2.2 rfl
  intro hnil
  have hfilter := filter_grouped hcomma
  rw [hnil] at hfilter
  exact digitsOf_ne_nil n hfilter.symm

/-- What is asked of a row. -/
structure RowOk (r : Row) : Prop where
  breaks : '\n' ∉ r.1.toList
  plain : Plain r.1
  digits : ∀ amt, r.2 = some amt → (digitsOf amt.natAbs).length ≤ maxDigits

section Lines
variable {rows : List Row} {lines : List (List Char)} {investor : String} {p : Pattern}

theorem exists_linesOf (h : ∀ r ∈ rows, RowOk r) : ∃ lines, linesOf rows = .ok lines := by
  induction rows with
  | nil => exact ⟨[], rfl⟩
  | cons r rows ih =>
      obtain ⟨lines, hlines⟩ := ih fun q hq => h q (List.mem_cons_of_mem r hq)
      obtain ⟨label, value⟩ := r
      cases value with
      | none => exact ⟨lines, hlines⟩
      | some amt =>
          have hamount := amountText_eq ((h _ List.mem_cons_self).digits amt rfl)
          refine ⟨lineOf label ((if amt < 0 then '-' else '+')::grouped (digitsOf amt.natAbs))::lines, ?_⟩
          rw [linesOf, hamount]
          simp only [hlines, ok_bind]
          rfl

theorem linesOf_cons {label : String} {amt : ℤ} (h : linesOf ((label, some amt)::rows) = .ok lines) :
    ∃ amount tail, amountText amt = some amount ∧ linesOf rows = .ok tail ∧
      lines = lineOf label amount::tail := by
  rw [linesOf] at h
  cases hamount : amountText amt with
  | none =>
      rw [hamount] at h
      cases h
  | some amount =>
      rw [hamount] at h
      obtain ⟨tail, htail, h⟩ := bind_eq_ok.mp h
      exact ⟨amount, tail, rfl, htail, (Except.ok.inj h).symm⟩

/-- Each line comes from a row with an amount. -/
theorem exists_row_of_mem (h : linesOf rows = .ok lines) {l : List Char} (hl : l ∈ lines) :
    ∃ label amt amount, (label, some amt) ∈ rows ∧ amountText amt = some amount ∧
      l = lineOf label amount := by
  induction rows generalizing lines with
  | nil =>
      rw [← Except.ok.inj h] at hl
      cases hl
  | cons r rows ih =>
      obtain ⟨label, value⟩ := r
      cases value with
      | none =>
          obtain ⟨label', amt, amount, hmem, hrest⟩ := ih h hl
          exact ⟨label', amt, amount, List.mem_cons_of_mem _ hmem, hrest⟩
      | some amt =>
          obtain ⟨amount, tail, hamount, htail, rfl⟩ := linesOf_cons h
          rcases List.mem_cons.mp hl with rfl | hl
          · exact ⟨label, amt, amount, List.mem_cons_self, hamount, rfl⟩
          · obtain ⟨label', amt', amount', hmem, hrest⟩ := ih htail hl
            exact ⟨label', amt', amount', List.mem_cons_of_mem _ hmem, hrest⟩

/-- What the pattern of an investor finds in a line, whatever comes after it. -/
theorem matchAt_lineOf {label : String} {amt : ℤ} {amount : List Char} (h : RowOk (label, some amt))
    (hamount : amountText amt = some amount) (hinvestor : investor ∈ investors) (rest : List Char) :
    (netPattern investor).matchAt (lineOf label amount ++ rest) =
      if label = investor then some amount else none := by
  have hline : ∀ cs, lineOf label cs ++ rest = label.toList ++ (netSuffix ++ (cs ++ '원'::rest)) := by
    intro cs
    simp [lineOf]
  rw [hline]
  by_cases hown : label = investor
  · rw [amountText_eq (h.digits amt rfl)] at hamount
    rw [if_pos hown, ← Option.some.inj hamount, hown]
    apply matchAt_own
    · split_ifs <;> simp
    · exact grouped_ne_nil _
    · exact fun c hc => numChar_of_mem_grouped hc
  · rw [if_neg hown, matchAt_other hinvestor hown, h.plain.nets investor hinvestor]

theorem findSome?_cons_line {label : String} {amt : ℤ} {amount : List Char}
    (h : RowOk (label, some amt)) (hamount : amountText amt = some amount)
    (hinvestor : investor ∈ investors) (tail : List (List Char)) :
    (lineOf label amount::tail).findSome? (netPattern investor).matchAt =
      if label = investor then some amount else tail.findSome? (netPattern investor).matchAt := by
  have hmatch := matchAt_lineOf h hamount hinvestor []
  rw [List.append_nil] at hmatch
  rw [List.findSome?_cons, hmatch]
  split_ifs <;> rfl

theorem netOf_cons (label : String) (value : Option ℤ) (rows : List Row) (investor : String) :
    netOf ((label, value)::rows) investor =
      if label = investor then value else netOf rows investor := by
  unfold netOf
  split_ifs with hown <;> simp [hown]

theorem netOf_of_not_mem (h : investor ∉ rows.map Prod.fst) : netOf rows investor = none := by
  have hfind : rows.find? (·.1 = investor) = none := by
    rw [List.find?_eq_none]
    intro q hq hsame
    exact h (List.mem_map.mpr ⟨q, hq, of_decide_eq_true hsame⟩)
  rw [netOf, hfind]
  rfl

/-- In the lines the pattern of an investor finds the investor's amount. -/
theorem findSome?_net (h : ∀ r ∈ rows, RowOk r) (hdistinct : (rows.map Prod.fst).Nodup)
    (hlines : linesOf rows = .ok lines) (hinvestor : investor ∈ investors) :
    lines.findSome? (netPattern investor).matchAt = (netOf rows investor).bind amountText := by
  induction rows generalizing lines with
  | nil =>
      rw [← Except.ok.inj hlines]
      rfl
  | cons r rows ih =>
      obtain ⟨label, value⟩ := r
      obtain ⟨hnew, hdistinct⟩ := List.nodup_cons.mp hdistinct
      have hrest := fun {ls} (hls : linesOf rows = .ok ls) =>
        ih (fun q hq => h q (List.mem_cons_of_mem _ hq)) hdistinct hls
      rw [netOf_cons]
      cases value with
      | none =>
          -- a row without an amount has no line, and the investor has no second row
          rw [hrest hlines]
          split_ifs with hown
          · rw [← hown, netOf_of_not_mem hnew]
          · rfl
      | some amt =>
          obtain ⟨amount, tail, hamount, htail, rfl⟩ := linesOf_cons hlines
          rw [findSome?_cons_line (h _ List.mem_cons_self) hamount hinvestor]
          split_ifs with hown
          · exact hamount.symm
          · exact hrest htail

/-- A pattern of shorts finds in the lines what `int` takes, if anything. -/
theorem findSome?_short (h : ∀ r ∈ rows, RowOk r) (hlines : linesOf rows = .ok lines)
    (hp : p ∈ shortPatterns) {group : List Char} (hgroup : lines.findSome? p.matchAt = some group) :
    toInt group ≠ none := by
  obtain ⟨l, hl, hmatch⟩ := List.exists_of_findSome?_eq_some hgroup
  obtain ⟨label, amt, amount, hrow, -, rfl⟩ := exists_row_of_mem hlines hl
  rw [lineOf, matchAt_short hp] at hmatch
  exact (h _ hrow).plain.shorts p hp group hmatch

theorem breaks_lineOf {label : String} {amt : ℤ} {amount : List Char} (h : RowOk (label, some amt))
    (hamount : amountText amt = some amount) : '\n' ∉ lineOf label amount := by
  rw [amountText_eq (h.digits amt rfl)] at hamount
  have hnumber : '\n' ∉ grouped (digitsOf amt.natAbs) := by
    intro hmem
    have hnum := numChar_of_mem_grouped hmem
    revert hnum
    decide +kernel
  rw [lineOf, ← Option.some.inj hamount, netSuffix_eq]
  simp only [List.mem_append, List.mem_cons, not_or]
  refine ⟨h.breaks, by decide, ⟨?_, hnumber⟩, by decide⟩
  split_ifs <;> decide

theorem breaks_of_linesOf {rows : List Row} {lines : List (List Char)} (hrows : ∀ r ∈ rows, RowOk r)
    (hlines : linesOf rows = .ok lines) : ∀ l ∈ lines, '\n' ∉ l := by
  intro l hl
  obtain ⟨label, amt, amount, hrow, hamount, rfl⟩ := exists_row_of_mem hlines hl
  exact breaks_lineOf (hrows _ hrow) hamount

end Lines

/-! ### The header -/

theorem matchAt_header {p : Pattern} (hne : p.label ≠ []) (hhead : p.label.head? ≠ some '[')
    (cs : List Char) : p.matchAt ('['::cs) = none := by
  obtain ⟨c, label, hlabel⟩ := List.exists_cons_of_ne_nil hne
  have hnot : ¬ p.label <+: '['::cs := by
    rw [hlabel, List.cons_prefix_cons]
    rintro ⟨rfl, -⟩
    exact hhead (by rw [hlabel]; rfl)
  rw [Pattern.matchAt, literal, if_neg hnot]
  rfl

theorem breaks_isoformat (d : Date) : '\n' ∉ d.isoformat := by
  have hdigits : ∀ n, '\n' ∉ digitsOf n := by
    intro n hmem
    have hplain := (plain_of_mem hmem).1
    revert hplain
    decide
  have hpadded : ∀ width n, '\n' ∉ padded width n := by
    intro width n
    simp [padded, hdigits]
  simp [Date.isoformat, hpadded]

theorem breaks_headerOf {ticker : String} (h : '\n' ∉ ticker.toList) (statDate : Date) :
    '\n' ∉ headerOf ticker statDate := by
  have hstart : '\n' ∉ "[투자자별 매매] ".toList := by decide +kernel
  have hdash : '\n' ∉ " — ".toList := by decide +kernel
  have hdate := breaks_isoformat statDate
  unfold headerOf
  generalize "[투자자별 매매] ".toList = start at hstart ⊢
  generalize " — ".toList = dash at hdash ⊢
  simp [hstart, hdash, hdate, h]

theorem headerOf_eq (ticker : String) (statDate : Date) :
    ∃ cs, headerOf ticker statDate = '['::cs := by
  have hstart : "[투자자별 매매] ".toList.head? = some '[' := by decide +kernel
  unfold headerOf
  generalize "[투자자별 매매] ".toList = start at hstart ⊢
  obtain ⟨cs, rfl⟩ := List.head?_eq_some_iff.mp hstart
  exact ⟨_, rfl⟩

/-! ### The round trip -/

theorem mem_of_netOf {rows : List Row} {investor : String} {amt : ℤ}
    (h : netOf rows investor = some amt) : (investor, some amt) ∈ rows := by
  obtain ⟨r, hfind, hvalue⟩ := Option.bind_eq_some_iff.mp h
  have hlabel : r.1 = investor := by simpa using List.find?_some hfind
  have hr : r = (investor, some amt) := Prod.ext hlabel hvalue
  exact hr ▸ List.mem_of_find?_eq_some hfind

section RoundTrip
variable {ticker : String} {statDate : Date} {rows : List Row} {lines : List (List Char)}

/-- In the whole text a pattern finds what it finds in the lines of the rows. -/
theorem search_text {p : Pattern} (statDate : Date) (hne : p.label ≠ []) (hhead : p.label.head? ≠ some '[')
    (hticker : '\n' ∉ ticker.toList) (hbreaks : ∀ l ∈ lines, '\n' ∉ l)
    (hsettled : ∀ l ∈ lines, ∀ rest, p.matchAt (l ++ rest) = p.matchAt l) :
    p.search (joinLines (headerOf ticker statDate::lines)) = lines.findSome? p.matchAt := by
  obtain ⟨cs, hcs⟩ := headerOf_eq ticker statDate
  have hheader : ∀ rest, p.matchAt (headerOf ticker statDate ++ rest) = none := by
    intro rest
    rw [hcs]
    exact matchAt_header hne hhead (cs ++ rest)
  have hfirst : p.matchAt (headerOf ticker statDate) = none := by
    simpa using hheader []
  rw [search_joinLines, List.findSome?_cons, hfirst]
  · intro l hl
    rcases List.mem_cons.mp hl with rfl | hl
    · exact breaks_headerOf hticker statDate
    · exact hbreaks l hl
  · intro l hl rest
    rcases List.mem_cons.mp hl with rfl | hl
    · rw [hheader, hfirst]
    · exact hsettled l hl rest

theorem findInt_net (statDate : Date) (hrows : ∀ r ∈ rows, RowOk r) (hdistinct : (rows.map Prod.fst).Nodup)
    (hticker : '\n' ∉ ticker.toList) (hlines : linesOf rows = .ok lines) {investor : String}
    (hinvestor : investor ∈ investors) :
    findInt (netPattern investor) (joinLines (headerOf ticker statDate::lines)) =
      .ok (netOf rows investor) := by
  have hhead : ∀ i ∈ investors, (netPattern i).label ≠ [] ∧
      (netPattern i).label.head? ≠ some '[' := by decide
  have hsearch := search_text statDate (hhead investor hinvestor).1
    (hhead investor hinvestor).2 hticker (breaks_of_linesOf hrows hlines)
    (fun l hl rest => by
      obtain ⟨label, amt, amount, hrow, hamount, rfl⟩ := exists_row_of_mem hlines hl
      have hself := matchAt_lineOf (hrows _ hrow) hamount hinvestor []
      rw [List.append_nil] at hself
      rw [matchAt_lineOf (hrows _ hrow) hamount hinvestor, hself])
  rw [findInt, hsearch, findSome?_net hrows hdistinct hlines hinvestor]
  cases hnet : netOf rows investor with
  | none => rfl
  | some amt =>
      have hdigits := (hrows _ (mem_of_netOf hnet)).digits amt rfl
      have hread := toInt_amountText hdigits
      rw [amountText_eq hdigits, Option.bind_some] at hread
      rw [Option.bind_some, amountText_eq hdigits]
      simp only [hread]

theorem findInt_short {p : Pattern} (statDate : Date) (hp : p ∈ shortPatterns) (hrows : ∀ r ∈ rows, RowOk r)
    (hticker : '\n' ∉ ticker.toList) (hlines : linesOf rows = .ok lines) :
    ∃ n, findInt p (joinLines (headerOf ticker statDate::lines)) = .ok n := by
  have hhead : ∀ q ∈ shortPatterns, q.label ≠ [] ∧ q.label.head? ≠ some '[' := by decide
  have hsearch := search_text statDate (hhead p hp).1 (hhead p hp).2 hticker
    (breaks_of_linesOf hrows hlines)
    (fun l hl rest => by
      obtain ⟨label, amt, amount, -, -, rfl⟩ := exists_row_of_mem hlines hl
      have hline : lineOf label amount ++ rest =
          label.toList ++ (netSuffix ++ (amount ++ '원'::rest)) := by
        simp [lineOf]
      rw [hline, matchAt_short hp, lineOf, matchAt_short hp])
  rw [findInt, hsearch]
  cases hfound : lines.findSome? p.matchAt with
  | none => exact ⟨none, rfl⟩
  | some group =>
      obtain ⟨n, hn⟩ := Option.ne_none_iff_exists'.mp (findSome?_short hrows hlines hp hfound)
      refine ⟨some n, ?_⟩
      simp only [hn]

/-- The amounts are read back as the table has them, and score as they do. -/
structure Recovered (rows : List Row) (features : FlowFeatures) : Prop where
  institution : features.institutionNet = netOf rows "기관합계"
  foreign : features.foreignNet = netOf rows "외국인"
  pension : features.pensionNet = netOf rows "연기금 등"
  individual : features.individualNet = netOf rows "개인"
  score : flowScore features = flowScore (featuresFromStructured (netOf rows "기관합계")
    (netOf rows "외국인") (netOf rows "개인") (netOf rows "연기금 등"))

theorem exists_recovered (hrows : ∀ r ∈ rows, RowOk r) (hdistinct : (rows.map Prod.fst).Nodup)
    (hticker : '\n' ∉ ticker.toList) (statDate : Date) :
    ∃ text features, buildInvestorChunkText ticker statDate rows = .ok text ∧
      parseFlowText text = .ok features ∧ Recovered rows features := by
  obtain ⟨lines, hlines⟩ := exists_linesOf hrows
  obtain ⟨balance, hbalance⟩ := findInt_short (p := shortBalancePattern) statDate
    (by simp [shortPatterns]) hrows hticker hlines
  obtain ⟨volume, hvolume⟩ := findInt_short (p := shortVolumePattern) statDate
    (by simp [shortPatterns]) hrows hticker hlines
  have hnet := fun investor (h : investor ∈ investors) =>
    findInt_net statDate hrows hdistinct hticker hlines h
  refine ⟨String.ofList (joinLines (headerOf ticker statDate::lines)),
    { institutionNet := netOf rows "기관합계", foreignNet := netOf rows "외국인"
      pensionNet := netOf rows "연기금 등", individualNet := netOf rows "개인"
      shortBalanceQty := balance, shortVolumeQty := volume }, ?_, ?_, ⟨rfl, rfl, rfl, rfl, rfl⟩⟩
  · rw [buildInvestorChunkText, hlines]
    rfl
  · rw [parseFlowText]
    simp only [String.toList_ofList]
    rw [hnet "기관합계" (by simp [investors]), hnet "외국인" (by simp [investors]),
      hnet "연기금 등" (by simp [investors]), hnet "개인" (by simp [investors]), hbalance, hvolume]
    rfl

end RoundTrip

/-! ### The score -/

section Score
variable (features : FlowFeatures) (inst frgn indiv : ℤ)

theorem smartRatio_mem : -1 ≤ smartRatio inst frgn indiv ∧ smartRatio inst frgn indiv ≤ 1 := by
  unfold smartRatio
  dsimp only
  split_ifs
  · norm_num
  · exact ⟨le_max_left _ _, max_le (by norm_num) (min_le_left _ _)⟩

theorem smartRatio_neg : smartRatio (-inst) (-frgn) (-indiv) = -smartRatio inst frgn indiv := by
  have hsmart : ((-inst + -frgn : ℤ) : ℚ) = -((inst + frgn : ℤ) : ℚ) := by
    push_cast
    ring
  unfold smartRatio
  dsimp only
  rw [abs_neg, abs_neg, abs_neg, hsmart]
  split_ifs
  · exact neg_zero.symm
  · have hone : (-1 : ℚ) ≤ 1 := by norm_num
    rw [neg_div, max_min_distrib_left, max_eq_right hone, ← min_neg_neg, ← max_neg_neg, neg_neg]

theorem smartRatio_scale {k : ℤ} (hk : 0 < k) :
    smartRatio (k * inst) (k * frgn) (k * indiv) = smartRatio inst frgn indiv := by
  have hdenom : |k * inst| + |k * frgn| + |k * indiv| = k * (|inst| + |frgn| + |indiv|) := by
    rw [abs_mul, abs_mul, abs_mul, abs_of_pos hk]
    ring
  have hsmart : k * inst + k * frgn = k * (inst + frgn) := by ring
  unfold smartRatio
  dsimp only
  rw [hdenom, hsmart]
  by_cases hzero : |inst| + |frgn| + |indiv| = 0
  · rw [if_pos hzero, if_pos (by rw [hzero, mul_zero])]
  · have hk' : (k : ℚ) ≠ 0 := by exact_mod_cast hk.ne'
    rw [if_neg hzero, if_neg (mul_ne_zero hk.ne' hzero), Int.cast_mul, Int.cast_mul,
      mul_div_mul_left _ _ hk']

theorem flowScore_mem : -1 ≤ flowScore features ∧ flowScore features ≤ 1 := by
  unfold flowScore
  split_ifs
  · norm_num
  · exact smartRatio_mem _ _ _

theorem flowScore_mapNets {f : ℤ → ℤ} (hf : f 0 = 0) : flowScore (features.mapNets f) =
    if features.institutionNet = none ∧ features.foreignNet = none then 0
    else smartRatio (f (features.institutionNet.getD 0)) (f (features.foreignNet.getD 0))
      (f (features.individualNet.getD 0)) := by
  have hgetD : ∀ o : Option ℤ, (o.map f).getD 0 = f (o.getD 0) := by
    intro o
    cases o with
    | none => exact hf.symm
    | some n => rfl
  simp only [flowScore, FlowFeatures.mapNets, Option.map_eq_none_iff, hgetD]

theorem flowScore_neg : flowScore (features.mapNets Neg.neg) = -flowScore features := by
  rw [flowScore_mapNets features neg_zero, flowScore]
  split_ifs
  · exact neg_zero.symm
  · exact smartRatio_neg _ _ _

theorem flowScore_scale {k : ℤ} (hk : 0 < k) :
    flowScore (features.mapNets (k * ·)) = flowScore features := by
  rw [flowScore_mapNets features (mul_zero k), flowScore]
  split_ifs
  · rfl
  · exact smartRatio_scale _ _ _ hk

end Score

/-- The amounts of plain rows survive the text, and the score is a ratio of the amounts. -/
theorem flow_text_round_trip (ticker : String) (hticker : '\n' ∉ ticker.toList) (statDate : Date)
    (rows : List Row) (hdistinct : (rows.map Prod.fst).Nodup) (hrows : ∀ r ∈ rows, RowOk r) :
    (∃ text features, buildInvestorChunkText ticker statDate rows = .ok text ∧
      parseFlowText text = .ok features ∧ Recovered rows features) ∧
    ∀ features, (-1 ≤ flowScore features ∧ flowScore features ≤ 1) ∧
      flowScore (features.mapNets Neg.neg) = -flowScore features ∧
      ∀ k : ℤ, 0 < k → flowScore (features.mapNets (k * ·)) = flowScore features :=
  ⟨exists_recovered hrows hdistinct hticker statDate, fun features =>
    ⟨flowScore_mem features, flowScore_neg features, fun _ hk => flowScore_scale features hk⟩⟩

/-- Two labels that contain each other, in a table without the others. -/
def foreignRows : List Row := [("기타외국인", some 5), ("외국인", some (-1234))]

theorem foreignRows_ok : ∀ r ∈ foreignRows, RowOk r := by
  have hbreaks : ∀ r ∈ foreignRows, '\n' ∉ r.1.toList := by decide
  have hnets : ∀ r ∈ foreignRows, ∀ i ∈ investors, (netPattern i).matchAt r.1.toList = none := by
    decide +kernel
  have hshorts : ∀ r ∈ foreignRows, ∀ p ∈ shortPatterns, p.matchAt r.1.toList = none := by
    decide +kernel
  have hdigits : ∀ r ∈ foreignRows, ∀ amt ∈ r.2, (digitsOf amt.natAbs).length ≤ maxDigits := by
    decide +kernel
  intro r hr
  refine ⟨hbreaks r hr, ⟨hnets r hr, fun p hp group hgroup => ?_⟩, hdigits r hr⟩
  rw [hshorts r hr p hp] at hgroup
  cases hgroup

theorem foreignRows_round_trip :
    ∃ text features, buildInvestorChunkText "005930" ⟨2026, 3, 2⟩ foreignRows = .ok text ∧
      parseFlowText text = .ok features ∧ Recovered foreignRows features :=
  (flow_text_round_trip "005930" (by decide) ⟨2026, 3, 2⟩ foreignRows (by decide) foreignRows_ok).1

/-- A label that ends in a number of its own is read as the institutions' amount. -/
def numberedRows : List Row := [("기관합계 순매수: 5", some 7), ("기관합계", some 3)]

theorem numberedRows_lost : ¬ ∃ text features,
    buildInvestorChunkText "005930" ⟨2026, 3, 2⟩ numberedRows = .ok text ∧
      parseFlowText text = .ok features ∧ Recovered numberedRows features := by
  have hread : ((buildInvestorChunkText "005930" ⟨2026, 3, 2⟩ numberedRows).bind parseFlowText).map
      FlowFeatures.institutionNet = .ok (some 5) := by
    decide +kernel
  rintro ⟨text, features, hbuild, hparse, hrecovered⟩
  have hbind : (Except.ok text : Except Error String).bind parseFlowText = parseFlowText text := rfl
  rw [hbuild, hbind, hparse] at hread
  have hfive : features.institutionNet = some 5 := Except.ok.inj hread
  rw [hrecovered.institution] at hfive
  exact absurd hfive (by decide)

end KisAutotrader.FlowText
