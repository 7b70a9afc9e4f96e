import Mathlib.Data.List.Pairwise
import Mathlib.Data.String.Basic
import KisAutotrader.LeftmostLongest
import KisAutotrader.OrderedDict

/-!
# Matching tickers

The matcher of stock names in a text. Its automaton is a dictionary of words, and `iter` lists the
words that end at each place of the text.
-/
namespace KisAutotrader.TickerMatching
open LeftmostLongest OrderedDict

abbrev Code := String

/-- `(code, name)`. -/
abbrev Stock := Code × String

abbrev Automaton := Dict String Stock

/-- An empty word is not added; the value of a word that was added before is replaced. -/
def addWord (automaton : Automaton) (word : String) (value : Stock) : Automaton :=
  if word = "" then automaton else automaton.set word value

def addStock (minNameLength : ℤ) (automaton : Automaton) (stock : Stock) : Automaton :=
  if stock.2.length < minNameLength then automaton else addWord automaton stock.2 stock

/-- The constructor of `TickerMatcher`. -/
def build (stocks : List Stock) (minNameLength : ℤ) : Automaton :=
  stocks.foldl (addStock minNameLength) .empty

/-- The words that end at each place, with their values. -/
def occurrences (automaton : Automaton) (text : String) : List (ℕ × Stock) :=
  (List.range text.length).flatMap fun endIdx =>
    (automaton.items.filter fun word => word.1.toList <:+ text.toList.take (endIdx + 1)).map
      fun word => (endIdx, word.2)

structure Match where
  start : ℤ
  last : ℤ
  code : Code
  length : ℕ
  deriving DecidableEq

/-- The order of `matches.sort`. -/
def Match.le (a b : Match) : Bool := a.start < b.start ∨ a.start = b.start ∧ b.length ≤ a.length

/-- The variables of the last loop; `accepted` has the matches it did not skip. -/
structure Scan where
  lastEnd : ℤ := -1
  acceptedCodes : List Code := []
  seen : List Code := []
  accepted : List Match := []

def Scan.visit (s : Scan) (m : Match) : Scan :=
  if m.start ≤ s.lastEnd then s
  else
    { lastEnd := m.last
      acceptedCodes := if m.code ∈ s.seen then s.acceptedCodes else s.acceptedCodes ++ [m.code]
      seen := if m.code ∈ s.seen then s.seen else s.seen ++ [m.code]
      accepted := s.accepted ++ [m] }

section Matcher
variable (iter : Automaton → String → List (ℕ × Stock)) (automaton : Automaton) (text : String)

def matchesIn : List Match :=
  (iter automaton text).map fun found =>
    { start := found.1 - found.2.2.length + 1, last := found.1, code := found.2.1
      length := found.2.2.length }

/-- `match`, with the matches it accepts. -/
def scan : Scan :=
  if text = "" ∨ automaton.items = [] then {}
  else ((matchesIn iter automaton text).mergeSort Match.le).foldl Scan.visit {}

def matchTickers : List Code := (scan iter automaton text).acceptedCodes

def accepted : List Match := (scan iter automaton text).accepted

end Matcher

/-- The automaton reports every occurrence of every word, in whatever order. -/
def ReportsAll (iter : Automaton → String → List (ℕ × Stock)) : Prop :=
  ∀ automaton text, (iter automaton text).Perm (occurrences automaton text)

/-- The match is an occurrence of the name. -/
def Match.Names (m : Match) (text name : String) : Prop :=
  m.length = name.length ∧ ∃ p : ℕ, m.start = p ∧ Occurs name.toList text.toList p

/-- Longest match wins. -/
structure LongestWins (iter : Automaton → String → List (ℕ × Stock)) (stocks : List Stock)
    (minNameLength : ℤ) (text : String) : Prop where
  disjoint : (accepted iter (build stocks minNameLength) text).Pairwise fun a b => a.last < b.start
  rejected : ∀ m ∈ matchesIn iter (build stocks minNameLength) text,
    m ∉ accepted iter (build stocks minNameLength) text →
      ∃ a ∈ accepted iter (build stocks minNameLength) text,
        a.start ≤ m.last ∧ m.start ≤ a.last ∧ m.length ≤ a.length
  found : ∀ a ∈ accepted iter (build stocks minNameLength) text, ∀ stock ∈ stocks,
    a.Names text stock.2 → stock.1 ∈ matchTickers iter (build stocks minNameLength) text
  nodup : (matchTickers iter (build stocks minNameLength) text).Nodup

/-- The name gets into the automaton. -/
def Eligible (minNameLength : ℤ) (name : String) : Prop := minNameLength ≤ name.length ∧ name ≠ ""

instance (minNameLength : ℤ) (name : String) : Decidable (Eligible minNameLength name) :=
  inferInstanceAs (Decidable (_ ∧ _))

def names (stocks : List Stock) (minNameLength : ℤ) : Set (List Char) :=
  {w | ∃ stock ∈ stocks, Eligible minNameLength stock.2 ∧ stock.2.toList = w}

/-- No two stocks share a name. -/
def Unambiguous (stocks : List Stock) (minNameLength : ℤ) : Prop :=
  ∀ a ∈ stocks, ∀ b ∈ stocks, Eligible minNameLength a.2 → a.2 = b.2 → a.1 = b.1

/-! ### The automaton -/

section Automaton
variable {stocks : List Stock} {minNameLength : ℤ} {name : String} {value : Stock}

theorem get?_addStock (automaton : Automaton) (stock : Stock) (name : String) :
    (addStock minNameLength automaton stock).get? name =
      if name = stock.2 then
        if minNameLength ≤ stock.2.length ∧ stock.2 ≠ "" then some stock else automaton.get? name
      else automaton.get? name := by
  unfold addStock addWord
  by_cases hshort : (stock.2.length : ℤ) < minNameLength
  · simp [hshort]
  · by_cases hempty : stock.2 = ""
    · simp [hempty]
    · simp [hshort, hempty, not_lt.mp hshort, Dict.get?_set]

theorem get?_foldl (automaton : Automaton) (stocks : List Stock)
    (h : (stocks.foldl (addStock minNameLength) automaton).get? name = some value) :
    automaton.get? name = some value ∨
      value ∈ stocks ∧ value.2 = name ∧ Eligible minNameLength name := by
  induction stocks generalizing automaton with
  | nil => exact .inl h
  | cons stock stocks ih =>
      rcases ih _ h with hbefore | ⟨hmem, hrest⟩
      · rw [get?_addStock] at hbefore
        split_ifs at hbefore with hname heligible
        · obtain rfl := Option.some.inj hbefore
          exact .inr ⟨List.mem_cons_self, hname.symm, hname ▸ heligible⟩
        · exact .inl hbefore
        · exact .inl hbefore
      · exact .inr ⟨List.mem_cons_of_mem _ hmem, hrest⟩

theorem exists_get?_foldl (automaton : Automaton) (stocks : List Stock)
    (h : (∃ value, automaton.get? name = some value) ∨
      ∃ stock ∈ stocks, stock.2 = name ∧ Eligible minNameLength name) :
    ∃ value, (stocks.foldl (addStock minNameLength) automaton).get? name = some value := by
  induction stocks generalizing automaton with
  | nil => simpa using h
  | cons stock stocks ih =>
      apply ih
      rw [get?_addStock]
      rcases h with hbefore | ⟨s, hs, rfl, heligible⟩
      · left
        split_ifs
        · exact ⟨stock, rfl⟩
        · exact hbefore
        · exact hbefore
      · rcases List.mem_cons.mp hs with rfl | hrest
        · exact .inl ⟨s, (if_pos rfl).trans (if_pos heligible)⟩
        · exact .inr ⟨s, hrest, rfl, heligible⟩

theorem of_get?_build (h : (build stocks minNameLength).get? name = some value) :
    value ∈ stocks ∧ value.2 = name ∧ Eligible minNameLength name :=
  (get?_foldl .empty stocks h).resolve_left (by simp)

theorem exists_get?_build {stock : Stock} (hmem : stock ∈ stocks)
    (heligible : Eligible minNameLength stock.2) :
    ∃ value, (build stocks minNameLength).get? stock.2 = some value :=
  exists_get?_foldl .empty stocks (.inr ⟨stock, hmem, rfl, heligible⟩)

end Automaton

/-! ### Matches and the scan -/

section Scan

/-- The match of a stock whose name begins at `p`. -/
def matchAt (stock : Stock) (p : ℕ) : Match :=
  { start := p, last := p + stock.2.length - 1, code := stock.1, length := stock.2.length }

/-- Every word of the automaton is the name of its value, and not empty. -/
def Sound (automaton : Automaton) : Prop :=
  ∀ name value, automaton.get? name = some value → value.2 = name ∧ name ≠ ""

theorem mem_occurrences {automaton : Automaton} (hsound : Sound automaton) {text : String}
    {endIdx : ℕ} {stock : Stock} :
    (endIdx, stock) ∈ occurrences automaton text ↔
      automaton.get? stock.2 = some stock ∧
        ∃ p, Occurs stock.2.toList text.toList p ∧ p + stock.2.length = endIdx + 1 := by
  have hmem : (endIdx, stock) ∈ occurrences automaton text ↔ endIdx < text.length ∧
      ∃ name, automaton.get? name = some stock ∧ name.toList <:+ text.toList.take (endIdx + 1) := by
    simp [occurrences, Dict.mem_items]
  rw [hmem]
  simp only [← String.length_toList]
  constructor
  · rintro ⟨hend, name, hget, hsuffix⟩
    obtain ⟨rfl, hne⟩ := hsound name stock hget
    exact ⟨hget, (suffix_take_iff (by simpa using hne)).mp ⟨hend, hsuffix⟩⟩
  · rintro ⟨hget, hp⟩
    have hne := (hsound stock.2 stock hget).2
    obtain ⟨hend, hsuffix⟩ := (suffix_take_iff (by simpa using hne)).mpr hp
    exact ⟨hend, stock.2, hget, hsuffix⟩

variable {iter : Automaton → String → List (ℕ × Stock)} {automaton : Automaton} {text : String}
  {m a : Match}

theorem mem_matchesIn (hiter : ReportsAll iter) (hsound : Sound automaton) :
    m ∈ matchesIn iter automaton text ↔ ∃ stock p, automaton.get? stock.2 = some stock ∧
      Occurs stock.2.toList text.toList p ∧ m = matchAt stock p := by
  have hstart : ∀ {stock : Stock} {p endIdx : ℕ}, p + stock.2.length = endIdx + 1 →
      ({ start := endIdx - stock.2.length + 1, last := endIdx, code := stock.1
         length := stock.2.length } : Match) = matchAt stock p := by
    intro stock p endIdx h
    simp only [matchAt, Match.mk.injEq, and_true]
    constructor <;> omega
  constructor
  · intro h
    obtain ⟨⟨endIdx, stock⟩, hfound, rfl⟩ := List.mem_map.mp h
    obtain ⟨hget, p, hp, hend⟩ := (mem_occurrences hsound).mp ((hiter automaton text).mem_iff.mp hfound)
    exact ⟨stock, p, hget, hp, hstart hend⟩
  · rintro ⟨stock, p, hget, hp, rfl⟩
    have hpos : 0 < stock.2.length := by
      rw [← String.length_toList]
      exact List.length_pos_of_ne_nil (by simpa using (hsound stock.2 stock hget).2)
    have hend : p + stock.2.length = (p + stock.2.length - 1) + 1 := by omega
    refine List.mem_map.mpr ⟨(p + stock.2.length - 1, stock), ?_, hstart hend⟩
    exact (hiter automaton text).mem_iff.mpr ((mem_occurrences hsound).mpr ⟨hget, p, hp, hend⟩)

theorem foldl_visit_accepted (s : Scan) (ms : List Match) :
    (ms.foldl Scan.visit s).accepted = s.accepted ++ select Match.start Match.last s.lastEnd ms := by
  induction ms generalizing s with
  | nil => simp [select]
  | cons m ms ih =>
      rw [List.foldl_cons, ih, select]
      by_cases h : m.start ≤ s.lastEnd
      · simp [Scan.visit, h]
      · simp [Scan.visit, h]

/-- The codes are those of the accepted matches, each once. -/
structure Scan.Consistent (s : Scan) : Prop where
  seen : s.seen = s.acceptedCodes
  nodup : s.acceptedCodes.Nodup
  mem : ∀ code, code ∈ s.acceptedCodes ↔ ∃ m ∈ s.accepted, m.code = code

theorem Scan.Consistent.visit {s : Scan} (h : s.Consistent) (m : Match) : (s.visit m).Consistent := by
  obtain ⟨hseen, hnodup, hmem⟩ := h
  unfold Scan.visit
  split_ifs with hskip hcode
  · exact ⟨hseen, hnodup, hmem⟩
  · refine ⟨hseen, hnodup, fun code => ?_⟩
    rw [hseen] at hcode
    simp only [List.mem_append, List.mem_singleton, or_and_right, exists_or, exists_eq_left, ← hmem]
    constructor
    · exact .inl
    · rintro (hold | rfl)
      · exact hold
      · exact hcode
  · refine ⟨by rw [hseen], ?_, fun code => ?_⟩
    · rw [hseen] at hcode
      refine List.nodup_append.mpr ⟨hnodup, List.nodup_singleton _, ?_⟩
      rintro code hold _ hnew rfl
      exact hcode (List.mem_singleton.mp hnew ▸ hold)
    · simp [or_and_right, exists_or, hmem, eq_comm]

theorem consistent_foldl {s : Scan} (h : s.Consistent) (ms : List Match) :
    (ms.foldl Scan.visit s).Consistent := by
  induction ms generalizing s with
  | nil => exact h
  | cons m ms ih => exact ih (h.visit m)

theorem scan_consistent : (scan iter automaton text).Consistent := by
  have hempty : ({} : Scan).Consistent := ⟨rfl, List.nodup_nil, by simp⟩
  unfold scan
  split_ifs
  · exact hempty
  · exact consistent_foldl hempty _

/-- What the scan makes of the matches. -/
structure Selected (found accepted : List Match) : Prop where
  subset : ∀ a ∈ accepted, a ∈ found
  disjoint : accepted.Pairwise fun a b => a.last < b.start
  covered : ∀ m ∈ found, m ∉ accepted → ∃ a ∈ accepted, a.start ≤ m.start ∧ m.start ≤ a.last
  longest : ∀ a ∈ accepted, ∀ m ∈ found, m.start = a.start → m.last ≤ a.last

theorem Match.le_trans (a b c : Match) (hab : a.le b) (hbc : b.le c) : a.le c := by
  simp only [Match.le, decide_eq_true_eq] at *
  omega

theorem Match.le_total (a b : Match) : (a.le b || b.le a) = true := by
  simp only [Match.le, Bool.or_eq_true, decide_eq_true_eq]
  omega

theorem bounds_of_mem (hiter : ReportsAll iter) (hsound : Sound automaton)
    (hm : m ∈ matchesIn iter automaton text) :
    0 ≤ m.start ∧ 0 < m.length ∧ m.last = m.start + m.length - 1 := by
  obtain ⟨stock, p, hget, -, rfl⟩ := (mem_matchesIn hiter hsound).mp hm
  have hpos : 0 < stock.2.length := by
    rw [← String.length_toList]
    exact List.length_pos_of_ne_nil (by simpa using (hsound stock.2 stock hget).2)
  exact ⟨Int.natCast_nonneg p, hpos, rfl⟩

theorem matchesIn_eq_nil (hiter : ReportsAll iter) (hsound : Sound automaton)
    (h : text = "" ∨ automaton.items = []) : matchesIn iter automaton text = [] := by
  apply List.eq_nil_iff_forall_not_mem.mpr
  intro m hm
  obtain ⟨stock, p, hget, hp, rfl⟩ := (mem_matchesIn hiter hsound).mp hm
  rcases h with rfl | hitems
  · have hnil : stock.2.toList = [] := by simpa [Occurs] using hp
    exact (hsound stock.2 stock hget).2 (by simpa using hnil)
  · have hitem := Dict.mem_items.mpr hget
    rw [hitems] at hitem
    cases hitem

theorem accepted_eq_select (hiter : ReportsAll iter) (hsound : Sound automaton) :
    accepted iter automaton text = select Match.start Match.last (-1)
      ((matchesIn iter automaton text).mergeSort Match.le) := by
  unfold accepted scan
  split_ifs with hnone
  · simp [matchesIn_eq_nil hiter hsound hnone, select]
  · rw [foldl_visit_accepted]
    rfl

theorem accepted_selected (hiter : ReportsAll iter) (hsound : Sound automaton) :
    Selected (matchesIn iter automaton text) (accepted iter automaton text) := by
  rw [accepted_eq_select hiter hsound]
  generalize hsorted : (matchesIn iter automaton text).mergeSort Match.le = sorted
  have hmem : ∀ m, m ∈ sorted ↔ m ∈ matchesIn iter automaton text := by
    intro m
    rw [← hsorted]
    exact (List.mergeSort_perm _ _).mem_iff
  have hbounds := fun m hm => bounds_of_mem hiter hsound ((hmem m).mp hm)
  have hpairwise : sorted.Pairwise fun a b => a.le b := by
    rw [← hsorted]
    exact List.pairwise_mergeSort Match.le_trans Match.le_total _
  have hstart : sorted.Pairwise fun a b => a.start ≤ b.start := by
    refine hpairwise.imp fun {a b} h => ?_
    simp only [Match.le, decide_eq_true_eq] at h
    omega
  have hlast : sorted.Pairwise fun a b => a.start = b.start → b.last ≤ a.last := by
    refine hpairwise.imp_of_mem fun {a b} ha hb h hsame => ?_
    obtain ⟨-, -, hla⟩ := hbounds a ha
    obtain ⟨-, -, hlb⟩ := hbounds b hb
    simp only [Match.le, decide_eq_true_eq] at h
    omega
  have hproper : ∀ m ∈ sorted, m.start ≤ m.last := by
    intro m hm
    obtain ⟨-, hpos, hend⟩ := hbounds m hm
    omega
  constructor
  · intro a ha
    exact (hmem a).mp ((select_sublist _ _).subset ha)
  · exact select_pairwise _ hproper
  · intro m hm hout
    have hm := (hmem m).mpr hm
    rcases covered_of_not_mem_select hstart hm hout with hbefore | hcovered
    · obtain ⟨hnonneg, -, -⟩ := hbounds m hm
      omega
    · exact hcovered
  · intro a ha m hm hsame
    exact last_le_of_mem_select hproper hlast ha ((hmem m).mpr hm) hsame

theorem Selected.eq_of_overlap {found accepted : List Match} (h : Selected found accepted) {a b : Match}
    (ha : a ∈ accepted) (hb : b ∈ accepted) (hab : a.start ≤ b.last) (hba : b.start ≤ a.last) :
    a = b := by
  by_contra hne
  have hapart : accepted.Pairwise fun a b => a.last < b.start ∨ b.last < a.start :=
    h.disjoint.imp fun hbefore => .inl hbefore
  have : Std.Symm fun a b : Match => a.last < b.start ∨ b.last < a.start := ⟨fun _ _ => Or.symm⟩
  rcases hapart.forall ha hb hne with hbefore | hbehind
  · exact absurd hba (not_le.mpr hbefore)
  · exact absurd hab (not_le.mpr hbehind)

end Scan

/-! ### Longest match wins -/

section Law
variable {iter : Automaton → String → List (ℕ × Stock)} {stocks : List Stock} {minNameLength : ℤ}
  {text : String} {m : Match} {w : List Char} {p : ℕ}

theorem sound_build (stocks : List Stock) (minNameLength : ℤ) : Sound (build stocks minNameLength) := by
  intro name value hget
  obtain ⟨-, hname, -, hne⟩ := of_get?_build hget
  exact ⟨hname, hne⟩

theorem build_selected (hiter : ReportsAll iter) (stocks : List Stock) (minNameLength : ℤ)
    (text : String) : Selected (matchesIn iter (build stocks minNameLength) text)
      (accepted iter (build stocks minNameLength) text) :=
  accepted_selected hiter (sound_build stocks minNameLength)

/-- A match is an occurrence of a name. -/
theorem word_of_mem (hiter : ReportsAll iter)
    (hm : m ∈ matchesIn iter (build stocks minNameLength) text) :
    ∃ w ∈ names stocks minNameLength, ∃ p : ℕ, m.start = p ∧ m.length = w.length ∧
      m.last = p + w.length - 1 ∧ Occurs w text.toList p := by
  obtain ⟨stock, p, hget, hp, rfl⟩ := (mem_matchesIn hiter (sound_build _ _)).mp hm
  obtain ⟨hstock, -, heligible⟩ := of_get?_build hget
  exact ⟨stock.2.toList, ⟨stock, hstock, heligible, rfl⟩, p, rfl,
    by simp [matchAt, String.length_toList], by simp [matchAt, String.length_toList], hp⟩

/-- Every occurrence of a name is a match. -/
theorem exists_match (hiter : ReportsAll iter) (hw : w ∈ names stocks minNameLength)
    (hp : Occurs w text.toList p) :
    ∃ m ∈ matchesIn iter (build stocks minNameLength) text,
      m.start = p ∧ m.length = w.length ∧ m.last = p + w.length - 1 := by
  obtain ⟨stock, hstock, heligible, rfl⟩ := hw
  obtain ⟨value, hget⟩ := exists_get?_build hstock heligible
  have hname : value.2 = stock.2 := (of_get?_build hget).2.1
  refine ⟨matchAt value p, ?_, rfl, by simp [matchAt, hname, String.length_toList],
    by simp [matchAt, hname, String.length_toList]⟩
  refine (mem_matchesIn hiter (sound_build _ _)).mpr ⟨value, p, ?_, ?_, rfl⟩
  · rw [hname, hget]
  · rw [hname]
    exact hp

theorem word_ne_nil (hw : w ∈ names stocks minNameLength) : w ≠ [] := by
  obtain ⟨stock, -, heligible, rfl⟩ := hw
  simpa using heligible.2

theorem end_le_length (hw : w ≠ []) (hp : Occurs w text.toList p) :
    p + w.length ≤ text.toList.length := by
  have hlength := List.IsPrefix.length_le hp
  have hpos := List.length_pos_of_ne_nil hw
  rw [List.length_drop] at hlength
  omega

/-- The names that begin at the start of an accepted match are not longer. -/
theorem length_le_of_accepted (hiter : ReportsAll iter) {a : Match}
    (ha : a ∈ accepted iter (build stocks minNameLength) text) (hstart : a.start = p)
    (hw : w ∈ names stocks minNameLength) (hp : Occurs w text.toList p) : w.length ≤ a.length := by
  have hselected := build_selected hiter stocks minNameLength text
  obtain ⟨m, hm, hmstart, hmlength, hmlast⟩ := exists_match hiter hw hp
  have hlongest := hselected.longest a ha m hm (hmstart.trans hstart.symm)
  obtain ⟨-, -, halast⟩ := bounds_of_mem hiter (sound_build _ _) (hselected.subset a ha)
  omega

theorem longestWins_of_absorbing (hiter : ReportsAll iter) (hnames : Unambiguous stocks minNameLength)
    (habsorbing : Absorbing (names stocks minNameLength)) (text : String) :
    LongestWins iter stocks minNameLength text := by
  have hselected := build_selected hiter stocks minNameLength text
  constructor
  · exact hselected.disjoint
  · intro m hm hout
    obtain ⟨a, ha, hleft, hwithin⟩ := hselected.covered m hm hout
    obtain ⟨A, hA, p, hap, halength, halast, hAt⟩ := word_of_mem hiter (hselected.subset a ha)
    obtain ⟨B, hB, q, hmq, hmlength, hmlast, hBt⟩ := word_of_mem hiter hm
    have hpos := List.length_pos_of_ne_nil (word_ne_nil hB)
    refine ⟨a, ha, by omega, hwithin, ?_⟩
    rw [hmlength, halength]
    refine habsorbing.length_le hA hB hAt ?_ hBt (by omega) (by omega)
    intro C hC hCt
    exact halength ▸ length_le_of_accepted hiter ha hap hC hCt
  · intro a ha stock hstock hnamed
    obtain ⟨value, p, hget, hp, rfl⟩ :=
      (mem_matchesIn hiter (sound_build _ _)).mp (hselected.subset a ha)
    obtain ⟨hlength, q, hq, hoccurs⟩ := hnamed
    obtain ⟨hvalue, -, heligible⟩ := of_get?_build hget
    have hpq : p = q := Int.ofNat_inj.mp hq
    have hname : value.2 = stock.2 := by
      have hsame : value.2.toList = stock.2.toList := by
        rw [List.prefix_iff_eq_take.mp hp, List.prefix_iff_eq_take.mp hoccurs, hpq]
        congr 1
      exact String.toList_injective hsame
    have hcode : value.1 = stock.1 := hnames value hvalue stock hstock heligible hname
    exact (scan_consistent.mem stock.1).mpr ⟨_, ha, hcode⟩
  · exact scan_consistent.nodup

/-- The match that is accepted where the text begins. -/
theorem exists_accepted_first (hiter : ReportsAll iter)
    (hm : m ∈ matchesIn iter (build stocks minNameLength) text) (hstart : m.start = 0) :
    ∃ a ∈ accepted iter (build stocks minNameLength) text, a.start = 0 ∧ m.last ≤ a.last := by
  have hselected := build_selected hiter stocks minNameLength text
  by_cases haccepted : m ∈ accepted iter (build stocks minNameLength) text
  · exact ⟨m, haccepted, hstart, le_rfl⟩
  · obtain ⟨a, ha, hleft, -⟩ := hselected.covered m hm haccepted
    obtain ⟨hnonneg, -, -⟩ := bounds_of_mem hiter (sound_build _ _) (hselected.subset a ha)
    exact ⟨a, ha, by omega, hselected.longest a ha m hm (by omega)⟩

theorem absorbing_of_longestWins (hiter : ReportsAll iter)
    (h : ∀ text, LongestWins iter stocks minNameLength text) :
    Absorbing (names stocks minNameLength) := by
  intro A hA B hB hlonger d hd hdA hoverlap
  have htext : (String.ofList (A.take d ++ B)).toList = A.take d ++ B := String.toList_ofList
  have hlength : (A.take d ++ B).length = d + B.length := by
    rw [List.length_append, List.length_take]
    omega
  have hselected := build_selected hiter stocks minNameLength (String.ofList (A.take d ++ B))
  have hAt : Occurs A (String.ofList (A.take d ++ B)).toList 0 := by
    rw [htext]
    exact occurs_left hoverlap
  have hBt : Occurs B (String.ofList (A.take d ++ B)).toList d := by
    rw [htext]
    exact occurs_right hdA
  obtain ⟨mA, hmA, hmAstart, -, hmAlast⟩ := exists_match hiter hA hAt
  obtain ⟨mB, hmB, hmBstart, hmBlength, hmBlast⟩ := exists_match hiter hB hBt
  obtain ⟨a, ha, hastart, halast⟩ := exists_accepted_first hiter hmA hmAstart
  have hout : mB ∉ accepted iter (build stocks minNameLength) (String.ofList (A.take d ++ B)) := by
    intro hin
    have hsame := hselected.eq_of_overlap ha hin (by omega) (by omega)
    rw [hsame] at hastart
    omega
  obtain ⟨b, hb, hbleft, hbright, hblonger⟩ := (h _).rejected mB hmB hout
  obtain ⟨C, hC, p, hbp, hbC, hblast, hCt⟩ := word_of_mem hiter (hselected.subset b hb)
  have hwithin := end_le_length (word_ne_nil hC) hCt
  rw [htext, hlength] at hwithin
  -- behind the first match the text is too short for a match of that length
  have hoverlaps : b.start ≤ a.last := by omega
  have hfirst : a = b := hselected.eq_of_overlap ha hb (by omega) hoverlaps
  have hp : p = 0 := by
    rw [← hfirst] at hbp
    omega
  refine ⟨C, hC, ?_, by omega⟩
  rw [hp, htext] at hCt
  exact hCt

theorem unambiguous_of_longestWins (hiter : ReportsAll iter)
    (h : ∀ text, LongestWins iter stocks minNameLength text) : Unambiguous stocks minNameLength := by
  intro s hs s' hs' heligible hname
  have hselected := build_selected hiter stocks minNameLength s.2
  have hword : s.2.toList ∈ names stocks minNameLength := ⟨s, hs, heligible, rfl⟩
  have hwhole : Occurs s.2.toList s.2.toList 0 := List.prefix_rfl
  obtain ⟨m, hm, hmstart, -, hmlast⟩ := exists_match hiter hword hwhole
  obtain ⟨a, ha, hastart, halast⟩ := exists_accepted_first hiter hm hmstart
  have hends : ∀ b ∈ accepted iter (build stocks minNameLength) s.2,
      b.last ≤ s.2.toList.length - 1 ∧ 0 ≤ b.start ∧ b.start ≤ b.last ∧
        b.last = b.start + b.length - 1 := by
    intro b hb
    obtain ⟨C, hC, p, hbp, hbC, hblast, hCt⟩ := word_of_mem hiter (hselected.subset b hb)
    have hwithin := end_le_length (word_ne_nil hC) hCt
    have hpos := List.length_pos_of_ne_nil (word_ne_nil hC)
    omega
  have hnames : a.Names s.2 s.2 := by
    obtain ⟨hlast, -, -, hlength⟩ := hends a ha
    refine ⟨?_, 0, hastart, hwhole⟩
    rw [← String.length_toList]
    omega
  have hcode : ∀ code, code ∈ matchTickers iter (build stocks minNameLength) s.2 → code = a.code := by
    intro code hcode
    obtain ⟨b, hb, rfl⟩ := (scan_consistent.mem code).mp hcode
    obtain ⟨hlast, hnonneg, hproper, -⟩ := hends b hb
    rw [hselected.eq_of_overlap ha hb (by omega) (by omega)]
  have hfound := (h s.2).found a ha
  rw [hcode s.1 (hfound s hs hnames), hcode s'.1 (hfound s' hs' (hname ▸ hnames))]

/-- The longest match wins in every text exactly if no two stocks share a name and the names
absorb those that begin within them. -/
theorem longestWins_iff (iter : Automaton → String → List (ℕ × Stock)) (hiter : ReportsAll iter)
    (stocks : List Stock) (minNameLength : ℤ) :
    (∀ text, LongestWins iter stocks minNameLength text) ↔
      Unambiguous stocks minNameLength ∧ Absorbing (names stocks minNameLength) := by
  constructor
  · intro h
    exact ⟨unambiguous_of_longestWins hiter h, absorbing_of_longestWins hiter h⟩
  · rintro ⟨hnames, habsorbing⟩
    exact longestWins_of_absorbing hiter hnames habsorbing

/-- A single stock's name always wins. -/
theorem single_longestWins :
    ReportsAll occurrences ∧ ∀ text, LongestWins occurrences [("005930", "삼성전자")] 3 text := by
  have hiter : ReportsAll occurrences := fun _ _ => .refl _
  refine ⟨hiter, (longestWins_iff occurrences hiter _ _).mpr ⟨?_, ?_⟩⟩
  · intro a ha b hb _ _
    rw [List.mem_singleton.mp ha, List.mem_singleton.mp hb]
  · rintro A ⟨a, ha, -, rfl⟩ B ⟨b, hb, -, rfl⟩ hlonger
    rw [List.mem_singleton.mp ha, List.mem_singleton.mp hb] at hlonger
    exact absurd hlonger (lt_irrefl _)

/-- In the text 가나다라마바 the shorter name, which begins first, is taken and the longer one lost. -/
theorem longer_name_lost :
    ¬ ∀ text, LongestWins occurrences [("000001", "가나다"), ("000002", "다라마바")] 3 text := by
  intro h
  have habsorbing := absorbing_of_longestWins (fun _ _ => .refl _) h
  obtain ⟨C, ⟨stock, hstock, -, rfl⟩, hbegins, hlong⟩ :=
    habsorbing "가나다".toList ⟨("000001", "가나다"), by simp, by decide, rfl⟩
      "다라마바".toList ⟨("000002", "다라마바"), by simp, by decide, rfl⟩ (by decide) 2 (by decide)
      (by decide) (by decide)
  revert hbegins hlong
  simp only [List.mem_cons, List.not_mem_nil, or_false] at hstock
  rcases hstock with rfl | rfl
  · decide
  · decide

end Law

end KisAutotrader.TickerMatching
