import KisAutotrader.Collector
import KisAutotrader.CommandText
import KisAutotrader.OrderedDict
import KisAutotrader.Rounding
import KisAutotrader.TopWeights
import Mathlib.Analysis.SpecialFunctions.Artanh

/-!
# Scores of news and disclosures

The terms of a lexicon that a text holds count by their weights, save those inside longer ones that
it holds too. More text never lowers the importance, and lowers the sentiment by bad news only.
-/
namespace KisAutotrader.NewsScore
open Collector OrderedDict Rounding Scanning TelegramBot Text TopWeights

/-- Terms and their weights. -/
abbrev Lexicon := Dict String ℚ

def positiveTerms : Lexicon where
  items := [("흑자전환", 1), ("사상최대", 1), ("최대실적", 1), ("어닝서프라이즈", 1), ("호실적", 4/5),
    ("신규수주", 9/10), ("공급계약", 4/5), ("계약체결", 4/5), ("수주", 3/5),
    ("실적개선", 7/10), ("자사주매입", 4/5), ("자사주취득", 4/5), ("배당확대", 7/10),
    ("특허취득", 3/5), ("임상성공", 1), ("품목허가", 9/10), ("흑자", 1/2),
    ("목표주가상향", 4/5), ("투자의견상향", 4/5)]
  nodup := by decide +kernel

def negativeTerms : Lexicon where
  items := [("적자전환", 1), ("어닝쇼크", 1), ("분식회계", 1), ("부도", 1), ("회생절차", 1),
    ("상장폐지", 1), ("횡령", 1), ("배임", 1), ("압수수색", 9/10), ("영업손실", 4/5),
    ("실적부진", 7/10), ("적자", 3/5), ("거래정지", 9/10), ("영업정지", 9/10),
    ("관리종목", 9/10), ("불성실공시", 4/5), ("무상감자", 4/5), ("유상증자", 7/10),
    ("리콜", 7/10), ("피소", 3/5), ("소송", 1/2), ("전환사채", 2/5),
    ("목표주가하향", 4/5), ("투자의견하향", 4/5)]
  nodup := by decide +kernel

def highImpactTerms : Lexicon where
  items := [("상장폐지", 1/2), ("부도", 1/2), ("회생절차", 1/2), ("거래정지", 2/5),
    ("영업정지", 2/5), ("횡령", 2/5), ("배임", 2/5), ("분식회계", 2/5),
    ("합병", 7/20), ("임상성공", 7/20), ("유상증자", 3/10), ("무상감자", 3/10),
    ("분할", 3/10), ("최대실적", 3/10), ("어닝서프라이즈", 3/10), ("어닝쇼크", 3/10),
    ("품목허가", 3/10), ("자사주매입", 1/4)]
  nodup := by decide +kernel

def sentimentScale : ℚ := 3/2

def importanceBase : NewsSourceType → ℚ
  | .disclosure | .earnings => 1/2
  | .report => 7/20
  | .news => 3/10

def matched (lexicon : Lexicon) (haystack : String) : List String :=
  (lexicon.items.map Prod.fst).filter fun t => contains t haystack

def weightOf (lexicon : Lexicon) (term : String) : ℚ := (lexicon.get? term).getD 0

def matchedWeight (lexicon : Lexicon) (haystack : String) : ℚ :=
  ((matched lexicon haystack).map fun term =>
    if (matched lexicon haystack).any fun other => term ≠ other && contains term other then 0
    else weightOf lexicon term).sum

structure ChunkScore (K : Type) where
  sentiment : K
  importance : K
  method : String

def method : String := "rule_v1"

def haystackOf (text : String) (title : Option String) : String := strip (title.getD "" ++ " " ++ text)

variable {K : Type} [Field K] [LinearOrder K] [FloorRing K]

/-- `_score`; the function is `math.tanh`. -/
def score (tanh : K → K) (text : String) (sourceType : NewsSourceType) (title : Option String) : ChunkScore K :=
  if haystackOf text title = "" then ⟨0, 0, method⟩
  else
    { sentiment := roundTo 4 (tanh ((matchedWeight positiveTerms (haystackOf text title) -
        matchedWeight negativeTerms (haystackOf text title) : ℚ) / sentimentScale : ℚ))
      importance := roundTo 4 (max 0 (min 1 (importanceBase sourceType +
        matchedWeight highImpactTerms (haystackOf text title) : ℚ)))
      method := method }

/-! ### Terms in one another -/

/-- A term, above those inside it. -/
structure Term where
  text : String
  deriving DecidableEq

instance : PartialOrder Term where
  le a b := contains a.text b.text = true
  le_refl a := decide_eq_true List.infix_rfl
  le_trans a b c h h' := decide_eq_true ((of_decide_eq_true h).trans (of_decide_eq_true h'))
  le_antisymm a b h h' := by
    have hab := of_decide_eq_true h
    have hba := of_decide_eq_true h'
    have htext : a.text = b.text := String.toList_inj.mp (hab.eq_of_length (le_antisymm hab.length_le hba.length_le))
    cases a
    cases b
    exact congrArg Term.mk htext

instance : DecidableLT Term := fun a b =>
  inferInstanceAs (Decidable (contains a.text b.text = true ∧ ¬contains b.text a.text = true))

theorem lt_iff {a b : Term} : a < b ↔ a.text ≠ b.text ∧ contains a.text b.text = true := by
  rw [lt_iff_le_and_ne, and_comm]
  refine and_congr_left fun _ => not_congr ⟨congrArg Term.text, fun h => ?_⟩
  cases a
  cases b
  exact congrArg Term.mk h

/-- The terms that are found. -/
def found (lexicon : Lexicon) (haystack : String) : Finset Term := ((matched lexicon haystack).map Term.mk).toFinset

theorem mem_found {lexicon : Lexicon} {haystack : String} {term : Term} :
    term ∈ found lexicon haystack ↔ term.text ∈ lexicon.items.map Prod.fst ∧ contains term.text haystack = true := by
  rw [found, List.mem_toFinset, List.mem_map]
  constructor
  · rintro ⟨text, htext, rfl⟩
    exact List.mem_filter.mp htext
  · intro h
    exact ⟨term.text, List.mem_filter.mpr h, rfl⟩

theorem nodup_terms (lexicon : Lexicon) (haystack : String) : ((matched lexicon haystack).map Term.mk).Nodup :=
  (lexicon.nodup.filter _).map fun _ _ => congrArg Term.text

def weightIn (lexicon : Lexicon) (term : Term) : ℚ := weightOf lexicon term.text

/-- What is summed up is the weight of the found terms that are in no other. -/
theorem matchedWeight_eq (lexicon : Lexicon) (haystack : String) :
    matchedWeight lexicon haystack = weight (weightIn lexicon) (found lexicon haystack) := by
  rw [TopWeights.weight, tops, Finset.sum_filter, found, List.sum_toFinset _ (nodup_terms lexicon haystack),
    matchedWeight, List.map_map]
  congr 1
  apply List.map_congr_left
  intro text _
  have hany : ((matched lexicon haystack).any fun other => text ≠ other && contains text other) = true ↔
      ¬∀ other ∈ ((matched lexicon haystack).map Term.mk).toFinset, ¬Term.mk text < other := by
    simp [lt_iff]
  rw [Function.comp_apply, weightIn]
  split_ifs with h h' h'
  · exact absurd h' (hany.mp h)
  · rfl
  · rfl
  · exact absurd (hany.mpr h') h

/-! ### More text -/

def termsOf (lexicon : Lexicon) : Finset Term := ((lexicon.items.map Prod.fst).map Term.mk).toFinset

/-- Each term weighs no less than all those in it together. -/
def Balanced (lexicon : Lexicon) : Prop :=
  ∀ y ∈ termsOf lexicon, 0 ≤ weightIn lexicon y ∧
    ∑ x ∈ termsOf lexicon with x < y, weightIn lexicon x ≤ weightIn lexicon y

instance (lexicon : Lexicon) : Decidable (Balanced lexicon) :=
  inferInstanceAs (Decidable (∀ y ∈ termsOf lexicon, _))

theorem found_subset (lexicon : Lexicon) (haystack : String) : found lexicon haystack ⊆ termsOf lexicon := by
  intro term hterm
  rw [termsOf, List.mem_toFinset, List.mem_map]
  exact ⟨term.text, (mem_found.mp hterm).1, rfl⟩

theorem Balanced.weight_mono {lexicon : Lexicon} (h : Balanced lexicon) {haystack haystack' : String}
    (hfound : found lexicon haystack ⊆ found lexicon haystack') :
    matchedWeight lexicon haystack ≤ matchedWeight lexicon haystack' := by
  rw [matchedWeight_eq, matchedWeight_eq]
  apply TopWeights.weight_mono hfound
  · intro x hx
    exact (h x (found_subset _ _ hx)).1
  · intro y hy
    calc ∑ x ∈ found lexicon haystack with x < y, weightIn lexicon x
        ≤ ∑ x ∈ termsOf lexicon with x < y, weightIn lexicon x := by
          apply Finset.sum_le_sum_of_subset_of_nonneg (Finset.filter_subset_filter _ (found_subset _ _))
          intro x hx _
          exact (h x (Finset.mem_filter.mp hx).1).1
      _ ≤ weightIn lexicon y := (h y (found_subset _ _ hy)).2

theorem balanced : Balanced positiveTerms ∧ Balanced negativeTerms ∧ Balanced highImpactTerms := by
  decide +kernel

/-! ### The text and its title -/

/-- A word is written without white space. -/
def isWord (cs : List Char) : Bool := !cs.isEmpty && cs.all fun c => !isSpace c

theorem isWord_iff {cs : List Char} : isWord cs = true ↔ cs ≠ [] ∧ ∀ c ∈ cs, ¬isSpace c = true := by
  simp [isWord]

def Words (lexicon : Lexicon) : Prop := ∀ kv ∈ lexicon.items, isWord kv.1.toList = true

instance (lexicon : Lexicon) : Decidable (Words lexicon) :=
  inferInstanceAs (Decidable (∀ kv ∈ lexicon.items, _))

theorem words : Words positiveTerms ∧ Words negativeTerms ∧ Words highImpactTerms := by
  decide +kernel

theorem infix_stripChars {w cs : List Char} (hw : isWord w = true) : w <:+: stripChars cs ↔ w <:+: cs := by
  obtain ⟨hne, hword⟩ := isWord_iff.mp hw
  obtain ⟨-, front, back, hsplit, hfront, hback⟩ := CommandText.stripChars_iff.mp (rfl : stripChars cs = stripChars cs)
  calc w <:+: stripChars cs ↔ w <:+: front ++ stripChars cs := (infix_append_left hne hword hfront).symm
    _ ↔ w <:+: front ++ stripChars cs ++ back := (infix_append_right hne hword hback).symm
    _ ↔ w <:+: cs := by rw [← hsplit]

/-- A word is found in the title or in the text, never across them. -/
theorem contains_haystackOf {word text : String} {title : Option String} (hw : isWord word.toList = true) :
    contains word (haystackOf text title) = true ↔
      contains word (title.getD "") = true ∨ contains word text = true := by
  obtain ⟨hne, hword⟩ := isWord_iff.mp hw
  simp only [contains, decide_eq_true_eq]
  rw [haystackOf, strip, String.toList_ofList, infix_stripChars hw, String.toList_append, String.toList_append,
    List.append_assoc]
  exact infix_append_cons hne hword (by decide)

/-- Every term in the one title and text is in the other. -/
def Covered (lexicon : Lexicon) (text : String) (title : Option String) (text' : String) (title' : Option String) : Prop :=
  ∀ term ∈ lexicon.items.map Prod.fst, contains term (title.getD "") = true ∨ contains term text = true →
    contains term (title'.getD "") = true ∨ contains term text' = true

theorem Covered.weight_le {lexicon : Lexicon} {text text' : String} {title title' : Option String}
    (h : Covered lexicon text title text' title') (hbalanced : Balanced lexicon) (hwords : Words lexicon) :
    matchedWeight lexicon (haystackOf text title) ≤ matchedWeight lexicon (haystackOf text' title') := by
  apply hbalanced.weight_mono
  intro term hterm
  obtain ⟨hmem, hfound⟩ := mem_found.mp hterm
  obtain ⟨kv, hkv, htext⟩ := List.mem_map.mp hmem
  have hword := hwords kv hkv
  rw [htext] at hword
  refine mem_found.mpr ⟨hmem, ?_⟩
  rw [contains_haystackOf hword] at hfound ⊢
  exact h term.text hmem hfound

/-! ### Tenths -/

def Tenths (x : ℚ) : Prop := ∃ n : ℤ, x = n / 10

theorem Tenths.add {x y : ℚ} (hx : Tenths x) (hy : Tenths y) : Tenths (x + y) := by
  obtain ⟨m, rfl⟩ := hx
  obtain ⟨n, rfl⟩ := hy
  exact ⟨m + n, by push_cast; ring⟩

theorem tenths_sum {xs : List ℚ} (h : ∀ x ∈ xs, Tenths x) : Tenths xs.sum := by
  induction xs with
  | nil => exact ⟨0, by simp⟩
  | cons x xs ih =>
    rw [List.sum_cons]
    exact (h x List.mem_cons_self).add (ih fun y hy => h y (List.mem_cons_of_mem x hy))

theorem tenths_of_den {x : ℚ} (h : (x * 10).den = 1) : Tenths x := by
  refine ⟨(x * 10).num, ?_⟩
  rw [Rat.coe_int_num_of_den_eq_one h]
  ring

theorem tenths_matchedWeight {lexicon : Lexicon} (h : ∀ text ∈ lexicon.items.map Prod.fst, (weightOf lexicon text * 10).den = 1)
    (haystack : String) : Tenths (matchedWeight lexicon haystack) := by
  apply tenths_sum
  intro x hx
  obtain ⟨text, htext, rfl⟩ := List.mem_map.mp hx
  split_ifs
  · exact ⟨0, by simp⟩
  · exact tenths_of_den (h text (List.mem_filter.mp htext).1)

theorem Tenths.lt {x y : ℚ} (hx : Tenths x) (hy : Tenths y) (h : x < y) : x + 1/10 ≤ y := by
  obtain ⟨m, rfl⟩ := hx
  obtain ⟨n, rfl⟩ := hy
  have hmn : m < n := by
    have hcast : (m : ℚ) < n := by linarith
    exact_mod_cast hcast
  have hcast : (m : ℚ) + 1 ≤ n := by exact_mod_cast hmn
  linarith

/-! ### The hyperbolic tangent -/

theorem tanh_le_tanh {x y : ℝ} (h : x ≤ y) : Real.tanh x ≤ Real.tanh y := by
  by_contra hlt
  have hle := Real.artanh_le_artanh (Real.neg_one_lt_tanh y) (Real.tanh_lt_one x) (not_le.mp hlt).le
  rw [Real.artanh_tanh, Real.artanh_tanh] at hle
  rw [le_antisymm h hle] at hlt
  exact hlt le_rfl

theorem third_le_tanh {x : ℝ} (h0 : 0 ≤ x) (h1 : x ≤ 1) : x / 3 ≤ Real.tanh x := by
  have hsinh : x ≤ Real.sinh x := Real.self_le_sinh_iff.mpr h0
  have hcosh : Real.cosh x ≤ 3 := by
    have hexp : Real.exp x ≤ Real.exp 1 := Real.exp_le_exp.mpr h1
    have hneg : Real.exp (-x) ≤ Real.exp x := Real.exp_le_exp.mpr (by linarith)
    rw [Real.cosh_eq]
    linarith [Real.exp_one_lt_three]
  rw [Real.tanh_eq_sinh_div_cosh]
  exact div_le_div₀ (h0.trans hsinh) hsinh (Real.cosh_pos x) hcosh

/-! ### What a score says -/

/-- What is good in the title and text over what is bad. -/
def net (text : String) (title : Option String) : ℚ :=
  matchedWeight positiveTerms (haystackOf text title) - matchedWeight negativeTerms (haystackOf text title)

theorem matchedWeight_empty {lexicon : Lexicon} (h : Words lexicon) : matchedWeight lexicon "" = 0 := by
  have hnone : matched lexicon "" = [] := by
    rw [matched, List.filter_eq_nil_iff]
    intro text htext hfound
    obtain ⟨kv, hkv, rfl⟩ := List.mem_map.mp htext
    have hnil : kv.1.toList = [] := List.infix_nil.mp (of_decide_eq_true hfound)
    exact (isWord_iff.mp (h kv hkv)).1 hnil
  rw [matchedWeight, hnone]
  rfl

theorem sentiment_eq (text : String) (sourceType : NewsSourceType) (title : Option String) :
    (score Real.tanh text sourceType title).sentiment = roundTo 4 (Real.tanh (net text title / sentimentScale : ℚ)) := by
  unfold score
  split_ifs with hempty
  · simp [net, hempty, matchedWeight_empty words.1, matchedWeight_empty words.2.1, roundTo, roundHalfEven]
  · rfl

theorem weight_nonneg (haystack : String) : 0 ≤ matchedWeight highImpactTerms haystack := by
  rw [matchedWeight_eq]
  apply Finset.sum_nonneg
  intro x hx
  exact (balanced.2.2 x (found_subset _ _ (mem_tops.mp hx).1)).1

theorem base_pos (sourceType : NewsSourceType) : 0 < importanceBase sourceType ∧ importanceBase sourceType ≤ 1/2 := by
  cases sourceType <;> norm_num [importanceBase]

theorem importance_eq {text : String} {title : Option String} (sourceType : NewsSourceType)
    (hvisible : haystackOf text title ≠ "") :
    (score Real.tanh text sourceType title).importance =
      roundTo 4 (min 1 ((importanceBase sourceType + matchedWeight highImpactTerms (haystackOf text title) : ℚ) : ℝ)) := by
  have hboost := weight_nonneg (haystackOf text title)
  rw [score, if_neg hvisible, max_eq_right]
  apply le_min zero_le_one
  exact_mod_cast add_nonneg (base_pos sourceType).1.le hboost

theorem importance_of_empty {text : String} {title : Option String} (sourceType : NewsSourceType)
    (hempty : haystackOf text title = "") : (score Real.tanh text sourceType title).importance = 0 := by
  rw [score, if_pos hempty]

theorem importance_mem (text : String) (sourceType : NewsSourceType) (title : Option String) :
    0 ≤ (score Real.tanh text sourceType title).importance ∧ (score Real.tanh text sourceType title).importance ≤ 1 := by
  by_cases hempty : haystackOf text title = ""
  · rw [importance_of_empty sourceType hempty]
    exact ⟨le_rfl, zero_le_one⟩
  · have hsum : (0 : ℝ) ≤ ((importanceBase sourceType + matchedWeight highImpactTerms (haystackOf text title) : ℚ) : ℝ) := by
      exact_mod_cast add_nonneg (base_pos sourceType).1.le (weight_nonneg _)
    have hmem := roundTo_mem (K := ℝ) (a := 0) (b := 1) 4 (by simpa using hsum) (by simp : min 1 _ ≤ ((1 : ℤ) : ℝ))
    rw [importance_eq sourceType hempty]
    exact_mod_cast hmem

/-- A term of the second title and text that the first do not hold. -/
def NewTerm (lexicon : Lexicon) (text : String) (title : Option String) (text' : String) (title' : Option String) : Prop :=
  ∃ term ∈ lexicon.items.map Prod.fst, (contains term (title'.getD "") = true ∨ contains term text' = true) ∧
    ¬(contains term (title.getD "") = true ∨ contains term text = true)

theorem covered_of_not_newTerm {lexicon : Lexicon} {text text' : String} {title title' : Option String}
    (h : ¬NewTerm lexicon text title text' title') : Covered lexicon text' title' text title := by
  intro term hterm hthere
  by_contra hhere
  exact h ⟨term, hterm, hthere, hhere⟩

theorem covered_of_contains {text text' : String} {title title' : Option String} (lexicon : Lexicon)
    (htitle : contains (title.getD "") (title'.getD "") = true) (htext : contains text text' = true) :
    Covered lexicon text title text' title' := by
  intro term _ hfound
  rcases hfound with hin | hin
  · exact Or.inl (decide_eq_true ((of_decide_eq_true hin).trans (of_decide_eq_true htitle)))
  · exact Or.inr (decide_eq_true ((of_decide_eq_true hin).trans (of_decide_eq_true htext)))

theorem sentiment_le {text text' : String} {title title' : Option String} (sourceType : NewsSourceType)
    (h : net text title ≤ net text' title') :
    (score Real.tanh text sourceType title).sentiment ≤ (score Real.tanh text' sourceType title').sentiment := by
  rw [sentiment_eq, sentiment_eq]
  apply roundTo_mono
  apply tanh_le_tanh
  have hscale : (0 : ℚ) ≤ sentimentScale := by norm_num [sentimentScale]
  exact_mod_cast div_le_div_of_nonneg_right h hscale

theorem haystackOf_ne_empty {text : String} {title : Option String} :
    haystackOf text title ≠ "" ↔ Visible (title.getD "") ∨ Visible text := by
  constructor
  · intro h
    obtain ⟨c, hmem, hc⟩ := visible_strip_of_ne h
    obtain ⟨-, front, back, hsplit, -, -⟩ :=
      CommandText.stripChars_iff.mp (rfl : stripChars (title.getD "" ++ " " ++ text).toList = stripChars _)
    have hall : c ∈ (title.getD "" ++ " " ++ text).toList := by
      rw [strip, String.toList_ofList] at hmem
      rw [hsplit]
      exact List.mem_append_left _ (List.mem_append_right _ hmem)
    simp only [String.toList_append, List.mem_append] at hall
    rcases hall with (htitle | hblank) | htext
    · exact Or.inl ⟨c, htitle, hc⟩
    · obtain rfl : c = ' ' := by simpa using hblank
      simp [isSpace] at hc
    · exact Or.inr ⟨c, htext, hc⟩
  · intro h
    have hvisible : Visible (title.getD "" ++ " " ++ text) := by
      rcases h with ⟨c, hmem, hc⟩ | ⟨c, hmem, hc⟩ <;> exact ⟨c, by simp [hmem], hc⟩
    exact hvisible.strip.ne_empty

theorem visible_of_contains {part text : String} (hin : contains part text = true) (h : Visible part) : Visible text := by
  obtain ⟨c, hmem, hc⟩ := h
  exact ⟨c, (of_decide_eq_true hin).subset hmem, hc⟩

theorem mono_of_more_text {text text' : String} {title title' : Option String} (sourceType : NewsSourceType)
    (htitle : contains (title.getD "") (title'.getD "") = true) (htext : contains text text' = true) :
    (score Real.tanh text sourceType title).importance ≤ (score Real.tanh text' sourceType title').importance ∧
      ((score Real.tanh text' sourceType title').sentiment < (score Real.tanh text sourceType title).sentiment →
        NewTerm negativeTerms text title text' title') ∧
      ((score Real.tanh text sourceType title).sentiment < (score Real.tanh text' sourceType title').sentiment →
        NewTerm positiveTerms text title text' title') := by
  have hpositive := (covered_of_contains positiveTerms htitle htext).weight_le balanced.1 words.1
  have hnegative := (covered_of_contains negativeTerms htitle htext).weight_le balanced.2.1 words.2.1
  have himpact := (covered_of_contains highImpactTerms htitle htext).weight_le balanced.2.2 words.2.2
  refine ⟨?_, ?_, ?_⟩
  · by_cases hempty : haystackOf text title = ""
    · rw [importance_of_empty sourceType hempty]
      exact (importance_mem text' sourceType title').1
    · have hvisible := (haystackOf_ne_empty.mp hempty).imp (visible_of_contains htitle) (visible_of_contains htext)
      rw [importance_eq sourceType hempty, importance_eq sourceType (haystackOf_ne_empty.mpr hvisible)]
      apply roundTo_mono
      apply min_le_min_left
      exact_mod_cast add_le_add_right himpact (importanceBase sourceType)
  · intro hlt
    by_contra hnew
    have hless := (covered_of_not_newTerm hnew).weight_le balanced.2.1 words.2.1
    exact hlt.not_ge (sentiment_le sourceType (by unfold net; linarith))
  · intro hlt
    by_contra hnew
    have hless := (covered_of_not_newTerm hnew).weight_le balanced.1 words.1
    exact hlt.not_ge (sentiment_le sourceType (by unfold net; linarith))

/-- A win in the title alone, then in a text that also tells of a suit. -/
theorem mono_of_more_text_suit :
    (score Real.tanh "수주" .news none).importance ≤ (score Real.tanh "신규수주, 소송" .news none).importance :=
  (@mono_of_more_text _ _ none none .news (by decide +kernel) (by decide +kernel)).1

/-! ### The sign -/

theorem tenths_net (text : String) (title : Option String) :
    Tenths (matchedWeight positiveTerms (haystackOf text title)) ∧
      Tenths (matchedWeight negativeTerms (haystackOf text title)) :=
  ⟨tenths_matchedWeight (by decide +kernel) _, tenths_matchedWeight (by decide +kernel) _⟩

/-- A thousandth survives rounding. -/
theorem roundTo_pos {x : ℝ} (h : 1/1000 ≤ x) : 0 < roundTo 4 x := by
  have hone : (1 : ℤ) ≤ roundHalfEven (x * 10 ^ 4) := by
    apply le_roundHalfEven
    push_cast
    linarith
  have hcast : (1 : ℝ) ≤ roundHalfEven (x * 10 ^ 4) := by exact_mod_cast hone
  unfold roundTo
  positivity

theorem roundTo_neg {x : ℝ} (h : x ≤ -1/1000) : roundTo 4 x < 0 := by
  have hone : roundHalfEven (x * 10 ^ 4) ≤ (-1 : ℤ) := by
    apply roundHalfEven_le
    push_cast
    linarith
  have hcast : (roundHalfEven (x * 10 ^ 4) : ℝ) ≤ -1 := by exact_mod_cast hone
  unfold roundTo
  apply div_neg_of_neg_of_pos <;> linarith

theorem tanh_far {q : ℚ} (h : 1/15 ≤ q) : 1/1000 ≤ Real.tanh q := by
  have hcast : ((1/15 : ℚ) : ℝ) ≤ q := Rat.cast_le.mpr h
  have hlow := third_le_tanh (x := ((1/15 : ℚ) : ℝ)) (by norm_num) (by norm_num)
  have hmono := tanh_le_tanh hcast
  norm_num at hlow hmono
  linarith

theorem sentiment_pos {text : String} {title : Option String} (sourceType : NewsSourceType)
    (h : matchedWeight negativeTerms (haystackOf text title) < matchedWeight positiveTerms (haystackOf text title)) :
    0 < (score Real.tanh text sourceType title).sentiment := by
  have hstep := (tenths_net text title).2.lt (tenths_net text title).1 h
  have hnet : (1/15 : ℚ) ≤ net text title / sentimentScale := by
    rw [net, sentimentScale]
    linarith
  rw [sentiment_eq]
  apply roundTo_pos
  exact tanh_far hnet

theorem sentiment_neg {text : String} {title : Option String} (sourceType : NewsSourceType)
    (h : matchedWeight positiveTerms (haystackOf text title) < matchedWeight negativeTerms (haystackOf text title)) :
    (score Real.tanh text sourceType title).sentiment < 0 := by
  have hstep := (tenths_net text title).1.lt (tenths_net text title).2 h
  have hnet : (1/15 : ℚ) ≤ -(net text title / sentimentScale) := by
    rw [net, sentimentScale]
    linarith
  have hfar := tanh_far hnet
  rw [Rat.cast_neg, Real.tanh_neg] at hfar
  rw [sentiment_eq]
  apply roundTo_neg
  linarith

theorem sentiment_zero {text : String} {title : Option String} (sourceType : NewsSourceType)
    (h : matchedWeight positiveTerms (haystackOf text title) = matchedWeight negativeTerms (haystackOf text title)) :
    (score Real.tanh text sourceType title).sentiment = 0 := by
  rw [sentiment_eq, net, h, sub_self, zero_div, Rat.cast_zero, Real.tanh_zero]
  simp [roundTo, roundHalfEven]

/-- A bonus is worth a quarter at least. -/
theorem quarter_le_weight {haystack term : String} (hterm : term ∈ highImpactTerms.items.map Prod.fst)
    (hfound : contains term haystack = true) : 1/4 ≤ matchedWeight highImpactTerms haystack := by
  obtain ⟨top, htop, -⟩ := exists_top (mem_found.mpr ⟨hterm, hfound⟩ : Term.mk term ∈ found highImpactTerms haystack)
  have hleast : ∀ x ∈ termsOf highImpactTerms, 1/4 ≤ weightIn highImpactTerms x := by decide +kernel
  rw [matchedWeight_eq]
  calc 1/4 ≤ weightIn highImpactTerms top := hleast top (found_subset _ _ (mem_tops.mp htop).1)
    _ ≤ weight (weightIn highImpactTerms) (found highImpactTerms haystack) := by
      apply Finset.single_le_sum (f := weightIn highImpactTerms) _ htop
      intro x hx
      exact (balanced.2.2 x (found_subset _ _ (mem_tops.mp hx).1)).1

theorem weight_eq_zero {haystack : String}
    (h : ∀ term ∈ highImpactTerms.items.map Prod.fst, contains term haystack ≠ true) :
    matchedWeight highImpactTerms haystack = 0 := by
  have hnone : matched highImpactTerms haystack = [] := List.filter_eq_nil_iff.mpr h
  rw [matchedWeight, hnone]
  rfl

theorem base_decimals (sourceType : NewsSourceType) : ∃ n : ℤ, importanceBase sourceType = n / 10 ^ 4 := by
  cases sourceType
  case disclosure => exact ⟨5000, by norm_num [importanceBase]⟩
  case earnings => exact ⟨5000, by norm_num [importanceBase]⟩
  case report => exact ⟨3500, by norm_num [importanceBase]⟩
  case news => exact ⟨3000, by norm_num [importanceBase]⟩

theorem importance_eq_base {text : String} {title : Option String} (sourceType : NewsSourceType)
    (hvisible : haystackOf text title ≠ "") (hnone : matchedWeight highImpactTerms (haystackOf text title) = 0) :
    (score Real.tanh text sourceType title).importance = importanceBase sourceType := by
  obtain ⟨n, hn⟩ := base_decimals sourceType
  have hle : (importanceBase sourceType : ℝ) ≤ 1 := by
    have hhalf := (base_pos sourceType).2
    exact_mod_cast hhalf.trans (by norm_num)
  rw [importance_eq sourceType hvisible, hnone, add_zero, min_eq_right hle, hn]
  push_cast
  exact roundTo_div 4 n

theorem base_lt_importance {text : String} {title : Option String} (sourceType : NewsSourceType)
    (hvisible : haystackOf text title ≠ "") (hsome : 1/4 ≤ matchedWeight highImpactTerms (haystackOf text title)) :
    (importanceBase sourceType : ℝ) < (score Real.tanh text sourceType title).importance := by
  obtain ⟨n, hn⟩ := base_decimals sourceType
  have hraised : ((((n + 2500 : ℤ) : ℚ) / 10 ^ 4 : ℚ) : ℝ) ≤
      min 1 ((importanceBase sourceType + matchedWeight highImpactTerms (haystackOf text title) : ℚ) : ℝ) := by
    have hhalf := (base_pos sourceType).2
    rw [hn] at hhalf ⊢
    apply le_min
    · have hone : ((n + 2500 : ℤ) : ℚ) / 10 ^ 4 ≤ 1 := by
        push_cast
        linarith
      exact_mod_cast hone
    · apply Rat.cast_le.mpr
      push_cast
      linarith
  calc (importanceBase sourceType : ℝ) < ((n + 2500 : ℤ) : ℝ) / 10 ^ 4 := by
        rw [hn]
        push_cast
        linarith
    _ = roundTo 4 (((n + 2500 : ℤ) : ℝ) / 10 ^ 4) := (roundTo_div 4 (n + 2500)).symm
    _ ≤ (score Real.tanh text sourceType title).importance := by
        rw [importance_eq sourceType hvisible]
        apply roundTo_mono
        exact_mod_cast hraised

theorem importance_eq_base_iff (text : String) (sourceType : NewsSourceType) (title : Option String) :
    (score Real.tanh text sourceType title).importance = importanceBase sourceType ↔
      (Visible (title.getD "") ∨ Visible text) ∧ ∀ term ∈ highImpactTerms.items.map Prod.fst,
        ¬(contains term (title.getD "") = true ∨ contains term text = true) := by
  have hword : ∀ term ∈ highImpactTerms.items.map Prod.fst, isWord term.toList = true := by
    intro term hterm
    obtain ⟨kv, hkv, rfl⟩ := List.mem_map.mp hterm
    exact words.2.2 kv hkv
  rw [← haystackOf_ne_empty]
  constructor
  · intro hbase
    have hvisible : haystackOf text title ≠ "" := by
      rintro hempty
      rw [importance_of_empty sourceType hempty] at hbase
      have hpos := (base_pos sourceType).1
      have hcast : (0 : ℝ) < importanceBase sourceType := by exact_mod_cast hpos
      linarith
    refine ⟨hvisible, ?_⟩
    intro term hterm hfound
    have hquarter := quarter_le_weight hterm ((contains_haystackOf (hword term hterm)).mpr hfound)
    exact (base_lt_importance sourceType hvisible hquarter).ne hbase.symm
  · rintro ⟨hvisible, hnone⟩
    apply importance_eq_base sourceType hvisible
    apply weight_eq_zero
    intro term hterm hfound
    exact hnone term hterm ((contains_haystackOf (hword term hterm)).mp hfound)

/-- The sentiment has the sign of what is found, the importance tells of terms of high impact. -/
theorem score_signs (text : String) (sourceType : NewsSourceType) (title : Option String) :
    (0 < (score Real.tanh text sourceType title).sentiment ↔
        matchedWeight negativeTerms (haystackOf text title) < matchedWeight positiveTerms (haystackOf text title)) ∧
      ((score Real.tanh text sourceType title).sentiment < 0 ↔
        matchedWeight positiveTerms (haystackOf text title) < matchedWeight negativeTerms (haystackOf text title)) ∧
      |(score Real.tanh text sourceType title).sentiment| ≤ 1 ∧
      (score Real.tanh text sourceType title).importance ≤ 1 ∧
      ((score Real.tanh text sourceType title).importance = importanceBase sourceType ↔
        (Visible (title.getD "") ∨ Visible text) ∧ ∀ term ∈ highImpactTerms.items.map Prod.fst,
          ¬(contains term (title.getD "") = true ∨ contains term text = true)) := by
  have hbound : |(score Real.tanh text sourceType title).sentiment| ≤ 1 := by
    rw [sentiment_eq]
    have hmem := roundTo_mem (K := ℝ) (a := -1) (b := 1) 4
      (by simpa using (Real.neg_one_lt_tanh (net text title / sentimentScale : ℚ)).le)
      (by simpa using (Real.tanh_lt_one (net text title / sentimentScale : ℚ)).le)
    rw [abs_le]
    exact_mod_cast hmem
  refine ⟨⟨?_, sentiment_pos sourceType⟩, ⟨?_, sentiment_neg sourceType⟩, hbound,
    (importance_mem text sourceType title).2, importance_eq_base_iff text sourceType title⟩
  · intro hpos
    rcases lt_trichotomy (matchedWeight negativeTerms (haystackOf text title))
      (matchedWeight positiveTerms (haystackOf text title)) with hlt | heq | hgt
    · exact hlt
    · exact absurd (sentiment_zero sourceType heq.symm) hpos.ne'
    · exact absurd (sentiment_neg sourceType hgt) hpos.not_gt
  · intro hneg
    rcases lt_trichotomy (matchedWeight positiveTerms (haystackOf text title))
      (matchedWeight negativeTerms (haystackOf text title)) with hlt | heq | hgt
    · exact hlt
    · exact absurd (sentiment_zero sourceType heq) hneg.ne
    · exact absurd (sentiment_pos sourceType hgt) hneg.not_gt

end KisAutotrader.NewsScore
