import Mathlib
import KisAutotrader.Quotes

/-!
# The case of field names

The broker's records with their field names in upper and in lower case, and what
the quote calls make of the two.
-/
namespace KisAutotrader.Quotes
open Fallible OrderedDict

/-! ### Renamed records -/

/-- `str.upper` of an ASCII text. -/
def upper (s : String) : String := String.ofList (s.toList.map Char.toUpper)

/-- The record with its field names rewritten; of fields that get one name the last stays. -/
def renamed (f : String → String) (r : Record) : Record :=
  r.items.foldl (fun d x => d.set (f x.1) x.2) Dict.empty

def Output.renamed (f : String → String) : Output → Output
  | .null => .null
  | .record r => .record (Quotes.renamed f r)
  | .records rs => .records (rs.map (Quotes.renamed f))

def Response.renamed (f : String → String) (r : Response) : Response :=
  { r with output := r.output.map (Output.renamed f), output2 := r.output2.map (Output.renamed f) }

@[simp] theorem upper_lower (s : String) : upper (lower s) = upper s := by
  simp [upper, lower, Function.comp_def]

@[simp] theorem lower_upper (s : String) : lower (upper s) = lower s := by
  simp [upper, lower, Function.comp_def]

@[simp] theorem upper_upper (s : String) : upper (upper s) = upper s := by
  simp [upper, Function.comp_def]

@[simp] theorem lower_lower (s : String) : lower (lower s) = lower s := by
  simp [lower, Function.comp_def]

theorem get?_foldl_set (f : String → String) (xs : List (String × FieldValue)) (d : Record)
    (k : String) :
    (xs.foldl (fun d x => d.set (f x.1) x.2) d).get? k =
      (((xs.filter fun x => f x.1 = k).getLast?).map Prod.snd).or (d.get? k) := by
  induction xs generalizing d with
  | nil => simp
  | cons x xs ih =>
    rw [List.foldl_cons, ih, Dict.get?_set]
    by_cases hx : f x.1 = k
    · rw [List.filter_cons_of_pos (by simpa using hx), List.getLast?_cons, if_pos hx.symm]
      cases (xs.filter fun x => f x.1 = k).getLast? <;> simp
    · rw [List.filter_cons_of_neg (by simpa using hx), if_neg (Ne.symm hx)]

theorem get?_renamed (f : String → String) (r : Record) (k : String) :
    (renamed f r).get? k = ((r.items.filter fun x => f x.1 = k).getLast?).map Prod.snd := by
  rw [renamed, get?_foldl_set]
  simp

theorem items_renamed (f : String → String) (r : Record) :
    (renamed f r).items = [] ↔ r.items = [] := by
  constructor
  · intro hempty
    by_contra hne
    obtain ⟨x, xs, hitems⟩ := List.exists_cons_of_ne_nil hne
    have hget := get?_renamed f r (f x.1)
    have hnone : (renamed f r).get? (f x.1) = none := by simp [Dict.get?, hempty, lookup]
    rw [hnone, hitems, List.filter_cons_of_pos (by simp), List.getLast?_cons] at hget
    simp at hget
  · intro hempty
    simp [renamed, hempty, Dict.empty]

/-- What a record holds under a name, whatever its case. -/
def shown (r : Record) (key : String) : Option FieldValue :=
  ((r.items.filter fun x => upper x.1 = key).getLast?).map Prod.snd

/-- An upper-case name with a letter in it. -/
def UpperName (key : String) : Prop := upper key = key ∧ lower key ≠ key

instance (key : String) : Decidable (UpperName key) :=
  decidable_of_iff
    (key.toList.map Char.toUpper = key.toList ∧ key.toList.map Char.toLower ≠ key.toList)
    (by simp [UpperName, upper, lower, String.ext_iff])

theorem get?_upper (r : Record) (key : String) : (renamed upper r).get? key = shown r key :=
  get?_renamed upper r key

theorem get?_lower (r : Record) {key : String} (h : upper key = key) :
    (renamed lower r).get? (lower key) = shown r key := by
  have hsame (name : String) : lower name = lower key ↔ upper name = key := by
    constructor
    · intro hlow
      rw [← upper_lower, hlow, upper_lower, h]
    · rintro rfl
      rw [lower_upper]
  simp only [get?_renamed, shown, hsame]

/-- No name of the upper-case record is a lower-case one. -/
theorem get?_upper_lower (r : Record) {key : String} (h : UpperName key) :
    (renamed upper r).get? (lower key) = none := by
  rw [get?_renamed, List.filter_eq_nil_iff.mpr]
  · rfl
  · intro x _ hx
    have hname : upper x.1 = lower key := by simpa using hx
    apply h.2
    rw [← hname, ← upper_upper, hname, upper_lower, h.1]

theorem get?_lower_upper (r : Record) {key : String} (h : UpperName key) :
    (renamed lower r).get? key = none := by
  rw [get?_renamed, List.filter_eq_nil_iff.mpr]
  · rfl
  · intro x _ hx
    have hname : lower x.1 = key := by simpa using hx
    apply h.2
    rw [← hname, lower_lower]

theorem get_upper (r : Record) {key : String} (h : UpperName key) (default : String) :
    get (renamed upper r) key default =
      ((shown r key).filter FieldValue.truthy).getD (.text default) := by
  rw [get, get?_upper, get?_upper_lower r h]
  rfl

theorem get_lower (r : Record) {key : String} (h : UpperName key) (default : String) :
    get (renamed lower r) key default = (shown r key).getD (.text default) := by
  rw [get, get?_lower_upper r h, get?_lower r h.1]
  rfl

/-! ### Numbers -/

/-- The calls agree when both fail, or both succeed with one result. -/
def Same {α : Type} (x y : Except Error α) : Prop := x.toOption = y.toOption

theorem Same.ok {α : Type} {x y : Except Error α} {a : α} (h : Same x y) (hx : x = .ok a) :
    y = .ok a := by
  subst hx
  cases y with
  | error e => simp [Same, Except.toOption] at h
  | ok b => simpa [Same, Except.toOption, eq_comm] using h

theorem Same.of_fail {α : Type} {x y : Except Error α} (hx : ¬ ∃ a, x = .ok a)
    (hy : ¬ ∃ a, y = .ok a) : Same x y := by
  cases x with
  | error e =>
    cases y with
    | error e' => rfl
    | ok b => exact (hy ⟨b, rfl⟩).elim
  | ok a => exact (hx ⟨a, rfl⟩).elim

/-- A field that is read as a number. -/
inductive NumberField where
  | whole (key : String)
  | decimal (key : String)

def NumberField.key : NumberField → String
  | .whole key => key
  | .decimal key => key

section Reading
variable {F : Type} (float : FloatReader F)

def NumberField.readable : NumberField → String → Bool
  | .whole _, s => (Text.parseInt s.toList).isSome
  | .decimal _, s => (float.read s).isSome

/-- The field has a number, as `_get` with the default 0 reads it. -/
def NumberField.parses (data : Record) : NumberField → Prop
  | .whole key => ∃ n, toInt (get data key "0") = .ok n
  | .decimal key => ∃ x, float.toFloat (get data key "0") = .ok x

/-- The field is there, and null or empty. -/
def Blank (r : Record) (key : String) : Prop :=
  shown r key = some .null ∨ shown r key = some (.text "")

/-- The field has a text that is not empty and no number. -/
def Unreadable (r : Record) (f : NumberField) : Prop :=
  ∃ s, shown r f.key = some (.text s) ∧ s ≠ "" ∧ f.readable float s = false

instance (r : Record) (key : String) : Decidable (Blank r key) :=
  inferInstanceAs (Decidable (_ ∨ _))

instance (r : Record) (f : NumberField) : Decidable (Unreadable float r f) :=
  match h : shown r f.key with
  | some (.text s) => decidable_of_iff (s ≠ "" ∧ f.readable float s = false) (by simp [Unreadable, h])
  | some .null => isFalse (by simp [Unreadable, h])
  | none => isFalse (by simp [Unreadable, h])

theorem parses_text {data : Record} {f : NumberField} {s : String}
    (h : get data f.key "0" = .text s) : f.parses float data ↔ f.readable float s = true := by
  cases f with
  | whole key =>
    simp only [NumberField.key] at h
    rw [NumberField.parses, NumberField.readable, h, toInt]
    cases Text.parseInt s.toList <;> simp
  | decimal key =>
    simp only [NumberField.key] at h
    rw [NumberField.parses, NumberField.readable, h, FloatReader.toFloat]
    cases float.read s <;> simp

theorem not_parses_null {data : Record} {f : NumberField} (h : get data f.key "0" = .null) :
    ¬ f.parses float data := by
  cases f with
  | whole key =>
    simp only [NumberField.key] at h
    simp [NumberField.parses, h, toInt]
  | decimal key =>
    simp only [NumberField.key] at h
    simp [NumberField.parses, h, FloatReader.toFloat]

theorem readable_zero (f : NumberField) : f.readable float "0" = true := by
  cases f with
  | whole key => rfl
  | decimal key => simp [NumberField.readable, float.read_zero]

theorem not_readable_empty (f : NumberField) : f.readable float "" = false := by
  cases f with
  | whole key => rfl
  | decimal key => simp [NumberField.readable, float.read_empty]

/-- In upper case an empty field is read as the default. -/
theorem parses_upper (r : Record) {f : NumberField} (h : UpperName f.key) :
    f.parses float (renamed upper r) ↔ ¬ Unreadable float r f := by
  have hget := get_upper r h "0"
  rcases hv : shown r f.key with _ | _ | s
  · rw [hv] at hget
    simp [parses_text float hget, readable_zero, Unreadable, hv]
  · rw [hv] at hget
    simp [parses_text float hget, readable_zero, Unreadable, hv]
  · by_cases hs : s = ""
    · subst hs
      rw [hv] at hget
      simp [parses_text float hget, readable_zero, Unreadable, hv]
    · have htext : get (renamed upper r) f.key "0" = .text s := by
        rw [hget, hv]
        simp [FieldValue.truthy, Option.filter, hs]
      simp [parses_text float htext, Unreadable, hv, hs]

/-- In lower case an empty field is read itself, and is no number. -/
theorem parses_lower (r : Record) {f : NumberField} (h : UpperName f.key) :
    f.parses float (renamed lower r) ↔ ¬ Unreadable float r f ∧ ¬ Blank r f.key := by
  have hget := get_lower r h "0"
  rcases hv : shown r f.key with _ | _ | s
  · rw [hv] at hget
    simp [parses_text float hget, readable_zero, Unreadable, Blank, hv]
  · rw [hv] at hget
    simp [not_parses_null float hget, Blank, hv]
  · rw [hv] at hget
    by_cases hs : s = ""
    · subst hs
      simp [parses_text float hget, not_readable_empty, Blank, hv]
    · simp [parses_text float hget, Unreadable, Blank, hv, hs]

/-- A field that is not blank is read alike in both cases. -/
theorem get_upper_eq_lower {r : Record} {key : String} (h : UpperName key) (hfull : ¬ Blank r key)
    (default : String) : get (renamed upper r) key default = get (renamed lower r) key default := by
  rw [get_upper r h, get_lower r h]
  rcases hv : shown r key with _ | _ | s
  · rfl
  · exact (hfull (Or.inl hv)).elim
  · have hs : s ≠ "" := by
      rintro rfl
      exact hfull (Or.inr hv)
    simp [FieldValue.truthy, Option.filter, hs]

/-- The fields make both readings fail, or both succeed. -/
def Settled (fields : List NumberField) (r : Record) : Prop :=
  (∃ f ∈ fields, Unreadable float r f) ∨ ∀ f ∈ fields, ¬ Blank r f.key

theorem settled_iff {fields : List NumberField} (hnames : ∀ f ∈ fields, UpperName f.key)
    (r : Record) :
    Settled float fields r ↔ ((∀ f ∈ fields, f.parses float (renamed upper r)) →
      ∀ f ∈ fields, f.parses float (renamed lower r)) := by
  constructor
  · rintro (⟨f, hf, hbad⟩ | hfull) hall f' hf'
    · exact (((parses_upper float r (hnames f hf)).mp (hall f hf)) hbad).elim
    · have hread := (parses_upper float r (hnames f' hf')).mp (hall f' hf')
      exact (parses_lower float r (hnames f' hf')).mpr ⟨hread, hfull f' hf'⟩
  · intro himp
    by_cases hbad : ∃ f ∈ fields, Unreadable float r f
    · exact Or.inl hbad
    · refine Or.inr fun f hf => ?_
      push Not at hbad
      have hall := himp fun f hf => (parses_upper float r (hnames f hf)).mpr (hbad f hf)
      exact ((parses_lower float r (hnames f hf)).mp (hall f hf)).2

/-- Where the upper-case record can be read and the lower-case one cannot, the fields are not
settled. -/
theorem get_eq_of_settled {fields : List NumberField} (hnames : ∀ f ∈ fields, UpperName f.key)
    {r : Record} (h : Settled float fields r)
    (hall : ∀ f ∈ fields, f.parses float (renamed upper r)) :
    ∀ f ∈ fields, get (renamed upper r) f.key "0" = get (renamed lower r) f.key "0" := by
  intro f hf
  have hlow := (settled_iff float hnames r).mp h hall f hf
  exact get_upper_eq_lower (hnames f hf) ((parses_lower float r (hnames f hf)).mp hlow).2 "0"

end Reading

/-! ### The current price -/

section Price
variable {F : Type} (float : FloatReader F)

def priceFields : List NumberField :=
  [.whole "STCK_PRPR", .whole "PRDY_VRSS", .decimal "PRDY_CTRT", .whole "ACML_VOL",
   .whole "STCK_HGPR", .whole "STCK_LWPR", .whole "STCK_OPRC"]

theorem priceFields_upper : ∀ f ∈ priceFields, UpperName f.key := by decide

/-- The price without the record it was read from, which has the names as they came. -/
def CurrentPrice.reading (p : CurrentPrice F) : CurrentPrice F := { p with rawData := Dict.empty }

theorem currentPriceOf_ok (stockCode : String) (output : Record) :
    (∃ p, currentPriceOf float stockCode output = .ok p) ↔
      ∀ f ∈ priceFields, f.parses float output := by
  constructor
  · rintro ⟨p, hp⟩
    simp only [currentPriceOf, bind_eq_ok] at hp
    obtain ⟨_, hprice, _, hchange, _, hrate, _, hvolume, _, hhigh, _, hlow, _, hopen, -⟩ := hp
    simp [priceFields, NumberField.parses, hprice, hchange, hrate, hvolume, hhigh, hlow, hopen]
  · intro h
    simp only [priceFields, List.forall_mem_cons, NumberField.parses] at h
    obtain ⟨⟨_, hprice⟩, ⟨_, hchange⟩, ⟨_, hrate⟩, ⟨_, hvolume⟩, ⟨_, hhigh⟩, ⟨_, hlow⟩, ⟨_, hopen⟩, -⟩ := h
    exact ⟨_, by simp only [currentPriceOf, hprice, hchange, hrate, hvolume, hhigh, hlow, hopen]; rfl⟩

/-- A price is read from the numbers and the name alone. -/
theorem currentPriceOf_congr (stockCode : String) {output output' : Record}
    (hnumbers : ∀ f ∈ priceFields, get output f.key "0" = get output' f.key "0")
    (hname : get output "HTS_KOR_ISNM" "" = get output' "HTS_KOR_ISNM" "") :
    Same ((currentPriceOf float stockCode output).map CurrentPrice.reading)
      ((currentPriceOf float stockCode output').map CurrentPrice.reading) := by
  simp only [priceFields, List.forall_mem_cons, NumberField.key] at hnumbers
  obtain ⟨hprice, hchange, hrate, hvolume, hhigh, hlow, hopen, -⟩ := hnumbers
  change Same (CurrentPrice.reading <$> _) (CurrentPrice.reading <$> _)
  simp only [currentPriceOf, hprice, hchange, hrate, hvolume, hhigh, hlow, hopen, hname, map_bind,
    map_pure, CurrentPrice.reading]
  rfl

/-- The two spellings of a record of the current price agree. -/
def PriceSettled (output : Record) : Prop :=
  (∃ f ∈ priceFields, Unreadable float output f) ∨
    (∀ f ∈ priceFields, ¬ Blank output f.key) ∧ shown output "HTS_KOR_ISNM" ≠ some .null

instance (output : Record) : Decidable (PriceSettled float output) :=
  inferInstanceAs (Decidable (_ ∨ _ ∧ _))

theorem get_name_eq {output : Record} :
    get (renamed upper output) "HTS_KOR_ISNM" "" = get (renamed lower output) "HTS_KOR_ISNM" "" ↔
      shown output "HTS_KOR_ISNM" ≠ some .null := by
  rw [get_upper output (by decide), get_lower output (by decide)]
  rcases shown output "HTS_KOR_ISNM" with _ | _ | s
  · simp
  · simp [FieldValue.truthy, Option.filter]
  · by_cases hs : s = "" <;> simp [FieldValue.truthy, Option.filter, hs]

theorem stockName_of_currentPriceOf {stockCode : String} {output : Record} {p : CurrentPrice F}
    (h : currentPriceOf float stockCode output = .ok p) :
    p.stockName = get output "HTS_KOR_ISNM" "" := by
  simp only [currentPriceOf, bind_eq_ok] at h
  obtain ⟨_, -, _, -, _, -, _, -, _, -, _, -, _, -, h⟩ := h
  obtain rfl := Except.ok.inj h
  rfl

theorem currentPriceOf_same_iff (stockCode : String) (output : Record) :
    Same ((currentPriceOf float stockCode (renamed upper output)).map CurrentPrice.reading)
        ((currentPriceOf float stockCode (renamed lower output)).map CurrentPrice.reading) ↔
      PriceSettled float output := by
  have hread : (∀ f ∈ priceFields, f.parses float (renamed upper output)) ↔
      ∀ f ∈ priceFields, ¬ Unreadable float output f :=
    forall₂_congr fun f hf => parses_upper float output (priceFields_upper f hf)
  by_cases hbad : ∃ f ∈ priceFields, Unreadable float output f
  · refine iff_of_true (Same.of_fail ?_ ?_) (Or.inl hbad)
    · rintro ⟨p, hp⟩
      obtain ⟨q, hq, -⟩ := map_eq_ok.mp hp
      obtain ⟨f, hf, hunread⟩ := hbad
      exact hread.mp ((currentPriceOf_ok float stockCode _).mp ⟨q, hq⟩) f hf hunread
    · rintro ⟨p, hp⟩
      obtain ⟨q, hq, -⟩ := map_eq_ok.mp hp
      obtain ⟨f, hf, hunread⟩ := hbad
      have hlow := (currentPriceOf_ok float stockCode _).mp ⟨q, hq⟩ f hf
      exact ((parses_lower float output (priceFields_upper f hf)).mp hlow).1 hunread
  · have hgood : ∀ f ∈ priceFields, f.parses float (renamed upper output) := by
      push Not at hbad
      exact hread.mpr hbad
    constructor
    · intro hsame
      obtain ⟨p, hp⟩ := (currentPriceOf_ok float stockCode _).mpr hgood
      obtain ⟨q, hq, hreading⟩ := map_eq_ok.mp (hsame.ok (map_eq_ok.mpr ⟨p, hp, rfl⟩))
      refine Or.inr ⟨fun f hf => ?_, get_name_eq.mp ?_⟩
      · have hlow := (currentPriceOf_ok float stockCode _).mp ⟨q, hq⟩ f hf
        exact ((parses_lower float output (priceFields_upper f hf)).mp hlow).2
      · rw [← stockName_of_currentPriceOf float hp, ← stockName_of_currentPriceOf float hq]
        exact (congrArg CurrentPrice.stockName hreading).symm
    · rintro (h | ⟨hfull, hname⟩)
      · exact (hbad h).elim
      · exact currentPriceOf_congr float stockCode
          (get_eq_of_settled float priceFields_upper (Or.inr hfull) hgood) (get_name_eq.mpr hname)

/-- The answer to a request for the current price leads to one result in both spellings. -/
def PriceAnswerSettled : Except Error Response → Prop
  | .error _ => True
  | .ok response =>
      match response.output.getD (.record Dict.empty) with
      | .record output => PriceSettled float output
      | _ => True

theorem output_renamed (f : String → String) (r : Response) :
    (r.renamed f).output.getD (.record Dict.empty) =
      (r.output.getD (.record Dict.empty)).renamed f := by
  rcases hout : r.output with _ | out <;> simp only [Response.renamed, hout] <;> rfl

theorem getCurrentPrice_same_iff (stockCode : String) (answer : Except Error Response) :
    Same ((getCurrentPrice float stockCode (answer.map (Response.renamed upper))).map
          CurrentPrice.reading)
        ((getCurrentPrice float stockCode (answer.map (Response.renamed lower))).map
          CurrentPrice.reading) ↔ PriceAnswerSettled float answer := by
  cases answer with
  | error e =>
    simp only [Except.map, getCurrentPrice, bind, Except.bind]
    exact iff_of_true rfl trivial
  | ok response =>
    simp only [Except.map, getCurrentPrice, bind, Except.bind, output_renamed, PriceAnswerSettled]
    cases response.output.getD (.record Dict.empty) with
    | null => exact iff_of_true rfl trivial
    | record output => exact currentPriceOf_same_iff float stockCode output
    | records items => exact iff_of_true rfl trivial

end Price

/-! ### Daily bars -/

def barFields : List NumberField :=
  [.whole "STCK_OPRC", .whole "STCK_HGPR", .whole "STCK_LWPR", .whole "STCK_CLPR", .whole "ACML_VOL"]

theorem barFields_upper : ∀ f ∈ barFields, UpperName f.key := by decide

/-- The date of a record, whatever the case of its names. -/
def shownDate (r : Record) : Option String :=
  match shown r "STCK_BSOP_DATE" with
  | some (.text dt) => if dt = "" then none else some dt
  | _ => none

theorem dateOf_upper (r : Record) : dateOf (renamed upper r) = shownDate r := by
  rw [dateOf, shownDate, get_upper r (by decide)]
  rcases shown r "STCK_BSOP_DATE" with _ | _ | s
  · rfl
  · rfl
  · by_cases hs : s = "" <;> simp [FieldValue.truthy, Option.filter, hs]

theorem dateOf_lower (r : Record) : dateOf (renamed lower r) = shownDate r := by
  rw [dateOf, shownDate, get_lower r (by decide)]
  rcases shown r "STCK_BSOP_DATE" with _ | _ | s <;> rfl

theorem dated_renamed {f : String → String} (hf : ∀ r, dateOf (renamed f r) = shownDate r)
    (seen : List String) (items : List Record) :
    dated dateOf seen (items.map (renamed f)) =
      (dated shownDate seen items).map fun x => (x.1, renamed f x.2) := by
  induction items generalizing seen with
  | nil => rfl
  | cons item items ih =>
    rw [List.map_cons]
    unfold dated
    rw [hf]
    cases shownDate item with
    | none => exact ih seen
    | some dt =>
      by_cases hseen : dt ∈ seen
      · simp only [hseen, if_true]
        exact ih seen
      · simp only [hseen, if_false, List.map_cons]
        rw [ih]

/-- After a page the call ends, or goes on with the day before the last new date. -/
def afterPage (lookbackDays : ℤ) (all fresh : List (String × Record))
    (next : ℤ → Except Error (List (String × Record))) : Except Error (List (String × Record)) :=
  if lookbackDays ≤ all.length then pure all
  else
    match fresh.getLast? with
    | none => pure all
    | some x => pageBefore x.1 >>= next

/-- The dated records that the pages bring, told from the dates alone; an error when the call fails
whatever its bars hold. -/
def takenPages (date : Record → Option String) (call : DailyCall)
    (client : DailyRequest → Except Error Response) :
    ℕ → ℤ → List (String × Record) → Except Error (List (String × Record))
  | 0, _, taken => .ok taken
  | n+1, pageEnd, taken => do
      let pageStart ← minusDays pageEnd call.firstWindowDays
      let response ← client (call.request pageStart pageEnd)
      let items ← response.outputList.elements
      let fresh := dated date (taken.map Prod.fst) items
      afterPage call.lookbackDays (taken ++ fresh) fresh fun pageEnd =>
        takenPages date call client n pageEnd (taken ++ fresh)

theorem afterPage_extends {lookbackDays : ℤ} {all fresh result : List (String × Record)}
    {next : ℤ → Except Error (List (String × Record))}
    (hnext : ∀ pageEnd out, next pageEnd = .ok out → ∃ more, out = all ++ more)
    (h : afterPage lookbackDays all fresh next = .ok result) : ∃ more, result = all ++ more := by
  unfold afterPage at h
  split_ifs at h with hlook
  · exact ⟨[], by simpa [pure, Except.pure, eq_comm] using h⟩
  · split at h
    · exact ⟨[], by simpa [pure, Except.pure, eq_comm] using h⟩
    · obtain ⟨pageEnd, -, h⟩ := bind_eq_ok.mp h
      exact hnext pageEnd result h

theorem takenPages_extends {date : Record → Option String} {call : DailyCall}
    {client : DailyRequest → Except Error Response} {n : ℕ} {pageEnd : ℤ}
    {taken all : List (String × Record)}
    (h : takenPages date call client n pageEnd taken = .ok all) : ∃ more, all = taken ++ more := by
  induction n generalizing pageEnd taken all with
  | zero => exact ⟨[], by simpa [takenPages, eq_comm] using h⟩
  | succ n ih =>
    simp only [takenPages, bind_eq_ok] at h
    obtain ⟨pageStart, -, response, -, items, -, h⟩ := h
    obtain ⟨more, rfl⟩ := afterPage_extends (fun _ _ => ih) h
    exact ⟨_, List.append_assoc ..⟩

/-- The bars of a call are those of the records it takes, unless one of them cannot be read. -/
theorem dailyPages_result (call : DailyCall) (client : DailyRequest → Except Error Response)
    (n : ℕ) (pageEnd : ℤ) {taken : List (String × Record)} {results : List DailyPriceItem}
    (hbars : dailyBars taken = .ok results) :
    Same (dailyPages call client n pageEnd results).result
      (takenPages dateOf call client n pageEnd taken >>= dailyBars) := by
  induction n generalizing pageEnd taken results with
  | zero => simp [dailyPages, takenPages, hbars, Same, bind, Except.bind]
  | succ n ih =>
    unfold dailyPages takenPages
    cases minusDays pageEnd call.firstWindowDays with
    | error e => rfl
    | ok pageStart =>
      simp only [bind, Except.bind]
      cases client (call.request pageStart pageEnd) with
      | error e => rfl
      | ok response =>
        simp only [readPage_eq, bind, Except.bind, dates_of_dailyBars hbars]
        cases response.outputList.elements with
        | error e => rfl
        | ok items =>
          simp only
          generalize hfresh : dated dateOf (taken.map Prod.fst) items = fresh
          cases hread : dailyBars fresh with
          | error e =>
            have hstuck : ∀ more, ∀ all, dailyBars (taken ++ fresh ++ more) ≠ .ok all := by
              simp [dailyBars_append, hbars, hread, bind, Except.bind]
            refine Same.of_fail (by simp) ?_
            rintro ⟨bars, hok⟩
            obtain ⟨all, hrest, hall⟩ := bind_eq_ok.mp hok
            obtain ⟨more, rfl⟩ := afterPage_extends (fun _ _ => takenPages_extends) hrest
            exact hstuck more bars hall
          | ok bars =>
            have hall : dailyBars (taken ++ fresh) = .ok (results ++ bars) := by
              simp [dailyBars_append, hbars, hread, bind, Except.bind, pure, Except.pure]
            have hlength : (results ++ bars).length = (taken ++ fresh).length := by
              simpa using congrArg List.length (dates_of_dailyBars hall)
            simp only [afterPage, hlength]
            by_cases hlook : call.lookbackDays ≤ (taken ++ fresh).length
            · simp only [if_pos hlook]
              exact congrArg Except.toOption hall.symm
            · simp only [if_neg hlook]
              rcases fresh.getLast? with _ | x
              · exact congrArg Except.toOption hall.symm
              · dsimp only
                cases pageBefore x.1 with
                | error e => rfl
                | ok next => exact ih next hall

theorem given_renamed (f : String → String) (out : Option Output) :
    given (out.map (Output.renamed f)) = (given out).map (Output.renamed f) := by
  rcases out with _ | _ | d | ds
  · rfl
  · rfl
  · by_cases hd : d.items = [] <;> simp [given, Output.renamed, items_renamed, hd]
  · by_cases hds : ds = [] <;> simp [given, Output.renamed, hds]

theorem outputList_renamed (f : String → String) (r : Response) :
    (r.renamed f).outputList = r.outputList.renamed f := by
  simp only [Response.outputList, Response.renamed, given_renamed]
  cases given r.output2 <;> cases given r.output <;> rfl

theorem elements_renamed (f : String → String) (out : Output) :
    (out.renamed f).elements = out.elements.map (List.map (renamed f)) := by
  cases out <;> rfl

/-- The client whose answers have their names rewritten. -/
def renamedClient (f : String → String) (client : DailyRequest → Except Error Response) :
    DailyRequest → Except Error Response := fun q => (client q).map (Response.renamed f)

theorem takenPages_renamed {f : String → String} (hf : ∀ r, dateOf (renamed f r) = shownDate r)
    (call : DailyCall) (client : DailyRequest → Except Error Response) (n : ℕ) (pageEnd : ℤ)
    (taken : List (String × Record)) :
    takenPages dateOf call (renamedClient f client) n pageEnd
        (taken.map fun x => (x.1, renamed f x.2)) =
      (takenPages shownDate call client n pageEnd taken).map
        (List.map fun x => (x.1, renamed f x.2)) := by
  induction n generalizing pageEnd taken with
  | zero => rfl
  | succ n ih =>
    unfold takenPages
    cases minusDays pageEnd call.firstWindowDays with
    | error e => rfl
    | ok pageStart =>
      simp only [renamedClient, bind, Except.bind]
      cases client (call.request pageStart pageEnd) with
      | error e => rfl
      | ok response =>
        simp only [Except.map, outputList_renamed, elements_renamed]
        cases response.outputList.elements with
        | error e => rfl
        | ok items =>
          have hseen : (taken.map fun x => (x.1, renamed f x.2)).map Prod.fst = taken.map Prod.fst := by
            simp
          simp only [hseen, dated_renamed hf, ← List.map_append, afterPage, List.length_map,
            List.getLast?_map]
          generalize dated shownDate (taken.map Prod.fst) items = fresh
          by_cases hlook : call.lookbackDays ≤ (taken ++ fresh).length
          · simp only [if_pos hlook]
            rfl
          · simp only [if_neg hlook]
            rcases fresh.getLast? with _ | x
            · rfl
            · dsimp only [Option.map_some]
              cases pageBefore x.1 with
              | error e => rfl
              | ok next => exact ih next (taken ++ fresh)

/-- In either spelling a call gives the bars of the records it takes. -/
theorem getDailyPrice_result {f : String → String} (hf : ∀ r, dateOf (renamed f r) = shownDate r)
    (call : DailyCall) (client : DailyRequest → Except Error Response) (today : ℤ) :
    Same (getDailyPrice call (renamedClient f client) today).result
      (takenPages shownDate call client maxCalls today [] >>= fun taken =>
        dailyBars (taken.map fun x => (x.1, renamed f x.2))) := by
  have hrun := dailyPages_result call (renamedClient f client) maxCalls today
    (show dailyBars [] = .ok [] from rfl)
  have hpages := takenPages_renamed hf call client maxCalls today []
  rw [List.map_nil] at hpages
  rw [hpages] at hrun
  refine hrun.trans ?_
  cases takenPages shownDate call client maxCalls today [] <;> rfl

section Bars
variable {F : Type} (float : FloatReader F)

theorem dailyPriceItem_ok (dt : String) (item : Record) :
    (∃ bar, dailyPriceItem dt item = .ok bar) ↔ ∀ f ∈ barFields, f.parses float item := by
  constructor
  · rintro ⟨p, hp⟩
    simp only [dailyPriceItem, bind_eq_ok] at hp
    obtain ⟨_, hopen, _, hhigh, _, hlow, _, hclose, _, hvolume, -⟩ := hp
    simp [barFields, NumberField.parses, hopen, hhigh, hlow, hclose, hvolume]
  · intro h
    simp only [barFields, List.forall_mem_cons, NumberField.parses] at h
    obtain ⟨⟨_, hopen⟩, ⟨_, hhigh⟩, ⟨_, hlow⟩, ⟨_, hclose⟩, ⟨_, hvolume⟩, -⟩ := h
    exact ⟨_, by simp only [dailyPriceItem, hopen, hhigh, hlow, hclose, hvolume]; rfl⟩

theorem dailyPriceItem_congr (dt : String) {item item' : Record}
    (h : ∀ f ∈ barFields, get item f.key "0" = get item' f.key "0") :
    dailyPriceItem dt item = dailyPriceItem dt item' := by
  simp only [barFields, List.forall_mem_cons, NumberField.key] at h
  obtain ⟨hopen, hhigh, hlow, hclose, hvolume, -⟩ := h
  simp only [dailyPriceItem, hopen, hhigh, hlow, hclose, hvolume]

theorem dailyBars_ok (xs : List (String × Record)) :
    (∃ bars, dailyBars xs = .ok bars) ↔
      ∀ x ∈ xs, ∃ bar, dailyPriceItem x.1 x.2 = .ok bar := by
  induction xs with
  | nil => simp [dailyBars, pure, Except.pure]
  | cons x xs ih =>
    rw [List.forall_mem_cons, ← ih]
    simp only [dailyBars_cons, bind_eq_ok]
    constructor
    · rintro ⟨_, bar, hbar, rest, hrest, -⟩
      exact ⟨⟨bar, hbar⟩, rest, hrest⟩
    · rintro ⟨⟨bar, hbar⟩, rest, hrest⟩
      exact ⟨_, bar, hbar, rest, hrest, rfl⟩

theorem dailyBars_congr (g g' : Record → Record) {xs : List (String × Record)}
    (h : ∀ x ∈ xs, dailyPriceItem x.1 (g x.2) = dailyPriceItem x.1 (g' x.2)) :
    dailyBars (xs.map fun x => (x.1, g x.2)) = dailyBars (xs.map fun x => (x.1, g' x.2)) := by
  induction xs with
  | nil => rfl
  | cons x xs ih =>
    obtain ⟨hx, hxs⟩ := List.forall_mem_cons.mp h
    simp only [List.map_cons, dailyBars_cons, hx, ih hxs]

/-- The two spellings of the records that a call takes agree. -/
def BarsSettled (taken : List (String × Record)) : Prop :=
  (∃ x ∈ taken, ∃ f ∈ barFields, Unreadable float x.2 f) ∨
    ∀ x ∈ taken, ∀ f ∈ barFields, ¬ Blank x.2 f.key

theorem dailyBars_same_iff (taken : List (String × Record)) :
    Same (dailyBars (taken.map fun x => (x.1, renamed upper x.2)))
        (dailyBars (taken.map fun x => (x.1, renamed lower x.2))) ↔ BarsSettled float taken := by
  have hok (f : String → String) :
      (∃ bars, dailyBars (taken.map fun x => (x.1, renamed f x.2)) = .ok bars) ↔
        ∀ x ∈ taken, ∀ field ∈ barFields, field.parses float (renamed f x.2) := by
    rw [dailyBars_ok, List.forall_mem_map]
    exact forall₂_congr fun x _ => dailyPriceItem_ok float x.1 _
  by_cases hbad : ∃ x ∈ taken, ∃ f ∈ barFields, Unreadable float x.2 f
  · obtain ⟨x, hx, f, hf, hunread⟩ := hbad
    refine iff_of_true (Same.of_fail ?_ ?_) (Or.inl ⟨x, hx, f, hf, hunread⟩)
    · intro h
      exact (parses_upper float x.2 (barFields_upper f hf)).mp ((hok upper).mp h x hx f hf) hunread
    · intro h
      exact ((parses_lower float x.2 (barFields_upper f hf)).mp ((hok lower).mp h x hx f hf)).1 hunread
  · have hgood : ∀ x ∈ taken, ∀ f ∈ barFields, f.parses float (renamed upper x.2) := by
      push Not at hbad
      exact fun x hx f hf => (parses_upper float x.2 (barFields_upper f hf)).mpr (hbad x hx f hf)
    constructor
    · intro hsame
      obtain ⟨bars, hbars⟩ := (hok upper).mpr hgood
      have hlow := (hok lower).mp ⟨bars, hsame.ok hbars⟩
      exact Or.inr fun x hx f hf =>
        ((parses_lower float x.2 (barFields_upper f hf)).mp (hlow x hx f hf)).2
    · rintro (h | hfull)
      · exact (hbad h).elim
      · apply congrArg Except.toOption
        apply dailyBars_congr
        intro x hx
        exact dailyPriceItem_congr x.1
          (get_eq_of_settled float barFields_upper (Or.inr (hfull x hx)) (hgood x hx))

/-- The answers to a call for daily bars lead to one result in both spellings. -/
def DailySettled (call : DailyCall) (client : DailyRequest → Except Error Response) (today : ℤ) :
    Prop :=
  match takenPages shownDate call client maxCalls today [] with
  | .error _ => True
  | .ok taken => BarsSettled float taken

theorem getDailyPrice_same_iff (call : DailyCall) (client : DailyRequest → Except Error Response)
    (today : ℤ) :
    Same (getDailyPrice call (renamedClient upper client) today).result
        (getDailyPrice call (renamedClient lower client) today).result ↔
      DailySettled float call client today := by
  have hupper := getDailyPrice_result dateOf_upper call client today
  have hlower := getDailyPrice_result dateOf_lower call client today
  rw [DailySettled, Same, hupper, hlower]
  simp only [bind, Except.bind]
  cases takenPages shownDate call client maxCalls today [] with
  | error e => exact iff_of_true rfl trivial
  | ok taken => exact dailyBars_same_iff float taken

end Bars

/-! ### Rankings -/

section Rank
variable {F : Type} (float : FloatReader F)

/-- No record that the loop reads has a code. -/
def Codeless (call : RankCall) (items : List Record) : Prop :=
  ∀ item ∈ items, ∀ v, shown item (upper call.codeKey) = some v → v.truthy = false

/-- The answer to a request for a ranking leads to one result in both spellings. -/
def RankSettled (call : RankCall) (topN : ℤ) : Except Error Response → Prop
  | .error _ => True
  | .ok response =>
      response.refused = true ∨
        match (given response.output).getD (.records []) with
        | .records items => Codeless call (upTo topN items)
        | _ => True

theorem codeKey_upper (call : RankCall) :
    UpperName (upper call.codeKey) ∧ lower (upper call.codeKey) = call.codeKey := by
  cases call <;> decide

/-- The ranking calls ask for the code in lower case, and find none in an upper-case record. -/
theorem code_upper (call : RankCall) (item : Record) :
    get (renamed upper item) call.codeKey "" = .text "" := by
  obtain ⟨hname, hlow⟩ := codeKey_upper call
  have hnone : (renamed upper item).get? call.codeKey = none := by
    rw [← hlow]
    exact get?_upper_lower item hname
  have hlower : lower call.codeKey = call.codeKey := by rw [← hlow, lower_lower]
  rw [get, hlower, hnone]
  rfl

theorem code_lower (call : RankCall) (item : Record) :
    get (renamed lower item) call.codeKey "" =
      (shown item (upper call.codeKey)).getD (.text "") := by
  obtain ⟨hname, hlow⟩ := codeKey_upper call
  have hget : (renamed lower item).get? call.codeKey = shown item (upper call.codeKey) := by
    rw [← get?_lower item hname.1, hlow]
  have hlower : lower call.codeKey = call.codeKey := by rw [← hlow, lower_lower]
  rw [get, hlower, hget]
  rcases shown item (upper call.codeKey) with _ | v
  · rfl
  · by_cases hv : v.truthy <;> simp [Option.filter, hv]

theorem rankItems_upper (call : RankCall) (idx : ℕ) (items : List Record) :
    rankItems float call idx (items.map (renamed upper)) = .ok [] := by
  induction items generalizing idx with
  | nil => rfl
  | cons item items ih =>
    rw [List.map_cons, rankItems, code_upper]
    exact ih (idx + 1)

/-- A record with a code is listed, or makes the call fail. -/
theorem rankItems_lower (call : RankCall) (idx : ℕ) (items : List Record) :
    rankItems float call idx (items.map (renamed lower)) = .ok [] ↔ Codeless call items := by
  induction items generalizing idx with
  | nil => exact iff_of_true rfl (by simp [Codeless])
  | cons item items ih =>
    have hcons : Codeless call (item::items) ↔
        (∀ v, shown item (upper call.codeKey) = some v → v.truthy = false) ∧
          Codeless call items := List.forall_mem_cons
    rw [List.map_cons, rankItems, code_lower, hcons]
    rcases hv : shown item (upper call.codeKey) with _ | v
    · simpa [FieldValue.truthy] using ih (idx + 1)
    · by_cases htrue : v.truthy = true
      · simp [htrue, bind_eq_ok, pure, Except.pure]
      · simpa [htrue] using ih (idx + 1)

theorem upTo_map {α β : Type} (g : α → β) (n : ℤ) (xs : List α) :
    upTo n (xs.map g) = (upTo n xs).map g := by
  unfold upTo
  split_ifs <;> simp [List.map_take]

theorem getRank_same_iff (call : RankCall) (topN : Option ℤ) (screeningTopN : ℤ)
    (answer : Except Error Response) :
    Same (getRank float call topN screeningTopN (answer.map (Response.renamed upper)))
        (getRank float call topN screeningTopN (answer.map (Response.renamed lower))) ↔
      RankSettled call (topN.getD screeningTopN) answer := by
  cases answer with
  | error e =>
    simp only [getRank, fetchRank, Except.map]
    exact iff_of_true (by cases e <;> rfl) trivial
  | ok response =>
    have hrefused (f : String → String) : (response.renamed f).refused = response.refused := rfl
    simp only [getRank, fetchRank, Except.map, hrefused, RankSettled]
    by_cases hr : response.refused = true
    · simp [hr, Same]
    · simp only [hr, Bool.false_eq_true, if_false, false_or, Response.renamed, given_renamed]
      rcases given response.output with _ | _ | d | items
      · exact iff_of_true rfl (by simp [Codeless, upTo])
      · exact iff_of_true rfl trivial
      · exact iff_of_true rfl trivial
      · simp only [Option.map_some, Option.getD_some, Output.renamed, upTo_map]
        rw [← rankItems_lower float call 1, rankItems_upper]
        constructor
        · intro hsame
          exact hsame.ok rfl
        · intro hlow
          rw [hlow]
          rfl

end Rank

/-! ### The calls -/

/-- A call with the answers of the broker. -/
inductive QuoteCall where
  | currentPrice (stockCode : String) (answer : Except Error Response)
  | dailyPrice (call : DailyCall) (client : DailyRequest → Except Error Response) (today : ℤ)
  | rank (call : RankCall) (topN : Option ℤ) (screeningTopN : ℤ) (answer : Except Error Response)

section Calls
variable {F : Type} (float : FloatReader F)

/-- With all field names in upper case and with all in lower case the call gives the same records,
or fails both times. -/
def QuoteCall.CaseBlind : QuoteCall → Prop
  | .currentPrice stockCode answer =>
      Same ((getCurrentPrice float stockCode (answer.map (Response.renamed upper))).map
          CurrentPrice.reading)
        ((getCurrentPrice float stockCode (answer.map (Response.renamed lower))).map
          CurrentPrice.reading)
  | .dailyPrice call client today =>
      Same (getDailyPrice call (renamedClient upper client) today).result
        (getDailyPrice call (renamedClient lower client) today).result
  | .rank call topN screeningTopN answer =>
      Same (getRank float call topN screeningTopN (answer.map (Response.renamed upper)))
        (getRank float call topN screeningTopN (answer.map (Response.renamed lower)))

def QuoteCall.Settled : QuoteCall → Prop
  | .currentPrice _ answer => PriceAnswerSettled float answer
  | .dailyPrice call client today => DailySettled float call client today
  | .rank call topN screeningTopN answer => RankSettled call (topN.getD screeningTopN) answer

/-- The case of the field names does not matter exactly where a number that cannot be read makes
the call fail anyway, or no field that is read is blank and no ranked record has a code. -/
theorem caseBlind_iff (call : QuoteCall) : call.CaseBlind float ↔ call.Settled float := by
  cases call with
  | currentPrice stockCode answer => exact getCurrentPrice_same_iff float stockCode answer
  | dailyPrice call client today => exact getDailyPrice_same_iff float call client today
  | rank call topN screeningTopN answer =>
    exact getRank_same_iff float call topN screeningTopN answer

end Calls

/-- A reader of whole numbers. -/
def wholeReader : FloatReader ℚ where
  read s := (Text.parseInt s.toList).map fun n => n
  zero := 0
  read_zero := rfl
  read_empty := rfl

def haltedQuote : Record := (Dict.empty.set "stck_prpr" (.text "71000")).set "acml_vol" (.text "")

def rankedRecord : Record := Dict.empty.set "stck_shrn_iscd" (.text "005930")

/-- The empty volume of a halted stock is 0 in upper case and an error in lower case, and a ranking
in upper case is empty. -/
theorem halted_case_matters :
    ¬ (QuoteCall.currentPrice "005930" (.ok { output := some (.record haltedQuote) })).CaseBlind
        wholeReader ∧
      ¬ (QuoteCall.rank .changeRate none 20
        (.ok { output := some (.records [rankedRecord]) })).CaseBlind wholeReader := by
  constructor
  · intro hblind
    have hsettled : PriceSettled wholeReader haltedQuote :=
      (getCurrentPrice_same_iff _ _ _).mp hblind
    exact absurd hsettled (by decide)
  · intro hblind
    rcases (getRank_same_iff _ _ _ _ _).mp hblind with hrefused | hcodeless
    · exact absurd hrefused (by decide)
    · exact absurd (hcodeless rankedRecord (List.mem_singleton.mpr rfl) (.text "005930") (by decide))
        (by decide)

end KisAutotrader.Quotes
