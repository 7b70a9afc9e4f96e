import KisAutotrader.Scanning
import KisAutotrader.Text
import Mathlib.Algebra.GroupWithZero.Nat

/-!
# A quoted field of a text

The first place where given words, with white space between them, lead to a value in
quotes: finding the value and replacing it. A replaced value is what is found next.
-/
namespace KisAutotrader.QuotedField
open Scanning Text

/-- The rest after the words, with white space between two of them. -/
def words : List (List Char) → List Char → Option (List Char)
  | [], cs => some cs
  | [w], cs => literal w cs
  | w::ws, cs => (literal w cs).bind fun rest => words ws (rest.dropWhile isSpace)

/-- `[^"]+` up to the quote, and what follows it. -/
def value (cs : List Char) : Option (List Char × List Char) :=
  if cs.takeWhile (· != '"') = [] then none
  else (cs.dropWhile (· != '"')).tail?.map fun post => (cs.takeWhile (· != '"'), post)

/-- The field at the front of a text: what leads to the value, the value, what follows its quote. -/
def fieldAt (ws : List (List Char)) (cs : List Char) : Option (List Char × List Char × List Char) :=
  (words (ws ++ [['"']]) cs).bind fun rest =>
    (value rest).map fun v => (cs.take (cs.length - rest.length), v.1, v.2)

/-- `re.search`: the first field at a place that the anchor allows after the character before it. -/
def find (anchor : Option Char → Bool) (ws : List (List Char)) (prev : Option Char) :
    List Char → Option (List Char × List Char × List Char)
  | [] => if anchor prev then fieldAt ws [] else none
  | c::cs =>
    (if anchor prev then fieldAt ws (c::cs) else none).or
      ((find anchor ws (some c) cs).map fun m => (c::m.1, m.2))

/-- `re.sub` of the value with `count=1`. -/
def replace (anchor : Option Char → Bool) (ws : List (List Char)) (new text : List Char) : List Char :=
  match find anchor ws none text with
  | some m => m.1 ++ new ++ '"' :: m.2.2
  | none => text

/-- The words, with white space between them. -/
inductive Spaced : List (List Char) → List Char → Prop
  | last (w : List Char) : Spaced [w] w
  | more {w v : List Char} {ws : List (List Char)} {blank t : List Char}
      (hblank : ∀ c ∈ blank, isSpace c = true) (h : Spaced (v::ws) t) :
      Spaced (w::v::ws) (w ++ blank ++ t)

/-- Each word starts with a character that is no white space. -/
def Solid (ws : List (List Char)) : Prop := ∀ w ∈ ws, ∃ c cs, w = c::cs ∧ isSpace c = false

theorem literal_iff {w cs rest : List Char} : literal w cs = some rest ↔ cs = w ++ rest := by
  unfold literal
  split_ifs with h
  · obtain ⟨t, rfl⟩ := h
    simp [eq_comm]
  · constructor
    · simp
    · rintro rfl
      exact absurd (List.prefix_append w rest) h

theorem Spaced.head {w : List Char} {ws : List (List Char)} {t : List Char} (h : Spaced (w::ws) t) :
    w <+: t := by
  cases h with
  | last => exact List.prefix_refl w
  | more hblank h =>
    rw [List.append_assoc]
    exact List.prefix_append _ _

/-- The words of a text are found in one way. -/
theorem words_iff {w : List Char} {ws : List (List Char)} (hsolid : Solid (w::ws)) {cs rest : List Char} :
    words (w::ws) cs = some rest ↔ ∃ t, Spaced (w::ws) t ∧ cs = t ++ rest := by
  induction ws generalizing w cs with
  | nil =>
    rw [words, literal_iff]
    constructor
    · intro h
      exact ⟨w, .last w, h⟩
    · rintro ⟨t, ht, rfl⟩
      cases ht
      rfl
  | cons v vs ih =>
    have hrest : Solid (v::vs) := fun u hu => hsolid u (List.mem_cons_of_mem w hu)
    rw [words, Option.bind_eq_some_iff]
    · constructor
      · rintro ⟨mid, hw, hmid⟩
        obtain rfl := literal_iff.mp hw
        obtain ⟨t, ht, hsplit⟩ := (ih hrest).mp hmid
        obtain ⟨blank, after, -, hafter, rfl, hblank, -⟩ := exists_scan isSpace mid
        rw [hafter] at hsplit
        subst hsplit
        exact ⟨w ++ blank ++ t, .more hblank ht, by simp⟩
      · rintro ⟨t, ht, rfl⟩
        cases ht with
        | @more _ _ _ blank t hblank h =>
          refine ⟨blank ++ t ++ rest, literal_iff.mpr (by simp), (ih hrest).mpr ⟨t, h, ?_⟩⟩
          obtain ⟨c, cs, hv, hc⟩ := hrest v List.mem_cons_self
          obtain ⟨tail, htail⟩ := h.head
          rw [List.append_assoc]
          refine (scan_iff.mpr ⟨rfl, hblank, ?_⟩).2
          intro d hd
          rw [← htail, hv] at hd
          obtain rfl : c = d := by simpa using hd
          exact hc
    · simp

/-- White space between the words holds no character of a word. -/
theorem Spaced.count {x : Char} (hx : isSpace x = false) {ws : List (List Char)} {t : List Char}
    (h : Spaced ws t) : t.count x = (ws.map (List.count x)).sum := by
  induction h with
  | last w => simp
  | more hblank h ih =>
    have hnone : List.count x _ = 0 := List.count_eq_zero.mpr fun hmem => by
      have hspace := hblank x hmem
      rw [hx] at hspace
      cases hspace
    rw [List.count_append, List.count_append, hnone, ih]
    simp

/-- Nothing comes before the words where they are found again. -/
theorem Spaced.once {w : List Char} {ws : List (List Char)} (hsolid : Solid (w::ws)) {b t : List Char}
    (h : Spaced (w::ws) t) (hmore : Spaced (w::ws) (b ++ t)) : b = [] := by
  obtain ⟨x, xs, hw, hx⟩ := hsolid w List.mem_cons_self
  have hcount := h.count hx
  rw [← hmore.count hx, List.count_append] at hcount
  cases b with
  | nil => rfl
  | cons c cs =>
    obtain ⟨tail, htail⟩ := hmore.head
    obtain rfl : x = c := by
      rw [hw] at htail
      exact (List.cons.inj htail).1
    rw [List.count_cons_self] at hcount
    omega

variable {ws : List (List Char)}

theorem solid_quoted (h : Solid ws) : Solid (ws ++ [['"']]) := by
  intro w hw
  obtain hw | hw := List.mem_append.mp hw
  · exact h w hw
  · exact ⟨'"', [], List.mem_singleton.mp hw, rfl⟩

/-- What leads to a value ends with the only quote in it. -/
theorem Spaced.quote (hplain : ∀ w ∈ ws, '"' ∉ w) {t : List Char} (h : Spaced (ws ++ [['"']]) t) :
    ∃ lead, t = lead ++ ['"'] ∧ '"' ∉ lead := by
  induction ws generalizing t with
  | nil =>
    cases h
    exact ⟨[], rfl, List.not_mem_nil⟩
  | cons w ws ih =>
    obtain ⟨v, vs, hvs⟩ : ∃ v vs, ws ++ [['"']] = v::vs := by cases ws <;> simp
    rw [List.cons_append, hvs] at h
    cases h with
    | @more _ _ _ blank t hblank h =>
      rw [← hvs] at h
      obtain ⟨lead, rfl, hlead⟩ := ih (fun u hu => hplain u (List.mem_cons_of_mem w hu)) h
      refine ⟨w ++ blank ++ lead, by simp, fun hmem => ?_⟩
      rw [List.mem_append, List.mem_append] at hmem
      rcases hmem with (hmem | hmem) | hmem
      · exact hplain w List.mem_cons_self hmem
      · have hspace := hblank '"' hmem
        cases hspace
      · exact hlead hmem

theorem value_iff {cs v post : List Char} :
    value cs = some (v, post) ↔ cs = v ++ '"' :: post ∧ v ≠ [] ∧ '"' ∉ v := by
  obtain ⟨front, rest, hfront, hrest, rfl, hall, hstop⟩ := exists_scan (· != '"') cs
  have hplain : '"' ∉ front := fun hmem => by simpa using hall '"' hmem
  rw [value, hfront, hrest]
  constructor
  · intro h
    split_ifs at h with hnil
    cases rest with
    | nil => simp at h
    | cons d post =>
      obtain rfl : d = '"' := by simpa using hstop d rfl
      simp only [List.tail?_cons, Option.map_some, Option.some.injEq, Prod.mk.injEq] at h
      obtain ⟨rfl, rfl⟩ := h
      exact ⟨rfl, hnil, hplain⟩
  · rintro ⟨h, hne, hv⟩
    cases rest with
    | nil =>
      rw [List.append_nil] at h
      rw [h] at hplain
      simp at hplain
    | cons d rest =>
      obtain rfl : d = '"' := by simpa using hstop d rfl
      obtain ⟨rfl, rfl⟩ := split_unique h hplain hv
      rw [if_neg hne]
      rfl

/-- What stands at the front of a text with a field. -/
theorem fieldAt_iff (hsolid : Solid ws) {cs front v post : List Char} :
    fieldAt ws cs = some (front, v, post) ↔
      Spaced (ws ++ [['"']]) front ∧ cs = front ++ (v ++ '"' :: post) ∧ v ≠ [] ∧ '"' ∉ v := by
  have hwords : ∀ rest, words (ws ++ [['"']]) cs = some rest ↔
      ∃ t, Spaced (ws ++ [['"']]) t ∧ cs = t ++ rest := by
    have hquoted := solid_quoted hsolid
    cases hws : ws ++ [['"']] with
    | nil => simp at hws
    | cons w vs =>
      rw [hws] at hquoted
      exact fun rest => words_iff hquoted
  unfold fieldAt
  rw [Option.bind_eq_some_iff]
  constructor
  · rintro ⟨rest, hrest, h⟩
    obtain ⟨x, hx, h⟩ := Option.map_eq_some_iff.mp h
    obtain ⟨t, ht, rfl⟩ := (hwords rest).mp hrest
    simp only [Prod.mk.injEq] at h
    obtain ⟨rfl, rfl, rfl⟩ := h
    obtain ⟨rfl, hne, hv⟩ := value_iff.mp (show value rest = some (x.1, x.2) from hx)
    refine ⟨?_, ?_, hne, hv⟩
    · simpa using ht
    · simp
  · rintro ⟨hfront, rfl, hne, hv⟩
    refine ⟨v ++ '"' :: post, (hwords _).mpr ⟨front, hfront, rfl⟩, ?_⟩
    rw [value_iff.mpr ⟨rfl, hne, hv⟩]
    simp

/-- What a search has found: it skips a stretch, then stands the field. -/
theorem find_spec {anchor : Option Char → Bool} (hsolid : Solid ws) {prev : Option Char}
    {text front v post : List Char} (h : find anchor ws prev text = some (front, v, post)) :
    ∃ skipped lead, front = skipped ++ lead ∧ Spaced (ws ++ [['"']]) lead ∧
      text = front ++ (v ++ '"' :: post) ∧ v ≠ [] ∧ '"' ∉ v := by
  induction text generalizing prev front with
  | nil =>
    rw [find] at h
    split_ifs at h
    obtain ⟨hlead, htext, hne, hv⟩ := (fieldAt_iff hsolid).mp h
    exact ⟨[], front, rfl, hlead, htext, hne, hv⟩
  | cons c cs ih =>
    rw [find, Option.or_eq_some_iff] at h
    obtain h | ⟨-, h⟩ := h
    · split_ifs at h
      obtain ⟨hlead, htext, hne, hv⟩ := (fieldAt_iff hsolid).mp h
      exact ⟨[], front, rfl, hlead, htext, hne, hv⟩
    · obtain ⟨⟨front, x⟩, hm, h⟩ := Option.map_eq_some_iff.mp h
      simp only [Prod.mk.injEq] at h
      obtain ⟨rfl, rfl⟩ := h
      obtain ⟨skipped, lead, hfront, hlead, htext, hne, hv⟩ := ih hm
      refine ⟨c::skipped, lead, ?_, hlead, ?_, hne, hv⟩
      · rw [hfront, List.cons_append]
      · rw [htext, List.cons_append]

/-- A field that begins in the stretch before the one found does not depend on the value found. -/
theorem fieldAt_earlier (hsolid : Solid ws) (hplain : ∀ w ∈ ws, '"' ∉ w) {b lead v new post : List Char}
    (hlead : Spaced (ws ++ [['"']]) lead) (hb : b ≠ [])
    (h : fieldAt ws (b ++ lead ++ (v ++ '"' :: post)) = none) :
    fieldAt ws (b ++ lead ++ (new ++ '"' :: post)) = none := by
  obtain ⟨l, rfl, hl⟩ := hlead.quote hplain
  by_contra hsome
  obtain ⟨⟨f, u, p⟩, hfound⟩ := Option.ne_none_iff_exists'.mp hsome
  obtain ⟨hf, htext, hne, hu⟩ := (fieldAt_iff hsolid).mp hfound
  have hone : ∀ {rest : List Char}, b ++ (l ++ ['"']) ++ (v ++ '"' :: post) = f ++ (u ++ '"' :: rest) → False := by
    intro rest hrest
    rw [(fieldAt_iff hsolid).mpr ⟨hf, hrest, hne, hu⟩] at h
    cases h
  obtain ⟨f, rfl, hfq⟩ := hf.quote hplain
  simp only [List.append_assoc, List.cons_append, List.nil_append] at htext hone
  by_cases hq : '"' ∈ b
  · -- the field's first quote stands in the stretch, its second no later than the found one's first
    obtain ⟨b₀, b₁, rfl, hb₀⟩ := List.eq_append_cons_of_mem hq
    simp only [List.append_assoc, List.cons_append] at htext hone
    obtain ⟨rfl, hrest⟩ := split_unique htext hb₀ hfq
    by_cases hq' : '"' ∈ b₁
    · obtain ⟨b₂, b₃, rfl, hb₂⟩ := List.eq_append_cons_of_mem hq'
      simp only [List.append_assoc, List.cons_append] at hrest hone
      obtain ⟨rfl, -⟩ := split_unique hrest hb₂ hu
      exact hone rfl
    · have hnone : '"' ∉ b₁ ++ l := by simp [hq', hl]
      rw [← List.append_assoc] at hrest
      obtain ⟨rfl, -⟩ := split_unique hrest hnone hu
      simp only [List.append_assoc] at hone
      exact hone rfl
  · have hnone : '"' ∉ b ++ l := by simp [hq, hl]
    rw [← List.append_assoc] at htext
    obtain ⟨rfl, -⟩ := split_unique htext hnone hfq
    rw [List.append_assoc] at hf
    obtain ⟨w, vs, hvs⟩ : ∃ w vs, ws ++ [['"']] = w::vs := by cases ws <;> simp
    have hquoted := solid_quoted hsolid
    rw [hvs] at hf hlead hquoted
    exact hb (hlead.once hquoted hf)

/-- The value put in place of the one found is found next, with nothing else changed. -/
theorem find_replaced {anchor : Option Char → Bool} (hsolid : Solid ws) (hplain : ∀ w ∈ ws, '"' ∉ w)
    {prev : Option Char} {text front v new post : List Char}
    (h : find anchor ws prev text = some (front, v, post)) (hnew : new ≠ []) (hquote : '"' ∉ new) :
    find anchor ws prev (front ++ (new ++ '"' :: post)) = some (front, new, post) := by
  induction text generalizing prev front with
  | nil =>
    obtain ⟨-, -, -, -, htext, -, -⟩ := find_spec hsolid h
    simp at htext
  | cons c cs ih =>
    rw [find, Option.or_eq_some_iff] at h
    obtain h | ⟨hfirst, h⟩ := h
    · split_ifs at h with hanchor
      obtain ⟨hlead, htext, -, -⟩ := (fieldAt_iff hsolid).mp h
      have hat : fieldAt ws (front ++ (new ++ '"' :: post)) = some (front, new, post) :=
        (fieldAt_iff hsolid).mpr ⟨hlead, rfl, hnew, hquote⟩
      cases hcons : front ++ (new ++ '"' :: post) with
      | nil => simp at hcons
      | cons d ds =>
        rw [hcons] at hat
        rw [find, if_pos hanchor, hat, Option.some_or]
    · obtain ⟨⟨front, x⟩, hm, h⟩ := Option.map_eq_some_iff.mp h
      simp only [Prod.mk.injEq] at h
      obtain ⟨rfl, rfl⟩ := h
      obtain ⟨skipped, lead, hfront, hlead, htext, -, -⟩ := find_spec hsolid hm
      have hnone : (if anchor prev then fieldAt ws (c :: (front ++ (new ++ '"' :: post))) else none) = none := by
        split_ifs at hfirst ⊢
        · rw [htext] at hfirst
          have hkept : fieldAt ws (c :: skipped ++ lead ++ (new ++ '"' :: post)) = none :=
            fieldAt_earlier hsolid hplain hlead (List.cons_ne_nil _ _)
              (by simpa only [hfront, List.cons_append] using hfirst)
          simpa only [hfront, List.cons_append] using hkept
        · rfl
      rw [List.cons_append, find, hnone, Option.none_or, ih hm]
      rfl

end KisAutotrader.QuotedField
