import KisAutotrader.Calendar
import KisAutotrader.Quotes

/-!
# The daily bars of both pages

What a call for daily bars sends, returns and raises when the broker lists the
bars of a page newest first.
-/
namespace KisAutotrader.Quotes
open Calendar Fallible

/-! ### Dated records -/

section Dated
variable (date : Record → Option String)

theorem dated_append (seen : List String) (xs ys : List Record) :
    dated date seen (xs ++ ys) =
      dated date seen xs ++ dated date (seen ++ (dated date seen xs).map Prod.fst) ys := by
  induction xs generalizing seen with
  | nil => simp [dated]
  | cons x xs ih =>
    rw [List.cons_append]
    cases hx : date x with
    | none =>
      simp only [dated, hx]
      exact ih seen
    | some dt =>
      by_cases hseen : dt ∈ seen
      · simp only [dated, hx, hseen, if_true]
        exact ih seen
      · simp only [dated, hx, hseen, if_false, ih, List.cons_append, List.map_cons,
          List.append_assoc, List.nil_append]

variable {date}

theorem mem_dated {seen : List String} {items : List Record} {x : String × Record}
    (h : x ∈ dated date seen items) : x.2 ∈ items ∧ date x.2 = some x.1 ∧ x.1 ∉ seen := by
  induction items generalizing seen with
  | nil => simp [dated] at h
  | cons item items ih =>
    unfold dated at h
    cases hdate : date item with
    | none =>
      simp only [hdate] at h
      exact ⟨List.mem_cons_of_mem _ (ih h).1, (ih h).2⟩
    | some dt =>
      simp only [hdate] at h
      split_ifs at h with hseen
      · exact ⟨List.mem_cons_of_mem _ (ih h).1, (ih h).2⟩
      · rcases List.mem_cons.mp h with rfl | h
        · exact ⟨List.mem_cons_self, hdate, hseen⟩
        · obtain ⟨hmem, hx, hnew⟩ := ih h
          exact ⟨List.mem_cons_of_mem _ hmem, hx, fun hs => hnew (List.mem_append_left _ hs)⟩

/-- Every date that is not seen yet is taken. -/
theorem dated_complete {seen : List String} {items : List Record} {item : Record} {dt : String}
    (hitem : item ∈ items) (hdate : date item = some dt) (hnew : dt ∉ seen) :
    dt ∈ (dated date seen items).map Prod.fst := by
  induction items generalizing seen with
  | nil => simp at hitem
  | cons first items ih =>
    unfold dated
    rcases List.mem_cons.mp hitem with rfl | hitem
    · simp [hdate, hnew]
    · cases hfirst : date first with
      | none => exact ih hitem hnew
      | some dt' =>
        by_cases hseen : dt' ∈ seen
        · simpa [hseen] using ih hitem hnew
        · simp only [hseen, if_false, List.map_cons, List.mem_cons]
          by_cases hsame : dt = dt'
          · exact Or.inl hsame
          · exact Or.inr (ih hitem (by simp [hnew, hsame]))

theorem dated_nodup (seen : List String) (items : List Record) :
    ((dated date seen items).map Prod.fst).Nodup := by
  induction items generalizing seen with
  | nil => simp [dated]
  | cons item items ih =>
    unfold dated
    cases date item with
    | none => exact ih seen
    | some dt =>
      by_cases hseen : dt ∈ seen
      · simpa [hseen] using ih seen
      · simp only [hseen, if_false, List.map_cons, List.nodup_cons]
        refine ⟨fun hmem => ?_, ih _⟩
        obtain ⟨x, hx, rfl⟩ := List.mem_map.mp hmem
        exact (mem_dated hx).2.2 (by simp)

theorem dated_sublist (seen : List String) (items : List Record) :
    ((dated date seen items).map Prod.fst).Sublist (items.filterMap date) := by
  induction items generalizing seen with
  | nil => simp [dated]
  | cons item items ih =>
    unfold dated
    cases hdate : date item with
    | none => simpa [hdate] using ih seen
    | some dt =>
      by_cases hseen : dt ∈ seen
      · simpa [hdate, hseen] using (ih seen).cons dt
      · simpa [hdate, hseen] using ih (seen ++ [dt])

end Dated

/-! ### Newest first -/

/-- The dates name two days, the first one later. -/
def Newer (a b : String) : Prop :=
  ∃ d e, Disclosures.strptime a = some d ∧ Disclosures.strptime b = some e ∧ e < d

/-- The records of an answer, unless it is no list. -/
def listOf (answer : Except Error Response) : Except Error (List Record) :=
  answer >>= fun response => response.outputList.elements

def recordsOf (answer : Except Error Response) : List Record := (listOf answer).toOption.getD []

def Fetch.received (fetch : Fetch) : List Record := fetch.sent.flatMap fun x => recordsOf x.2

/-- The dated records of a page are in the range that was asked for, the newest first; dates may be
missing or repeated. -/
structure NewestFirst (request : DailyRequest) (items : List Record) : Prop where
  dates : ∀ dt ∈ items.filterMap dateOf, EightDigits dt ∧
    ∃ d, Disclosures.strptime dt = some d ∧ request.inputDate1 ≤ d ∧ d ≤ request.inputDate2
  order : (items.filterMap dateOf).Pairwise fun a b =>
    ∃ d e, Disclosures.strptime a = some d ∧ Disclosures.strptime b = some e ∧ e ≤ d

instance (request : DailyRequest) (items : List Record) : Decidable (NewestFirst request items) :=
  decidable_of_iff
    ((∀ dt ∈ items.filterMap dateOf, EightDigits dt ∧
        ∃ d ∈ Disclosures.strptime dt, request.inputDate1 ≤ d ∧ d ≤ request.inputDate2) ∧
      (items.filterMap dateOf).Pairwise fun a b =>
        ∃ d ∈ Disclosures.strptime a, ∃ e ∈ Disclosures.strptime b, e ≤ d)
    ⟨fun h => ⟨by simpa using h.1, by simpa using h.2⟩, fun h => ⟨by simpa using h.dates, by simpa using h.order⟩⟩

/-- Of a page only the first record of a day is new. -/
theorem NewestFirst.newer {request : DailyRequest} {items : List Record}
    (h : NewestFirst request items) (seen : List String) :
    ((dated dateOf seen items).map Prod.fst).Pairwise Newer := by
  have hsub : ((dated dateOf seen items).map Prod.fst).Sublist (items.filterMap dateOf) :=
    dated_sublist seen items
  refine ((h.order.sublist hsub).and (dated_nodup seen items)).imp_of_mem ?_
  rintro a b ha hb ⟨⟨d, e, hd, he, hle⟩, hne⟩
  refine ⟨d, e, hd, he, lt_of_le_of_ne hle ?_⟩
  rintro rfl
  exact hne (strptime_inj (h.dates a (hsub.subset ha)).1 (h.dates b (hsub.subset hb)).1 hd he)

/-! ### A page -/

/-- What one round of the loop can do. -/
inductive Turn (call : DailyCall) (client : DailyRequest → Except Error Response) (n : ℕ)
    (pageEnd : ℤ) (results : List DailyPriceItem) : Fetch → Prop
  /-- the range leaves the calendar -/
  | outside (h : minusDays pageEnd call.firstWindowDays = .error .overflow) :
      Turn call client n pageEnd results ⟨[], .error .overflow⟩
  /-- the answer is no list, or one of its bars or the date of its last bar cannot be used -/
  | failed (request : DailyRequest) (e : Error)
      (hrange : request.inputDate1 = pageEnd - call.firstWindowDays ∧ request.inputDate2 = pageEnd)
      (why : listOf (client request) = .error e ∨
        (∃ x ∈ dated dateOf (results.map DailyPriceItem.date) (recordsOf (client request)),
          dailyPriceItem x.1 x.2 = .error e) ∨
        ∃ x ∈ dated dateOf (results.map DailyPriceItem.date) (recordsOf (client request)),
          pageBefore x.1 = .error e) :
      Turn call client n pageEnd results ⟨[(request, client request)], .error e⟩
  | last (request : DailyRequest) (new : List DailyPriceItem)
      (hrange : request.inputDate1 = pageEnd - call.firstWindowDays ∧ request.inputDate2 = pageEnd)
      (hnew : dailyBars (dated dateOf (results.map DailyPriceItem.date)
        (recordsOf (client request))) = .ok new) :
      Turn call client n pageEnd results ⟨[(request, client request)], .ok (results ++ new)⟩
  | next (request : DailyRequest) (new : List DailyPriceItem) (x : String × Record) (pageEnd' : ℤ)
      (hrange : request.inputDate1 = pageEnd - call.firstWindowDays ∧ request.inputDate2 = pageEnd)
      (hnew : dailyBars (dated dateOf (results.map DailyPriceItem.date)
        (recordsOf (client request))) = .ok new)
      (hfew : ((results ++ new).length : ℤ) < call.lookbackDays)
      (hlast : (dated dateOf (results.map DailyPriceItem.date)
        (recordsOf (client request))).getLast? = some x)
      (hbefore : pageBefore x.1 = .ok pageEnd') :
      Turn call client n pageEnd results
        ⟨(request, client request)::(dailyPages call client n pageEnd' (results ++ new)).sent,
          (dailyPages call client n pageEnd' (results ++ new)).result⟩

theorem minusDays_ok {day n d : ℤ} (h : minusDays day n = .ok d) :
    d = day - n ∧ minDate ≤ d ∧ d ≤ maxDate := by
  unfold minusDays at h
  split_ifs at h with hrange
  obtain rfl := Except.ok.inj h
  exact ⟨rfl, hrange⟩

theorem minusDays_error {day n : ℤ} {e : Error} (h : minusDays day n = .error e) :
    e = .overflow ∧ (day - n < minDate ∨ maxDate < day - n) := by
  unfold minusDays at h
  split_ifs at h with hrange
  exact ⟨(Except.error.inj h).symm, by omega⟩

theorem dailyBars_error {xs : List (String × Record)} {e : Error} (h : dailyBars xs = .error e) :
    ∃ x ∈ xs, dailyPriceItem x.1 x.2 = .error e := by
  induction xs with
  | nil =>
    have hnil : dailyBars [] = .ok [] := rfl
    rw [hnil] at h
    cases h
  | cons x xs ih =>
    rw [dailyBars_cons, bind_eq_error] at h
    rcases h with hx | ⟨bar, -, h⟩
    · exact ⟨x, List.mem_cons_self, hx⟩
    · rcases bind_eq_error.mp h with hxs | ⟨bars, -, h⟩
      · obtain ⟨y, hy, hbad⟩ := ih hxs
        exact ⟨y, List.mem_cons_of_mem _ hy, hbad⟩
      · cases h

theorem bind_readPage (lookbackDays : ℤ) (results : List DailyPriceItem)
    (answer : Except Error Response) :
    answer >>= readPage lookbackDays results =
      listOf answer >>= fun items =>
        dailyBars (dated dateOf (results.map DailyPriceItem.date) items) >>= fun bars =>
          if lookbackDays ≤ (results ++ bars).length then pure (results ++ bars, none)
          else
            match (dated dateOf (results.map DailyPriceItem.date) items).getLast? with
            | none => pure (results ++ bars, none)
            | some x => pageBefore x.1 >>= fun pageEnd => pure (results ++ bars, some pageEnd) := by
  rw [listOf, bind_assoc]
  exact bind_congr fun response => readPage_eq lookbackDays results response

theorem dailyPages_turn (call : DailyCall) (client : DailyRequest → Except Error Response) (n : ℕ)
    (pageEnd : ℤ) (results : List DailyPriceItem) :
    Turn call client n pageEnd results (dailyPages call client (n + 1) pageEnd results) := by
  unfold dailyPages
  cases hstart : minusDays pageEnd call.firstWindowDays with
  | error e =>
    obtain rfl := (minusDays_error hstart).1
    exact .outside hstart
  | ok pageStart =>
    obtain rfl := (minusDays_ok hstart).1
    simp only [bind_readPage]
    cases hlist : listOf (client (call.request (pageEnd - call.firstWindowDays) pageEnd)) with
    | error e => exact .failed _ e ⟨rfl, rfl⟩ (Or.inl hlist)
    | ok items =>
      have hitems : recordsOf (client (call.request (pageEnd - call.firstWindowDays) pageEnd)) = items := by
        simp [recordsOf, hlist, Except.toOption]
      simp only [bind, Except.bind]
      cases hnew : dailyBars (dated dateOf (results.map DailyPriceItem.date) items) with
      | error e =>
        exact .failed _ e ⟨rfl, rfl⟩ (Or.inr (Or.inl (hitems ▸ dailyBars_error hnew)))
      | ok new =>
        dsimp only
        by_cases hlook : call.lookbackDays ≤ (results ++ new).length
        · simp only [if_pos hlook]
          exact .last _ new ⟨rfl, rfl⟩ (by rw [hitems]; exact hnew)
        · simp only [if_neg hlook]
          cases hlast : (dated dateOf (results.map DailyPriceItem.date) items).getLast? with
          | none => exact .last _ new ⟨rfl, rfl⟩ (by rw [hitems]; exact hnew)
          | some x =>
            dsimp only
            cases hbefore : pageBefore x.1 with
            | error e =>
              exact .failed _ e ⟨rfl, rfl⟩
                (Or.inr (Or.inr ⟨x, hitems ▸ List.mem_of_getLast? hlast, hbefore⟩))
            | ok pageEnd' =>
              exact .next _ new x pageEnd' ⟨rfl, rfl⟩ (by rw [hitems]; exact hnew) (by omega)
                (by rw [hitems]; exact hlast) hbefore

theorem pageBefore_ok {dt : String} {p : ℤ} (h : pageBefore dt = .ok p) :
    ∃ d, Disclosures.strptime dt = some d ∧ p = d - 1 := by
  obtain ⟨d, hd, hp⟩ := bind_eq_ok.mp h
  unfold strptime at hd
  cases hs : Disclosures.strptime dt with
  | none =>
    rw [hs] at hd
    cases hd
  | some e =>
    rw [hs] at hd
    obtain rfl := Except.ok.inj hd
    exact ⟨e, rfl, (minusDays_ok hp).1⟩

/-- A date that names a day can only fail to be followed back out of the calendar. -/
theorem pageBefore_error {dt : String} {d : ℤ} {e : Error} (hd : Disclosures.strptime dt = some d)
    (h : pageBefore dt = .error e) : e = .overflow ∧ (d - 1 < minDate ∨ maxDate < d - 1) := by
  simp only [pageBefore, strptime, hd, Option.elim_some] at h
  exact minusDays_error h

/-- The dates of a page end with the oldest one. -/
theorem NewestFirst.oldest {request : DailyRequest} {items : List Record} {seen : List String}
    (h : NewestFirst request items) {x : String × Record} {p : ℤ}
    (hlast : (dated dateOf seen items).getLast? = some x) (hbefore : pageBefore x.1 = .ok p) :
    ∀ dt ∈ (dated dateOf seen items).map Prod.fst, ∃ d, Disclosures.strptime dt = some d ∧ p < d := by
  obtain ⟨d, hd, rfl⟩ := pageBefore_ok hbefore
  obtain ⟨ys, hys⟩ := List.getLast?_eq_some_iff.mp hlast
  have hnewer := h.newer seen
  rw [hys, List.map_append, List.pairwise_append] at hnewer
  rw [hys, List.map_append]
  intro dt hdt
  rcases List.mem_append.mp hdt with hdt | hdt
  · obtain ⟨d', e, hd', he, hlt⟩ := hnewer.2.2 dt hdt x.1 (by simp)
    obtain rfl : d = e := Option.some.inj (hd.symm.trans he)
    exact ⟨d', hd', by omega⟩
  · obtain rfl : dt = x.1 := by simpa using hdt
    exact ⟨d, hd, by omega⟩

/-! ### Both pages -/

section Run
variable {call : DailyCall} {client : DailyRequest → Except Error Response}

theorem length_sent (n : ℕ) (pageEnd : ℤ) (results : List DailyPriceItem) :
    (dailyPages call client n pageEnd results).sent.length ≤ n := by
  induction n generalizing pageEnd results with
  | zero => exact le_refl 0
  | succ n ih =>
    have hturn := dailyPages_turn call client n pageEnd results
    generalize dailyPages call client (n + 1) pageEnd results = fetch at hturn ⊢
    cases hturn with
    | outside h => exact Nat.zero_le _
    | failed request e hrange why => simp
    | last request new hrange hnew => simp
    | next request new x pageEnd' hrange hnew hfew hlast hbefore =>
      simpa using ih pageEnd' (results ++ new)

/-- The first request asks for the range that ends with the page. -/
theorem head_sent {n : ℕ} {pageEnd : ℤ} {results : List DailyPriceItem}
    {x : DailyRequest × Except Error Response}
    (h : (dailyPages call client n pageEnd results).sent.head? = some x) :
    x.1.inputDate2 = pageEnd := by
  cases n with
  | zero => cases h
  | succ n =>
    have hturn := dailyPages_turn call client n pageEnd results
    generalize dailyPages call client (n + 1) pageEnd results = fetch at hturn h
    cases hturn with
    | outside _ => cases h
    | failed request e hrange why => exact Option.some.inj h ▸ hrange.2
    | last request new hrange hnew => exact Option.some.inj h ▸ hrange.2
    | next request new y pageEnd' hrange hnew hfew hlast hbefore => exact Option.some.inj h ▸ hrange.2

/-- The next page ends within the page before it, or a day before its start. -/
theorem NewestFirst.next {request : DailyRequest} {items : List Record} {seen : List String}
    (h : NewestFirst request items) {x : String × Record} {p : ℤ}
    (hlast : (dated dateOf seen items).getLast? = some x) (hbefore : pageBefore x.1 = .ok p) :
    request.inputDate1 - 1 ≤ p ∧ p < request.inputDate2 := by
  have hx : x.1 ∈ (dated dateOf seen items).map Prod.fst :=
    List.mem_map_of_mem (List.mem_of_getLast? hlast)
  obtain ⟨-, d, hd, hlow, hhigh⟩ := h.dates x.1 ((dated_sublist _ _).subset hx)
  obtain ⟨e, he, rfl⟩ := pageBefore_ok hbefore
  obtain rfl : d = e := Option.some.inj (hd.symm.trans he)
  exact ⟨by omega, by omega⟩

theorem sorted_append {request : DailyRequest} {items : List Record} {pageEnd : ℤ}
    (hnewest : NewestFirst request items) (hrange : request.inputDate2 = pageEnd)
    {results new : List DailyPriceItem} (hsorted : (results.map DailyPriceItem.date).Pairwise Newer)
    (hlater : ∀ dt ∈ results.map DailyPriceItem.date,
      ∃ d, Disclosures.strptime dt = some d ∧ pageEnd < d)
    (hnew : dailyBars (dated dateOf (results.map DailyPriceItem.date) items) = .ok new) :
    ((results ++ new).map DailyPriceItem.date).Pairwise Newer := by
  rw [List.map_append, List.pairwise_append, dates_of_dailyBars hnew]
  refine ⟨hsorted, hnewest.newer _, fun a ha b hb => ?_⟩
  obtain ⟨d, hd, hlt⟩ := hlater a ha
  obtain ⟨-, e, he, -, hle⟩ := hnewest.dates b ((dated_sublist _ _).subset hb)
  exact ⟨d, e, hd, he, by omega⟩

theorem dailyPages_returned {n : ℕ} {pageEnd : ℤ} {results bars : List DailyPriceItem}
    (hnewest : ∀ x ∈ (dailyPages call client n pageEnd results).sent,
      NewestFirst x.1 (recordsOf x.2))
    (hsorted : (results.map DailyPriceItem.date).Pairwise Newer)
    (hlater : ∀ dt ∈ results.map DailyPriceItem.date,
      ∃ d, Disclosures.strptime dt = some d ∧ pageEnd < d)
    (hok : (dailyPages call client n pageEnd results).result = .ok bars) :
    (bars.map DailyPriceItem.date).Pairwise Newer ∧ ∃ new, bars = results ++ new ∧
      dailyBars (dated dateOf (results.map DailyPriceItem.date)
        (dailyPages call client n pageEnd results).received) = .ok new := by
  induction n generalizing pageEnd results with
  | zero =>
    obtain rfl := Except.ok.inj hok
    exact ⟨hsorted, [], by simp, rfl⟩
  | succ n ih =>
    have hturn := dailyPages_turn call client n pageEnd results
    generalize dailyPages call client (n + 1) pageEnd results = fetch at hturn hok hnewest ⊢
    cases hturn with
    | outside _ => cases hok
    | failed request e hrange why => cases hok
    | last request new hrange hnew =>
      obtain rfl := Except.ok.inj hok
      have hpage : NewestFirst request (recordsOf (client request)) := hnewest _ List.mem_cons_self
      refine ⟨sorted_append hpage hrange.2 hsorted hlater hnew, new, rfl, ?_⟩
      simpa [Fetch.received] using hnew
    | next request new x pageEnd' hrange hnew hfew hlast hbefore =>
      have hpage : NewestFirst request (recordsOf (client request)) := hnewest _ List.mem_cons_self
      have hdates := dates_of_dailyBars hnew
      have hrest := ih (fun y hy => hnewest y (List.mem_cons_of_mem _ hy))
        (sorted_append hpage hrange.2 hsorted hlater hnew) ?_ hok
      · obtain ⟨hall, more, rfl, hmore⟩ := hrest
        refine ⟨hall, new ++ more, List.append_assoc .., ?_⟩
        rw [List.map_append, hdates] at hmore
        simp only [Fetch.received] at hmore ⊢
        rw [List.flatMap_cons, dated_append, dailyBars_append, hnew]
        simp only [bind, Except.bind, hmore]
        rfl
      · intro dt hdt
        rw [List.map_append, hdates] at hdt
        have hold := hpage.oldest hlast hbefore
        rcases List.mem_append.mp hdt with hdt | hdt
        · obtain ⟨d, hd, hlt⟩ := hlater dt hdt
          have hbelow := (hpage.next hlast hbefore).2
          exact ⟨d, hd, by omega⟩
        · exact hold dt hdt

/-- A call raises what a request raised or what a number raised, or runs out of the calendar. -/
theorem dailyPages_raised {n : ℕ} {pageEnd : ℤ} {results : List DailyPriceItem} {e : Error}
    (hnewest : ∀ x ∈ (dailyPages call client n pageEnd results).sent,
      NewestFirst x.1 (recordsOf x.2))
    (herror : (dailyPages call client n pageEnd results).result = .error e) :
    (∃ x ∈ (dailyPages call client n pageEnd results).sent, listOf x.2 = .error e) ∨
      (∃ item ∈ (dailyPages call client n pageEnd results).received, ∃ dt, dateOf item = some dt ∧
        dailyPriceItem dt item = .error e) ∨
      e = .overflow ∧ (pageEnd - n * (call.firstWindowDays + 1) < minDate ∨ maxDate < pageEnd) := by
  have hwindow : 0 ≤ call.firstWindowDays := le_trans (by decide) (le_max_right _ _)
  induction n generalizing pageEnd results with
  | zero => cases herror
  | succ n ih =>
    have hspan : ((n + 1 : ℕ) : ℤ) * (call.firstWindowDays + 1) =
        n * (call.firstWindowDays + 1) + call.firstWindowDays + 1 := by
      push_cast
      ring
    have hrest : 0 ≤ (n : ℤ) * (call.firstWindowDays + 1) := by positivity
    have hturn := dailyPages_turn call client n pageEnd results
    generalize dailyPages call client (n + 1) pageEnd results = fetch at hturn herror hnewest ⊢
    cases hturn with
    | outside h =>
      obtain rfl := Except.error.inj herror
      have hout := (minusDays_error h).2
      exact Or.inr (Or.inr ⟨rfl, by omega⟩)
    | failed request e' hrange why =>
      obtain rfl := Except.error.inj herror
      have hpage : NewestFirst request (recordsOf (client request)) := hnewest _ List.mem_cons_self
      rcases why with hlist | ⟨x, hx, hbad⟩ | ⟨x, hx, hbefore⟩
      · exact Or.inl ⟨_, List.mem_cons_self, hlist⟩
      · obtain ⟨hmem, hdate, -⟩ := mem_dated hx
        exact Or.inr (Or.inl ⟨x.2, by simpa [Fetch.received] using hmem, x.1, hdate, hbad⟩)
      · obtain ⟨-, d, hd, hlow, hhigh⟩ :=
          hpage.dates x.1 ((dated_sublist _ _).subset (List.mem_map_of_mem hx))
        obtain ⟨rfl, hout⟩ := pageBefore_error hd hbefore
        exact Or.inr (Or.inr ⟨rfl, by omega⟩)
    | last request new hrange hnew => cases herror
    | next request new x pageEnd' hrange hnew hfew hlast hbefore =>
      have hpage : NewestFirst request (recordsOf (client request)) := hnewest _ List.mem_cons_self
      have hnext := hpage.next hlast hbefore
      rcases ih (fun y hy => hnewest y (List.mem_cons_of_mem _ hy)) herror with
        ⟨y, hy, hlist⟩ | ⟨item, hitem, hbad⟩ | ⟨rfl, hout⟩
      · exact Or.inl ⟨y, List.mem_cons_of_mem _ hy, hlist⟩
      · refine Or.inr (Or.inl ⟨item, ?_, hbad⟩)
        exact List.mem_append_right _ hitem
      · exact Or.inr (Or.inr ⟨rfl, by omega⟩)

theorem dailyPages_second {n : ℕ} {pageEnd : ℤ} {x y : DailyRequest × Except Error Response}
    {rest : List (DailyRequest × Except Error Response)}
    (hsent : (dailyPages call client (n + 1) pageEnd []).sent = x::y::rest)
    (hnewest : NewestFirst x.1 (recordsOf x.2)) :
    (1 ≤ (dated dateOf [] (recordsOf x.2)).length ∧
      ((dated dateOf [] (recordsOf x.2)).length : ℤ) < call.lookbackDays) ∧
    (∃ dt ∈ (recordsOf x.2).filterMap dateOf, Disclosures.strptime dt = some (y.1.inputDate2 + 1)) ∧
    ∀ dt ∈ (recordsOf x.2).filterMap dateOf,
      ∃ d, Disclosures.strptime dt = some d ∧ y.1.inputDate2 < d := by
  have hturn := dailyPages_turn call client n pageEnd []
  generalize dailyPages call client (n + 1) pageEnd [] = fetch at hturn hsent
  cases hturn with
  | outside _ => cases hsent
  | failed request e hrange why => simp at hsent
  | last request new hrange hnew => simp at hsent
  | next request new z pageEnd' hrange hnew hfew hlast hbefore =>
    obtain ⟨rfl, htail⟩ := List.cons.inj hsent
    obtain rfl : y.1.inputDate2 = pageEnd' := head_sent (by rw [htail]; rfl)
    have hlength : new.length = (dated dateOf [] (recordsOf (client request))).length := by
      simpa using congrArg List.length (dates_of_dailyBars hnew)
    have hmem := List.mem_of_getLast? hlast
    refine ⟨⟨List.length_pos_of_mem hmem, ?_⟩, ⟨z.1, ?_, ?_⟩, ?_⟩
    · simpa [hlength] using hfew
    · exact (dated_sublist _ _).subset (List.mem_map_of_mem hmem)
    · obtain ⟨d, hd, hp⟩ := pageBefore_ok hbefore
      rw [hd, hp]
      simp
    · intro dt hdt
      obtain ⟨item, hitem, hdate⟩ := List.mem_filterMap.mp hdt
      exact hnewest.oldest hlast hbefore dt (dated_complete hitem hdate (List.not_mem_nil))

end Run

/-- What is promised of a call whose answers list their bars newest first. -/
structure BarsAsPromised (call : DailyCall) (today : ℤ) (fetch : Fetch) : Prop where
  requests : fetch.sent.length ≤ 2
  /-- the second range ends before the oldest bar of the first answer, which had too few -/
  second : ∀ x y rest, fetch.sent = x::y::rest →
    (1 ≤ (dated dateOf [] (recordsOf x.2)).length ∧
      ((dated dateOf [] (recordsOf x.2)).length : ℤ) < call.lookbackDays) ∧
    (∃ dt ∈ (recordsOf x.2).filterMap dateOf, Disclosures.strptime dt = some (y.1.inputDate2 + 1)) ∧
    ∀ dt ∈ (recordsOf x.2).filterMap dateOf,
      ∃ d, Disclosures.strptime dt = some d ∧ y.1.inputDate2 < d
  /-- the first record of each date that was received, the newest first -/
  returned : ∀ bars, fetch.result = .ok bars →
    (bars.map DailyPriceItem.date).Pairwise Newer ∧
    dailyBars (dated dateOf [] fetch.received) = .ok bars ∧
    ∀ item ∈ fetch.received, ∀ dt, dateOf item = some dt →
      (bars.map DailyPriceItem.date).count dt = 1
  raised : ∀ e, fetch.result = .error e →
    (∃ x ∈ fetch.sent, listOf x.2 = .error e) ∨
    (∃ item ∈ fetch.received, ∃ dt, dateOf item = some dt ∧ dailyPriceItem dt item = .error e) ∨
    e = .overflow ∧ (today - 2 * (call.firstWindowDays + 1) < minDate ∨ maxDate < today)

theorem getDailyPrice_as_promised (call : DailyCall)
    (client : DailyRequest → Except Error Response) (today : ℤ)
    (hnewest : ∀ x ∈ (getDailyPrice call client today).sent, NewestFirst x.1 (recordsOf x.2)) :
    BarsAsPromised call today (getDailyPrice call client today) where
  requests := length_sent 2 today []
  second x y rest hsent :=
    dailyPages_second (n := 1) hsent (hnewest x (hsent ▸ List.mem_cons_self))
  returned bars hok := by
    obtain ⟨hsorted, new, hbars, hread⟩ := dailyPages_returned hnewest (by simp) (by simp) hok
    obtain rfl : bars = new := by simpa using hbars
    refine ⟨hsorted, hread, fun item hitem dt hdate => ?_⟩
    rw [dates_of_dailyBars hread]
    exact List.count_eq_one_of_mem (dated_nodup _ _)
      (dated_complete hitem hdate (List.not_mem_nil))
  raised e herror := by
    exact_mod_cast dailyPages_raised (n := 2) hnewest herror

/-! ### A thin stock -/

def july : ℤ := Disclosures.dayNumber 2026 7 1

def juneBar : Record := OrderedDict.Dict.empty.set "stck_bsop_date" (.text "20260630")

/-- One bar in the range up to today, none before. -/
def thinClient (request : DailyRequest) : Except Error Response :=
  .ok (if request.inputDate2 = july then { output2 := some (.records [juneBar]) } else {})

def thinCall : DailyCall := { stockCode := "005930" }

def longCall : DailyCall := { stockCode := "005930", lookbackDays := 400000 }

theorem getDailyPrice_as_promised_thin :
    BarsAsPromised thinCall july (getDailyPrice thinCall thinClient july) :=
  getDailyPrice_as_promised thinCall thinClient july (by decide +kernel)

/-- The second range reaches into the first one, and a long look back leaves the calendar. -/
theorem ranges_overlap :
    (∀ x ∈ (getDailyPrice thinCall thinClient july).sent, NewestFirst x.1 (recordsOf x.2)) ∧
      ((getDailyPrice thinCall thinClient july).sent.map fun x => (x.1.inputDate1, x.1.inputDate2)) =
        [(july - 120, july), (july - 122, july - 2)] ∧
      (getDailyPrice longCall thinClient july).result = .error .overflow := by
  refine ⟨by decide +kernel, by decide +kernel, by decide +kernel⟩

end KisAutotrader.Quotes
