import KisAutotrader.Screening
import KisAutotrader.OrderExecution

/-!
# The exchange of an order

An order is sent to the exchange its stock resolves to, and a cancel to the exchange the
stock resolves to by then. Balance reads and screening seeds rewrite the map in between, in any
order.
-/
namespace KisAutotrader.ExchangeRouting
open OrderedDict OrderExecution Screening

/-! ### Writes into the exchange map -/

section Map
variable {κ ν : Type} [DecidableEq κ]

/-- The last value a list of writes gives to a key. -/
def lastFor (k : κ) : List (κ × ν) → Option ν
  | [] => none
  | x::xs => (lastFor k xs).or (if x.1 = k then some x.2 else none)

def writeAll (xs : List (κ × ν)) (d : Dict κ ν) : Dict κ ν := xs.foldl (fun d x => d.set x.1 x.2) d

theorem writeAll_append (xs ys : List (κ × ν)) (d : Dict κ ν) :
    writeAll (xs ++ ys) d = writeAll ys (writeAll xs d) := List.foldl_append

theorem get?_writeAll (xs : List (κ × ν)) (d : Dict κ ν) (k : κ) :
    (writeAll xs d).get? k = (lastFor k xs).or (d.get? k) := by
  induction xs generalizing d with
  | nil => rfl
  | cons x xs ih =>
    rw [writeAll, List.foldl_cons, ← writeAll, ih, lastFor, Option.or_assoc, Dict.get?_set]
    congr 1
    by_cases hx : x.1 = k
    · simp [hx]
    · simp [hx, Ne.symm hx]

end Map

/-- A holding as an exchange lists it. -/
structure Listed where
  symbol : Code
  exchange : String
  deriving DecidableEq, Repr

/-- A holding that names no exchange is taken to be at the one that was asked. -/
def Listed.entry (exch : String) (oh : Listed) : Code × String :=
  (oh.symbol, if oh.exchange = "" then exch else oh.exchange)

/-- What `_fetch_overseas_balance` does to the map, exchange by exchange. A failed call
raises, and what has been written stays. -/
def fetchOverseas : List (String × Option (List Listed)) → Dict Code String → Dict Code String
  | [], m => m
  | (_, none)::_, m => m
  | (exch, some holdings)::rest, m =>
      fetchOverseas rest (holdings.foldl (fun d oh => d.set oh.symbol (oh.entry exch).2) m)

/-- The entries the answers before the first failed call come to. -/
def listedEntries : List (String × Option (List Listed)) → List (Code × String)
  | [] => []
  | (_, none)::_ => []
  | (exch, some holdings)::rest => holdings.map (Listed.entry exch) ++ listedEntries rest

theorem fetchOverseas_eq (responses : List (String × Option (List Listed)))
    (m : Dict Code String) : fetchOverseas responses m = writeAll (listedEntries responses) m := by
  induction responses generalizing m with
  | nil => rfl
  | cons x rest ih =>
    obtain ⟨exch, answer⟩ := x
    cases answer with
    | none => rfl
    | some holdings =>
      rw [fetchOverseas, ih, listedEntries, writeAll_append, writeAll, writeAll, writeAll,
        List.foldl_map]
      rfl

/-- The entries a screening seed comes to: known exchanges alone. -/
def seededEntries (cfg : Settings) (markets : List (Code × String)) : List (Code × String) :=
  markets.filter fun x => x.2 ∈ cfg.market.exchanges

theorem seedExchanges_eq (cfg : Settings) (markets : List (Code × String)) (e : Engine) :
    (seedExchanges cfg markets e).exchanges = writeAll (seededEntries cfg markets) e.exchanges := by
  simp only [seedExchanges, writeAll, seededEntries, List.foldl_filter]
  congr 1
  funext d x
  simp

/-- The balance of the engine's model is one whose holdings name their exchanges. -/
theorem storeBalance_exchanges (cfg : Settings) (now : Time) (b : Balance) (e : Engine)
    (exch : String) (hmarket : cfg.market.isOverseas = true) (hnamed : ∀ h ∈ b.holdings, h.exchange ≠ "") :
    (storeBalance cfg now b e).exchanges =
      fetchOverseas [(exch, some (b.holdings.map fun h => ⟨h.stockCode, h.exchange⟩))] e.exchanges := by
  simp only [storeBalance, hmarket, if_true, fetchOverseas, List.foldl_map]
  refine List.foldl_ext _ _ _ fun d h hh => ?_
  simp [Listed.entry, hnamed h hh]

/-! ### The run -/

/-- An order the broker has accepted and whose fill is being awaited. `placedTo` is the exchange
its request named, of which the source keeps no note. -/
structure Accepted where
  code : Code
  orderNo : ℕ
  side : Side
  quantity : ℕ
  price : ℚ
  avgPrice : Option ℚ
  qtyBefore : ℤ
  placedTo : String

/-- A cancel request, beside the exchange to which its order was placed. -/
structure CancelRequest where
  code : Code
  orderNo : ℕ
  quantity : ℕ
  exchange : String
  placedTo : Option String
  deriving DecidableEq, Repr

/-- The engine, the accepted orders it awaits, and the exchange to which the pending order of
each stock was placed. -/
structure State where
  engine : Engine := {}
  confirming : List Accepted := []
  placedTo : Dict Code String := .empty
  cancels : List CancelRequest := []

inductive Event where
  | balance (answers : List (Option (List Listed)))
  | seed (markets : List (Code × String))
  | place (side : Side) (code : Code) (quantity : ℕ) (price : ℚ) (avgPrice : Option ℚ)
      (qtyBefore : ℤ) (orderNo : Option ℕ)
  | unfilled (i : ℕ)
  | filled (i : ℕ)
  | recovered (code : Code)
  | cancel (code : Code)
  | newCycle
  | newDay

section Step
variable (cfg : Settings)

/-- `_place_buy` and `_place_sell`; without an order number nothing is awaited. -/
def placeOrder (side : Side) (code : Code) (quantity : ℕ) (price : ℚ) (avgPrice : Option ℚ)
    (qtyBefore : ℤ) (orderNo : Option ℕ) (s : State) : State :=
  match orderNo with
  | none => s
  | some orderNo => { s with confirming := s.confirming ++ [{
      code, orderNo, side, quantity, price, avgPrice, qtyBefore,
      placedTo := exchangeOf cfg s.engine code }] }

/-- The entry of the registry for an order that was not seen to be filled. -/
def pendingOf (e : Engine) (o : Accepted) : PendingOrder where
  orderNo := o.orderNo
  side := o.side
  quantity := o.quantity
  placedCycle := e.cycleCount
  qtyBefore := o.qtyBefore
  price := normPrice cfg.market.pricePrecision o.price
  avgPrice := o.avgPrice
  exchange := exchangeOf cfg e o.code

/-- `_cancel_order` and the registry after it. -/
def cancelOrder (code : Code) (s : State) : State :=
  match s.engine.pendingOrders.get? code with
  | none => s
  | some pending => { s with
      engine := popPending code s.engine
      cancels := s.cancels ++ [⟨code, pending.orderNo, pending.quantity,
        exchangeOf cfg s.engine code, s.placedTo.get? code⟩] }

def step (s : State) : Event → State
  | .balance answers => { s with engine := { s.engine with
      exchanges := fetchOverseas (cfg.market.exchanges.zip answers) s.engine.exchanges } }
  | .seed markets => { s with engine := seedExchanges cfg markets s.engine }
  | .place side code quantity price avgPrice qtyBefore orderNo =>
      placeOrder cfg side code quantity price avgPrice qtyBefore orderNo s
  | .unfilled i =>
      match s.confirming[i]? with
      | none => s
      | some o => { s with
          engine := trackPending o.code (pendingOf cfg s.engine o) s.engine
          confirming := s.confirming.eraseIdx i
          placedTo := s.placedTo.set o.code o.placedTo }
  | .filled i =>
      match s.confirming[i]? with
      | none => s
      | some o => { s with
          engine := settlePending o.code s.engine
          confirming := s.confirming.eraseIdx i }
  | .recovered code => { s with engine := settlePending code s.engine }
  | .cancel code => cancelOrder cfg code s
  | .newCycle => { s with engine := { s.engine with cycleCount := s.engine.cycleCount + 1 } }
  | .newDay => { s with engine := { s.engine with cycleCount := 0, pendingOrders := .empty } }

def run (s : State) (events : List Event) : State := events.foldl (step cfg) s

/-- An engine that starts with the exchanges of its watchlist. -/
def boot (exchanges : Dict Code String) : State := { engine := { exchanges } }

/-- Every cancel names the exchange to which its order was placed. -/
def CancelsRouted (s : State) : Prop := ∀ c ∈ s.cancels, c.placedTo = some c.exchange

/-- A stock with an order that is awaited or pending. -/
def Open (s : State) (code : Code) : Prop :=
  (∃ o ∈ s.confirming, o.code = code) ∨ (s.engine.pendingOrders.get? code).isSome = true

/-- The entries an event writes into the map. -/
def entries : Event → List (Code × String)
  | .balance answers => listedEntries (cfg.market.exchanges.zip answers)
  | .seed markets => seededEntries cfg markets
  | _ => []

/-- What the event says last about a stock with an open order is what the stock resolves to. -/
def Agrees (s : State) (ev : Event) : Prop :=
  ∀ code, Open s code → ∀ exch ∈ lastFor code (entries cfg ev), exch = exchangeOf cfg s.engine code

/-- Every event of the run agrees with the state it finds. -/
def RunAgrees : State → List Event → Prop
  | _, [] => True
  | s, ev::events => Agrees cfg s ev ∧ RunAgrees (step cfg s ev) events

end Step

/-! ### What an event does to the route of a stock -/

section Route
variable {cfg : Settings}

theorem ne_empty_of_mem_exchanges {exch : String} (h : exch ∈ cfg.market.exchanges) : exch ≠ "" := by
  cases hmarket : cfg.market with
  | krx => simp [hmarket, MarketProfile.exchanges] at h
  | us =>
    simp only [hmarket, MarketProfile.exchanges, List.mem_cons, List.not_mem_nil, or_false] at h
    rcases h with rfl | rfl | rfl <;> decide

theorem listedEntries_named {responses : List (String × Option (List Listed))}
    (h : ∀ x ∈ responses, x.1 ≠ "") : ∀ x ∈ listedEntries responses, x.2 ≠ "" := by
  induction responses with
  | nil => simp [listedEntries]
  | cons y rest ih =>
    obtain ⟨exch, answer⟩ := y
    cases answer with
    | none => simp [listedEntries]
    | some holdings =>
      intro x hx
      rw [listedEntries, List.mem_append, List.mem_map] at hx
      rcases hx with ⟨oh, -, rfl⟩ | hx
      · simp only [Listed.entry]
        split_ifs with hname
        · exact h (exch, some holdings) List.mem_cons_self
        · exact hname
      · exact ih (fun z hz => h z (List.mem_cons_of_mem _ hz)) x hx

theorem entries_named (ev : Event) : ∀ x ∈ entries cfg ev, x.2 ≠ "" := by
  cases ev with
  | balance answers =>
    refine listedEntries_named fun x hx => ?_
    have hmem : x.1 ∈ cfg.market.exchanges := (List.of_mem_zip hx).1
    exact ne_empty_of_mem_exchanges hmem
  | seed markets =>
    intro x hx
    have hmem : x.2 ∈ cfg.market.exchanges := by simpa using (List.mem_filter.mp hx).2
    exact ne_empty_of_mem_exchanges hmem
  | _ => simp [entries]

theorem entries_home (hmarket : cfg.market.isOverseas = false) (ev : Event) : entries cfg ev = [] := by
  have hnone : cfg.market.exchanges = [] := by
    cases h : cfg.market with
    | krx => rfl
    | us => simp [h, MarketProfile.isOverseas] at hmarket
  cases ev <;> simp [entries, hnone, listedEntries, seededEntries]

theorem mem_of_lastFor {κ ν : Type} [DecidableEq κ] {k : κ} {v : ν} {xs : List (κ × ν)}
    (h : lastFor k xs = some v) : (k, v) ∈ xs := by
  induction xs with
  | nil => simp [lastFor] at h
  | cons x xs ih =>
    obtain ⟨j, u⟩ := x
    rw [lastFor] at h
    cases hlast : lastFor k xs with
    | some v' =>
      rw [hlast, Option.some_or] at h
      exact List.mem_cons_of_mem _ (ih (hlast.trans h))
    | none =>
      rw [hlast, Option.none_or] at h
      split_ifs at h with hj
      obtain rfl := Option.some.inj h
      rw [show j = k from hj]
      exact List.mem_cons_self

theorem step_exchanges (s : State) (ev : Event) :
    (step cfg s ev).engine.exchanges = writeAll (entries cfg ev) s.engine.exchanges := by
  cases ev with
  | balance answers => exact fetchOverseas_eq _ _
  | seed markets => exact seedExchanges_eq cfg markets s.engine
  | place side code quantity price avgPrice qtyBefore orderNo => cases orderNo <;> rfl
  | unfilled i =>
    simp only [step]
    split <;> rfl
  | filled i =>
    simp only [step]
    split <;> rfl
  | cancel code =>
    simp only [step, cancelOrder]
    split <;> rfl
  | recovered code => rfl
  | newCycle => rfl
  | newDay => rfl

/-- The route of a stock after an event: what the event says last, else the route before. -/
theorem step_exchangeOf (s : State) (ev : Event) (code : Code) :
    exchangeOf cfg (step cfg s ev).engine code =
      (lastFor code (entries cfg ev)).getD (exchangeOf cfg s.engine code) := by
  cases hmarket : cfg.market.isOverseas with
  | false =>
    rw [entries_home hmarket ev]
    simp [exchangeOf, hmarket, lastFor]
  | true =>
    simp only [exchangeOf, hmarket, if_true, step_exchanges, get?_writeAll]
    cases hlast : lastFor code (entries cfg ev) with
    | none => simp
    | some exch =>
      have hname : exch ≠ "" := entries_named ev (code, exch) (mem_of_lastFor hlast)
      simp [Option.filter, hname]

/-- An event agrees when it leaves the routes of the open orders as they are. -/
theorem agrees_iff (s : State) (ev : Event) : Agrees cfg s ev ↔
    ∀ code, Open s code → exchangeOf cfg (step cfg s ev).engine code = exchangeOf cfg s.engine code := by
  refine forall_congr' fun code => imp_congr_right fun _ => ?_
  rw [step_exchangeOf]
  cases lastFor code (entries cfg ev) with
  | none => simp
  | some exch => simp

theorem agrees_of_silent (s : State) {ev : Event} (h : entries cfg ev = []) : Agrees cfg s ev := by
  intro code _ exch hexch
  simp [h, lastFor] at hexch

end Route

/-! ### Runs -/

section Runs
variable {cfg : Settings}

/-- The open orders were placed to the exchanges their stocks resolve to now. -/
structure Routed (cfg : Settings) (s : State) : Prop where
  confirming : ∀ o ∈ s.confirming, o.placedTo = exchangeOf cfg s.engine o.code
  pending : ∀ code p, s.engine.pendingOrders.get? code = some p →
    s.placedTo.get? code = some (exchangeOf cfg s.engine code)
  cancels : CancelsRouted s

theorem routed_boot (exchanges : Dict Code String) : Routed cfg (boot exchanges) where
  confirming o ho := by simp [boot] at ho
  pending code p hp := by simp [boot] at hp
  cancels c hc := by simp [boot] at hc

/-- The registries lose entries, the map stays. -/
theorem Routed.shrink {s s' : State} (h : Routed cfg s)
    (hconfirming : ∀ o ∈ s'.confirming, o ∈ s.confirming)
    (hpending : ∀ code p, s'.engine.pendingOrders.get? code = some p →
      s.engine.pendingOrders.get? code = some p)
    (hplaced : s'.placedTo = s.placedTo) (hcancels : s'.cancels = s.cancels)
    (hroute : ∀ code, exchangeOf cfg s'.engine code = exchangeOf cfg s.engine code) :
    Routed cfg s' where
  confirming o ho := by rw [hroute, h.confirming o (hconfirming o ho)]
  pending code p hp := by rw [hplaced, hroute, h.pending code p (hpending code p hp)]
  cancels c hc := h.cancels c (hcancels ▸ hc)

theorem get?_settlePending {code c : Code} {e : Engine} {p : PendingOrder}
    (h : (settlePending code e).pendingOrders.get? c = some p) : e.pendingOrders.get? c = some p := by
  simp only [settlePending, Dict.get?_pop] at h
  split_ifs at h
  exact h

/-- An event that agrees keeps the open orders routed. -/
theorem Routed.step {s : State} {ev : Event} (h : Routed cfg s) (hagrees : Agrees cfg s ev) :
    Routed cfg (step cfg s ev) := by
  have hopen := (agrees_iff s ev).mp hagrees
  have hsilent : entries cfg ev = [] → ∀ code,
      exchangeOf cfg (ExchangeRouting.step cfg s ev).engine code = exchangeOf cfg s.engine code := by
    intro hnil code
    simp [step_exchangeOf, hnil, lastFor]
  cases ev with
  | balance answers | seed markets =>
    refine ⟨fun o ho => ?_, fun code p hp => ?_, h.cancels⟩
    · rw [hopen o.code (Or.inl ⟨o, ho, rfl⟩)]
      exact h.confirming o ho
    · have hpending : s.engine.pendingOrders.get? code = some p := hp
      rw [hopen code (Or.inr (by simp [hpending]))]
      exact h.pending code p hpending
  | place side code quantity price avgPrice qtyBefore orderNo =>
    cases orderNo with
    | none => exact h
    | some orderNo =>
      refine ⟨fun o ho => ?_, h.pending, h.cancels⟩
      rcases List.mem_append.mp ho with ho | ho
      · exact h.confirming o ho
      · obtain rfl := List.mem_singleton.mp ho
        rfl
  | unfilled i =>
    simp only [ExchangeRouting.step]
    cases ho : s.confirming[i]? with
    | none => exact h
    | some o =>
      refine ⟨fun x hx => h.confirming x (List.mem_of_mem_eraseIdx hx), fun code p hp => ?_, h.cancels⟩
      have hroute := h.confirming o (List.mem_of_getElem? ho)
      simp only [trackPending, Dict.get?_set] at hp ⊢
      split_ifs at hp ⊢ with hcode
      · rw [hcode, hroute]
        rfl
      · exact h.pending code p hp
  | filled i =>
    have hroute := hsilent rfl
    simp only [ExchangeRouting.step] at hroute ⊢
    cases ho : s.confirming[i]? with
    | none => exact h
    | some o =>
      rw [ho] at hroute
      exact h.shrink (fun x hx => List.mem_of_mem_eraseIdx hx) (fun _ _ => get?_settlePending) rfl rfl
        hroute
  | recovered code =>
    exact h.shrink (fun _ hx => hx) (fun _ _ => get?_settlePending) rfl rfl (hsilent rfl)
  | cancel code =>
    simp only [ExchangeRouting.step, cancelOrder]
    cases hp : s.engine.pendingOrders.get? code with
    | none => exact h
    | some pending =>
      refine ⟨h.confirming, fun c p hc => ?_, fun c hc => ?_⟩
      · simp only [popPending, Dict.get?_pop] at hc
        split_ifs at hc
        exact h.pending c p hc
      · rcases List.mem_append.mp hc with hc | hc
        · exact h.cancels c hc
        · obtain rfl := List.mem_singleton.mp hc
          exact h.pending code pending hp
  | newCycle => exact h.shrink (fun _ hx => hx) (fun _ _ hp => hp) rfl rfl (hsilent rfl)
  | newDay =>
    refine h.shrink (fun _ hx => hx) (fun code p hp => ?_) rfl rfl (hsilent rfl)
    simp [ExchangeRouting.step] at hp

theorem Routed.run {s : State} {events : List Event} (h : Routed cfg s)
    (hrun : RunAgrees cfg s events) : Routed cfg (run cfg s events) := by
  induction events generalizing s with
  | nil => exact h
  | cons ev events ih => exact ih (h.step hrun.1) hrun.2

theorem runAgrees_of_silent {events : List Event} (h : ∀ ev ∈ events, entries cfg ev = [])
    (s : State) : RunAgrees cfg s events := by
  induction events generalizing s with
  | nil => trivial
  | cons ev events ih =>
    exact ⟨agrees_of_silent s (h ev List.mem_cons_self),
      ih (fun x hx => h x (List.mem_cons_of_mem _ hx)) _⟩

theorem run_append (s : State) (xs ys : List Event) :
    run cfg s (xs ++ ys) = run cfg (run cfg s xs) ys := List.foldl_append

/-- An order given up enters the registry with the exchange it was placed to. -/
theorem step_unfilled {s : State} {i : ℕ} {o : Accepted} (h : s.confirming[i]? = some o) :
    step cfg s (.unfilled i) = { s with
      engine := trackPending o.code (pendingOf cfg s.engine o) s.engine
      confirming := s.confirming.eraseIdx i
      placedTo := s.placedTo.set o.code o.placedTo } := by
  simp [step, h]

/-- A cancel that names another exchange stays in the record. -/
theorem cancels_misrouted {s : State} {code : Code} {p : PendingOrder} {exch : String}
    (hp : s.engine.pendingOrders.get? code = some p) (hplaced : s.placedTo.get? code = some exch)
    (hroute : exchangeOf cfg s.engine code ≠ exch) : ¬ CancelsRouted (step cfg s (.cancel code)) := by
  intro hrouted
  have hlast := hrouted ⟨code, p.orderNo, p.quantity, exchangeOf cfg s.engine code,
    s.placedTo.get? code⟩ (by simp [step, cancelOrder, hp])
  rw [hplaced] at hlast
  exact hroute (Option.some.inj hlast).symm

/-- After an event that moves the route of an open order, its cancel goes astray. -/
theorem exists_misrouted {s : State} {ev : Event} (h : Routed cfg s) (hagrees : ¬ Agrees cfg s ev) :
    ∃ more : List Event, (∀ x ∈ more, entries cfg x = []) ∧ ¬ CancelsRouted (run cfg s (ev::more)) := by
  rw [agrees_iff] at hagrees
  push Not at hagrees
  obtain ⟨code, hopen, hmoved⟩ := hagrees
  have hkept : (step cfg s ev).confirming = s.confirming ∧
      (step cfg s ev).engine.pendingOrders = s.engine.pendingOrders ∧
      (step cfg s ev).placedTo = s.placedTo := by
    cases ev with
    | balance answers | seed markets => exact ⟨rfl, rfl, rfl⟩
    | _ => exact absurd (by rw [step_exchangeOf]; rfl) hmoved
  obtain ⟨hconfirming, hpending, hplaced⟩ := hkept
  rcases hopen with ⟨o, ho, rfl⟩ | hpend
  · -- an awaited order: it is given up first
    obtain ⟨i, hi⟩ := List.mem_iff_getElem?.mp ho
    refine ⟨[.unfilled i, .cancel o.code], by simp [entries], ?_⟩
    have hroute := h.confirming o ho
    rw [← hconfirming] at hi
    change ¬ CancelsRouted (step cfg (step cfg (step cfg s ev) (.unfilled i)) (.cancel o.code))
    rw [step_unfilled hi]
    have hpending : ((step cfg s ev).engine.pendingOrders.set o.code
        (pendingOf cfg (step cfg s ev).engine o)).get? o.code =
          some (pendingOf cfg (step cfg s ev).engine o) := Dict.get?_set_self _ _ _
    have hplaced : ((step cfg s ev).placedTo.set o.code o.placedTo).get? o.code =
        some o.placedTo := Dict.get?_set_self _ _ _
    refine cancels_misrouted hpending hplaced ?_
    rw [hroute]
    exact hmoved
  · obtain ⟨p, hp⟩ := Option.isSome_iff_exists.mp hpend
    refine ⟨[.cancel code], by simp [entries], ?_⟩
    exact cancels_misrouted (hpending ▸ hp) (hplaced ▸ h.pending code p hp) hmoved

end Runs

/-- Where every event of a run agrees with the routes of the open orders, every cancel goes to the
exchange of its order, and an event agrees exactly when this goes on until the map is written
again. -/
theorem cancels_routed (cfg : Settings) (exchanges : Dict Code String) (events : List Event)
    (hrun : RunAgrees cfg (boot exchanges) events) :
    CancelsRouted (run cfg (boot exchanges) events) ∧
    ∀ ev, Agrees cfg (run cfg (boot exchanges) events) ev ↔
      ∀ more : List Event, (∀ x ∈ more, entries cfg x = []) →
        CancelsRouted (run cfg (boot exchanges) (events ++ ev::more)) := by
  have hrouted : Routed cfg (run cfg (boot exchanges) events) := (routed_boot exchanges).run hrun
  refine ⟨hrouted.cancels, fun ev => ⟨fun hagrees more hsilent => ?_, fun hall => ?_⟩⟩
  · rw [run_append]
    exact ((hrouted.step hagrees).run (runAgrees_of_silent hsilent _)).cancels
  · by_contra hagrees
    obtain ⟨more, hsilent, hmisrouted⟩ := exists_misrouted hrouted hagrees
    have hrouted' := hall more hsilent
    rw [run_append] at hrouted'
    exact hmisrouted hrouted'

def usSettings : Settings := { paperSettings with market := .us }

/-- A purchase of a stock the map does not know, given up and cancelled, with something in between. -/
def unknownBuy (between : Event) : List Event :=
  [.place .buy "KO" 3 60 none 0 (some 7), .unfilled 0, between, .cancel "KO"]

instance (s : State) : Decidable (CancelsRouted s) := List.decidableBAll _ _

theorem cancels_routed_unknown :
    CancelsRouted (run usSettings (boot .empty) (unknownBuy .newCycle)) ∧
    ∀ ev, Agrees usSettings (run usSettings (boot .empty) (unknownBuy .newCycle)) ev ↔
      ∀ more : List Event, (∀ x ∈ more, entries usSettings x = []) →
        CancelsRouted (run usSettings (boot .empty) (unknownBuy .newCycle ++ ev::more)) :=
  cancels_routed usSettings .empty (unknownBuy .newCycle)
    (runAgrees_of_silent (by simp [unknownBuy, entries]) _)

/-- The order went to the default exchange; a screening seed then sends its cancel to another. -/
theorem seed_misroutes_cancel :
    ¬ ∀ (cfg : Settings) (exchanges : Dict Code String) (events : List Event),
      cfg.market.isOverseas = true → CancelsRouted (run cfg (boot exchanges) events) := by
  intro hall
  have hrouted := hall usSettings .empty (unknownBuy (.seed [("KO", "NYSE")])) rfl
  revert hrouted
  decide +kernel

end KisAutotrader.ExchangeRouting
