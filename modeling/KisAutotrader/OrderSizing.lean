import KisAutotrader.CycleRules
import KisAutotrader.OrderSteps

/-!
# What backs an order

An order takes its numbers from earlier answers: the balance of the account, the quote of the
stock, and for a buy the quantity that the account can still pay.
-/
namespace KisAutotrader.OrderSizing
open OrderedDict Coroutine OrderExecution OrderSteps RiskRestore Screening
  StockProcessing TradingCycle

/-- The answers so far. A quote and a buying power are used up by the next order. -/
structure Seen where
  balances : List Balance := []
  quoted : Option (Code × ℚ) := none
  buyable : Option (Code × ℚ × ℤ) := none

def note (r : Req) (reply : Reply) (x : World × Seen) : Seen :=
  match r with
  | .balance s =>
      match (serve (.balance s) reply x.1).1 with
      | .ok b => { x.2 with balances := x.2.balances ++ [b] }
      | .error _ => x.2
  | .quote code evaluated =>
      match (serve (.quote code evaluated) reply x.1).1 with
      | .ok price => { x.2 with quoted := some (code, price) }
      | .error _ => x.2
  | .buyable code price =>
      { x.2 with buyable := (serve (.buyable code price) reply x.1).1.map fun n => (code, price, n) }
  | .place .. => { x.2 with quoted := none, buyable := none }
  | _ => x.2

/-- A buy of a stock that the account was reported not to hold, at the last quote, within the
buying power answered for it, and within the share of the deposit; abroad one share may exceed it. -/
structure BuyBacked (cfg : Settings) (code : Code) (quantity : ℕ) (price : ℚ) (s : Seen) : Prop where
  ordered : 0 < quantity
  priced : 0 < price
  floor : cfg.minPrice ≤ price
  quoted : s.quoted = some (code, price)
  buyable : ∃ n, s.buyable = some (code, price, n) ∧ (quantity : ℤ) ≤ n
  balance : ∃ b ∈ s.balances, 0 < b.deposit ∧ findHolding b code = none ∧
    (quantity * price ≤ b.deposit * cfg.limits.maxPositionRatio ∨ cfg.market.isOverseas = true ∧ quantity = 1)

/-- A sale of the whole of a reported holding at the last quote. -/
structure SellBacked (code : Code) (quantity : ℕ) (price : ℚ) (s : Seen) : Prop where
  ordered : 0 < quantity
  priced : 0 < price
  quoted : s.quoted = some (code, price)
  balance : ∃ b ∈ s.balances, ∃ h ∈ b.holdings, h.stockCode = code ∧ h.quantity = quantity

/-- Every order is backed. -/
def Backed (cfg : Settings) (r : Req) (s : Seen) : Prop :=
  match r with
  | .place .buy code quantity price _ => BuyBacked cfg code quantity price s
  | .place .sell code quantity price _ => SellBacked code quantity price s
  | _ => True

/-- The cached balance is one that was reported. -/
def Reported (x : World × Seen) : Prop :=
  ∀ t b, x.1.engine.balanceCache = some (t, b) → b ∈ x.2.balances

/-- A crash leaves what any call finds. -/
def AtCall (cfg : Settings) (r : Req) (x : World × Seen) : Prop := Backed cfg r x.2 ∧ Reported x

/-- A further report does not take away what was known. -/
def Lasting (P : Seen → Prop) : Prop := ∀ s b, P s → P { s with balances := s.balances ++ [b] }

def Known (P : Seen → Prop) (x : World × Seen) : Prop := Reported x ∧ P x.2

section Procedures
variable {cfg : Settings} {P Q : Seen → Prop} {α : Type}

/-- The procedure keeps what is known, and sends backed orders only. -/
abbrev Keeps (cfg : Settings) (P : Seen → Prop) (p : EngineM α) : Prop :=
  Kept serve note (fun _ _ _ => True) (AtCall cfg) (Known P) p

abbrev Moves (cfg : Settings) (P Q : Seen → Prop) (p : EngineM α) : Prop :=
  Leads serve note (fun _ _ _ => True) (AtCall cfg) (Known P) (Known Q) p

theorem reported_update {f : Engine → Engine} (hf : ∀ e, (f e).balanceCache = e.balanceCache ∨
    (f e).balanceCache = none) {x : World × Seen} (h : Reported x) : Reported (onEngine f x.1, x.2) := by
  intro t b hcache
  rcases hf x.1.engine with hsame | hnone
  · exact h t b (hsame.symm.trans hcache)
  · exact absurd (hnone.symm.trans hcache) (by simp)

theorem keeps_update {f : Engine → Engine} (hf : ∀ e, (f e).balanceCache = e.balanceCache ∨
    (f e).balanceCache = none) : Keeps cfg P (modify (onEngine f)) :=
  kept_modify fun _ hx => ⟨reported_update hf hx.1, hx.2⟩

/-- A call whose answer is not noted. -/
theorem keeps_ask {r : Req} (hbacked : ∀ s, Backed cfg r s) (hnote : ∀ reply x, note r reply x = x.2) :
    Keeps cfg P (ask r) := by
  intro x hx
  rw [wp_instrument_ask]
  refine ⟨⟨hbacked _, hx.1⟩, fun reply _ => ⟨fun t b hcache => ?_, ?_⟩⟩
  · rw [serve_engine] at hcache
    rw [hnote]
    exact hx.1 t b hcache
  · rw [hnote]
    exact hx.2

/-- A balance that the engine works with was reported. -/
theorem getBalance_known (hP : Lasting P) (s : Site) (force : Bool) {x : World × Seen} (hx : Known P x) :
    wp (serveNoted serve note) (fun _ _ _ => True) (AtCall cfg) (instrument Seen (getBalance cfg s force))
      (fun r y => Known P y ∧ ∀ b, r = .ok b → b ∈ y.2.balances) x := by
  rw [getBalance, wp_instrument_bind, wp_instrument_get]
  split
  · rename_i b hcached
    refine ⟨hx, fun c hc => ?_⟩
    obtain rfl := Except.ok.inj hc
    cases force with
    | true => simp at hcached
    | false =>
      obtain ⟨t, hcache⟩ := freshCache_some hcached
      exact hx.1 t b hcache
  · rw [wp_instrument_bind, wp_instrument_ask]
    refine ⟨⟨trivial, hx.1⟩, fun reply _ => ?_⟩
    have hnote : note (.balance s) reply x = match (serve (.balance s) reply x.1).1 with
        | .ok b => { x.2 with balances := x.2.balances ++ [b] }
        | .error _ => x.2 := rfl
    cases hanswer : (serve (.balance s) reply x.1).1 with
    | error e =>
      rw [hanswer] at hnote
      refine ⟨⟨fun t b hcache => ?_, by rw [hnote]; exact hx.2⟩, by simp⟩
      rw [serve_engine] at hcache
      rw [hnote]
      exact hx.1 t b hcache
    | ok b =>
      rw [hanswer] at hnote
      have hmem : b ∈ (note (.balance s) reply x).balances := by simp [hnote]
      refine ⟨⟨fun t c hcache => ?_, by rw [hnote]; exact hP _ _ hx.2⟩, fun c hc => ?_⟩
      · obtain ⟨-, rfl⟩ := Prod.mk.inj (Option.some.inj hcache)
        exact hmem
      · obtain rfl := Except.ok.inj hc
        exact hmem

theorem keeps_book {f : Time → Engine → Engine × TradeRow}
    (hf : ∀ now e, (f now e).1.balanceCache = e.balanceCache) : Keeps cfg P (book f) := by
  refine kept_get.bind fun w => (kept_modify fun x hx => ⟨fun t b hcache => ?_, hx.2⟩).bind fun _ =>
    keeps_ask (fun _ => trivial) fun _ _ => rfl
  rw [applyBooking_engine, hf] at hcache
  exact hx.1 t b hcache

theorem standing_known (hP : Lasting P) :
    Standing cfg serve note (fun _ _ _ => True) (AtCall cfg) (Known P) where
  ask r hr := by
    apply keeps_ask
    · cases r <;> simp_all [besideOrder, Backed]
    · cases r <;> simp_all [besideOrder, note]
  balance s force x hx := wp_mono (getBalance_known hP s force hx) fun _ _ h => h.1
  update f hf := keeps_update fun e => (hf e).2.2
  log entry := kept_modify fun _ hx => hx
  book f hf := by
    apply keeps_book
    intro now e
    cases hf with
    | buy code filled price =>
      exact (OrderRules.books_buyConfirmed cfg code filled price).balanceCache now e
    | sell code filled price reason avgPrice =>
      exact (OrderRules.books_sellConfirmed cfg code filled price reason avgPrice).balanceCache now e
    | orphan code pending filled =>
      exact (OrderRules.books_orphanConfirmed cfg code pending filled).balanceCache now e

/-! ### The order calls -/

/-- The account was reported so. -/
def Account (b : Balance) (s : Seen) : Prop := b ∈ s.balances

/-- And the stock stands at the price. -/
def Quoted (b : Balance) (code : Code) (price : ℚ) (s : Seen) : Prop :=
  b ∈ s.balances ∧ s.quoted = some (code, price)

/-- And so many shares can be paid. -/
def Payable (b : Balance) (code : Code) (price : ℚ) (n : ℤ) (s : Seen) : Prop :=
  Quoted b code price s ∧ s.buyable = some (code, price, n)

theorem lasting_account (b : Balance) : Lasting (Account b) :=
  fun _ _ h => List.mem_append_left _ h

theorem lasting_quoted (b : Balance) (code : Code) (price : ℚ) : Lasting (Quoted b code price) :=
  fun _ _ h => ⟨List.mem_append_left _ h.1, h.2⟩

theorem lasting_payable (b : Balance) (code : Code) (price : ℚ) (n : ℤ) :
    Lasting (Payable b code price n) :=
  fun s c h => ⟨lasting_quoted b code price s c h.1, h.2⟩

variable {b : Balance} {code : Code} {price : ℚ}

theorem quote_known (evaluated : Option Holding) {x : World × Seen} (hx : Known (Account b) x) :
    wp (serveNoted serve note) (fun _ _ _ => True) (AtCall cfg) (instrument Seen (getCurrent code evaluated))
      (fun r y => Known (Account b) y ∧ ∀ price, r = .ok price → Known (Quoted b code price) y) x := by
  rw [wp_instrument_ask]
  refine ⟨⟨trivial, hx.1⟩, fun reply _ => ?_⟩
  have hnote : note (.quote code evaluated) reply x = match (serve (.quote code evaluated) reply x.1).1 with
      | .ok price => { x.2 with quoted := some (code, price) }
      | .error _ => x.2 := rfl
  have hbalances : (note (.quote code evaluated) reply x).balances = x.2.balances := by
    rw [hnote]
    split <;> rfl
  have hreported : Reported
      ((serve (.quote code evaluated) reply x.1).2, note (.quote code evaluated) reply x) := by
    intro t c hcache
    rw [serve_engine] at hcache
    rw [hbalances]
    exact hx.1 t c hcache
  have haccount : Account b (note (.quote code evaluated) reply x) := by
    rw [Account, hbalances]
    exact hx.2
  refine ⟨⟨hreported, haccount⟩, fun price hprice => ⟨hreported, haccount, ?_⟩⟩
  rw [hnote, hprice]

theorem buyable_known {x : World × Seen} (hx : Known (Quoted b code price) x) :
    wp (serveNoted serve note) (fun _ _ _ => True) (AtCall cfg) (instrument Seen (getBuyableQty code price))
      (fun r y => Known (Quoted b code price) y ∧
        ∀ n, r = some n → Known (Payable b code price n) y) x := by
  rw [wp_instrument_ask]
  refine ⟨⟨trivial, hx.1⟩, fun reply _ => ?_⟩
  have hreported : Reported
      ((serve (.buyable code price) reply x.1).2, note (.buyable code price) reply x) := by
    intro t c hcache
    rw [serve_engine] at hcache
    exact hx.1 t c hcache
  refine ⟨⟨hreported, hx.2⟩, fun n hn => ⟨hreported, hx.2, ?_⟩⟩
  simp only [note, hn, Option.map_some]

/-- A backed order is sent, and its numbers are used up. -/
theorem moves_place (side : Side) (quantity : ℕ) (exchange : String) (hP : ∀ s, P s → b ∈ s.balances ∧
    Backed cfg (.place side code quantity price exchange) s) :
    Moves cfg P (Account b) (placeOrder side code quantity price exchange) := by
  intro x hx
  rw [wp_instrument_ask]
  obtain ⟨haccount, hbacked⟩ := hP x.2 hx.2
  refine ⟨⟨hbacked, hx.1⟩, fun reply _ => ⟨fun t c hcache => ?_, haccount⟩⟩
  rw [serve_engine] at hcache
  exact hx.1 t c hcache

theorem findHolding_some {h : Holding} (hfound : findHolding b code = some h) :
    h ∈ b.holdings ∧ h.stockCode = code ∧ 0 < h.quantity := by
  have hprop := List.find?_some hfound
  rw [decide_eq_true_eq] at hprop
  exact ⟨List.mem_of_find?_eq_some hfound, hprop.1, hprop.2⟩

theorem moves_processHeldStock {h : Holding} (hfound : findHolding b code = some h) (signal : Signal) :
    Moves cfg (Quoted b code price) (Account b) (processHeldStock cfg price h signal) := by
  obtain ⟨hmem, rfl, hquantity⟩ := findHolding_some hfound
  apply (standing_known (lasting_quoted b h.stockCode price)).processHeldStock
    (standing_known (lasting_account b)) (fun x hx => ⟨hx.1, hx.2.1⟩)
  intro hprice exchange
  exact moves_place .sell h.quantity exchange fun s hs =>
    ⟨hs.1, hquantity, hprice, hs.2, b, hs.1, h, hmem, rfl, rfl⟩

/-- The size of a buy that the gates let pass. -/
theorem positionSize_bound {deposit : ℚ} {quantity : ℤ} (hprice : 0 < price)
    (hsize : RiskManager.calculatePositionSize cfg.limits deposit price (minQuantity cfg) = some quantity)
    (hquantity : 0 < quantity) : 0 < deposit ∧
      (quantity * price ≤ deposit * cfg.limits.maxPositionRatio ∨
        cfg.market.isOverseas = true ∧ quantity = 1) := by
  unfold RiskManager.calculatePositionSize at hsize
  split_ifs at hsize with hbad
  rw [not_or, not_le, not_le] at hbad
  refine ⟨hbad.1, ?_⟩
  obtain rfl := Option.some.inj hsize
  rcases le_or_gt (minQuantity cfg) (truncate (deposit * cfg.limits.maxPositionRatio / price))
    with hmin | hmin
  · rw [max_eq_right hmin] at hquantity ⊢
    have hle := truncate_le hquantity
    exact Or.inl ((le_div_iff₀ hprice).mp hle)
  · rw [max_eq_left hmin.le] at hquantity ⊢
    unfold minQuantity at hquantity ⊢
    split_ifs at hquantity ⊢ with hoverseas
    · exact Or.inr ⟨hoverseas, rfl⟩
    · omega

theorem buyBacked_min {quantity n : ℤ} {s : Seen} (hfree : findHolding b code = none) (hprice : 0 < price)
    (hfloor : cfg.minPrice ≤ price) (hquantity : 0 < quantity) (hn : 0 < n)
    (hsize : RiskManager.calculatePositionSize cfg.limits b.deposit price (minQuantity cfg) = some quantity)
    (hs : Payable b code price n s) : BuyBacked cfg code (min quantity n).toNat price s := by
  obtain ⟨hdeposit, hbound⟩ := positionSize_bound hprice hsize hquantity
  have hmin : ((min quantity n).toNat : ℤ) = min quantity n := Int.toNat_of_nonneg (by omega)
  refine ⟨by omega, hprice, hfloor, hs.1.2, ⟨n, hs.2, by omega⟩, b, hs.1.1, hdeposit, hfree, ?_⟩
  rcases hbound with hratio | ⟨hoverseas, rfl⟩
  · have hle : ((min quantity n).toNat : ℚ) ≤ quantity := by
      have hleft := hmin.trans_le (min_le_left quantity n)
      exact_mod_cast hleft
    exact Or.inl ((mul_le_mul_of_nonneg_right hle hprice.le).trans hratio)
  · exact Or.inr ⟨hoverseas, by omega⟩

theorem moves_processBuySignal (hfree : findHolding b code = none) (signal : Signal) :
    Moves cfg (Quoted b code price) (Account b) (processBuySignal cfg code b.deposit price signal) := by
  have hweak : ∀ x : World × Seen, Known (Quoted b code price) x → Known (Account b) x :=
    fun x hx => ⟨hx.1, hx.2.1⟩
  refine kept_get.leads fun w => ?_
  split
  · exact leads_pure hweak _
  · split
    · exact leads_pure hweak _
    · rename_i quantity hsize
      split
      · exact leads_pure hweak _
      · rename_i hquantity
        rw [not_le] at hquantity
        intro x hx
        rw [wp_instrument_bind]
        refine wp_mono (buyable_known hx) fun r y hy => ?_
        split
        · exact hweak y hy.1
        · rename_i n hn
          obtain ⟨hanswer, hpos⟩ := Option.filter_eq_some_iff.mp hn
          have hpayable := hy.2 n hanswer
          have hn : 0 < n := by simpa using hpos
          have hbuy : Moves cfg (Payable b code price n) (Account b)
              (executeBuy cfg code (min quantity n).toNat price) := by
            apply (standing_known (lasting_payable b code price n)).executeBuy
              (standing_known (lasting_account b)) (fun x hx => ⟨hx.1, hx.2.1.1⟩)
            intro hprice hfloor exchange
            exact moves_place .buy _ exchange fun s hs =>
              ⟨hs.1.1, buyBacked_min hfree hprice hfloor hquantity hn hsize hs⟩
          exact (hbuy.keep fun _ => kept_pure _) y hpayable

/-! ### The jobs -/

theorem keeps_evaluateHeldWithoutDaily {h : Holding} (hfound : findHolding b code = some h) :
    Keeps cfg (Account b) (evaluateHeldWithoutDaily cfg h) := by
  obtain ⟨-, rfl, -⟩ := findHolding_some hfound
  intro x hx
  rw [evaluateHeldWithoutDaily, wp_instrument_bind]
  refine wp_mono (quote_known (some h) hx) fun r y hy => ?_
  split
  · exact hy.1
  · rename_i price
    exact ((moves_processHeldStock hfound holdSignal).keep fun _ => kept_pure _) y (hy.2 price rfl)

theorem keeps_processStock (code : Code) :
    Keeps cfg (Account b) (processStock cfg code b.deposit (findHolding b code)) := by
  have hdaily : Keeps cfg (Account b) (fetchDaily code) := (standing_known (lasting_account b)).ask _ rfl
  refine hdaily.bind fun daily => ?_
  split
  · exact kept_pure _
  · split
    · rename_i h hfound
      exact keeps_evaluateHeldWithoutDaily hfound
    · exact kept_pure _
  · intro x hx
    rw [wp_instrument_bind]
    refine wp_mono (quote_known none hx) fun r y hy => ?_
    split
    · exact hy.1
    · rename_i price
      have hanalyze : Keeps cfg (Quoted b code price) (analyze code (findHolding b code)) :=
        (standing_known (lasting_quoted b code price)).ask _ rfl
      have hweak : ∀ x : World × Seen, Known (Quoted b code price) x → Known (Account b) x :=
        fun x hx => ⟨hx.1, hx.2.1⟩
      refine (hanalyze.leads fun signal => ?_) y (hy.2 price rfl)
      split
      · exact leads_pure hweak _
      · rename_i signal
        split
        · rename_i h hfound
          exact (moves_processHeldStock hfound signal).keep fun _ => kept_pure _
        · rename_i hfree
          split
          · exact moves_processBuySignal hfree signal
          · exact leads_pure hweak _

/-- Nothing but the cache is known between the jobs. -/
abbrev Ready (cfg : Settings) (p : EngineM α) : Prop := Keeps cfg (fun _ => True) p

theorem standing_ready : Standing cfg serve note (fun _ _ _ => True) (AtCall cfg) (Known fun _ => True) :=
  standing_known fun _ _ h => h

theorem ready_fromBalance (buyLimitReached : Bool) : Ready cfg (fromBalance cfg buyLimitReached) := by
  intro x hx
  rw [fromBalance, wp_instrument_bind]
  refine wp_mono (getBalance_known (fun _ _ h => h) .cycle false hx) fun r y hy => ?_
  obtain ⟨hready, hreported⟩ := hy
  split
  · exact standing_ready.update setDailyLimitReached (plain_of_same fun _ => ⟨rfl, rfl, rfl⟩) y hready
  · exact hready
  · rename_i b
    have hstanding : Standing cfg serve note (fun _ _ _ => True) (AtCall cfg) (Known (Account b)) :=
      standing_known (lasting_account b)
    have htargets : Keeps cfg (Account b) (do
        let targets ← cycleTargets buyLimitReached b
        processTargets cfg b targets) :=
      (hstanding.cycleTargets buyLimitReached b).bind fun targets =>
        hstanding.processTargets keeps_processStock targets
    exact wp_mono (htargets y ⟨hready.1, hreported b rfl⟩) fun _ z hz => ⟨hz.1, trivial⟩

theorem ready_restore : Ready cfg (restoreRiskStateIfNeeded cfg) := by
  have hupdate : ∀ f : Engine → Engine, (∀ e, (f e).balanceCache = e.balanceCache) →
      Ready cfg (modify (onEngine f)) := fun f hf => keeps_update fun e => Or.inl (hf e)
  refine kept_get.bind fun w => ?_
  split
  · exact kept_pure _
  · refine (hupdate markRestored fun _ => rfl).bind fun _ => ?_
    refine (standing_ready.ask _ rfl).bind fun rows => ?_
    split
    · exact kept_pure _
    · refine (hupdate (restoreGates _ _) fun e => ?_).bind fun _ => ?_
      · obtain ⟨_, _, _, heq⟩ := CycleRules.restoreGates_eq _ _ e
        rw [heq]
      · split
        · exact kept_pure _
        · refine (hupdate (restoreRisk cfg _) fun _ => rfl).bind fun _ => ?_
          exact (standing_ready.ask _ rfl).bind fun peaks => hupdate (setPeaks peaks) fun _ => rfl

theorem ready_preMarket : Ready cfg (preMarket cfg) := by
  refine (standing_ready.ask _ rfl).bind fun peaks => ?_
  refine (keeps_update (f := resetDay peaks) fun _ => Or.inr rfl).bind fun _ => ?_
  have hmark : Ready cfg (modify (onEngine markRestored)) := keeps_update fun _ => Or.inl rfl
  refine (standing_ready.ask _ rfl).bind fun token => ?_
  dsimp only
  split
  · refine (standing_ready.balance .cycle true).bind fun r => ?_
    split
    · exact hmark
    · refine (standing_ready.ask _ rfl).bind fun prefetched => ?_
      split
      · exact standing_ready.screenStocks.bind fun _ => hmark
      · exact hmark
  · exact hmark

theorem ready_runDayJob (job : DayJob) : Ready cfg (runDayJob cfg job) := by
  cases job with
  | idle => exact standing_ready.ask _ rfl
  | cycle => exact standing_ready.runTradingCycle ready_restore (standing_ready.cycleBody ready_fromBalance)
  | postMarket => exact standing_ready.postMarket

theorem ready_cut {p : EngineM α} (h : Ready cfg p) (calls : ℕ) : Ready cfg (cut calls p) := by
  intro x hx
  rw [instrument_cut]
  exact wp_cut calls (h x hx) fun r y hy => ⟨hy.2, trivial⟩

theorem ready_runJob (job : Job) : Ready cfg (runJob cfg job) := by
  induction job with
  | day job => exact ready_runDayJob job
  | preMarket => exact ready_preMarket
  | crash calls job ih =>
    exact (ready_cut ih calls).bind fun _ => keeps_update fun _ => Or.inr rfl

end Procedures

/-- Over every run of the jobs from a new process on, with crashes at any of their calls and any
answers in between: every order that is sent is backed by answers, a quote and a buying power by no
earlier order's, and the cached balance is always one that the account was reported with. -/
theorem orders_backed (cfg : Settings) (jobs : List (Job × Tape)) (w : World) :
    RunAlong (serveNoted serve note) (fun job => instrument Seen (runJob cfg job)) (AtCall cfg) jobs
      ({ w with engine := {} }, {}) := by
  have hstart : Known (fun _ => True) ({ w with engine := {} }, {}) := by
    refine ⟨fun t b hcache => ?_, trivial⟩
    cases hcache
  exact (run_invariant (fun job x hx => ready_runJob job x hx) hstart (runMeets_true jobs _)).1

end KisAutotrader.OrderSizing
