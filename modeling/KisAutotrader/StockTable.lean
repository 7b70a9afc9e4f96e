import Mathlib.Data.Set.Insert
import Mathlib.Data.List.Sort
import Mathlib.Data.String.Basic
import KisAutotrader.Market
import KisAutotrader.OrderedDict

/-!
# The table of stocks

All that writes the table that the engines, the workers, the bot and the scripts share. Its rows
stay, a real name stays real, and the watched stocks follow the commands and the settings.
-/
namespace KisAutotrader.StockTable
open OrderedDict

structure Stock where
  name : String
  market : String
  isWatchlist : Bool := false
  deriving DecidableEq

/-- `stocks`, by the unique code. -/
abbrev Table := Dict Code Stock

/-! ### StockRepository -/

def create (t : Table) (code : Code) (name market : String) : Table := t.set code ⟨name, market, false⟩

def updateName (t : Table) (code : Code) (name : String) : Table :=
  match t.get? code with
  | none => t
  | some stock => if stock.name = name then t else t.set code { stock with name := name }

/-! ### WatchlistRepository -/

/-- The table with the stock in it, and the stock. -/
def getOrCreate (t : Table) (code : Code) (stockName : String) : Table × Stock :=
  match t.get? code with
  | some stock => (t, stock)
  | none =>
    (create t code (if stockName = "" then code else stockName) "KOSPI",
      ⟨if stockName = "" then code else stockName, "KOSPI", false⟩)

def add (t : Table) (code : Code) (stockName : String) : Table :=
  if (getOrCreate t code stockName).2.isWatchlist then (getOrCreate t code stockName).1
  else (getOrCreate t code stockName).1.set code { (getOrCreate t code stockName).2 with isWatchlist := true }

def remove (t : Table) (code : Code) : Table :=
  match t.get? code with
  | none => t
  | some stock => if stock.isWatchlist then t.set code { stock with isWatchlist := false } else t

def getCodes (t : Table) : List Code :=
  ((t.items.filter fun kv => kv.2.isWatchlist).map Prod.fst).insertionSort fun a b => a ≤ b

/-! ### The writers -/

/-- A name that says more than the code. -/
def Real (code : Code) (name : String) : Prop := name ≠ "" ∧ name ≠ code

instance (code : Code) (name : String) : Decidable (Real code name) :=
  inferInstanceAs (Decidable (_ ∧ _))

/-- One code of `_seed_watchlist_from_env`; no reply is a quote that failed. -/
def seed (reply : Code → Option String) (t : Table) (code : Code) : Table :=
  match (add t code "").get? code, reply code with
  | some stock, some name =>
    if stock.name = code ∧ name ≠ "" then updateName (add t code "") code name else add t code ""
  | _, _ => add t code ""

def seedWatchlistFromEnv (watchlistCodes : List Code) (reply : Code → Option String) (t : Table) : Table :=
  watchlistCodes.foldl (seed reply) t

/-- The reply for one of the missing codes of `_prefetch_stock_names`. -/
def prefetchStockName (t : Table) (code : Code) (name : String) : Table :=
  if Real code name then
    match t.get? code with
    | none => create t code name "UNKNOWN"
    | some stock => if stock.name ≠ name then updateName t code name else t
  else t

/-- One pair of `_upsert_stock_names`, with what `_board_label` gives. -/
def upsertStockName (board : Code → String) (t : Table) (pair : Code × String) : Table :=
  if Real pair.1 pair.2 then
    match t.get? pair.1 with
    | none => create t pair.1 pair.2 (board pair.1)
    | some stock => if stock.name = pair.1 ∨ stock.name = "" then updateName t pair.1 pair.2 else t
  else t

def resolveStockName (t : Table) (code : Code) : String :=
  match t.get? code with
  | some stock => if Real code stock.name then stock.name else ""
  | none => ""

def updateStockNameIfNeeded (t : Table) (code : Code) (name : String) : Table :=
  match t.get? code with
  | some stock => if stock.name = code ∨ stock.name = "" then updateName t code name else t
  | none => t

/-- `_resolve_current_stock_name`: the name that is shown and the table. -/
def resolveCurrentStockName (t : Table) (code : Code) (replied : String) : String × Table :=
  if Real code replied then (replied, updateStockNameIfNeeded t code replied)
  else (if resolveStockName t code ≠ "" then resolveStockName t code else code, t)

/-- A row for a stock that has none: for an order, a holding, a row of the market's master. -/
def ensure (t : Table) (code : Code) (name market : String) : Table :=
  match t.get? code with
  | none => create t code name market
  | some _ => t

/-- A ranked stock of the screener for America, with its exchange. -/
def recordExchange (t : Table) (code : Code) (name exchange : String) : Table :=
  if exchange = "" then t
  else
    match t.get? code with
    | none => create t code name exchange
    | some stock => if stock.market ≠ exchange then t.set code { stock with market := exchange } else t

/-- The transactions on the table. -/
inductive Event where
  | preMarket (reply : Code → Option String)
  | prefetched (code : Code) (name : String)
  | screened (board : Code → String) (names : List (Code × String))
  | priced (code : Code) (replied : String)
  | ensured (code : Code) (name market : String)
  | ranked (code : Code) (name exchange : String)
  | watch (code : Code)
  | unwatch (code : Code)

def step (watchlistCodes : List Code) (t : Table) : Event → Table
  | .preMarket reply => seedWatchlistFromEnv watchlistCodes reply t
  | .prefetched code name => prefetchStockName t code name
  | .screened board names => names.foldl (upsertStockName board) t
  | .priced code replied => (resolveCurrentStockName t code replied).2
  | .ensured code name market => ensure t code name market
  | .ranked code name exchange => recordExchange t code name exchange
  | .watch code => add t code ""
  | .unwatch code => remove t code

def run (watchlistCodes : List Code) (t : Table) (es : List Event) : Table := es.foldl (step watchlistCodes) t

/-- What the engine watches: the codes of the table or, where there are none, of the settings. -/
def getWatchlistCodes (watchlistCodes : List Code) (t : Table) : List Code :=
  if getCodes t = [] then watchlistCodes else getCodes t

/-! ### What a write can do -/

/-- Every row stays, and a real name stays real. -/
def Keeps (t t' : Table) : Prop :=
  ∀ code stock, t.get? code = some stock →
    ∃ stock', t'.get? code = some stock' ∧ (Real code stock.name → Real code stock'.name)

theorem Keeps.trans {t u v : Table} (h : Keeps t u) (h' : Keeps u v) : Keeps t v := by
  intro code stock hstock
  obtain ⟨stock', hstock', hname⟩ := h code stock hstock
  obtain ⟨stock'', hstock'', hname'⟩ := h' code stock' hstock'
  exact ⟨stock'', hstock'', fun hreal => hname' (hname hreal)⟩

/-- The stocks that are watched. -/
def watched (t : Table) : Set Code := {code | ∃ stock, t.get? code = some stock ∧ stock.isWatchlist = true}

theorem keeps_set {t : Table} {code : Code} {stock : Stock}
    (h : ∀ old, t.get? code = some old → Real code old.name → Real code stock.name) :
    Keeps t (t.set code stock) := by
  intro c old hold
  by_cases hc : c = code
  · subst hc
    exact ⟨stock, Dict.get?_set_self t c stock, h old hold⟩
  · exact ⟨old, by rw [Dict.get?_set_ne t hc, hold], id⟩

theorem watched_set (t : Table) (code : Code) (stock : Stock) :
    watched (t.set code stock) = if stock.isWatchlist then insert code (watched t) else watched t \ {code} := by
  ext c
  by_cases hc : c = code
  · subst hc
    split_ifs with hw <;> simp [watched, hw]
  · split_ifs <;> simp [watched, Dict.get?_set_ne t hc, hc]

/-- Writes that leave the watched stocks alone: a new row, or another name or market. -/
inductive Amend : Table → Table → Prop
  | refl (t : Table) : Amend t t
  | create {t : Table} {code : Code} (name market : String) (h : t.get? code = none) :
      Amend t (StockTable.create t code name market)
  | rewrite {t : Table} {code : Code} {old stock : Stock} (h : t.get? code = some old)
      (hname : Real code old.name → Real code stock.name) (hwatch : stock.isWatchlist = old.isWatchlist) :
      Amend t (t.set code stock)
  | trans {t u v : Table} (h : Amend t u) (h' : Amend u v) : Amend t v

theorem Amend.keeps {t t' : Table} (h : Amend t t') : Keeps t t' := by
  induction h with
  | refl t => exact fun code stock hstock => ⟨stock, hstock, id⟩
  | create name market h =>
    apply keeps_set
    intro old hold
    rw [h] at hold
    cases hold
  | rewrite h hname hwatch =>
    apply keeps_set
    intro old hold
    rw [h] at hold
    obtain rfl := Option.some.inj hold
    exact hname
  | trans _ _ ih ih' => exact ih.trans ih'

theorem Amend.watched {t t' : Table} (h : Amend t t') : watched t' = watched t := by
  induction h with
  | refl t => rfl
  | @create t code name market h =>
    rw [StockTable.create, watched_set, if_neg (by simp)]
    apply Set.sdiff_singleton_eq_self
    simp [StockTable.watched, h]
  | @rewrite t code old stock h hname hwatch =>
    rw [watched_set]
    split_ifs with hw
    · apply Set.insert_eq_of_mem
      exact ⟨old, h, hwatch.symm.trans hw⟩
    · apply Set.sdiff_singleton_eq_self
      simp [StockTable.watched, h, ← hwatch, hw]
  | trans _ _ ih ih' => exact ih'.trans ih

theorem Amend.foldl {α : Type} {f : Table → α → Table} (h : ∀ t x, Amend t (f t x)) (xs : List α) (t : Table) :
    Amend t (xs.foldl f t) := by
  induction xs generalizing t with
  | nil => exact .refl t
  | cons x xs ih => exact (h t x).trans (ih (f t x))

/-! ### The writers -/

theorem updateName_amend {t : Table} {code : Code} {name : String}
    (h : ∀ stock, t.get? code = some stock → Real code stock.name → Real code name) :
    Amend t (updateName t code name) := by
  unfold updateName
  split
  · exact .refl t
  · rename_i stock hstock
    split_ifs
    · exact .refl t
    · exact .rewrite hstock (h stock hstock) rfl

theorem prefetchStockName_amend (t : Table) (code : Code) (name : String) : Amend t (prefetchStockName t code name) := by
  unfold prefetchStockName
  split_ifs with hreal
  · split
    · rename_i hnone
      exact .create name "UNKNOWN" hnone
    · split_ifs
      · exact updateName_amend fun _ _ _ => hreal
      · exact .refl t
  · exact .refl t

theorem upsertStockName_amend (board : Code → String) (t : Table) (pair : Code × String) :
    Amend t (upsertStockName board t pair) := by
  unfold upsertStockName
  split_ifs with hreal
  · split
    · rename_i hnone
      exact .create pair.2 (board pair.1) hnone
    · split_ifs
      · exact updateName_amend fun _ _ _ => hreal
      · exact .refl t
  · exact .refl t

theorem resolveCurrentStockName_amend (t : Table) (code : Code) (replied : String) :
    Amend t (resolveCurrentStockName t code replied).2 := by
  unfold resolveCurrentStockName updateStockNameIfNeeded
  split_ifs with hreal
  · split
    · split_ifs
      · exact updateName_amend fun _ _ _ => hreal
      · exact .refl t
    · exact .refl t
  · exact .refl t
  · exact .refl t

theorem ensure_amend (t : Table) (code : Code) (name market : String) : Amend t (ensure t code name market) := by
  unfold ensure
  split
  · rename_i hnone
    exact .create name market hnone
  · exact .refl t

theorem recordExchange_amend (t : Table) (code : Code) (name exchange : String) :
    Amend t (recordExchange t code name exchange) := by
  unfold recordExchange
  split_ifs
  · exact .refl t
  · split
    · rename_i hnone
      exact .create name exchange hnone
    · rename_i stock hstock
      split_ifs
      · exact .rewrite hstock id rfl
      · exact .refl t

theorem getOrCreate_spec (t : Table) (code : Code) (name : String) :
    Amend t (getOrCreate t code name).1 ∧ (getOrCreate t code name).1.get? code = some (getOrCreate t code name).2 := by
  unfold getOrCreate
  split
  · rename_i stock hstock
    exact ⟨.refl t, hstock⟩
  · rename_i hnone
    exact ⟨.create _ _ hnone, Dict.get?_set_self _ _ _⟩

/-- Watching a stock keeps the rows and adds it to the watched. -/
theorem add_spec (t : Table) (code : Code) (name : String) :
    Keeps t (add t code name) ∧ watched (add t code name) = insert code (watched t) := by
  obtain ⟨hamend, hrow⟩ := getOrCreate_spec t code name
  unfold add
  split_ifs with hw
  · refine ⟨hamend.keeps, ?_⟩
    rw [hamend.watched]
    refine (Set.insert_eq_of_mem ?_).symm
    rw [← hamend.watched]
    exact ⟨_, hrow, hw⟩
  · refine ⟨hamend.keeps.trans (keeps_set ?_), ?_⟩
    · intro old hold hreal
      rw [hrow] at hold
      obtain rfl := Option.some.inj hold
      exact hreal
    · rw [watched_set, if_pos rfl, hamend.watched]

theorem remove_spec (t : Table) (code : Code) :
    Keeps t (remove t code) ∧ watched (remove t code) = watched t \ {code} := by
  unfold remove
  split
  · rename_i hnone
    refine ⟨(Amend.refl t).keeps, (Set.sdiff_singleton_eq_self ?_).symm⟩
    simp [watched, hnone]
  · rename_i stock hstock
    split_ifs with hw
    · refine ⟨keeps_set ?_, ?_⟩
      · intro old hold hreal
        rw [hstock] at hold
        obtain rfl := Option.some.inj hold
        exact hreal
      · rw [watched_set, if_neg (by simp)]
    · refine ⟨(Amend.refl t).keeps, (Set.sdiff_singleton_eq_self ?_).symm⟩
      simp [watched, hstock, hw]

theorem seed_spec (reply : Code → Option String) (t : Table) (code : Code) :
    Keeps t (seed reply t code) ∧ watched (seed reply t code) = insert code (watched t) := by
  obtain ⟨hkeeps, hwatched⟩ := add_spec t code ""
  have hamend : Amend (add t code "") (seed reply t code) := by
    unfold seed
    split
    · rename_i stock name hstock _
      split_ifs with hname
      · refine updateName_amend fun old hold hreal => ?_
        rw [hstock] at hold
        obtain rfl := Option.some.inj hold
        exact absurd hname.1 hreal.2
      · exact .refl _
    · exact .refl _
  exact ⟨hkeeps.trans hamend.keeps, by rw [hamend.watched, hwatched]⟩

theorem seedWatchlistFromEnv_spec (codes : List Code) (reply : Code → Option String) (t : Table) :
    Keeps t (seedWatchlistFromEnv codes reply t) ∧
      watched (seedWatchlistFromEnv codes reply t) = watched t ∪ {code | code ∈ codes} := by
  unfold seedWatchlistFromEnv
  induction codes generalizing t with
  | nil => exact ⟨(Amend.refl t).keeps, by simp⟩
  | cons code codes ih =>
    obtain ⟨hkeeps, hwatched⟩ := seed_spec reply t code
    obtain ⟨hkeeps', hwatched'⟩ := ih (seed reply t code)
    refine ⟨hkeeps.trans hkeeps', ?_⟩
    rw [List.foldl_cons, hwatched', hwatched]
    ext c
    simp only [Set.mem_union, Set.mem_insert_iff, Set.mem_ofPred_eq, List.mem_cons]
    tauto

/-! ### The watched stocks -/

/-- What the events say should be watched: the settings from each morning on, and the commands. -/
def watchStep (watchlistCodes : List Code) (w : Set Code) : Event → Set Code
  | .preMarket _ => w ∪ {code | code ∈ watchlistCodes}
  | .watch code => insert code w
  | .unwatch code => w \ {code}
  | _ => w

theorem step_spec (watchlistCodes : List Code) (t : Table) (e : Event) :
    Keeps t (step watchlistCodes t e) ∧
      watched (step watchlistCodes t e) = watchStep watchlistCodes (watched t) e := by
  have hamend : ∀ {t'}, Amend t t' → Keeps t t' ∧ watched t' = watched t := fun h => ⟨h.keeps, h.watched⟩
  cases e with
  | preMarket reply => exact seedWatchlistFromEnv_spec watchlistCodes reply t
  | prefetched code name => exact hamend (prefetchStockName_amend t code name)
  | screened board names => exact hamend (Amend.foldl (upsertStockName_amend board) names t)
  | priced code replied => exact hamend (resolveCurrentStockName_amend t code replied)
  | ensured code name market => exact hamend (ensure_amend t code name market)
  | ranked code name exchange => exact hamend (recordExchange_amend t code name exchange)
  | watch code => exact add_spec t code ""
  | unwatch code => exact remove_spec t code

theorem run_spec (watchlistCodes : List Code) (t : Table) (es : List Event) :
    Keeps t (run watchlistCodes t es) ∧
      watched (run watchlistCodes t es) = es.foldl (watchStep watchlistCodes) (watched t) := by
  unfold run
  induction es generalizing t with
  | nil => exact ⟨(Amend.refl t).keeps, rfl⟩
  | cons e es ih =>
    obtain ⟨hkeeps, hwatched⟩ := step_spec watchlistCodes t e
    obtain ⟨hkeeps', hwatched'⟩ := ih (step watchlistCodes t e)
    refine ⟨hkeeps.trans hkeeps', ?_⟩
    rw [List.foldl_cons, hwatched', hwatched, List.foldl_cons]

theorem mem_getCodes {t : Table} {code : Code} : code ∈ getCodes t ↔ code ∈ watched t := by
  simp only [getCodes, List.mem_insertionSort, List.mem_map, List.mem_filter, Prod.exists, exists_and_right,
    exists_eq_right, Dict.mem_items, watched, Set.mem_ofPred_eq]

theorem getCodes_sorted (t : Table) : (getCodes t).Pairwise (· < ·) := by
  have hnodup : (getCodes t).Nodup := by
    refine (List.perm_insertionSort _ _).nodup_iff.mpr ?_
    exact t.nodup.sublist (List.filter_sublist.map Prod.fst)
  have hle : (getCodes t).Pairwise (· ≤ ·) := List.pairwise_insertionSort _ _
  exact (hle.and hnodup).imp fun h => lt_of_le_of_ne h.1 h.2

theorem mem_getWatchlistCodes {codes : List Code} {t : Table} {code : Code} :
    code ∈ getWatchlistCodes codes t ↔ code ∈ watched t ∨ watched t = ∅ ∧ code ∈ codes := by
  have hempty : getCodes t = [] ↔ watched t = ∅ := by
    rw [List.eq_nil_iff_forall_not_mem, Set.eq_empty_iff_forall_notMem]
    exact forall_congr' fun c => not_congr mem_getCodes
  unfold getWatchlistCodes
  split_ifs with hnil
  · simp [hempty.mp hnil]
  · simp [mem_getCodes, mt hempty.mpr hnil]

example : getWatchlistCodes ["005930", "000660"]
    (run ["005930", "000660"] .empty [.preMarket fun _ => none, .unwatch "005930"]) = ["000660"] := by decide +kernel

example : getWatchlistCodes ["005930"]
    (run ["005930"] .empty [.preMarket fun _ => none, .unwatch "005930"]) = ["005930"] := by decide +kernel

/-! ### The names -/

def Named (t : Table) (code : Code) : Prop := ∃ stock, t.get? code = some stock ∧ Real code stock.name

theorem Keeps.named {t t' : Table} (h : Keeps t t') {code : Code} (hnamed : Named t code) : Named t' code := by
  obtain ⟨stock, hstock, hreal⟩ := hnamed
  obtain ⟨stock', hstock', hname⟩ := h code stock hstock
  exact ⟨stock', hstock', hname hreal⟩

theorem not_real_iff {code : Code} {name : String} : ¬Real code name ↔ name = code ∨ name = "" := by
  unfold Real
  tauto

/-- A name that is not real gives way to one that is. -/
theorem updateName_named {t : Table} {code : Code} {stock : Stock} {name : String} (hstock : t.get? code = some stock)
    (hreal : Real code name) :
    Named (if stock.name = code ∨ stock.name = "" then updateName t code name else t) code := by
  split_ifs with hname
  · have hne : stock.name ≠ name := by
      rintro rfl
      exact not_real_iff.mpr hname hreal
    simp only [updateName, hstock, if_neg hne]
    exact ⟨_, Dict.get?_set_self _ _ _, hreal⟩
  · exact ⟨stock, hstock, by_contra fun hnot => hname (not_real_iff.mp hnot)⟩

theorem priced_named {t : Table} {code : Code} {stock : Stock} (hstock : t.get? code = some stock) {replied : String}
    (hreal : Real code replied) : Named (resolveCurrentStockName t code replied).2 code := by
  simp only [resolveCurrentStockName, if_pos hreal, updateStockNameIfNeeded, hstock]
  exact updateName_named hstock hreal

theorem upsertStockName_named (board : Code → String) (t : Table) {pair : Code × String} (hreal : Real pair.1 pair.2) :
    Named (upsertStockName board t pair) pair.1 := by
  rw [upsertStockName, if_pos hreal]
  split
  · exact ⟨_, Dict.get?_set_self _ _ _, hreal⟩
  · rename_i stock hstock
    exact updateName_named hstock hreal

theorem screened_named (board : Code → String) {names : List (Code × String)} {pair : Code × String}
    (hmem : pair ∈ names) (hreal : Real pair.1 pair.2) (t : Table) :
    Named (names.foldl (upsertStockName board) t) pair.1 := by
  induction names generalizing t with
  | nil => cases hmem
  | cons q names ih =>
    obtain rfl | hmem := List.mem_cons.mp hmem
    · exact (Amend.foldl (upsertStockName_amend board) names _).keeps.named (upsertStockName_named board t hreal)
    · exact ih hmem _

theorem Named.resolved {t : Table} {code : Code} (h : Named t code) (replied : String) :
    Real code (resolveCurrentStockName t code replied).1 := by
  obtain ⟨stock, hstock, hreal⟩ := h
  unfold resolveCurrentStockName
  split_ifs with hreplied hresolved
  · exact hreplied
  · simp [resolveStockName, hstock, hreal]
  · simp [resolveStockName, hstock, hreal, hreal.1] at hresolved

/-- An event that brings a real name for a code. -/
def Names (code : Code) : Event → Prop
  | .priced c replied => c = code ∧ Real code replied
  | .screened _ names => ∃ name, (code, name) ∈ names ∧ Real code name
  | .prefetched c name => c = code ∧ Real code name
  | _ => False

theorem step_named {watchlistCodes : List Code} {t : Table} {code : Code} {stock : Stock}
    (hstock : t.get? code = some stock) {e : Event} (he : Names code e) : Named (step watchlistCodes t e) code := by
  cases e with
  | priced c replied =>
    obtain ⟨rfl, hreal⟩ := he
    exact priced_named hstock hreal
  | screened board names =>
    obtain ⟨name, hmem, hreal⟩ := he
    exact screened_named board hmem hreal t
  | prefetched c name =>
    obtain ⟨rfl, hreal⟩ := he
    rw [step, prefetchStockName, if_pos hreal, hstock]
    by_cases hne : stock.name = name
    · simp only [hne, ne_eq, not_true, if_false]
      exact ⟨stock, hstock, hne ▸ hreal⟩
    · simp only [ne_eq, hne, not_false_eq_true, if_true, updateName, hstock]
      exact ⟨_, Dict.get?_set_self _ _ _, hreal⟩
  | preMarket reply | ensured code name market | ranked code name exchange | watch code | unwatch code => cases he

/-- A real name for a stock of the table settles the name that is shown: from then on it is real,
whatever later prices reply with and whoever writes the table. -/
theorem names_settle (watchlistCodes : List Code) (t : Table) (before after : List Event) {code : Code}
    {stock : Stock} (hstock : t.get? code = some stock) {e : Event} (he : Names code e) (replied : String) :
    Real code (resolveCurrentStockName (run watchlistCodes t (before ++ e :: after)) code replied).1 := by
  obtain ⟨stock', hstock', -⟩ := (run_spec watchlistCodes t before).1 code stock hstock
  have hnamed : Named (run watchlistCodes t (before ++ [e])) code := by
    rw [run, List.foldl_append]
    exact step_named hstock' he
  have hsplit : run watchlistCodes t (before ++ e :: after) =
      run watchlistCodes (run watchlistCodes t (before ++ [e])) after := by
    simp only [run, List.foldl_append, List.foldl_cons, List.foldl_nil]
  rw [hsplit]
  exact ((run_spec watchlistCodes _ after).1.named hnamed).resolved replied

/-- The price without a name comes after the one with it. -/
theorem names_settle_priced :
    Real "005930" (resolveCurrentStockName (run ["005930"] ((Dict.empty : Table).set "005930" ⟨"005930", "KOSPI", true⟩)
      ([.preMarket fun _ => none] ++ .priced "005930" "Samsung" :: [.unwatch "005930"])) "005930" "").1 :=
  names_settle ["005930"] _ [.preMarket fun _ => none] [.unwatch "005930"] (Dict.get?_set_self _ _ _)
    (e := .priced "005930" "Samsung") ⟨rfl, by decide⟩ ""

end KisAutotrader.StockTable
