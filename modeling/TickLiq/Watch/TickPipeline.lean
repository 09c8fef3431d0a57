import TickLiq.Storage.PoolTicks
import TickLiq.Storage.ShadowRebalances
import TickLiq.Watch.Valuation

/-!
# The tick pipeline

One tick refreshes the position, values it, records what it saw, passes the gates, decides, asks
for approval and hands the transaction to the guard. `return` ends the tick at any of these; a
panic ends the processor.
-/
namespace TickLiq

open Machine (Bytes JsonValue Panic)
open CexFeed (CexPrice)

inductive ShadowGuard where
  | shadow
  | live
deriving DecidableEq

def ShadowGuard.submit (guard : ShadowGuard) (_tx : String) : Except String Unit :=
  match guard with
  | .shadow => .error "transaction submission blocked: shadow mode is active"
  | .live => .ok ()

/-- `write_pool_tick` -/
def writePoolTick (table : PoolTicks) (tick : PoolTick) : Except String PoolTicks :=
  match tick.stored with
  | some row => .ok (table.insert row)
  | none => .error "write_pool_tick failed"

namespace Watch

/-- How asking for approval ends. -/
inductive ApprovalReply where
  | sendFailed
  | answered (approved : Bool)
deriving DecidableEq

/-- Without an approval the rebalance is skipped, whatever the reason. -/
def ApprovalReply.skipReason : ApprovalReply → Option String
  | .sendFailed => some "telegram_error"
  | .answered true => none
  | .answered false => some "timeout"

structure PipelineConfig (K : Type) extends WatchConfig K where
  env : TickEnv K
  guard : ShadowGuard
  telegram : Bool

/-- What one tick is given: the notification, the answers of RPC, exchange, database and
operator, and the times at which it asks for them. -/
structure TickInput (K : Type) where
  json : JsonValue
  positionFetch : Except String Bytes
  poolFetch : Except String Bytes
  cex : Option CexPrice
  cexAskedAt : ℕ
  observedAt : ℤ
  tickWriteAccepted : Bool
  pnlWriteAccepted : Bool
  driftMarginRatio : Option K
  evaluatedAt : Timestamp
  riskWriteAccepted : Bool
  riskWrittenAt : Timestamp
  approval : ApprovalReply
  /-- `/pause` and `/resume` while the approval is awaited. -/
  commands : List (Bool × Timestamp)
  rowWriteAccepted : Bool
  rowWrittenAt : ℤ

/-- The database, and the risk monitor that comes with it. -/
structure Store (K : Type) where
  session : Session K
  poolTicks : PoolTicks
  pnlHistory : List (PnlRow K)
  shadowRebalances : ShadowRebalances K

structure WatchState (K : Type) where
  position : Orca.WhirlpoolPosition
  cexWasStale : Bool
  store : Option (Store K)
  /-- What the guard has let through. -/
  submitted : List String
  /-- The processor has not panicked. -/
  alive : Bool

inductive TickOutcome where
  | noPool (warning : String)
  | panicked
  | riskStop
  | operatorStop
  | held (reason : String)
  | denied (skipReason : String)
  | gated (tx : String)
  | submitted (tx : String)
deriving DecidableEq

variable {K : Type} [Field K] [LinearOrder K]

/-! ### The stages -/

/-- The last known position is kept when the new one cannot be had. -/
def refreshPosition (pos : Orca.WhirlpoolPosition) (fetched : Except String Bytes) :
    Orca.WhirlpoolPosition :=
  match fetched >>= Orca.parsePosition with
  | .ok refreshed => refreshed
  | .error _ => pos

def poolTick (poolAddress : String) (slot : ℤ) (pool : Orca.WhirlpoolPool) (observedAt : ℤ) :
    PoolTick where
  poolAddress := poolAddress
  slot := slot
  tickCurrent := pool.tickCurrentIndex.val
  sqrtPrice := pool.sqrtPrice.val
  liquidity := pool.liquidity.val
  feeGrowthGlobalA := pool.feeGrowthGlobalA.val
  feeGrowthGlobalB := pool.feeGrowthGlobalB.val
  observedAt := observedAt

namespace Store

/-- Both writes are awaited, and a refused one is logged. -/
def record (store : Store K) (config : WatchConfig K) (i : TickInput K)
    (pool : Orca.WhirlpoolPool) (v : Valuation K) : Store K :=
  let poolTicks :=
    match notifiedSlot i.json with
    | some slot =>
      if i.tickWriteAccepted then
        match writePoolTick store.poolTicks
          (poolTick config.poolAddress slot pool i.observedAt) with
        | .ok table => table
        | .error _ => store.poolTicks
      else store.poolTicks
    -- a slot of 0 would collide with every tick that has none
    | none => store.poolTicks
  let pnlHistory :=
    if i.pnlWriteAccepted then store.pnlHistory ++ [v.pnlRow config i.observedAt]
    else store.pnlHistory
  { store with poolTicks, pnlHistory }

def gates (store : Store K) (i : TickInput K) (v : Valuation K) : Store K × GateOutcome :=
  let (session, outcome) := tickGates store.session
    ⟨⟨v.snapshot, i.driftMarginRatio, i.evaluatedAt⟩, i.riskWriteAccepted, i.riskWrittenAt⟩
  ({ store with session }, outcome)

def operator (store : Store K) (paused : Bool) (now : Timestamp) : Store K :=
  { store with session := gateStep store.session (.operator paused now) }

def during (store : Store K) (commands : List (Bool × Timestamp)) : Store K :=
  commands.foldl (fun store command => store.operator command.1 command.2) store

def addRow (store : Store K) (i : TickInput K) (row : ShadowRebalanceRow K) : Store K :=
  if i.rowWriteAccepted then
    { store with
      shadowRebalances := store.shadowRebalances.writeShadowRebalance row i.rowWrittenAt }
  else store

def addSkip (store : Store K) (i : TickInput K) (poolAddress reason : String) (price : K) :
    Store K :=
  if i.rowWriteAccepted then
    { store with
      shadowRebalances := store.shadowRebalances.writeApprovalSkip poolAddress reason price
        i.rowWrittenAt }
  else store

end Store

namespace WatchState

def panic (s : WatchState K) : WatchState K × TickOutcome := ({ s with alive := false }, .panicked)

/-- The text that stands for the transaction. -/
def planProxy (pos : Orca.WhirlpoolPosition) (pool : Orca.WhirlpoolPool) : String :=
  s!"rebalance_needed tick={pool.tickCurrentIndex.val} range=[{pos.tickLowerIndex.val},{pos.tickUpperIndex.val}]"

/-- `reason.replace(' ', "_")` -/
def triggerReason (reason : String) : String := reason.map fun c => if c = ' ' then '_' else c

def shadowRow (c : PipelineConfig K) (v : Valuation K) (reason : String) (width : ℤ) :
    ShadowRebalanceRow K where
  poolAddress := c.poolAddress
  triggerReason := triggerReason reason
  price := v.price
  simulatedRangeWidth := some width
  simulatedFeesEarned := some v.feesEarned
  simulatedIlUsd := some v.ilUsd
  simulatedNetPnl := some v.netPnl
  errorFlag := false
  errorMessage := none

def planWidth (c : PipelineConfig K) (pos : Orca.WhirlpoolPosition) (pool : Orca.WhirlpoolPool) :
    Except Panic ℤ := do
  let plan ← rebalancePlan c.env.checks c.mint pos pool
  rangeWidth c.env.checks plan

/-- The guard, and the row of the decision. -/
def submitTick (c : PipelineConfig K) (s : WatchState K) (i : TickInput K)
    (pool : Orca.WhirlpoolPool) (v : Valuation K) (reason : String) :
    WatchState K × TickOutcome :=
  let tx := planProxy s.position pool
  let (s, outcome) :=
    match c.guard.submit tx with
    | .ok _ => ({ s with submitted := s.submitted ++ [tx] }, TickOutcome.submitted tx)
    | .error _ => (s, TickOutcome.gated tx)
  match s.store with
  | none => (s, outcome)
  | some store =>
    match planWidth c s.position pool with
    | .error _ => s.panic
    | .ok width =>
      ({ s with store := some (store.addRow i (shadowRow c v reason width)) }, outcome)

/-- With a bot, a human has to approve. -/
def rebalanceTick (c : PipelineConfig K) (s : WatchState K) (i : TickInput K)
    (pool : Orca.WhirlpoolPool) (v : Valuation K) (reason : String) :
    WatchState K × TickOutcome :=
  if c.telegram then
    -- the proposal names the width of the plan
    match planWidth c s.position pool with
    | .error _ => s.panic
    | .ok _ =>
      let s := { s with store := s.store.map (Store.during · i.commands) }
      match i.approval.skipReason with
      | some skip =>
        ({ s with store := s.store.map (Store.addSkip · i c.poolAddress skip v.price) },
          .denied skip)
      | none => s.submitTick c i pool v reason
  else s.submitTick c i pool v reason

def decideTick (c : PipelineConfig K) (s : WatchState K) (i : TickInput K)
    (pool : Orca.WhirlpoolPool) (v : Valuation K) : WatchState K × TickOutcome :=
  match rebalanceDecision c.env.checks s.position pool v with
  | .error _ => s.panic
  | .ok (.hold reason) => (s, .held reason)
  | .ok (.rebalance reason) => s.rebalanceTick c i pool v reason

/-- Record, then the gates. Without a database there is neither. -/
def gateTick (c : PipelineConfig K) (s : WatchState K) (i : TickInput K)
    (pool : Orca.WhirlpoolPool) (v : Valuation K) : WatchState K × TickOutcome :=
  match s.store with
  | none => s.decideTick c i pool v
  | some store =>
    match (store.record c.toWatchConfig i pool v).gates i v with
    | (store, .riskStop) => ({ s with store := some store }, .riskStop)
    | (store, .operatorStop) => ({ s with store := some store }, .operatorStop)
    | (store, .decision) => decideTick c { s with store := some store } i pool v

/-- The price of the tick and what is left of the exchange's staleness. -/
def tickPrice (c : PipelineConfig K) (i : TickInput K) (pool : Orca.WhirlpoolPool)
    (wasStale : Bool) : K × Bool :=
  resolvePrice c.env.pricing
    (c.env.pricing.sqrtQ64ToUiPrice pool.sqrtPrice.val c.decimalsA c.decimalsB) i.cex i.cexAskedAt
    wasStale

/-- `valued` is the valuation of the position, which panics where fees overflow. -/
def valuedTick (c : PipelineConfig K) (s : WatchState K) (i : TickInput K)
    (pool : Orca.WhirlpoolPool) (valued : Except Panic (Valuation K)) :
    WatchState K × TickOutcome :=
  match valued with
  | .error _ => s.panic
  | .ok v => s.gateTick c i pool v

def tickValuation (c : PipelineConfig K) (s : WatchState K) (i : TickInput K)
    (pool : Orca.WhirlpoolPool) : Except Panic (Valuation K) :=
  valuate c.env c.toWatchConfig s.position pool (tickPrice c i pool s.cexWasStale).1

def priceTick (c : PipelineConfig K) (s : WatchState K) (i : TickInput K)
    (pool : Orca.WhirlpoolPool) : WatchState K × TickOutcome :=
  valuedTick c { s with cexWasStale := (tickPrice c i pool s.cexWasStale).2 } i pool
    (s.tickValuation c i pool)

def refreshed (s : WatchState K) (i : TickInput K) : WatchState K :=
  { s with position := refreshPosition s.position i.positionFetch }

def processTick (c : PipelineConfig K) (s : WatchState K) (i : TickInput K) :
    WatchState K × TickOutcome :=
  let s := s.refreshed i
  match tickPool c.env.decode i.json i.poolFetch with
  | .error warning => (s, .noPool warning)
  | .ok pool => s.priceTick c i pool

end WatchState

/-! ### Runs -/

/-- What happens to the processor: ticks, and commands of the operator between them. -/
inductive PipelineEvent (K : Type) where
  | tick (i : TickInput K)
  | operator (paused : Bool) (now : Timestamp)

namespace WatchState

/-- The bot runs only with a database. -/
def step (c : PipelineConfig K) (s : WatchState K) : PipelineEvent K → Option (WatchState K)
  | .tick i => if s.alive then some (s.processTick c i).1 else none
  | .operator paused now =>
    s.store.map fun store => { s with store := some (store.operator paused now) }

def isTick : PipelineEvent K → Bool
  | .tick _ => true
  | .operator .. => false

end WatchState

/-! ### A quiet session

The pool is at price 1 and has neither liquidity nor fees, so nothing stands in the way of a
rebalance. -/

def quietPool : Bytes :=
  Orca.whirlpoolDisc ++ List.replicate 33 0 ++ [1, 0] ++ List.replicate 30 0 ++ [1] ++
    List.replicate 195 0

def quietPosition : Bytes := Orca.positionDisc ++ List.replicate 136 0

def quietEnv : TickEnv ℚ where
  core := ⟨fun _ => 2 ^ 64, fun _ _ _ _ => .ok 0, fun _ _ _ _ => .ok 0⟩
  decode := fun _ => none
  pricing := ⟨Machine.Binary64.toRat, fun _ _ _ => 1, fun _ => 1, fun _ _ _ _ => 0⟩
  checks := true

def quietConfig (guard : ShadowGuard) : PipelineConfig ℚ where
  mint := "MINT"
  poolAddress := "POOL"
  feeGrowthBaselineA := 0
  feeGrowthBaselineB := 0
  decimalsA := 0
  decimalsB := 0
  entryPrice := 1
  env := quietEnv
  guard := guard
  telegram := false

/-- The notification carries no account, so that the pool is fetched. -/
def quietTick : TickInput ℚ where
  json := .object []
  positionFetch := .ok quietPosition
  poolFetch := .ok quietPool
  cex := none
  cexAskedAt := 0
  observedAt := 0
  tickWriteAccepted := true
  pnlWriteAccepted := true
  driftMarginRatio := none
  evaluatedAt := 0
  riskWriteAccepted := true
  riskWrittenAt := 0
  approval := .sendFailed
  commands := []
  rowWriteAccepted := true
  rowWrittenAt := 0

def quietStore (loaded : RiskState ℚ) : Store ℚ :=
  ⟨startedSession none none none loaded 0, .empty, [], []⟩

def quietState (loaded : RiskState ℚ) : WatchState ℚ :=
  ⟨Orca.WhirlpoolPosition.ofBytes [], false, some (quietStore loaded), [], true⟩

end Watch

end TickLiq
