import TickLiq.Analytics.Amounts
import TickLiq.Analytics.DepthWindow
import TickLiq.Analytics.Impact
import TickLiq.Bot.Commands
import TickLiq.Execution.Rebalance
import TickLiq.Protocols.AccountReads

/-!
# The one-shot commands on a moving chain

`depth`, `impact`, `rebalance` and `hedge` read a few accounts, one request after the other, and
work out what they show. The node may fail at any request, and each answer is from the chain of
its own moment.
-/
namespace TickLiq.Cli

open Machine (Exchange)
open Machine.Conversation
open Rpc

/-- What the commands use besides the node. -/
structure CommandEnv where
  keys : Keys
  core : WhirlpoolsCore
  checks : Bool
  /-- `LP_INSPECTOR_KEYPAIR` -/
  keypairB58 : Option String

def requireKeypairB58 (env : CommandEnv) : Except String String :=
  match env.keypairB58 with
  | some kp =>
    if Bot.trim kp.toList = [] then
      .error "LP_INSPECTOR_KEYPAIR env var not set (base58 private key required)"
    else .ok kp
  | none => .error "LP_INSPECTOR_KEYPAIR env var not set (base58 private key required)"

/-! ### `depth` and `impact` -/

/-- What both read of the pool. -/
structure PoolView where
  pool : Orca.WhirlpoolPool
  decimalsA : ℕ
  decimalsB : ℕ
  whirlpool : Pubkey

def readPool (env : CommandEnv) (pool : String) : Reading PoolView := do
  let poolData ← fetchAccountChecked env.keys pool whirlpoolProgramPubkey
  let poolState ← liftExcept (failing (Orca.parsePool poolData))
  let decimalsA ← fetchMintDecimals poolState.tokenMintA
  let decimalsB ← fetchMintDecimals poolState.tokenMintB
  let whirlpool ← liftExcept (parseAddress pool (env.keys.parseError pool))
  return ⟨poolState, decimalsA, decimalsB, whirlpool⟩

def poolArrays (env : CommandEnv) (view : PoolView) : Reading (List TickArray) :=
  Rpc.fetchTickArrays env.keys env.checks view.whirlpool view.pool.tickCurrentIndex.val
    view.pool.tickSpacing.val

def poolDeltas (env : CommandEnv) (view : PoolView) (tickArrays : List TickArray) :
    Except Stop (List (ℤ × ℤ)) :=
  panicking (extractTickDeltas env.checks tickArrays view.pool.tickSpacing.val)

structure DepthView extends PoolView where
  tickDeltas : List (ℤ × ℤ)
  distribution : List (LiquidityLevel ℝ)

noncomputable def depth (env : CommandEnv) (pool : String) : Reading DepthView := do
  let view ← readPool env pool
  let tickArrays ← poolArrays env view
  let tickDeltas ← liftExcept (poolDeltas env view tickArrays)
  let distribution ← liftExcept (panicking (buildDistribution env.checks tickDeltas
    view.pool.tickCurrentIndex.val view.pool.tickSpacing.val view.pool.liquidity.val 8))
  return { view with tickDeltas, distribution }

/-- An error of the fetch is kept for the fallback, a panic is not. -/
def keepError {α : Type} : Stop → Reading (Except String α)
  | .error text => return .error text
  | .panicked panic => throw (.panicked panic)

structure ImpactView extends PoolView where
  /-- `target_price` and `impact_pct` -/
  estimate : WithTop ℝ × WithTop ℝ

noncomputable def impact (env : CommandEnv) (pool : String) (size : ℝ) : Reading ImpactView := do
  let view ← readPool env pool
  let tickDeltas ← tryCatch (do
    let tickArrays ← poolArrays env view
    let tickDeltas ← liftExcept (poolDeltas env view tickArrays)
    return Except.ok tickDeltas) keepError
  let estimate ← liftExcept (panicking (impactEstimate env.checks tickDeltas
    ⟨view.pool.sqrtPrice.val, view.pool.liquidity.val, view.pool.tickCurrentIndex.val,
      view.pool.tickSpacing.val⟩ size view.decimalsB))
  return { view with estimate }

/-! ### `rebalance` and `hedge` -/

/-- What both ask for before they read anything. -/
def requireDryRun (env : CommandEnv) (dryRun : Bool) : Except Stop Unit := do
  if !dryRun then throw (.error "Only --dry-run is supported")
  let _ ← failing (requireKeypairB58 env)

def rebalance (env : CommandEnv) (mint : String) (dryRun : Bool) : Reading RebalancePlan := do
  liftExcept (requireDryRun env dryRun)
  let (_, pos, pool) ← loadOrcaPositionAndPool env.keys mint
  liftExcept (panicking (buildRebalancePlan env.checks mint pool.tickCurrentIndex.val
    pos.tickLowerIndex.val pos.tickUpperIndex.val pool.tickSpacing.val))

structure HedgePlan where
  positionMint : String
  delta : ℝ
  perpSizeUsd : ℝ
  perpSide : String
  description : String

noncomputable def computeHedgeSize (delta price : ℝ) : HedgePlan where
  positionMint := ""
  delta := delta
  perpSizeUsd := |delta| * price
  perpSide := if delta < 0 then "long" else "short"
  description := "Drift perp hedge (DRY RUN -- no ix sent)"

noncomputable def hedge (env : CommandEnv) (mint : String) (dryRun : Bool) :
    Reading HedgePlan := do
  liftExcept (requireDryRun env dryRun)
  let (_, pos, pool) ← loadOrcaPositionAndPool env.keys mint
  let decimalsA ← fetchMintDecimals pool.tokenMintA
  let decimalsB ← fetchMintDecimals pool.tokenMintB
  let priceCurrent := sqrtQ64ToUiPrice pool.sqrtPrice.val decimalsA decimalsB
  let amounts ← liftExcept (failing (computeTokenAmounts env.core pos.liquidity.val
    pool.sqrtPrice.val pos.tickLowerIndex.val pos.tickUpperIndex.val))
  let exposureAUi := amounts.amountA / tokenScale decimalsA
  return { computeHedgeSize exposureAUi priceCurrent with positionMint := mint }

/-! ### The commands -/

inductive Command where
  | depth (pool : String)
  | impact (pool : String) (size : ℝ)
  | rebalance (mint : String) (dryRun : Bool)
  | hedge (mint : String) (dryRun : Bool)

inductive Shown where
  | depth (view : DepthView)
  | impact (view : ImpactView)
  | rebalance (plan : RebalancePlan)
  | hedge (plan : HedgePlan)

noncomputable def Command.run (env : CommandEnv) : Command → Reading Shown
  | .depth pool => do return .depth (← Cli.depth env pool)
  | .impact pool size => do return .impact (← Cli.impact env pool size)
  | .rebalance mint dryRun => do return .rebalance (← Cli.rebalance env mint dryRun)
  | .hedge mint dryRun => do return .hedge (← Cli.hedge env mint dryRun)

/-! ### Requests -/

section Requests

variable (env : CommandEnv)

theorem checked_readPool (pool : String) : OwnerChecked (3 * maxAttempts) (readPool env pool) :=
  .counted (.andThen (.account _ _ _) fun _ => .andThen (.computed _) fun _ =>
    .andThen (.mint _) fun _ => .andThen (.mint _) fun _ =>
      .andThen (.computed _) fun _ => .computed (.ok _)) rfl

theorem checked_keepError {α : Type} (stop : Stop) :
    OwnerChecked 0 (keepError stop : Reading (Except String α)) := by
  cases stop with
  | error text => exact .computed (Except.ok (Except.error text))
  | panicked panic => exact .computed (Except.error (Stop.panicked panic))

theorem checked_depth (pool : String) : OwnerChecked (4 * maxAttempts) (depth env pool) :=
  .counted (.andThen (checked_readPool env pool) fun _ =>
    .andThen (OwnerChecked.fetchTickArrays _ _ _ _ _) fun _ => .andThen (.computed _) fun _ =>
      .andThen (.computed _) fun _ => .computed (.ok _)) rfl

/-- No command sends more than twelve requests, or decodes an account before its owner is
checked. -/
theorem Command.checked (command : Command) :
    ∃ n ≤ 4 * maxAttempts, OwnerChecked n (command.run env) := by
  cases command with
  | depth pool =>
    exact ⟨_, by decide, .andThen (checked_depth env pool) fun _ => .computed (.ok _)⟩
  | impact pool size =>
    exact ⟨_, by decide, .andThen (.andThen (checked_readPool env pool) fun _ =>
      .andThen (.recover (.andThen (OwnerChecked.fetchTickArrays _ _ _ _ _) fun _ =>
        .andThen (.computed _) fun _ => .computed (.ok _)) checked_keepError) fun _ =>
        .andThen (.computed _) fun _ => .computed (.ok _)) fun _ => .computed (.ok _)⟩
  | rebalance mint dryRun =>
    exact ⟨_, by decide, .andThen (.andThen (.computed _) fun _ =>
      .andThen (OwnerChecked.loadOrcaPositionAndPool _ _) fun _ => .computed _) fun _ =>
        .computed (.ok _)⟩
  | hedge mint dryRun =>
    exact ⟨_, by decide, .andThen (.andThen (.computed _) fun _ =>
      .andThen (OwnerChecked.loadOrcaPositionAndPool _ _) fun _ => .andThen (.mint _) fun _ =>
        .andThen (.mint _) fun _ => .andThen (.computed _) fun _ => .computed (.ok _)) fun _ =>
          .computed (.ok _)⟩

end Requests

/-! ### The depth of a pool -/

/-- What is read of the account of the tick array that starts there. -/
def arrayAccount (keys : Keys) (chain : Chain) (key : Pubkey) (start : ℤ) :
    Option Machine.Bytes :=
  checkedData whirlpoolProgramPubkey (chain (tickArrayPda keys key start))

/-- A pool, its mints and its initialized ticks, as the chain holds them. The ticks are some that
the on-chain program lets be, and the sums of their liquidities fit their type. -/
structure PoolOnChain (keys : Keys) (chain : Chain) (key : Pubkey) where
  pool : Orca.WhirlpoolPool
  decimalsA : ℕ
  decimalsB : ℕ
  ticks : InitializedTicks pool.tickSpacing.val
  account : ∃ acct, chain key = some acct ∧ acct.owner = whirlpoolProgramPubkey ∧
    Orca.parsePool acct.data = .ok pool
  mintA : ∃ acct, chain pool.tokenMintA = some acct ∧
    mintDecimals pool.tokenMintA acct = .ok decimalsA
  mintB : ∃ acct, chain pool.tokenMintB = some acct ∧
    mintDecimals pool.tokenMintB acct = .ok decimalsB
  spaced : 0 < pool.tickSpacing.val
  valid : -443636 ≤ pool.tickCurrentIndex.val ∧ pool.tickCurrentIndex.val ≤ 443636
  small : pool.liquidity.val < 2 ^ 127
  mirrored : ∀ start ∈ arrayStarts pool.tickCurrentIndex.val pool.tickSpacing.val,
    Mirrors parseSampled ticks start (arrayAccount keys chain key start)
  sums : SumsFit ticks.entries pool.tickCurrentIndex.val pool.tickSpacing.val
    (pool.liquidity.val : ℕ) 8

namespace PoolOnChain

variable {keys : Keys} {chain : Chain} {key : Pubkey} (p : PoolOnChain keys chain key)

def arrays : List TickArray :=
  (arrayStarts p.pool.tickCurrentIndex.val p.pool.tickSpacing.val).filterMap fun start =>
    fetchedArray parseSampled (arrayAccount keys chain key start)

def deltas : List (ℤ × ℤ) :=
  windowDeltas parseSampled (arrayAccount keys chain key) p.pool.tickCurrentIndex.val
    p.pool.tickSpacing.val

theorem spacing_u16 : p.pool.tickSpacing.val < 2 ^ 16 := by
  simpa using p.pool.tickSpacing.fits

theorem tickArrayStarts_ok (checks : Bool) :
    tickArrayStarts checks p.pool.tickCurrentIndex.val p.pool.tickSpacing.val =
      .ok (arrayStarts p.pool.tickCurrentIndex.val p.pool.tickSpacing.val) := by
  unfold tickArrayStarts
  rw [tickArraySpan_ok p.spacing_u16 checks, Machine.ok_bind,
    tickArrayStartIndex_ok p.spaced p.spacing_u16 p.valid checks, Machine.ok_bind]
  exact arrayStarts_ok p.spaced p.spacing_u16 p.valid checks

theorem gives_arrays (checks : Bool) : Gives chain (Rpc.fetchTickArrays keys checks key
    p.pool.tickCurrentIndex.val p.pool.tickSpacing.val) p.arrays := by
  refine .andThen (.computed (congrArg panicking (p.tickArrayStarts_ok checks)))
    (.andThen (.accounts _ _) ?_)
  have slots (starts : List ℤ) : starts.zip ((starts.map (tickArrayPda keys key)).map fun key =>
      checkedData whirlpoolProgramPubkey (chain key)) =
      starts.map fun start => (start, arrayAccount keys chain key start) := by
    have pairs := List.zip_map' (f := id) (g := arrayAccount keys chain key) (l := starts)
    rw [List.map_id] at pairs
    rw [List.map_map]
    exact pairs
  show Gives chain (pure _) _
  rw [slots, List.filterMap_map]
  exact .computed rfl

theorem arrays_bounds : ∀ ta ∈ p.arrays,
    -18000000 ≤ ta.startTickIndex ∧ ta.startTickIndex ≤ 18000000 := by
  intro ta member
  obtain ⟨start, asked, found⟩ := List.mem_filterMap.mp member
  obtain ⟨o, near, rfl⟩ := List.mem_map.mp asked
  rw [((p.mirrored _ asked).fetched found).1]
  exact arrayStart_bounds p.spaced p.spacing_u16 p.valid (mem_offsets.mp near)

theorem extractTickDeltas_arrays (checks : Bool) :
    extractTickDeltas checks p.arrays p.pool.tickSpacing.val = .ok p.deltas :=
  extractTickDeltas_ok checks p.spacing_u16 p.arrays_bounds

/-- Drawn from the arrays or from all the ticks of the pool, it is the same distribution. -/
theorem buildDistribution_deltas (checks : Bool) : ∃ levels,
    buildDistribution (K := ℝ) checks p.deltas p.pool.tickCurrentIndex.val p.pool.tickSpacing.val
      p.pool.liquidity.val 8 = .ok levels ∧
    buildDistribution checks p.ticks.entries p.pool.tickCurrentIndex.val p.pool.tickSpacing.val
      p.pool.liquidity.val 8 = .ok levels := by
  have fits : ∀ e ∈ p.deltas, Machine.InRange 128 e.2 := fun e member =>
    p.ticks.fits e (windowDeltas_subset p.mirrored member)
  have drawn := buildDistribution_ok (K := ℝ) p.spacing_u16
    (windowDeltas_onGrid p.spaced p.mirrored) fits p.valid (by decide)
    (windowDeltas_sumsFit p.spaced p.mirrored (by decide) p.sums) checks p.small rfl
  have whole := buildDistribution_ok (K := ℝ) p.spacing_u16 p.ticks.onGrid p.ticks.fits p.valid
    (by decide) p.sums checks p.small rfl
  rw [windowDeltas_distribution p.spaced p.mirrored (by decide)] at drawn
  exact ⟨_, drawn, whole⟩

end PoolOnChain

theorem PoolOnChain.gives_readPool {env : CommandEnv} {chain : Chain} {key : Pubkey}
    (p : PoolOnChain env.keys chain key) :
    Gives chain (readPool env key.text) ⟨p.pool, p.decimalsA, p.decimalsB, key⟩ := by
  obtain ⟨acct, there, owned, parsed⟩ := p.account
  obtain ⟨mintA, thereA, readA⟩ := p.mintA
  obtain ⟨mintB, thereB, readB⟩ := p.mintB
  refine .andThen (.account there owned) (.andThen (v := p.pool) (.computed ?_)
    (.andThen (.mint thereA readA) (.andThen (.mint thereB readB)
      (.andThen (v := key) (.computed ?_) ?_))))
  · rw [parsed]
    rfl
  · rw [parseAddress, Pubkey.fromStr_text]
  · exact .computed rfl

/-! ### A pool with one position -/

/-- The pool "Czfq3xZZDmsdGdUyrNLtRhGc47cXcZtLG4crryfu44zE". -/
def solUsdc : Pubkey :=
  #v[178, 54, 144, 215, 208, 117, 141, 29, 93, 139, 137, 80, 206, 199, 169, 180,
    215, 199, 154, 232, 255, 181, 198, 186, 13, 189, 98, 161, 152, 55, 147, 91]

/-- The mint "So11111111111111111111111111111111111111112". -/
def solMint : Pubkey :=
  #v[6, 155, 136, 87, 254, 171, 129, 132, 251, 104, 127, 99, 70, 24, 192, 53,
    218, 196, 57, 220, 26, 235, 59, 85, 152, 160, 240, 0, 0, 0, 0, 1]

/-- The mint "EPjFWdd5AufqSSqeM2qN1xzybapC8G4wEGGkZwyTDt1v". -/
def usdcMint : Pubkey :=
  #v[198, 250, 122, 243, 190, 219, 173, 58, 61, 101, 243, 106, 171, 201, 116, 49,
    177, 187, 228, 194, 210, 246, 224, 228, 124, 166, 2, 3, 69, 47, 93, 97]

def positionMint : Pubkey :=
  #v[107, 13, 8, 64, 91, 158, 25, 44, 4, 105, 12, 209, 217, 4, 36, 96,
    110, 194, 22, 141, 165, 117, 104, 40, 185, 222, 104, 114, 246, 219, 178, 182]

/-- The address of the position. -/
def positionKey : Pubkey :=
  #v[26, 76, 217, 0, 68, 52, 249, 49, 143, 127, 64, 230, 141, 79, 88, 69,
    83, 165, 180, 185, 200, 73, 4, 18, 87, 39, 192, 154, 22, 82, 164, 83]

/-- The address of the array that starts at -352. -/
def lowerArrayKey : Pubkey :=
  #v[9, 140, 116, 87, 204, 100, 53, 200, 230, 195, 216, 95, 237, 139, 137, 86,
    252, 172, 210, 52, 95, 31, 53, 165, 159, 85, 8, 23, 38, 172, 31, 228]

/-- The address of the array that starts at 0. -/
def centerArrayKey : Pubkey :=
  #v[198, 204, 38, 18, 215, 108, 223, 84, 57, 205, 194, 10, 230, 209, 149, 121,
    177, 251, 153, 196, 47, 191, 105, 119, 32, 80, 119, 149, 163, 182, 231, 203]

/-- The addresses of the five arrays around tick 10, at a spacing of 4. -/
def solUsdcArrays : List (String × Pubkey) :=
  [("-704", #v[45, 241, 98, 236, 218, 93, 147, 175, 121, 25, 156, 10, 220, 75, 223, 23,
      216, 45, 97, 221, 243, 196, 175, 86, 2, 179, 135, 102, 245, 20, 151, 23]),
    ("-352", lowerArrayKey),
    ("0", centerArrayKey),
    ("352", #v[12, 199, 28, 217, 245, 187, 248, 132, 129, 140, 62, 234, 41, 255, 107, 168,
      61, 169, 190, 22, 54, 170, 154, 68, 79, 216, 133, 5, 198, 121, 184, 22]),
    ("704", #v[31, 197, 127, 209, 221, 81, 196, 56, 22, 112, 234, 161, 233, 73, 84, 216,
      131, 136, 6, 0, 234, 204, 211, 186, 20, 68, 187, 192, 27, 172, 17, 140])]

def solUsdcKeys : Keys where
  parseError _ := "Invalid Base58 string"
  findProgramAddress seeds _ :=
    if seeds = [Machine.encode "position".toList, positionMint.toList] then positionKey
    else ((solUsdcArrays.find? fun entry =>
      seeds = [Machine.encode "tick_array".toList, solUsdc.toList,
        Machine.encode entry.1.toList]).map Prod.snd).getD solUsdc

def solUsdcPool : Orca.WhirlpoolPool where
  whirlpoolsConfig := solUsdc
  whirlpoolBump := #v[255]
  tickSpacing := ⟨4, by decide⟩
  tickSpacingSeed := #v[4, 0]
  feeRate := ⟨400, by decide⟩
  protocolFeeRate := ⟨1300, by decide⟩
  liquidity := ⟨123456789012345, by decide⟩
  sqrtPrice := ⟨18455969290605290427, by decide⟩
  tickCurrentIndex := ⟨10, by decide⟩
  protocolFeeOwedA := ⟨0, by decide⟩
  protocolFeeOwedB := ⟨0, by decide⟩
  tokenMintA := solMint
  tokenVaultA := solUsdc
  feeGrowthGlobalA := ⟨0, by decide⟩
  tokenMintB := usdcMint
  tokenVaultB := solUsdc
  feeGrowthGlobalB := ⟨0, by decide⟩
  rewardLastUpdatedTimestamp := ⟨0, by decide⟩

/-- All the liquidity of the pool, between -8 and 16. -/
def solUsdcPosition : Orca.WhirlpoolPosition where
  whirlpool := solUsdc
  positionMint := positionMint
  liquidity := solUsdcPool.liquidity
  tickLowerIndex := ⟨-8, by decide⟩
  tickUpperIndex := ⟨16, by decide⟩
  feeGrowthCheckpointA := ⟨0, by decide⟩
  feeOwedA := ⟨0, by decide⟩
  feeGrowthCheckpointB := ⟨0, by decide⟩
  feeOwedB := ⟨0, by decide⟩

def tickOf (initialized : Bool) (liquidityNet : I128) (liquidityGross : U128) : Orca.Tick :=
  ⟨initialized, liquidityNet, liquidityGross, ⟨0, by decide⟩, ⟨0, by decide⟩,
    Vector.replicate Orca.numRewards ⟨0, by decide⟩⟩

/-- An array of the pool with one initialized tick. -/
def oneTickArray (start : I32) (slot : Fin tickArraySize) (liquidityNet : I128) :
    Orca.TickArray where
  startTickIndex := start
  ticks := (Vector.replicate tickArraySize (tickOf false ⟨0, by decide⟩ ⟨0, by decide⟩)).set slot
    (tickOf true liquidityNet solUsdcPool.liquidity) slot.isLt
  whirlpool := solUsdc

def lowerArray : Orca.TickArray :=
  oneTickArray ⟨-352, by decide⟩ ⟨86, by decide⟩ ⟨123456789012345, by decide⟩

def centerArray : Orca.TickArray :=
  oneTickArray ⟨0, by decide⟩ ⟨4, by decide⟩ ⟨-123456789012345, by decide⟩

def mintAccount (decimals : UInt8) : Account :=
  ⟨splTokenProgramId, List.replicate 44 0 ++ [decimals] ++ List.replicate 37 0⟩

def whirlpoolAccount (data : Machine.Bytes) : Account := ⟨whirlpoolProgramPubkey, data⟩

def solUsdcChain : Chain := fun key =>
  if key = solUsdc then some (whirlpoolAccount (Orca.whirlpoolDisc ++ solUsdcPool.encode))
  else if key = solMint then some (mintAccount 9)
  else if key = usdcMint then some (mintAccount 6)
  else if key = lowerArrayKey then some (whirlpoolAccount (Orca.tickArrayDisc ++ lowerArray.encode))
  else if key = centerArrayKey then
    some (whirlpoolAccount (Orca.tickArrayDisc ++ centerArray.encode))
  else if key = positionKey then
    some (whirlpoolAccount (Orca.positionDisc ++ solUsdcPosition.encode))
  else none

def solUsdcTicks : InitializedTicks 4 where
  entries := [(-8, 123456789012345), (16, -123456789012345)]
  distinct := by decide
  aligned := by decide
  valid := by decide
  fits := by decide

theorem fetchedArray_encode (array : Orca.TickArray) :
    fetchedArray parseSampled (some (Orca.tickArrayDisc ++ array.encode)) =
      some (sampledArray array) := by
  have eight : Orca.tickArrayDisc.length = discLen := rfl
  rw [fetchedArray, parseSampled, Orca.parseTickArray_encode eight]
  rfl

theorem sampledArray_oneTick (start : I32) (slot i : Fin tickArraySize) (liquidityNet : I128) :
    (sampledArray (oneTickArray start slot liquidityNet)).ticks i =
      if slot = i then ⟨true, liquidityNet.val⟩ else ⟨false, 0⟩ := by
  simp only [sampledArray, oneTickArray, Fin.getElem_fin, Vector.getElem_set, Fin.val_inj]
  split
  next => rfl
  next =>
    simp only [Vector.getElem_replicate]
    rfl

theorem arrayAccount_of {start : ℤ} {key : Pubkey} {data : Machine.Bytes}
    (address : tickArrayPda solUsdcKeys solUsdc start = key)
    (there : solUsdcChain key = some (whirlpoolAccount data)) :
    arrayAccount solUsdcKeys solUsdcChain solUsdc start = some data := by
  rw [arrayAccount, address, there]
  show (if whirlpoolProgramPubkey = whirlpoolProgramPubkey then some data else none) = some data
  exact if_pos rfl

/-- The account of an array mirrors the one tick that lies in it. -/
theorem mirrors_oneTick {start : ℤ} {array : Orca.TickArray} {slot : Fin tickArraySize}
    {liquidityNet : I128} {data : Option Machine.Bytes}
    (held : data = some (Orca.tickArrayDisc ++ array.encode))
    (one : array = oneTickArray array.startTickIndex slot liquidityNet)
    (starts : array.startTickIndex.val = start)
    (only : ∀ (i : Fin tickArraySize) (net : ℤ),
      (start + i * (4 : ℕ), net) ∈ solUsdcTicks.entries ↔ slot = i ∧ liquidityNet.val = net) :
    Mirrors parseSampled solUsdcTicks start data := by
  unfold Mirrors
  rw [held, fetchedArray_encode]
  refine ⟨starts, fun i net => ?_⟩
  rw [one, sampledArray_oneTick, only]
  by_cases here : slot = i
  · simp [here]
  · simp [here]

theorem solUsdc_mirrored : ∀ start ∈ arrayStarts 10 4,
    Mirrors parseSampled solUsdcTicks start
      (arrayAccount solUsdcKeys solUsdcChain solUsdc start) := by
  have lower : arrayAccount solUsdcKeys solUsdcChain solUsdc (-352) =
      some (Orca.tickArrayDisc ++ lowerArray.encode) :=
    @arrayAccount_of _ lowerArrayKey _ (by decide +kernel) rfl
  have center : arrayAccount solUsdcKeys solUsdcChain solUsdc 0 =
      some (Orca.tickArrayDisc ++ centerArray.encode) :=
    @arrayAccount_of _ centerArrayKey _ (by decide +kernel) rfl
  -- the other three arrays are missing, and no tick lies in them
  have cold : ∀ start ∈ [-704, 352, 704],
      arrayAccount solUsdcKeys solUsdcChain solUsdc start = none ∧
        ∀ e ∈ solUsdcTicks.entries, ¬(start ≤ e.1 ∧ e.1 < start + (4 : ℕ) * tickArraySize) := by
    decide +kernel
  have none_cold : ∀ start ∈ [-704, 352, 704], Mirrors parseSampled solUsdcTicks start
      (arrayAccount solUsdcKeys solUsdcChain solUsdc start) := by
    intro start missing
    rw [(cold start missing).1]
    exact (cold start missing).2
  intro start asked
  have starts : arrayStarts 10 4 = [-704, -352, 0, 352, 704] := by decide
  rw [starts] at asked
  simp only [List.mem_cons, List.not_mem_nil, or_false] at asked
  rcases asked with rfl | rfl | rfl | rfl | rfl
  · exact none_cold _ (by simp)
  · generalize arrayAccount solUsdcKeys solUsdcChain solUsdc (-352) = data at lower ⊢
    refine @mirrors_oneTick (-352) lowerArray ⟨86, by decide⟩ ⟨123456789012345, by decide⟩ data
      lower rfl rfl ?_
    intro i net
    have inside := i.isLt
    simp only [tickArraySize] at inside
    simp only [solUsdcTicks, List.mem_cons, Prod.mk.injEq, List.not_mem_nil, or_false, Fin.ext_iff]
    omega
  · generalize arrayAccount solUsdcKeys solUsdcChain solUsdc 0 = data at center ⊢
    refine @mirrors_oneTick 0 centerArray ⟨4, by decide⟩ ⟨-123456789012345, by decide⟩ data
      center rfl rfl ?_
    intro i net
    have inside := i.isLt
    simp only [tickArraySize] at inside
    simp only [solUsdcTicks, List.mem_cons, Prod.mk.injEq, List.not_mem_nil, or_false, Fin.ext_iff]
    omega
  · exact none_cold _ (by simp)
  · exact none_cold _ (by simp)

def solUsdcOnChain : PoolOnChain solUsdcKeys solUsdcChain solUsdc where
  pool := solUsdcPool
  decimalsA := 9
  decimalsB := 6
  ticks := solUsdcTicks
  account := ⟨_, rfl, rfl, by decide +kernel⟩
  mintA := ⟨_, rfl, by decide +kernel⟩
  mintB := ⟨_, rfl, by decide +kernel⟩
  spaced := by decide
  valid := by decide
  small := by decide
  mirrored := solUsdc_mirrored
  sums := by decide

/-- What the client says on this chain. -/
def answerOn (chain : Chain) (q : Request) : Answer q :=
  match chain.found q with
  | some found => .ok found
  | none => .error "AccountNotFound"

theorem answerOn_truthful {chain : Chain} {x : Exchange Answer}
    (answered : x.2 = answerOn chain x.1) : Truthful chain x := by
  intro found given
  rw [answered, answerOn] at given
  cases there : chain.found x.1 with
  | none =>
    rw [there] at given
    cases given
  | some held =>
    rw [there] at given
    exact congrArg some (Except.ok.inj given)

def solUsdcEnv : CommandEnv :=
  ⟨solUsdcKeys, ⟨fun _ => 0, fun _ _ _ _ => .ok 0, fun _ _ _ _ => .ok 0⟩, true, some "keypair"⟩

/-! ### What the commands keep to -/

/-- What an account of a foreign program holds never matters: without it the run goes the same. -/
theorem Command.foreign_unread (env : CommandEnv) (command : Command)
    {log : List (Exchange Answer)} {result : Except Stop Shown}
    (held : Held (command.run env).run log result) :
    Held (command.run env).run (log.map blankExchange) result := by
  obtain ⟨n, -, checked⟩ := command.checked env
  exact checked.blind log result held

theorem not_gaveUp {log : List (Exchange Answer)} (found : ∀ x ∈ log, x.2.isOk) :
    ¬GaveUp Refused maxAttempts log := by
  rintro ⟨before, q, after, refused, three, all, rfl⟩
  cases refused with
  | nil => cases three
  | cons answer rest =>
    obtain ⟨e, rfl⟩ := all answer List.mem_cons_self
    have ok := found ⟨q, .error e⟩ (by simp)
    cases ok

instance (q : Request) : DecidableEq (Found q) :=
  match q with
  | .getAccount .. => inferInstanceAs (DecidableEq Account)
  | .getMultipleAccounts .. => inferInstanceAs (DecidableEq (List (Option Account)))

/-- The account at the position's address is the token program's. -/
def foreignAnswer (_ : ℕ) : (q : Request) → Answer q
  | .getAccount .. => .ok ⟨splTokenProgramId, [1]⟩
  | .getMultipleAccounts .. => .ok []

def foreignLog (data : Machine.Bytes) : List (Exchange Answer) :=
  [⟨.getAccount positionKey [whirlpoolProgramPubkey], .ok ⟨splTokenProgramId, data⟩⟩]

def ownerRefused {α : Type} : Except Stop α :=
  .error (.error s!"Account '{positionKey.text}' has owner {splTokenProgramId.text} but expected program {whirlpoolProgramPubkey.text}")

theorem Command.foreign_unread_position :
    Held ((Command.rebalance positionMint.text true).run solUsdcEnv).run (foreignLog [1])
      ownerRefused ∧
    (foreignLog [1]).map blankExchange = foreignLog [] ∧
    Held ((Command.rebalance positionMint.text true).run solUsdcEnv).run
      ((foreignLog [1]).map blankExchange) ownerRefused := by
  have held := held_converse foreignAnswer 0 (Cli.rebalance solUsdcEnv positionMint.text true).run
  have said : (converse foreignAnswer 0 (Cli.rebalance solUsdcEnv positionMint.text true).run).1.map
      Prod.snd = foreignLog [1] := by decide +kernel
  have refused : (converse foreignAnswer 0
      (Cli.rebalance solUsdcEnv positionMint.text true).run).2 = ownerRefused := by decide +kernel
  rw [said, refused] at held
  have run : Held ((Command.rebalance positionMint.text true).run solUsdcEnv).run (foreignLog [1])
      ownerRefused := held_andThen_iff.mpr (Or.inl ⟨_, held, rfl⟩)
  exact ⟨run, by decide +kernel, Command.foreign_unread solUsdcEnv _ run⟩

/-- On a chain that moves, under a node that fails at any requests, a command sends at most twelve
of them. Unless one is refused three times in a row, it shows what it would show if each read had
found the chain of some moment in the run, one after the other. -/
theorem Command.shown_of_moments (env : CommandEnv) (command : Command) (history : ℕ → Chain)
    {timed : List (ℕ × Exchange Answer)} (truthful : ∀ x ∈ timed, Truthful (history x.1) x.2)
    {result : Except Stop Shown} (held : Held (command.run env).run (timed.map Prod.snd) result) :
    timed.length ≤ 12 ∧ (GaveUp Refused maxAttempts (timed.map Prod.snd) ∨
      ∃ moments : List ℕ, moments.Sublist (timed.map Prod.fst) ∧
        standing (command.run env).run (moments.map history) = some result) := by
  obtain ⟨n, few, checked⟩ := command.checked env
  have asked := checked.asks _ _ held
  rw [List.length_map] at asked
  exact ⟨asked.trans few, checked.settles history truthful held⟩

/-- The pool leaves the range of the position before it is read. -/
def movedChain : Chain := fun key =>
  if key = solUsdc then
    some (whirlpoolAccount (Orca.whirlpoolDisc ++
      { solUsdcPool with tickCurrentIndex := ⟨100, by decide⟩ : Orca.WhirlpoolPool }.encode))
  else solUsdcChain key

def movingChain (n : ℕ) : Chain := if n < 3 then solUsdcChain else movedChain

/-- The first request is refused once, the second twice. -/
def flakyAnswer (n : ℕ) (q : Request) : Answer q :=
  if n ∈ [0, 2, 3] then .error "timeout" else answerOn (movingChain n) q

def flakyRun : List (ℕ × Exchange Answer) × Except Stop RebalancePlan :=
  converse flakyAnswer 0 (Cli.rebalance solUsdcEnv positionMint.text true).run

def movedPlan : RebalancePlan where
  positionMint := positionMint.text
  closeIxCount := 1
  collectIxCount := 1
  openIxCount := 1
  estimatedCu := 200000
  newTickLower := 88
  newTickUpper := 112

theorem flakyRun_truthful : ∀ x ∈ flakyRun.1, Truthful (movingChain x.1) x.2 := by
  intro x member found given
  have answered := converse_answered flakyAnswer 0 _ x member
  by_cases timeout : x.1 ∈ [0, 2, 3]
  · rw [answered, flakyAnswer, if_pos timeout] at given
    cases given
  · rw [flakyAnswer, if_neg timeout] at answered
    exact answerOn_truthful answered found given

/-- No request of it is refused three times. -/
theorem flakyRun_settled : ¬GaveUp Refused maxAttempts (flakyRun.1.map Prod.snd) := by
  rintro ⟨before, q, after, refused, three, all, split⟩
  have pattern : (flakyRun.1.map Prod.snd).map (fun x => !x.2.isOk) =
      [true, false, true, true, false] := by decide +kernel
  have row : (refused.map (Sigma.mk q)).map (fun x => !x.2.isOk) = [true, true, true] := by
    rw [List.map_map, List.map_congr_left (g := fun _ => true), List.map_const', three]
    · rfl
    · intro answer member
      obtain ⟨e, rfl⟩ := all answer member
      rfl
  rw [split, List.map_append, List.map_append, row] at pattern
  have inside : [true, true, true] <:+: [true, false, true, true, false] := ⟨_, _, pattern⟩
  exact absurd inside (by decide)

theorem Command.shown_of_moments_moved :
    flakyRun.1.map Prod.fst = [0, 1, 2, 3, 4] ∧
    Held ((Command.rebalance positionMint.text true).run solUsdcEnv).run (flakyRun.1.map Prod.snd)
      (.ok (.rebalance movedPlan)) ∧
    flakyRun.1.length ≤ 12 ∧
    ∃ moments : List ℕ, moments.Sublist [0, 1, 2, 3, 4] ∧
      standing ((Command.rebalance positionMint.text true).run solUsdcEnv).run
        (moments.map movingChain) = some (.ok (.rebalance movedPlan)) := by
  have moments : flakyRun.1.map Prod.fst = [0, 1, 2, 3, 4] := by decide +kernel
  have planned : flakyRun.2 = .ok movedPlan := by decide +kernel
  have held := held_converse flakyAnswer 0 (Cli.rebalance solUsdcEnv positionMint.text true).run
  rw [show (converse flakyAnswer 0 (Cli.rebalance solUsdcEnv positionMint.text true).run).2 =
    .ok movedPlan from planned] at held
  have run : Held ((Command.rebalance positionMint.text true).run solUsdcEnv).run
      (flakyRun.1.map Prod.snd) (.ok (.rebalance movedPlan)) :=
    held_andThen_iff.mpr (Or.inr ⟨movedPlan, _, [], by rw [List.append_nil]; rfl, held, .done _⟩)
  have shown := Command.shown_of_moments solUsdcEnv _ movingChain flakyRun_truthful run
  rw [moments] at shown
  exact ⟨moments, run, shown.1, shown.2.resolve_left flakyRun_settled⟩

/-- While the chain stands still, a `depth` that does not give up draws the liquidity of all the
initialized ticks of the pool, though it reads only five arrays of them. -/
theorem depth_draws_pool (env : CommandEnv) {chain : Chain} {key : Pubkey}
    (p : PoolOnChain env.keys chain key) {log : List (Exchange Answer)}
    (truthful : ∀ x ∈ log, Truthful chain x) {result : Except Stop DepthView}
    (held : Held (depth env key.text).run log result) :
    GaveUp Refused maxAttempts log ∨ ∃ view, result = .ok view ∧
      view.toPoolView = ⟨p.pool, p.decimalsA, p.decimalsB, key⟩ ∧
      buildDistribution env.checks p.ticks.entries p.pool.tickCurrentIndex.val
        p.pool.tickSpacing.val p.pool.liquidity.val 8 = .ok view.distribution := by
  obtain ⟨levels, drawn, whole⟩ := p.buildDistribution_deltas env.checks
  have gives : Gives chain (depth env key.text)
      ⟨⟨p.pool, p.decimalsA, p.decimalsB, key⟩, p.deltas, levels⟩ := by
    refine .andThen p.gives_readPool (.andThen (p.gives_arrays env.checks)
      (.andThen (v := p.deltas) (.computed ?_) (.andThen (v := levels) (.computed ?_) ?_)))
    · rw [poolDeltas, p.extractTickDeltas_arrays]
      rfl
    · rw [drawn]
      rfl
    · exact .computed rfl
  rcases gives.held (checked_depth env key.text) truthful held with gaveUp | rfl
  · exact Or.inl gaveUp
  · exact Or.inr ⟨_, rfl, rfl, whole⟩

/-- What the client says to a part of a command. -/
def saidTo {α : Type} (c : Reading α) : List (Exchange Answer) :=
  (converse (fun _ => answerOn solUsdcChain) 0 c.run).1.map Prod.snd

theorem saidTo_answered {α : Type} (c : Reading α) :
    ∀ x ∈ saidTo c, x.2 = answerOn solUsdcChain x.1 := by
  intro x member
  obtain ⟨y, inside, rfl⟩ := List.mem_map.mp member
  exact converse_answered _ _ _ y inside

theorem held_saidTo {α : Type} {n : ℕ} {c : Reading α} {v : α} (checked : OwnerChecked n c)
    (gives : Gives solUsdcChain c v) (found : ∀ x ∈ saidTo c, x.2.isOk) :
    Held c.run (saidTo c) (.ok v) := by
  have held := held_converse (fun _ => answerOn solUsdcChain) 0 c.run
  have given := gives.held checked (fun x member => answerOn_truthful (saidTo_answered c x member))
    held
  rwa [given.resolve_left (not_gaveUp found)] at held

theorem depth_draws_pool_two :
    ∃ (log : List (Exchange Answer)) (result : Except Stop DepthView),
    log.length = 4 ∧ (∀ x ∈ log, x.2 = answerOn solUsdcChain x.1) ∧
    Held (depth solUsdcEnv solUsdc.text).run log result ∧
    ∃ view, result = .ok view ∧ view.toPoolView = ⟨solUsdcPool, 9, 6, solUsdc⟩ ∧
      buildDistribution true [(-8, 123456789012345), (16, -123456789012345)] 10 4
        123456789012345 8 = .ok view.distribution := by
  let view : PoolView := ⟨solUsdcPool, 9, 6, solUsdc⟩
  let read : Reading PoolView := readPool solUsdcEnv solUsdc.text
  let arrays : Reading (List TickArray) := poolArrays solUsdcEnv view
  have foundPool : ∀ x ∈ saidTo read, x.2.isOk := by decide +kernel
  have foundArrays : ∀ x ∈ saidTo arrays, x.2.isOk := by decide +kernel
  have heldPool := held_saidTo (checked_readPool solUsdcEnv _)
    (show Gives _ read _ from solUsdcOnChain.gives_readPool) foundPool
  have heldArrays := held_saidTo (OwnerChecked.fetchTickArrays _ _ _ _ _)
    (solUsdcOnChain.gives_arrays true) foundArrays
  obtain ⟨levels, drawn, -⟩ := solUsdcOnChain.buildDistribution_deltas true
  have held : Held (depth solUsdcEnv solUsdc.text).run (saidTo read ++ saidTo arrays)
      (.ok ⟨view, solUsdcOnChain.deltas, levels⟩) := by
    refine held_andThen_iff.mpr (Or.inr ⟨view, _, _, rfl, heldPool, ?_⟩)
    refine held_andThen_iff.mpr (Or.inr ⟨_, _, [], (List.append_nil _).symm, heldArrays, ?_⟩)
    refine held_andThen_iff.mpr (Or.inr ⟨solUsdcOnChain.deltas, [], [], rfl, ?_, ?_⟩)
    · refine held_liftExcept_iff.mpr ⟨rfl, ?_⟩
      exact congrArg panicking (solUsdcOnChain.extractTickDeltas_arrays true)
    · refine held_andThen_iff.mpr (Or.inr ⟨levels, [], [], rfl, ?_, .done _⟩)
      exact held_liftExcept_iff.mpr ⟨rfl, congrArg panicking drawn⟩
  have answered : ∀ x ∈ saidTo read ++ saidTo arrays, x.2 = answerOn solUsdcChain x.1 := by
    intro x member
    exact (List.mem_append.mp member).elim (saidTo_answered _ x) (saidTo_answered _ x)
  have found : ∀ x ∈ saidTo read ++ saidTo arrays, x.2.isOk := by
    intro x member
    exact (List.mem_append.mp member).elim (foundPool x) (foundArrays x)
  have shown := depth_draws_pool solUsdcEnv solUsdcOnChain
    (fun x member => answerOn_truthful (answered x member)) held
  exact ⟨_, _, by decide +kernel, answered, held, shown.resolve_left (not_gaveUp found)⟩

end TickLiq.Cli
