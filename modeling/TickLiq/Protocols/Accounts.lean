import TickLiq.Machine.Layout
import TickLiq.Protocols.TickArrays

/-!
# Accounts of the two protocols

Pools and positions are read field by field behind a discriminator of eight bytes, and the
tail of an account is left alone; a tick array is read to its last byte. The order of the
fields is the layout: nothing in the bytes says which field they belong to.
-/
namespace TickLiq

open Machine

abbrev Pubkey := Vector UInt8 32
abbrev U8 := Unsigned 1
abbrev U16 := Unsigned 2
abbrev U64 := Unsigned 8
abbrev U128 := Unsigned 16
abbrev I32 := Signed 4
abbrev I128 := Signed 16

/-- `DISC` -/
def discLen : ℕ := 8

def readError : ReadError → String
  | .unexpectedLength => "Unexpected length of input"
  | .invalidBool b => s!"Invalid bool representation: {b}"
  | .notAllBytesRead => "Not all bytes read"

/-- `deserialize(&mut &data[DISC..])`, which leaves a tail unread. -/
def deserialize {α : Type} (read : Reader α) (failed : String) (data : Bytes) : Except String α :=
  match read (data.drop discLen) with
  | .ok (account, _) => .ok account
  | .error e => .error s!"Failed to deserialize {failed}: {readError e}"

namespace Orca

def whirlpoolDisc : Bytes := [63, 149, 209, 12, 225, 128, 99, 9]
def positionDisc : Bytes := [170, 188, 143, 228, 122, 64, 247, 208]
def tickArrayDisc : Bytes := [69, 97, 189, 190, 110, 7, 66, 187]

def rejectWrongAccountType (data : Bytes) (forbidden : List (String × Bytes)) (what : String) :
    Except String Unit :=
  if data.length < discLen then .ok ()
  else
    match forbidden.find? fun account => data.take discLen == account.2 with
    | some (name, _) =>
      .error s!"expected a Whirlpool {what} account but got a {name} account (wrong address?)"
    | none => .ok ()

structure WhirlpoolPool where
  whirlpoolsConfig : Pubkey
  whirlpoolBump : Vector UInt8 1
  tickSpacing : U16
  tickSpacingSeed : Vector UInt8 2
  feeRate : U16
  protocolFeeRate : U16
  liquidity : U128
  sqrtPrice : U128
  tickCurrentIndex : I32
  protocolFeeOwedA : U64
  protocolFeeOwedB : U64
  tokenMintA : Pubkey
  tokenVaultA : Pubkey
  feeGrowthGlobalA : U128
  tokenMintB : Pubkey
  tokenVaultB : Pubkey
  feeGrowthGlobalB : U128
  rewardLastUpdatedTimestamp : U64
deriving DecidableEq

def WhirlpoolPool.deserialize : Reader WhirlpoolPool := do
  let whirlpoolsConfig ← readRaw 32
  let whirlpoolBump ← readRaw 1
  let tickSpacing ← readUnsigned 2
  let tickSpacingSeed ← readRaw 2
  let feeRate ← readUnsigned 2
  let protocolFeeRate ← readUnsigned 2
  let liquidity ← readUnsigned 16
  let sqrtPrice ← readUnsigned 16
  let tickCurrentIndex ← readSigned 4
  let protocolFeeOwedA ← readUnsigned 8
  let protocolFeeOwedB ← readUnsigned 8
  let tokenMintA ← readRaw 32
  let tokenVaultA ← readRaw 32
  let feeGrowthGlobalA ← readUnsigned 16
  let tokenMintB ← readRaw 32
  let tokenVaultB ← readRaw 32
  let feeGrowthGlobalB ← readUnsigned 16
  let rewardLastUpdatedTimestamp ← readUnsigned 8
  return {
    whirlpoolsConfig, whirlpoolBump, tickSpacing, tickSpacingSeed, feeRate, protocolFeeRate,
    liquidity, sqrtPrice, tickCurrentIndex, protocolFeeOwedA, protocolFeeOwedB, tokenMintA,
    tokenVaultA, feeGrowthGlobalA, tokenMintB, tokenVaultB, feeGrowthGlobalB,
    rewardLastUpdatedTimestamp }

structure WhirlpoolPosition where
  whirlpool : Pubkey
  positionMint : Pubkey
  liquidity : U128
  tickLowerIndex : I32
  tickUpperIndex : I32
  feeGrowthCheckpointA : U128
  feeOwedA : U64
  feeGrowthCheckpointB : U128
  feeOwedB : U64
deriving DecidableEq

def WhirlpoolPosition.deserialize : Reader WhirlpoolPosition := do
  let whirlpool ← readRaw 32
  let positionMint ← readRaw 32
  let liquidity ← readUnsigned 16
  let tickLowerIndex ← readSigned 4
  let tickUpperIndex ← readSigned 4
  let feeGrowthCheckpointA ← readUnsigned 16
  let feeOwedA ← readUnsigned 8
  let feeGrowthCheckpointB ← readUnsigned 16
  let feeOwedB ← readUnsigned 8
  return {
    whirlpool, positionMint, liquidity, tickLowerIndex, tickUpperIndex, feeGrowthCheckpointA,
    feeOwedA, feeGrowthCheckpointB, feeOwedB }

def numRewards : ℕ := 3

structure Tick where
  initialized : Bool
  liquidityNet : I128
  liquidityGross : U128
  feeGrowthOutsideA : U128
  feeGrowthOutsideB : U128
  rewardGrowthsOutside : Vector U128 numRewards
deriving DecidableEq

def Tick.deserialize : Reader Tick := do
  let initialized ← readBool
  let liquidityNet ← readSigned 16
  let liquidityGross ← readUnsigned 16
  let feeGrowthOutsideA ← readUnsigned 16
  let feeGrowthOutsideB ← readUnsigned 16
  let rewardGrowthsOutside ← readVector (readUnsigned 16) numRewards
  return {
    initialized, liquidityNet, liquidityGross, feeGrowthOutsideA, feeGrowthOutsideB,
    rewardGrowthsOutside }

structure TickArray where
  startTickIndex : I32
  ticks : Vector Tick tickArraySize
  whirlpool : Pubkey
deriving DecidableEq

def TickArray.deserialize : Reader TickArray := do
  let startTickIndex ← readSigned 4
  let ticks ← readVector Tick.deserialize tickArraySize
  let whirlpool ← readRaw 32
  return { startTickIndex, ticks, whirlpool }

def parseTickArray (data : Bytes) : Except String TickArray :=
  if data.length < discLen then .error s!"TickArray account too short: {data.length} bytes"
  else
    -- `try_from_slice`: here bytes past the end are an error
    match readAll TickArray.deserialize (data.drop discLen) with
    | .ok array => .ok array
    | .error e => .error s!"Failed to deserialize TickArray: {readError e}"

def parsePool (data : Bytes) : Except String WhirlpoolPool :=
  if data.length < discLen then .error s!"Account data too short: {data.length} bytes"
  else do
    rejectWrongAccountType data [("Position", positionDisc), ("TickArray", tickArrayDisc)] "pool"
    deserialize WhirlpoolPool.deserialize "Whirlpool pool" data

def parsePosition (data : Bytes) : Except String WhirlpoolPosition :=
  if data.length < discLen then .error s!"Account data too short: {data.length} bytes"
  else do
    rejectWrongAccountType data [("Whirlpool", whirlpoolDisc), ("TickArray", tickArrayDisc)]
      "position"
    deserialize WhirlpoolPosition.deserialize "Whirlpool position" data

end Orca

namespace Raydium

structure RaydiumPool where
  bump : Vector UInt8 1
  ammConfig : Pubkey
  owner : Pubkey
  tokenMint0 : Pubkey
  tokenMint1 : Pubkey
  tokenVault0 : Pubkey
  tokenVault1 : Pubkey
  observationKey : Pubkey
  mintDecimals0 : U8
  mintDecimals1 : U8
  tickSpacing : U16
  liquidity : U128
  sqrtPriceX64 : U128
  tickCurrent : I32
deriving DecidableEq

def RaydiumPool.deserialize : Reader RaydiumPool := do
  let bump ← readRaw 1
  let ammConfig ← readRaw 32
  let owner ← readRaw 32
  let tokenMint0 ← readRaw 32
  let tokenMint1 ← readRaw 32
  let tokenVault0 ← readRaw 32
  let tokenVault1 ← readRaw 32
  let observationKey ← readRaw 32
  let mintDecimals0 ← readUnsigned 1
  let mintDecimals1 ← readUnsigned 1
  let tickSpacing ← readUnsigned 2
  let liquidity ← readUnsigned 16
  let sqrtPriceX64 ← readUnsigned 16
  let tickCurrent ← readSigned 4
  return {
    bump, ammConfig, owner, tokenMint0, tokenMint1, tokenVault0, tokenVault1, observationKey,
    mintDecimals0, mintDecimals1, tickSpacing, liquidity, sqrtPriceX64, tickCurrent }

structure RaydiumPosition where
  bump : Vector UInt8 1
  nftMint : Pubkey
  poolId : Pubkey
  tickLowerIndex : I32
  tickUpperIndex : I32
  liquidity : U128
  feeGrowthInside0LastX64 : U128
  feeGrowthInside1LastX64 : U128
  tokenFeesOwed0 : U64
  tokenFeesOwed1 : U64
deriving DecidableEq

def RaydiumPosition.deserialize : Reader RaydiumPosition := do
  let bump ← readRaw 1
  let nftMint ← readRaw 32
  let poolId ← readRaw 32
  let tickLowerIndex ← readSigned 4
  let tickUpperIndex ← readSigned 4
  let liquidity ← readUnsigned 16
  let feeGrowthInside0LastX64 ← readUnsigned 16
  let feeGrowthInside1LastX64 ← readUnsigned 16
  let tokenFeesOwed0 ← readUnsigned 8
  let tokenFeesOwed1 ← readUnsigned 8
  return {
    bump, nftMint, poolId, tickLowerIndex, tickUpperIndex, liquidity, feeGrowthInside0LastX64,
    feeGrowthInside1LastX64, tokenFeesOwed0, tokenFeesOwed1 }

/-- Raydium has no other account types to tell apart. -/
def parsePool (data : Bytes) : Except String RaydiumPool :=
  if data.length < discLen then .error s!"Account data too short: {data.length} bytes"
  else deserialize RaydiumPool.deserialize "Raydium pool" data

def parsePosition (data : Bytes) : Except String RaydiumPosition :=
  if data.length < discLen then .error s!"Account data too short: {data.length} bytes"
  else deserialize RaydiumPosition.deserialize "Raydium position" data

end Raydium

/-! ### The layouts -/

namespace Orca

/-- The sizes of the fields, in order. -/
def WhirlpoolPool.size : ℕ :=
  32 + 1 + 2 + 2 + 2 + 2 + 16 + 16 + 4 + 8 + 8 + 32 + 32 + 16 + 32 + 32 + 16 + 8

/-- Every field at its cumulative offset. -/
def WhirlpoolPool.ofBytes (bytes : Bytes) : WhirlpoolPool where
  whirlpoolsConfig := rawOf 32 bytes
  whirlpoolBump := rawOf 1 (bytes.drop 32)
  tickSpacing := unsignedOf 2 (bytes.drop 33)
  tickSpacingSeed := rawOf 2 (bytes.drop 35)
  feeRate := unsignedOf 2 (bytes.drop 37)
  protocolFeeRate := unsignedOf 2 (bytes.drop 39)
  liquidity := unsignedOf 16 (bytes.drop 41)
  sqrtPrice := unsignedOf 16 (bytes.drop 57)
  tickCurrentIndex := signedOf 4 (bytes.drop 73)
  protocolFeeOwedA := unsignedOf 8 (bytes.drop 77)
  protocolFeeOwedB := unsignedOf 8 (bytes.drop 85)
  tokenMintA := rawOf 32 (bytes.drop 93)
  tokenVaultA := rawOf 32 (bytes.drop 125)
  feeGrowthGlobalA := unsignedOf 16 (bytes.drop 157)
  tokenMintB := rawOf 32 (bytes.drop 173)
  tokenVaultB := rawOf 32 (bytes.drop 205)
  feeGrowthGlobalB := unsignedOf 16 (bytes.drop 237)
  rewardLastUpdatedTimestamp := unsignedOf 8 (bytes.drop 253)

def WhirlpoolPool.encode (r : WhirlpoolPool) : Bytes :=
  r.whirlpoolsConfig.toList ++ r.whirlpoolBump.toList ++ r.tickSpacing.write ++
    r.tickSpacingSeed.toList ++ r.feeRate.write ++ r.protocolFeeRate.write ++ r.liquidity.write ++
    r.sqrtPrice.write ++ r.tickCurrentIndex.write ++ r.protocolFeeOwedA.write ++
    r.protocolFeeOwedB.write ++ r.tokenMintA.toList ++ r.tokenVaultA.toList ++
    r.feeGrowthGlobalA.write ++ r.tokenMintB.toList ++ r.tokenVaultB.toList ++
    r.feeGrowthGlobalB.write ++ r.rewardLastUpdatedTimestamp.write

theorem WhirlpoolPool.reads :
    Reads WhirlpoolPool.deserialize size (fun _ => True) WhirlpoolPool.ofBytes := by
  refine Reads.congr (.bind (.raw 32) fun _ => .bind (.raw 1) fun _ => .bind (.unsigned 2) fun _ =>
    .bind (.raw 2) fun _ => .bind (.unsigned 2) fun _ => .bind (.unsigned 2) fun _ =>
    .bind (.unsigned 16) fun _ => .bind (.unsigned 16) fun _ => .bind (.signed 4) fun _ =>
    .bind (.unsigned 8) fun _ => .bind (.unsigned 8) fun _ => .bind (.raw 32) fun _ =>
    .bind (.raw 32) fun _ => .bind (.unsigned 16) fun _ => .bind (.raw 32) fun _ =>
    .bind (.raw 32) fun _ => .bind (.unsigned 16) fun _ => .bind (.unsigned 8) fun _ =>
    .pure _) rfl ?_ ?_
  · simp
  · intro bytes
    simp only [List.drop_drop, ofBytes]

theorem WhirlpoolPool.restores : Restores WhirlpoolPool.deserialize WhirlpoolPool.encode := by
  intro r tail
  -- not by its equation, which is slow to derive for an append this long
  delta WhirlpoolPool.encode
  simp only [WhirlpoolPool.deserialize, List.append_assoc, (restores_raw _).bind,
    (restores_unsigned _).bind, (restores_signed (show 0 < 4 by decide)).bind]
  rfl

def WhirlpoolPosition.size : ℕ := 32 + 32 + 16 + 4 + 4 + 16 + 8 + 16 + 8

def WhirlpoolPosition.ofBytes (bytes : Bytes) : WhirlpoolPosition where
  whirlpool := rawOf 32 bytes
  positionMint := rawOf 32 (bytes.drop 32)
  liquidity := unsignedOf 16 (bytes.drop 64)
  tickLowerIndex := signedOf 4 (bytes.drop 80)
  tickUpperIndex := signedOf 4 (bytes.drop 84)
  feeGrowthCheckpointA := unsignedOf 16 (bytes.drop 88)
  feeOwedA := unsignedOf 8 (bytes.drop 104)
  feeGrowthCheckpointB := unsignedOf 16 (bytes.drop 112)
  feeOwedB := unsignedOf 8 (bytes.drop 128)

def WhirlpoolPosition.encode (r : WhirlpoolPosition) : Bytes :=
  r.whirlpool.toList ++ r.positionMint.toList ++ r.liquidity.write ++ r.tickLowerIndex.write ++
    r.tickUpperIndex.write ++ r.feeGrowthCheckpointA.write ++ r.feeOwedA.write ++
    r.feeGrowthCheckpointB.write ++ r.feeOwedB.write

theorem WhirlpoolPosition.reads :
    Reads WhirlpoolPosition.deserialize size (fun _ => True) WhirlpoolPosition.ofBytes := by
  refine Reads.congr (.bind (.raw 32) fun _ => .bind (.raw 32) fun _ => .bind (.unsigned 16) fun _ =>
    .bind (.signed 4) fun _ => .bind (.signed 4) fun _ => .bind (.unsigned 16) fun _ =>
    .bind (.unsigned 8) fun _ => .bind (.unsigned 16) fun _ => .bind (.unsigned 8) fun _ =>
    .pure _) rfl ?_ ?_
  · simp
  · intro bytes
    simp only [List.drop_drop, ofBytes]

theorem WhirlpoolPosition.restores :
    Restores WhirlpoolPosition.deserialize WhirlpoolPosition.encode := by
  intro r tail
  delta WhirlpoolPosition.encode
  simp only [WhirlpoolPosition.deserialize, List.append_assoc, (restores_raw _).bind,
    (restores_unsigned _).bind, (restores_signed (show 0 < 4 by decide)).bind]
  rfl

def Tick.size : ℕ := 1 + 16 + 16 + 16 + 16 + numRewards * 16

def Tick.ofBytes (bytes : Bytes) : Tick where
  initialized := boolOf bytes
  liquidityNet := signedOf 16 (bytes.drop 1)
  liquidityGross := unsignedOf 16 (bytes.drop 17)
  feeGrowthOutsideA := unsignedOf 16 (bytes.drop 33)
  feeGrowthOutsideB := unsignedOf 16 (bytes.drop 49)
  rewardGrowthsOutside := Vector.ofFn fun i => unsignedOf 16 (bytes.drop (65 + i * 16))

theorem Tick.reads : Reads Tick.deserialize size BoolByte Tick.ofBytes := by
  refine Reads.congr (.bind .bool fun _ => .bind (.signed 16) fun _ => .bind (.unsigned 16) fun _ =>
    .bind (.unsigned 16) fun _ => .bind (.unsigned 16) fun _ =>
    .bind ((Reads.unsigned 16).vector numRewards) fun _ => .pure _) rfl ?_ ?_
  · simp
  · intro bytes
    simp only [List.drop_drop, ofBytes]

def Tick.encode (r : Tick) : Bytes :=
  writeBool r.initialized ++ r.liquidityNet.write ++ r.liquidityGross.write ++
    r.feeGrowthOutsideA.write ++ r.feeGrowthOutsideB.write ++
    r.rewardGrowthsOutside.toList.flatMap Unsigned.write

theorem Tick.restores : Restores Tick.deserialize Tick.encode := by
  intro r tail
  delta Tick.encode
  simp only [Tick.deserialize, List.append_assoc, restores_bool.bind, (restores_unsigned _).bind,
    (restores_signed (show 0 < 16 by decide)).bind, ((restores_unsigned _).vector _).bind]
  rfl

def TickArray.size : ℕ := 4 + tickArraySize * Tick.size + 32

def TickArray.ofBytes (bytes : Bytes) : TickArray where
  startTickIndex := signedOf 4 bytes
  ticks := Vector.ofFn fun i => Tick.ofBytes (bytes.drop (4 + i * Tick.size))
  whirlpool := rawOf 32 (bytes.drop (4 + tickArraySize * Tick.size))

theorem TickArray.reads : Reads TickArray.deserialize size
    (fun bytes => ∀ i < tickArraySize, BoolByte (bytes.drop (4 + i * Tick.size)))
    TickArray.ofBytes := by
  refine Reads.congr (.bind (.signed 4) fun _ => .bind (Tick.reads.vector tickArraySize) fun _ =>
    .bind (.raw 32) fun _ => .pure _) rfl ?_ ?_
  · simp
  · intro bytes
    simp only [List.drop_drop, ofBytes]

def TickArray.encode (r : TickArray) : Bytes :=
  r.startTickIndex.write ++ r.ticks.toList.flatMap Tick.encode ++ r.whirlpool.toList

theorem TickArray.restores : Restores TickArray.deserialize TickArray.encode := by
  intro r tail
  delta TickArray.encode
  simp only [TickArray.deserialize, List.append_assoc, (restores_signed (show 0 < 4 by decide)).bind,
    (Tick.restores.vector _).bind, (restores_raw _).bind]
  rfl

/-- An array behind any discriminator is read back. -/
theorem parseTickArray_encode {disc : Bytes} (eight : disc.length = discLen) (array : TickArray) :
    parseTickArray (disc ++ array.encode) = .ok array := by
  have long : ¬(disc ++ array.encode).length < discLen := by
    rw [List.length_append, eight]
    omega
  rw [parseTickArray, if_neg long, List.drop_left' eight, TickArray.restores.readAll]

end Orca

namespace Raydium

def RaydiumPool.size : ℕ := 1 + 32 + 32 + 32 + 32 + 32 + 32 + 32 + 1 + 1 + 2 + 16 + 16 + 4

def RaydiumPool.ofBytes (bytes : Bytes) : RaydiumPool where
  bump := rawOf 1 bytes
  ammConfig := rawOf 32 (bytes.drop 1)
  owner := rawOf 32 (bytes.drop 33)
  tokenMint0 := rawOf 32 (bytes.drop 65)
  tokenMint1 := rawOf 32 (bytes.drop 97)
  tokenVault0 := rawOf 32 (bytes.drop 129)
  tokenVault1 := rawOf 32 (bytes.drop 161)
  observationKey := rawOf 32 (bytes.drop 193)
  mintDecimals0 := unsignedOf 1 (bytes.drop 225)
  mintDecimals1 := unsignedOf 1 (bytes.drop 226)
  tickSpacing := unsignedOf 2 (bytes.drop 227)
  liquidity := unsignedOf 16 (bytes.drop 229)
  sqrtPriceX64 := unsignedOf 16 (bytes.drop 245)
  tickCurrent := signedOf 4 (bytes.drop 261)

def RaydiumPool.encode (r : RaydiumPool) : Bytes :=
  r.bump.toList ++ r.ammConfig.toList ++ r.owner.toList ++ r.tokenMint0.toList ++
    r.tokenMint1.toList ++ r.tokenVault0.toList ++ r.tokenVault1.toList ++
    r.observationKey.toList ++ r.mintDecimals0.write ++ r.mintDecimals1.write ++
    r.tickSpacing.write ++ r.liquidity.write ++ r.sqrtPriceX64.write ++ r.tickCurrent.write

theorem RaydiumPool.reads :
    Reads RaydiumPool.deserialize size (fun _ => True) RaydiumPool.ofBytes := by
  refine Reads.congr (.bind (.raw 1) fun _ => .bind (.raw 32) fun _ => .bind (.raw 32) fun _ =>
    .bind (.raw 32) fun _ => .bind (.raw 32) fun _ => .bind (.raw 32) fun _ =>
    .bind (.raw 32) fun _ => .bind (.raw 32) fun _ => .bind (.unsigned 1) fun _ =>
    .bind (.unsigned 1) fun _ => .bind (.unsigned 2) fun _ => .bind (.unsigned 16) fun _ =>
    .bind (.unsigned 16) fun _ => .bind (.signed 4) fun _ => .pure _) rfl ?_ ?_
  · simp
  · intro bytes
    simp only [List.drop_drop, ofBytes]

theorem RaydiumPool.restores : Restores RaydiumPool.deserialize RaydiumPool.encode := by
  intro r tail
  delta RaydiumPool.encode
  simp only [RaydiumPool.deserialize, List.append_assoc, (restores_raw _).bind,
    (restores_unsigned _).bind, (restores_signed (show 0 < 4 by decide)).bind]
  rfl

def RaydiumPosition.size : ℕ := 1 + 32 + 32 + 4 + 4 + 16 + 16 + 16 + 8 + 8

def RaydiumPosition.ofBytes (bytes : Bytes) : RaydiumPosition where
  bump := rawOf 1 bytes
  nftMint := rawOf 32 (bytes.drop 1)
  poolId := rawOf 32 (bytes.drop 33)
  tickLowerIndex := signedOf 4 (bytes.drop 65)
  tickUpperIndex := signedOf 4 (bytes.drop 69)
  liquidity := unsignedOf 16 (bytes.drop 73)
  feeGrowthInside0LastX64 := unsignedOf 16 (bytes.drop 89)
  feeGrowthInside1LastX64 := unsignedOf 16 (bytes.drop 105)
  tokenFeesOwed0 := unsignedOf 8 (bytes.drop 121)
  tokenFeesOwed1 := unsignedOf 8 (bytes.drop 129)

def RaydiumPosition.encode (r : RaydiumPosition) : Bytes :=
  r.bump.toList ++ r.nftMint.toList ++ r.poolId.toList ++ r.tickLowerIndex.write ++
    r.tickUpperIndex.write ++ r.liquidity.write ++ r.feeGrowthInside0LastX64.write ++
    r.feeGrowthInside1LastX64.write ++ r.tokenFeesOwed0.write ++ r.tokenFeesOwed1.write

theorem RaydiumPosition.reads :
    Reads RaydiumPosition.deserialize size (fun _ => True) RaydiumPosition.ofBytes := by
  refine Reads.congr (.bind (.raw 1) fun _ => .bind (.raw 32) fun _ => .bind (.raw 32) fun _ =>
    .bind (.signed 4) fun _ => .bind (.signed 4) fun _ => .bind (.unsigned 16) fun _ =>
    .bind (.unsigned 16) fun _ => .bind (.unsigned 16) fun _ => .bind (.unsigned 8) fun _ =>
    .bind (.unsigned 8) fun _ => .pure _) rfl ?_ ?_
  · simp
  · intro bytes
    simp only [List.drop_drop, ofBytes]

theorem RaydiumPosition.restores : Restores RaydiumPosition.deserialize RaydiumPosition.encode := by
  intro r tail
  delta RaydiumPosition.encode
  simp only [RaydiumPosition.deserialize, List.append_assoc, (restores_raw _).bind,
    (restores_unsigned _).bind, (restores_signed (show 0 < 4 by decide)).bind]
  rfl

end Raydium

/-! ### Parsers of a layout -/

/-- `parse` accepts what has the length and is not of a `foreign` type, and makes of it what
stands at the offsets; bytes past the last field change nothing, and what was written behind
an allowed discriminator is read back. -/
structure ParsesLayout {α : Type} (parse : Bytes → Except String α) (size : ℕ)
    (foreign : List Bytes) (ofBytes : Bytes → α) (encode : α → Bytes) : Prop where
  accepts : ∀ data, (∃ r, parse data = .ok r) ↔ 8 + size ≤ data.length ∧ data.take 8 ∉ foreign
  fields : ∀ data r, parse data = .ok r → r = ofBytes (data.drop 8)
  tail : ∀ data r tail, parse data = .ok r → parse (data.take (8 + size) ++ tail) = .ok r
  restores : ∀ disc r tail, disc.length = 8 → disc ∉ foreign →
    parse (disc ++ encode r ++ tail) = .ok r

section Parsers

variable {α : Type} {read : Reader α} {size : ℕ} {value : Bytes → α} {encode : α → Bytes}

theorem deserialize_ok_iff (reads : Reads read size (fun _ => True) value) (failed : String)
    {data : Bytes} (behind : 8 ≤ data.length) (r : α) :
    deserialize read failed data = .ok r ↔ 8 + size ≤ data.length ∧ value (data.drop 8) = r := by
  have rest : (data.drop 8).length = data.length - 8 := List.length_drop
  unfold deserialize discLen
  constructor
  · intro parsed
    split at parsed
    next account left taken =>
      obtain ⟨long, _⟩ := reads.needs _ _ _ taken
      rw [reads.takes _ long trivial] at taken
      cases taken
      exact ⟨by omega, Except.ok.inj parsed⟩
    next => cases parsed
  · rintro ⟨long, rfl⟩
    have taken := reads.takes (data.drop 8) (by omega) trivial
    rw [taken]

theorem reject_ok_iff (forbidden : List (String × Bytes)) (what : String) {data : Bytes}
    (behind : 8 ≤ data.length) : Orca.rejectWrongAccountType data forbidden what = .ok () ↔
      data.take 8 ∉ forbidden.map Prod.snd := by
  have long : ¬data.length < discLen := Nat.not_lt.mpr behind
  rw [Orca.rejectWrongAccountType, if_neg long, discLen]
  split
  next name bytes found =>
    have same : data.take 8 = bytes := by simpa using List.find?_some found
    have member := List.mem_of_find?_eq_some found
    constructor
    · intro accepted
      cases accepted
    · intro foreign
      exact absurd (List.mem_map.mpr ⟨_, member, same.symm⟩) foreign
  next absent =>
    have differ := List.find?_eq_none.mp absent
    constructor
    · intro _ member
      obtain ⟨account, listed, same⟩ := List.mem_map.mp member
      exact differ account listed (beq_iff_eq.mpr same.symm)
    · intro _
      rfl

/-- What the first bytes are asked for, and the fields behind them, is all a parser does. -/
theorem parsesLayout_of_ok_iff {parse : Bytes → Except String α} {foreign : List Bytes}
    (reads : Reads read size (fun _ => True) value) (restored : Restores read encode)
    (parsed : ∀ data r, parse data = .ok r ↔
      8 + size ≤ data.length ∧ data.take 8 ∉ foreign ∧ value (data.drop 8) = r) :
    ParsesLayout parse size foreign value encode where
  accepts data := by
    constructor
    · rintro ⟨r, returned⟩
      obtain ⟨long, allowed, _⟩ := (parsed data r).mp returned
      exact ⟨long, allowed⟩
    · rintro ⟨long, allowed⟩
      exact ⟨_, (parsed data _).mpr ⟨long, allowed, rfl⟩⟩
  fields data r returned := by
    obtain ⟨_, _, same⟩ := (parsed data r).mp returned
    exact same.symm
  tail data r tail returned := by
    obtain ⟨long, allowed, same⟩ := (parsed data r).mp returned
    have kept : (data.take (8 + size)).length = 8 + size := List.length_take_of_le long
    have fields : value ((data.drop 8).take size ++ tail) = value (data.drop 8) :=
      reads.cut (by rw [List.length_drop]; omega) tail
    refine (parsed _ r).mpr ⟨?_, ?_, ?_⟩
    · rw [List.length_append, kept]
      omega
    · -- the discriminator is within what was kept
      rw [List.take_append_of_le_length (by omega), List.take_take, Nat.min_eq_left (by omega)]
      exact allowed
    · rw [List.drop_append_of_le_length (by omega), List.drop_take, Nat.add_sub_cancel_left, fields]
      exact same
  restores disc r tail anchor allowed := by
    obtain ⟨long, same⟩ := restored.value reads r tail
    rw [List.append_assoc]
    refine (parsed _ r).mpr ⟨?_, ?_, ?_⟩
    · rw [List.length_append, anchor]
      omega
    · rwa [List.take_left' anchor]
    · rwa [List.drop_left' anchor]

/-- No parser looks at an account without a discriminator. -/
theorem behind_disc_iff {β : Type} {data : Bytes} {e : String} {parsed : Except String β} {r : β} :
    (if data.length < discLen then .error e else parsed) = .ok r ↔
      8 ≤ data.length ∧ parsed = .ok r := by
  split
  next short =>
    have short : data.length < 8 := short
    simp [Nat.not_le.mpr short]
  next behind =>
    have behind : 8 ≤ data.length := Nat.not_lt.mp behind
    simp [behind]

theorem orca_ok_iff (reads : Reads read size (fun _ => True) value)
    (forbidden : List (String × Bytes)) (what failed : String) (data : Bytes) (r : α) :
    (if data.length < discLen then .error s!"Account data too short: {data.length} bytes"
      else do
        Orca.rejectWrongAccountType data forbidden what
        deserialize read failed data) = Except.ok r ↔
      8 + size ≤ data.length ∧ data.take 8 ∉ forbidden.map Prod.snd ∧ value (data.drop 8) = r := by
  rw [behind_disc_iff, bind_ok_iff]
  constructor
  · rintro ⟨behind, _, accepted, parsed⟩
    obtain ⟨long, same⟩ := (deserialize_ok_iff reads failed behind r).mp parsed
    exact ⟨long, (reject_ok_iff forbidden what behind).mp accepted, same⟩
  · rintro ⟨long, allowed, same⟩
    have behind : 8 ≤ data.length := by omega
    exact ⟨behind, (), (reject_ok_iff forbidden what behind).mpr allowed,
      (deserialize_ok_iff reads failed behind r).mpr ⟨long, same⟩⟩

theorem raydium_ok_iff (reads : Reads read size (fun _ => True) value) (failed : String)
    (data : Bytes) (r : α) :
    (if data.length < discLen then .error s!"Account data too short: {data.length} bytes"
      else deserialize read failed data) = Except.ok r ↔
      8 + size ≤ data.length ∧ data.take 8 ∉ ([] : List Bytes) ∧ value (data.drop 8) = r := by
  rw [behind_disc_iff]
  constructor
  · rintro ⟨behind, parsed⟩
    obtain ⟨long, same⟩ := (deserialize_ok_iff reads failed behind r).mp parsed
    exact ⟨long, List.not_mem_nil, same⟩
  · rintro ⟨long, _, same⟩
    have behind : 8 ≤ data.length := by omega
    exact ⟨behind, (deserialize_ok_iff reads failed behind r).mpr ⟨long, same⟩⟩

end Parsers

theorem parseTickArray_ok_iff (data : Bytes) (array : Orca.TickArray) :
    Orca.parseTickArray data = .ok array ↔ data.length = 8 + (4 + 88 * 113 + 32) ∧
      (∀ i < 88, BoolByte (data.drop (8 + 4 + i * 113))) ∧
      Orca.TickArray.ofBytes (data.drop 8) = array := by
  have rest : (data.drop 8).length = data.length - 8 := List.length_drop
  have whole : readAll Orca.TickArray.deserialize (data.drop 8) = .ok array ↔
      (data.drop 8).length = 4 + 88 * 113 + 32 ∧
        (∀ i < 88, BoolByte ((data.drop 8).drop (4 + i * 113))) ∧
        Orca.TickArray.ofBytes (data.drop 8) = array :=
    readAll_ok_iff Orca.TickArray.reads (data.drop 8) array
  have flags : (∀ i < 88, BoolByte ((data.drop 8).drop (4 + i * 113))) ↔
      ∀ i < 88, BoolByte (data.drop (8 + 4 + i * 113)) := by
    simp only [List.drop_drop, Nat.add_assoc]
  have named : (match readAll Orca.TickArray.deserialize (data.drop discLen) with
      | .ok array => .ok array
      | .error e => .error s!"Failed to deserialize TickArray: {readError e}") = Except.ok array ↔
        readAll Orca.TickArray.deserialize (data.drop 8) = .ok array := by
    rw [discLen]
    cases readAll Orca.TickArray.deserialize (data.drop 8) with
    | ok parsed => simp
    | error e => simp
  rw [flags, rest] at whole
  rw [Orca.parseTickArray, behind_disc_iff, named, whole]
  constructor
  · rintro ⟨behind, size, others⟩
    exact ⟨by omega, others⟩
  · rintro ⟨size, others⟩
    exact ⟨by omega, by omega, others⟩

/-- The part of an array that the liquidity window is built from. -/
def sampledArray (array : Orca.TickArray) : TickArray where
  startTickIndex := array.startTickIndex.val
  ticks i := ⟨array.ticks[i].initialized, array.ticks[i].liquidityNet.val⟩

/-- An account is skipped by the window exactly when it is not an array to the byte. -/
theorem fetchedArray_some_iff (data : Bytes) (ta : TickArray) :
    fetchedArray (fun bytes => (Orca.parseTickArray bytes).map sampledArray)
        (some data) = some ta ↔ data.length = 8 + (4 + 88 * 113 + 32) ∧
      (∀ i < 88, BoolByte (data.drop (8 + 4 + i * 113))) ∧
      sampledArray (Orca.TickArray.ofBytes (data.drop 8)) = ta := by
  have parsed := parseTickArray_ok_iff data
  have skipped : fetchedArray (fun bytes => (Orca.parseTickArray bytes).map sampledArray)
      (some data) = some ta ↔
        ∃ array, Orca.parseTickArray data = .ok array ∧ sampledArray array = ta := by
    unfold fetchedArray
    cases returned : Orca.parseTickArray data with
    | ok array => simp [returned, Except.map]
    | error e => simp [returned, Except.map]
  rw [skipped]
  constructor
  · rintro ⟨array, returned, view⟩
    obtain ⟨size, flags, same⟩ := (parsed array).mp returned
    exact ⟨size, flags, by rw [same, view]⟩
  · rintro ⟨size, flags, view⟩
    exact ⟨_, (parsed _).mpr ⟨size, flags, rfl⟩, view⟩

/-- Each of the four parsers accepts exactly its layout, and the tick arrays are accepted at
their exact length alone, with flags that are zero or one. -/
theorem parsers_accept_layout :
    ParsesLayout Orca.parsePool Orca.WhirlpoolPool.size [Orca.positionDisc, Orca.tickArrayDisc]
      Orca.WhirlpoolPool.ofBytes Orca.WhirlpoolPool.encode ∧
    ParsesLayout Orca.parsePosition Orca.WhirlpoolPosition.size
      [Orca.whirlpoolDisc, Orca.tickArrayDisc]
      Orca.WhirlpoolPosition.ofBytes Orca.WhirlpoolPosition.encode ∧
    ParsesLayout Raydium.parsePool Raydium.RaydiumPool.size []
      Raydium.RaydiumPool.ofBytes Raydium.RaydiumPool.encode ∧
    ParsesLayout Raydium.parsePosition Raydium.RaydiumPosition.size []
      Raydium.RaydiumPosition.ofBytes Raydium.RaydiumPosition.encode ∧
    ∀ data, (∃ array, Orca.parseTickArray data = .ok array) ↔
      data.length = 8 + 4 + 88 * 113 + 32 ∧
        ∀ i < 88, data.getD (8 + 4 + i * 113) 0 = 0 ∨ data.getD (8 + 4 + i * 113) 0 = 1 := by
  refine ⟨?_, ?_, ?_, ?_, ?_⟩
  · exact parsesLayout_of_ok_iff Orca.WhirlpoolPool.reads Orca.WhirlpoolPool.restores
      (orca_ok_iff Orca.WhirlpoolPool.reads _ _ _)
  · exact parsesLayout_of_ok_iff Orca.WhirlpoolPosition.reads Orca.WhirlpoolPosition.restores
      (orca_ok_iff Orca.WhirlpoolPosition.reads _ _ _)
  · exact parsesLayout_of_ok_iff Raydium.RaydiumPool.reads Raydium.RaydiumPool.restores
      (raydium_ok_iff Raydium.RaydiumPool.reads _)
  · exact parsesLayout_of_ok_iff Raydium.RaydiumPosition.reads Raydium.RaydiumPosition.restores
      (raydium_ok_iff Raydium.RaydiumPosition.reads _)
  · intro data
    simp only [parseTickArray_ok_iff, BoolByte]
    constructor
    · rintro ⟨_, size, flags, _⟩
      refine ⟨size, ?_⟩
      simpa using flags
    · rintro ⟨size, flags⟩
      refine ⟨_, size, ?_, rfl⟩
      simpa using flags

end TickLiq
