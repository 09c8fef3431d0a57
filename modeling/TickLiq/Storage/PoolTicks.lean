import TickLiq.Backtest.Backfill
import TickLiq.Machine.Decimal
import TickLiq.Machine.KeyedRows

/-!
# The `pool_ticks` table

`write_pool_ticks` sends the `u128` columns as decimal text, which `::numeric` reads
into NUMERIC(80,0); `read_ticks` gets text back and parses it. The table is unique on
`(pool_address, slot)`. A time and a text are stored as they are, or refused.
-/
namespace TickLiq

open Machine (KeyedRows parseDigits parseUnsigned parseUnsigned_toDigits bind_ok_iff)

/-- NUMERIC(80,0) -/
structure Numeric where
  value : ℤ
  fits : value.natAbs < 10 ^ 80

namespace Numeric

def ofInt (n : ℤ) : Option Numeric :=
  if fits : n.natAbs < 10 ^ 80 then some ⟨n, fits⟩ else none

/-- `$n::numeric` on the text of an integer. -/
def ofText : List Char → Option Numeric
  | ['-'] => none
  | '-' :: digits => (parseDigits (10 ^ 80) 0 digits).bind fun n => ofInt (-n)
  | text => (parseUnsigned (10 ^ 80) text).bind fun n => ofInt n

/-- `::text` -/
def text (n : Numeric) : List Char :=
  if n.value < 0 then '-' :: Nat.toDigits 10 n.value.natAbs else Nat.toDigits 10 n.value.natAbs

end Numeric

/-- TIMESTAMPTZ counts from Julian day zero, which comes after the first time of chrono, to
the year 294276, which chrono does not reach. -/
def timestamptz (micros : ℤ) : Option ℤ :=
  if -210866803200000000 ≤ micros ∧ micros < 9224318016000000000 then some micros else none

/-- TEXT takes every character but NUL. -/
def storedText (text : String) : Option String :=
  if '\x00' ∈ text.toList then none else some text

structure StoredTick where
  time : ℤ
  poolAddress : String
  slot : ℤ
  tickCurrent : ℤ
  sqrtPrice : Numeric
  liquidity : Numeric
  feeGrowthGlobalA : Numeric
  feeGrowthGlobalB : Numeric

/-- UNIQUE (pool_address, slot) -/
abbrev PoolTicks := KeyedRows fun row : StoredTick => (row.poolAddress, row.slot)

/-- `u128::to_string` -/
def toText (n : ℕ) : List Char := Nat.toDigits 10 n

/-- The row the VALUES of `INSERT_POOL_TICK_SQL` make. -/
def PoolTick.stored (tick : PoolTick) : Option StoredTick := do
  let time ← timestamptz tick.observedAt
  let poolAddress ← storedText tick.poolAddress
  let sqrtPrice ← Numeric.ofText (toText tick.sqrtPrice)
  let liquidity ← Numeric.ofText (toText tick.liquidity)
  let feeGrowthGlobalA ← Numeric.ofText (toText tick.feeGrowthGlobalA)
  let feeGrowthGlobalB ← Numeric.ofText (toText tick.feeGrowthGlobalB)
  return {
    time := time
    poolAddress := poolAddress
    slot := tick.slot
    tickCurrent := tick.tickCurrent
    sqrtPrice := sqrtPrice
    liquidity := liquidity
    feeGrowthGlobalA := feeGrowthGlobalA
    feeGrowthGlobalB := feeGrowthGlobalB }

def insertPoolTicks : PoolTicks → List PoolTick → Except String PoolTicks
  | table, [] => .ok table
  | table, tick :: ticks =>
    match tick.stored with
    | some row => insertPoolTicks (table.insert row) ticks
    | none => .error "batch write_pool_tick failed"

/-- One transaction: on an error the caller keeps the table it had. -/
def writePoolTicks (table : PoolTicks) (ticks : List PoolTick) : Except String (PoolTicks × ℕ) := do
  let written ← insertPoolTicks table ticks
  return (written, ticks.length)

/-- `u128::from_str` with its context. -/
def parseU128 (context : String) (text : List Char) : Except String ℕ :=
  match parseUnsigned (2 ^ 128) text with
  | some n => .ok n
  | none => .error context

def StoredTick.read (row : StoredTick) : Except String PoolTickRow := do
  let sqrtPrice ← parseU128 "parse sqrt_price as u128" row.sqrtPrice.text
  let liquidity ← parseU128 "parse liquidity as u128" row.liquidity.text
  let feeGrowthGlobalA ←
    parseU128 "parse fee_growth_global_a as u128" row.feeGrowthGlobalA.text
  let feeGrowthGlobalB ←
    parseU128 "parse fee_growth_global_b as u128" row.feeGrowthGlobalB.text
  return {
    time := row.time
    poolAddress := row.poolAddress
    slot := row.slot
    tickCurrent := row.tickCurrent
    sqrtPrice := sqrtPrice
    liquidity := liquidity
    feeGrowthGlobalA := feeGrowthGlobalA
    feeGrowthGlobalB := feeGrowthGlobalB }

def readRows : List StoredTick → Except String (List PoolTickRow)
  | [] => .ok []
  | row :: rows => do
    let read ← row.read
    let rest ← readRows rows
    return read :: rest

/-- `ORDER BY time ASC, slot ASC` -/
def StoredTick.before (a b : StoredTick) : Bool :=
  decide (a.time < b.time ∨ a.time = b.time ∧ a.slot ≤ b.slot)

/-- Midnight UTC, in microseconds. -/
def midnight (date : ℤ) : ℤ := date * 86400000000

def selectTicks (table : PoolTicks) (poolAddress : String) (fromTs toTs : ℤ) :
    List StoredTick :=
  (table.rows.filter fun row => decide (row.poolAddress = poolAddress ∧
    fromTs ≤ row.time ∧ row.time < toTs)).mergeSort StoredTick.before

/-- The query, whose parameters are values of the columns' types too. -/
def queryTicks (table : PoolTicks) (poolAddress : String) (fromDate toDate : ℤ) :
    Option (List StoredTick) := do
  let poolAddress ← storedText poolAddress
  let fromTs ← timestamptz (midnight fromDate)
  let toTs ← timestamptz (midnight toDate)
  return selectTicks table poolAddress fromTs toTs

def readTicks (table : PoolTicks) (poolAddress : String) (fromDate toDate : ℤ) :
    Except String (List PoolTickRow) :=
  match queryTicks table poolAddress fromDate toDate with
  | some rows => readRows rows
  | none => .error "query pool_ticks"

theorem Numeric.ofText_toText {n : ℕ} (small : n < 10 ^ 80) :
    ∃ m, Numeric.ofText (toText n) = some m ∧ m.value = n := by
  have parsed := parseUnsigned_toDigits small
  have unsigned : ∀ c ∈ Nat.toDigits 10 n, c ≠ '-' := by
    intro c member minus
    have digit := Nat.isDigit_of_mem_toDigits (by decide) (by decide) member
    rw [minus] at digit
    exact absurd digit (by decide)
  have made : Numeric.ofInt n = some ⟨n, small⟩ := dif_pos small
  refine ⟨⟨n, small⟩, ?_, rfl⟩
  simp only [ofText, toText]
  split
  next lone => exact absurd rfl (unsigned '-' (by simp [lone]))
  next digits signed => exact absurd rfl (unsigned '-' (by simp [signed]))
  next =>
    rw [parsed]
    exact made

theorem parseU128_text {m : Numeric} {n : ℕ} (context : String) (value : m.value = n)
    (small : n < 2 ^ 128) : parseU128 context m.text = .ok n := by
  have printed : m.text = Nat.toDigits 10 n := by
    simp only [Numeric.text, value, Int.natAbs_natCast, if_neg (Int.not_lt.mpr (Int.natCast_nonneg n))]
  simp only [parseU128, printed, parseUnsigned_toDigits small]

/-- The columns hold `u128` values. -/
structure PoolTick.U128 (tick : PoolTick) : Prop where
  sqrtPrice : tick.sqrtPrice < 2 ^ 128
  liquidity : tick.liquidity < 2 ^ 128
  feeGrowthGlobalA : tick.feeGrowthGlobalA < 2 ^ 128
  feeGrowthGlobalB : tick.feeGrowthGlobalB < 2 ^ 128

/-- A tick that the database takes. -/
structure PoolTick.Storable (tick : PoolTick) : Prop extends PoolTick.U128 tick where
  time : timestamptz tick.observedAt = some tick.observedAt
  text : TickLiq.storedText tick.poolAddress = some tick.poolAddress

/-- The columns that decide where a row is found. -/
def StoredTick.place (row : StoredTick) : ℤ × String × ℤ := (row.time, row.poolAddress, row.slot)

def PoolTick.place (tick : PoolTick) : ℤ × String × ℤ :=
  (tick.observedAt, tick.poolAddress, tick.slot)

/-- A stored row and the tick it reads back as. -/
structure StoredTick.Stores (row : StoredTick) (tick : PoolTick) : Prop where
  place : row.place = tick.place
  read : row.read = .ok tick.toRow

open StoredTick (Stores)

/-- Every column comes back from the database as it was. -/
theorem PoolTick.Storable.stored {tick : PoolTick} (storable : tick.Storable) :
    ∃ row, tick.stored = some row ∧ Stores row tick := by
  have wide : ∀ n : ℕ, n < 2 ^ 128 → n < 10 ^ 80 := fun n small =>
    Nat.lt_trans small (by decide)
  obtain ⟨sqrtPrice, madeSqrt, valueSqrt⟩ := Numeric.ofText_toText (wide _ storable.sqrtPrice)
  obtain ⟨liquidity, madeLiquidity, valueLiquidity⟩ :=
    Numeric.ofText_toText (wide _ storable.liquidity)
  obtain ⟨growthA, madeA, valueA⟩ := Numeric.ofText_toText (wide _ storable.feeGrowthGlobalA)
  obtain ⟨growthB, madeB, valueB⟩ := Numeric.ofText_toText (wide _ storable.feeGrowthGlobalB)
  refine ⟨⟨tick.observedAt, tick.poolAddress, tick.slot, tick.tickCurrent, sqrtPrice, liquidity,
    growthA, growthB⟩, ?_, rfl, ?_⟩
  · simp only [PoolTick.stored, storable.time, storable.text, madeSqrt, madeLiquidity, madeA, madeB]
    rfl
  · simp only [StoredTick.read, parseU128_text _ valueSqrt storable.sqrtPrice,
      parseU128_text _ valueLiquidity storable.liquidity,
      parseU128_text _ valueA storable.feeGrowthGlobalA,
      parseU128_text _ valueB storable.feeGrowthGlobalB]
    rfl

theorem insertPoolTicks_ok {ticks : List PoolTick} (storable : ∀ tick ∈ ticks, tick.Storable) :
    ∃ rows, List.Forall₂ Stores rows ticks ∧
      ∀ table, insertPoolTicks table ticks = .ok (table.insertAll rows) := by
  induction ticks with
  | nil => exact ⟨[], .nil, fun table => rfl⟩
  | cons tick ticks ih =>
    obtain ⟨row, made, stores⟩ := (storable tick (List.mem_cons_self ..)).stored
    obtain ⟨rows, others, inserted⟩ := ih fun t member => storable t (List.mem_cons_of_mem tick member)
    refine ⟨row :: rows, .cons stores others, ?_⟩
    intro table
    simp only [insertPoolTicks, made]
    exact inserted _

theorem stored_places {rows : List StoredTick} {ticks : List PoolTick}
    (stored : List.Forall₂ Stores rows ticks) :
    rows.map StoredTick.place = ticks.map PoolTick.place := by
  induction stored with
  | nil => rfl
  | cons stores _ ih => rw [List.map_cons, List.map_cons, stores.place, ih]

theorem readRows_ok {rows : List StoredTick} {ticks : List PoolTick}
    (stored : List.Forall₂ Stores rows ticks) : readRows rows = .ok (toRows ticks) := by
  induction stored with
  | nil => rfl
  | cons stores _ ih =>
    simp only [readRows, stores.read, ih]
    rfl

/-- Rows in order of time with rising slots, as a backfill produces them. -/
def Chronological (ticks : List PoolTick) : Prop :=
  ticks.Pairwise fun a b => a.observedAt ≤ b.observedAt ∧ a.slot < b.slot

/-- Dates and a pool that `read_ticks` can ask for: TIMESTAMPTZ has no day before -2440588, and
chrono none after 95026236. -/
structure Queried (poolAddress : String) (fromDate toDate : ℤ) : Prop where
  text : '\x00' ∉ poolAddress.toList
  least : -2440588 ≤ fromDate
  ordered : fromDate ≤ toDate
  most : toDate ≤ 95026236

namespace Queried

variable {poolAddress : String} {fromDate toDate : ℤ}
  (queried : Queried poolAddress fromDate toDate)
include queried

theorem storedText : storedText poolAddress = some poolAddress := if_neg queried.text

theorem timestamptz {micros : ℤ} (least : midnight fromDate ≤ micros)
    (most : micros ≤ midnight toDate) : timestamptz micros = some micros := by
  obtain ⟨_, start, _, ends⟩ := queried
  unfold midnight at least most
  apply if_pos
  omega

theorem queryTicks (table : PoolTicks) : queryTicks table poolAddress fromDate toDate =
    some (selectTicks table poolAddress (midnight fromDate) (midnight toDate)) := by
  have days : midnight fromDate ≤ midnight toDate := by
    have ordered := queried.ordered
    unfold midnight
    omega
  simp only [TickLiq.queryTicks, queried.storedText, queried.timestamptz le_rfl days,
    queried.timestamptz days le_rfl]
  rfl

theorem storable {tick : PoolTick} (columns : tick.U128) (pool : tick.poolAddress = poolAddress)
    (least : midnight fromDate ≤ tick.observedAt) (most : tick.observedAt < midnight toDate) :
    tick.Storable :=
  ⟨columns, queried.timestamptz least most.le, pool ▸ queried.storedText⟩

end Queried

/-- The ticks belong to the pool and lie in the window of dates. -/
def Within (poolAddress : String) (fromDate toDate : ℤ) (ticks : List PoolTick) : Prop :=
  ∀ tick ∈ ticks, tick.poolAddress = poolAddress ∧
    midnight fromDate ≤ tick.observedAt ∧ tick.observedAt < midnight toDate

section Select

variable {rows : List StoredTick} {ticks : List PoolTick}
  (placed : rows.map StoredTick.place = ticks.map PoolTick.place)
include placed

theorem placed_mem {row : StoredTick} (member : row ∈ rows) :
    ∃ tick ∈ ticks, row.place = tick.place := by
  have image : row.place ∈ ticks.map PoolTick.place := placed ▸ List.mem_map_of_mem member
  obtain ⟨tick, inside, same⟩ := List.mem_map.mp image
  exact ⟨tick, inside, same.symm⟩

theorem placed_pairwise (chronological : Chronological ticks) :
    rows.Pairwise fun a b => a.time ≤ b.time ∧ a.slot < b.slot := by
  have places : (ticks.map PoolTick.place).Pairwise fun a b => a.1 ≤ b.1 ∧ a.2.2 < b.2.2 :=
    List.pairwise_map.mpr chronological
  rw [← placed] at places
  exact List.pairwise_map.mp places

/-- The keys of chronological rows are distinct. -/
theorem placed_nodup (chronological : Chronological ticks) :
    (rows.map fun row => (row.poolAddress, row.slot)).Nodup := by
  apply List.pairwise_map.mpr
  apply (placed_pairwise placed chronological).imp
  intro a b ordered same
  rw [Prod.mk.injEq] at same
  omega

/-- A pool's rows are selected in the order in which they were written. -/
theorem selectTicks_eq {table : PoolTicks} {others : List StoredTick} {poolAddress : String}
    {fromDate toDate : ℤ} (split : table.rows = others ++ rows)
    (foreign : ∀ row ∈ others, row.poolAddress ≠ poolAddress)
    (within : Within poolAddress fromDate toDate ticks) (chronological : Chronological ticks) :
    selectTicks table poolAddress (midnight fromDate) (midnight toDate) = rows := by
  have outside : others.filter (fun row => decide (row.poolAddress = poolAddress ∧
      midnight fromDate ≤ row.time ∧ row.time < midnight toDate)) = [] := by
    apply List.filter_eq_nil_iff.mpr
    intro row member chosen
    exact foreign row member (of_decide_eq_true chosen).1
  have inside : rows.filter (fun row => decide (row.poolAddress = poolAddress ∧
      midnight fromDate ≤ row.time ∧ row.time < midnight toDate)) = rows := by
    apply List.filter_eq_self.mpr
    intro row member
    obtain ⟨tick, written, same⟩ := placed_mem placed member
    obtain ⟨time, pool, _⟩ := Prod.mk.inj same |>.imp_right Prod.mk.inj
    have window := within tick written
    apply decide_eq_true
    rw [time, pool]
    exact window
  -- strictly ordered rows are what the sort leaves as they are
  have ordered : rows.Pairwise fun a b => StoredTick.before a b = true := by
    apply (placed_pairwise placed chronological).imp
    intro a b after
    apply decide_eq_true
    omega
  simp only [selectTicks]
  rw [split, List.filter_append, outside, inside, List.nil_append]
  exact List.mergeSort_of_pairwise ordered

end Select

/-- Rows that come after those stored for their pool all arrive. -/
theorem written_after {table : PoolTicks} {others stored : List StoredTick}
    {before after : List PoolTick} {poolAddress : String}
    (split : table.rows = others ++ stored)
    (absent : ∀ row ∈ others, row.poolAddress ≠ poolAddress)
    (held : List.Forall₂ Stores stored before) (storable : ∀ tick ∈ after, tick.Storable)
    (chronological : Chronological (before ++ after))
    (pool : ∀ tick ∈ after, tick.poolAddress = poolAddress) :
    ∃ written more, writePoolTicks table after = .ok (written, after.length) ∧
      written.rows = others ++ (stored ++ more) ∧
      List.Forall₂ Stores (stored ++ more) (before ++ after) := by
  obtain ⟨more, arrived, inserted⟩ := insertPoolTicks_ok storable
  have whole := List.rel_append held arrived
  have unique := placed_nodup (stored_places whole) chronological
  rw [List.map_append] at unique
  obtain ⟨_, moreUnique, apart⟩ := List.nodup_append.mp unique
  -- no key is taken: rows of other pools differ in the address, own rows in the slot
  have fresh : ∀ row ∈ more, (row.poolAddress, row.slot) ∉
      table.rows.map fun row => (row.poolAddress, row.slot) := by
    intro row member taken
    rw [split, List.map_append] at taken
    rcases List.mem_append.mp taken with foreign | own
    · obtain ⟨tick, wrote, same⟩ := placed_mem (stored_places arrived) member
      obtain ⟨other, old, key⟩ := List.mem_map.mp foreign
      apply absent other old
      rw [(Prod.mk.inj key).1, (Prod.mk.inj (Prod.mk.inj same).2).1]
      exact pool tick wrote
    · exact apart _ own _ (List.mem_map_of_mem member) rfl
  have rows := Machine.KeyedRows.insertAll_fresh moreUnique fresh
  refine ⟨table.insertAll more, more, ?_, ?_, whole⟩
  · simp only [writePoolTicks, inserted table]
    rfl
  · rw [rows, split, List.append_assoc]

/-- The first write under a key wins. -/
theorem writePoolTicks_taken {table : PoolTicks} {tick : PoolTick} {ticks : List PoolTick}
    {written : PoolTicks} (storable : tick.Storable)
    (taken : (tick.poolAddress, tick.slot) ∈
      table.rows.map fun row => (row.poolAddress, row.slot))
    (rest : writePoolTicks table ticks = .ok (written, ticks.length)) :
    writePoolTicks table (tick :: ticks) = .ok (written, (tick :: ticks).length) := by
  obtain ⟨row, made, stores⟩ := storable.stored
  have place := Prod.mk.inj stores.place |>.2
  have kept : table.insert row = table := by
    apply Machine.KeyedRows.insert_taken
    rw [place]
    exact taken
  obtain ⟨after, inserted, same⟩ := (bind_ok_iff ..).mp rest
  cases same
  simp only [writePoolTicks, insertPoolTicks, made, kept, inserted]
  rfl

/-- The rows of a pool come back as the ticks they store. -/
theorem readTicks_stored {table : PoolTicks} {others rows : List StoredTick}
    {ticks : List PoolTick} {poolAddress : String} {fromDate toDate : ℤ}
    (split : table.rows = others ++ rows)
    (absent : ∀ row ∈ others, row.poolAddress ≠ poolAddress)
    (held : List.Forall₂ Stores rows ticks) (chronological : Chronological ticks)
    (queried : Queried poolAddress fromDate toDate)
    (within : Within poolAddress fromDate toDate ticks) :
    readTicks table poolAddress fromDate toDate = .ok (toRows ticks) := by
  simp only [readTicks, queried.queryTicks]
  rw [selectTicks_eq (stored_places held) split absent within chronological]
  exact readRows_ok held

/-- Rows that come after those stored for their pool read back behind them. -/
theorem written_after_reads_back {table : PoolTicks} {others stored : List StoredTick}
    {before after : List PoolTick} {poolAddress : String} {fromDate toDate : ℤ}
    (split : table.rows = others ++ stored)
    (absent : ∀ row ∈ others, row.poolAddress ≠ poolAddress)
    (held : List.Forall₂ Stores stored before) (columns : ∀ tick ∈ after, tick.U128)
    (chronological : Chronological (before ++ after))
    (queried : Queried poolAddress fromDate toDate)
    (within : Within poolAddress fromDate toDate (before ++ after)) :
    ∃ written, writePoolTicks table after = .ok (written, after.length) ∧
      readTicks written poolAddress fromDate toDate = .ok (toRows (before ++ after)) := by
  have storable : ∀ tick ∈ after, tick.Storable := by
    intro tick member
    obtain ⟨pool, least, most⟩ := within tick (List.mem_append_right _ member)
    exact queried.storable (columns tick member) pool least most
  obtain ⟨written, rows, wrote, split, held⟩ := written_after split absent held storable chronological
    fun tick member => (within tick (List.mem_append_right _ member)).1
  exact ⟨written, wrote, readTicks_stored split absent held chronological queried within⟩

/-- A pool's first write reads back as the rows that were written. -/
theorem written_reads_back {table : PoolTicks} {ticks : List PoolTick} {poolAddress : String}
    {fromDate toDate : ℤ} (absent : ∀ row ∈ table.rows, row.poolAddress ≠ poolAddress)
    (columns : ∀ tick ∈ ticks, tick.U128) (chronological : Chronological ticks)
    (queried : Queried poolAddress fromDate toDate)
    (within : Within poolAddress fromDate toDate ticks) :
    ∃ written, writePoolTicks table ticks = .ok (written, ticks.length) ∧
      readTicks written poolAddress fromDate toDate = .ok (toRows ticks) :=
  written_after_reads_back (List.append_nil table.rows).symm absent List.Forall₂.nil columns
    chronological queried within

end TickLiq
