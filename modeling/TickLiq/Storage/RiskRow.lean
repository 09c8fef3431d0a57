import TickLiq.Strategy.RiskMonitor

/-!
# The `risk_state` row of a pool

`risk_state` has `pool_address` as its primary key and every statement names one
pool, so the row of a pool is a value of its own: `none` while it does not exist.
Each definition is one SQL statement, atomic on the row.
-/
namespace TickLiq

abbrev RiskRow (K : Type*) := Option (RiskState K)

namespace RiskRow

variable {K : Type*} [Zero K]

/-- The row a pool starts with. -/
def freshState (poolAddress : String) (now : Timestamp) : RiskState K :=
  ⟨poolAddress, 0, 0, false, false, false, now⟩

/-- `load_or_init`, first statement: `SELECT .. WHERE pool_address = $1`. -/
def select (row : RiskRow K) (poolAddress : String) : Option (RiskState K) :=
  row.map fun st => { st with poolAddress }

/-- `load_or_init`, second statement: `INSERT .. ON CONFLICT DO NOTHING`. -/
def insertDefault (row : RiskRow K) (poolAddress : String) (now : Timestamp) : RiskRow K :=
  match row with
  | some st => some st
  | none => some (freshState poolAddress now)

/-- `reset_session`: `UPDATE .. SET peak_pnl = 0.0, current_drawdown_pct = 0.0`. -/
def resetSession (row : RiskRow K) (now : Timestamp) : RiskRow K :=
  row.map fun st => { st with peakPnl := 0, currentDrawdownPct := 0, updatedAt := now }

/-- `persist_state`: the full-row upsert. -/
def persistState (_row : RiskRow K) (st : RiskState K) (now : Timestamp) : RiskRow K :=
  some { st with updatedAt := now }

/-- `set_operator_pause`: `UPDATE .. SET operator_pause = $1`. -/
def setOperatorPause (row : RiskRow K) (paused : Bool) (now : Timestamp) : RiskRow K :=
  row.map fun st => { st with operatorPause := paused, updatedAt := now }

/-- The stored row carries a halt. -/
def Halted (row : RiskRow K) : Prop := ∃ st, row = some st ∧ st.haltFlag = true

instance (row : RiskRow K) : Decidable row.Halted :=
  match row with
  | none => isFalse (by simp [Halted])
  | some st => decidable_of_iff (st.haltFlag = true) (by simp [Halted])

/-- `load_or_init` without interference, and the row it leaves. -/
def loadOrInit (row : RiskRow K) (poolAddress : String) (now : Timestamp) :
    RiskState K × RiskRow K :=
  match select row poolAddress with
  | some st => (st, row)
  | none => (freshState poolAddress now, insertDefault row poolAddress now)

/-- The in-memory reset that goes with `reset_session` at start-up. -/
def resetVolatile (st : RiskState K) : RiskState K :=
  { st with peakPnl := 0, currentDrawdownPct := 0 }

/-- Start-up of a watch session: `load_or_init`, then `reset_session`. -/
def startSession (row : RiskRow K) (poolAddress : String) (now : Timestamp) :
    RiskState K × RiskRow K :=
  let (st, row) := loadOrInit row poolAddress now
  (resetVolatile st, resetSession row now)

/-- Every halt a row carries is carried by every restart from it, and no other. -/
theorem startSession_haltFlag (row : RiskRow K) (poolAddress : String) (now : Timestamp) :
    (startSession row poolAddress now).1.haltFlag = true ↔ row.Halted := by
  cases row with
  | none => simp [startSession, loadOrInit, select, freshState, resetVolatile, Halted]
  | some st => simp [startSession, loadOrInit, select, resetVolatile, Halted]

omit [Zero K] in
@[simp] theorem persistState_halted (row : RiskRow K) (st : RiskState K) (now : Timestamp) :
    (persistState row st now).Halted ↔ st.haltFlag = true := by
  simp [persistState, Halted]

@[simp] theorem insertDefault_halted (row : RiskRow K) (poolAddress : String) (now : Timestamp) :
    (insertDefault row poolAddress now).Halted ↔ row.Halted := by
  cases row <;> simp [insertDefault, freshState, Halted]

@[simp] theorem resetSession_halted (row : RiskRow K) (now : Timestamp) :
    (resetSession row now).Halted ↔ row.Halted := by
  cases row <;> simp [resetSession, Halted]

end RiskRow
end TickLiq
