/-
Timestamps as the state database has them (`state/src/model/thread_metadata.rs`): a
column of milliseconds, read as seconds if that is before 2020. What is written
is so read back unless it is before 2020 itself (`epochMillisToDatetime_written`).
-/
import Mathlib.Algebra.Order.Ring.Int
import Mathlib.Tactic.Common

namespace Codex.EpochMillis

/-- `DateTime<Utc>`, in milliseconds. -/
structure DateTime where
  millis : Int
  lower : -8334601228800000 ≤ millis
  upper : millis ≤ 8210266876799999
  deriving DecidableEq

/-- `DateTime::from_timestamp_millis` -/
def fromTimestampMillis (millis : Int) : Option DateTime :=
  if h : -8334601228800000 ≤ millis ∧ millis ≤ 8210266876799999 then some ⟨millis, h.1, h.2⟩ else none

def datetimeToEpochMillis (dt : DateTime) : Int64 := Int64.ofInt dt.millis

/-- `MIN_EPOCH_MILLIS`, the start of 2020 -/
def minEpochMillis : Int := 1577836800000

/-- `i64::saturating_mul` -/
def saturatingMul (a b : Int) : Int := max (-2 ^ 63) (min (a * b) (2 ^ 63 - 1))

def epochMillisToDatetime (value : Int64) : Option DateTime :=
  fromTimestampMillis (if value.toInt < minEpochMillis then saturatingMul value.toInt 1000 else value.toInt)

end Codex.EpochMillis
