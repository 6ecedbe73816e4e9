import OmenBrowser.Lib.Table
import OmenBrowser.Lib.Wire

/- Rate limits of the session engine (`server/src/session.rs`).

   An identity has a bucket for each kind of request, which counts the requests of a window of a
   minute. A reservation counts one; one that is not committed takes it back when it is dropped,
   unless the window is another by then.

   Correspondence (Rust ↔ Lean):
     `reserve_rate`, the limit of its kind given  ↔ `reserveRate`
     `Drop for RateReservation`                   ↔ `RateReservation.release`
   The lock of the buckets is not poisoned. -/
namespace Omen.Server
open Wire Sql

inductive RateKind where
  | message
  | command
  | nicknameColour
  deriving DecidableEq, Repr

abbrev RateKey := Bytes × RateKind

structure RateBucket where
  key : RateKey
  windowStart : Nat
  count : Nat

abbrev RateBuckets := Table RateBucket.key

structure RateReservation where
  key : RateKey
  windowStart : Nat

inductive RateAdmission where
  | admitted (reservation : Option RateReservation)
  | rejected

def rateWindowSeconds : Nat := 60

variable (buckets : RateBuckets)

/-- The bucket of this key, in the window of this time. -/
def RateBuckets.current (key : RateKey) (now : Nat) : RateBucket :=
  match buckets.find? key with
  | none => { key, windowStart := now, count := 0 }
  | some bucket =>
    if now - bucket.windowStart ≥ rateWindowSeconds then
      { bucket with windowStart := now, count := 0 }
    else bucket

def RateBuckets.store (bucket : RateBucket) : RateBuckets :=
  buckets.upsert bucket
    (fun b => { b with windowStart := bucket.windowStart, count := bucket.count }) (fun _ => rfl)

def reserveRate (limit : Nat) (key : RateKey) (now : Nat) (buckets : RateBuckets) :
    RateAdmission × RateBuckets :=
  if limit = 0 then (.admitted none, buckets)
  else
    let bucket := buckets.current key now
    if bucket.count ≥ limit then (.rejected, buckets.store bucket)
    else (.admitted (some { key, windowStart := bucket.windowStart }),
      buckets.store { bucket with count := bucket.count + 1 })

/-- The reservation is dropped before it is committed. -/
def RateReservation.release (reservation : RateReservation) (buckets : RateBuckets) : RateBuckets :=
  buckets.updateWhere
    (fun b => b.key == reservation.key && b.windowStart == reservation.windowStart)
    (fun b => { b with count := b.count - 1 }) (fun _ => rfl)

end Omen.Server
