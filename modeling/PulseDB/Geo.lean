import PulseDB.Libc

/-!
# Geohashes (`geo.c`)

A coordinate pair is quantised to 26 bits each and the bits are interleaved. The arithmetic on doubles is that
of `Libc`; the bit manipulation is exact.
-/

namespace PulseDB

def geoBits : ℕ := 26

section Geo
variable {D : Type} [LinearOrder D] (libc : Libc D)

def geoLatMin : Double D := some (libc.lit "-85.05112878")

def geoLatMax : Double D := some (libc.lit "85.05112878")

def geoLngMin : Double D := some (libc.lit "-180.0")

def geoLngMax : Double D := some (libc.lit "180.0")

/-- The number of cells, `1u << GEO_BITS`, as a double. -/
def geoCells : Double D := some (libc.ofUInt64 67108864)

def geoValid (lat lng : D) : Bool :=
  decide (libc.lit "-85.05112878" ≤ lat) && decide (lat ≤ libc.lit "85.05112878") &&
    decide (libc.lit "-180.0" ≤ lng) && decide (lng ≤ libc.lit "180.0")

/-- Latitude bits in even positions, longitude bits in odd positions. -/
def interleave (latInt lngInt : UInt32) : UInt64 :=
  (List.range geoBits).foldl (fun result i =>
    let result := result ||| (((latInt >>> i.toUInt32) &&& 1).toUInt64 <<< (2 * i).toUInt64)
    result ||| (((lngInt >>> i.toUInt32) &&& 1).toUInt64 <<< (2 * i + 1).toUInt64)) 0

def deinterleave (hash : UInt64) : UInt32 × UInt32 :=
  (List.range geoBits).foldl (fun (latInt, lngInt) i =>
    (latInt ||| (((hash >>> (2 * i).toUInt64) &&& 1).toUInt32 <<< i.toUInt32),
      lngInt ||| (((hash >>> (2 * i + 1).toUInt64) &&& 1).toUInt32 <<< i.toUInt32))) (0, 0)

def quantise (v min max : Double D) : UInt32 :=
  let cell := libc.mul (libc.div (libc.sub v min) (libc.sub max min)) (geoCells libc)
  let cell := if Double.lt cell (some (libc.lit "0")) then some (libc.lit "0") else cell
  let last := some (libc.ofUInt64 67108863)
  let cell := if Double.lt last cell then last else cell
  libc.toUInt32 cell

def geoEncode (lat lng : Double D) : UInt64 :=
  interleave (quantise libc lat (geoLatMin libc) (geoLatMax libc))
    (quantise libc lng (geoLngMin libc) (geoLngMax libc))

/-- The centre of a cell along one axis. -/
def cellCentre (cell : UInt32) (min max : Double D) : Double D :=
  libc.add min (libc.mul (libc.div (libc.add (some (libc.ofUInt64 cell.toUInt64)) (some (libc.lit "0.5")))
    (geoCells libc)) (libc.sub max min))

/-- Latitude and longitude of a hash. -/
def geoDecode (hash : UInt64) : Double D × Double D :=
  let (latInt, lngInt) := deinterleave hash
  (cellCentre libc latInt (geoLatMin libc) (geoLatMax libc), cellCentre libc lngInt (geoLngMin libc)
    (geoLngMax libc))

def geoDistanceM (lat1 lng1 lat2 lng2 : Double D) : Double D :=
  let const (s : String) : Double D := some (libc.lit s)
  let rad (x : Double D) := libc.div (libc.mul x (const "3.14159265358979323846")) (const "180.0")
  let dlat := rad (libc.sub lat2 lat1)
  let dlng := rad (libc.sub lng2 lng1)
  let half (x : Double D) := libc.sin (libc.div x (const "2"))
  let a := libc.add (libc.mul (half dlat) (half dlat))
    (libc.mul (libc.mul (libc.mul (libc.cos (rad lat1)) (libc.cos (rad lat2))) (half dlng)) (half dlng))
  let c := libc.mul (const "2") (libc.atan2 (libc.sqrt a) (libc.sqrt (libc.sub (const "1") a)))
  libc.mul (const "6372797.560856") c

end Geo

example : interleave 1 2 = 9 := by decide

example : deinterleave 9 = (1, 2) := by decide

end PulseDB
