import Credis.Double

/-! `geo_score.hpp`: the interleaved 52-bit cell of a coordinate pair. -/

namespace Credis

namespace Geo

def latMin : Float := -85.05112878

def latMax : Float := 85.05112878

def lonMin : Float := -180.0

def lonMax : Float := 180.0

def latRange : Float := latMax - latMin

def lonRange : Float := lonMax - lonMin

def geoStep : UInt32 := (1 : UInt32) <<< 26

def earthRadius : Float := 6372797.560856

def pi : Float := 3.141592653589793

def spread (value : UInt32) : UInt64 :=
  let x0 := value.toUInt64
  let x1 := (x0 ||| (x0 <<< 16)) &&& 0x0000FFFF0000FFFF
  let x2 := (x1 ||| (x1 <<< 8)) &&& 0x00FF00FF00FF00FF
  let x3 := (x2 ||| (x2 <<< 4)) &&& 0x0F0F0F0F0F0F0F0F
  let x4 := (x3 ||| (x3 <<< 2)) &&& 0x3333333333333333
  (x4 ||| (x4 <<< 1)) &&& 0x5555555555555555

def encode (lat lon : Float) : UInt64 :=
  let normLat := (geoStep.toFloat * (lat - latMin) / latRange).toUInt32
  let normLon := (geoStep.toFloat * (lon - lonMin) / lonRange).toUInt32
  spread normLat ||| (spread normLon <<< 1)

def unspread (code : UInt64) : UInt32 :=
  let x0 := code &&& 0x5555555555555555
  let x1 := (x0 ||| (x0 >>> 1)) &&& 0x3333333333333333
  let x2 := (x1 ||| (x1 >>> 2)) &&& 0x0F0F0F0F0F0F0F0F
  let x3 := (x2 ||| (x2 >>> 4)) &&& 0x00FF00FF00FF00FF
  let x4 := (x3 ||| (x3 >>> 8)) &&& 0x0000FFFF0000FFFF
  let x5 := (x4 ||| (x4 >>> 16)) &&& 0x00000000FFFFFFFF
  x5.toUInt32

structure Coordinates where
  lat : Float
  lon : Float

def decode (score : UInt64) : Coordinates :=
  let latHash := unspread score
  let lonHash := unspread (score >>> 1)
  ⟨(latHash.toFloat + 0.5) * latRange / geoStep.toFloat + latMin,
    (lonHash.toFloat + 0.5) * lonRange / geoStep.toFloat + lonMin⟩

def toRad (degrees : Float) : Float := degrees * pi / 180.0

/-- The haversine distance. The trigonometric functions do not reduce, so no
proof evaluates it. -/
def distance (lat1 lon1 lat2 lon2 : Float) : Float :=
  let dlat := toRad (lat2 - lat1)
  let dlon := toRad (lon2 - lon1)
  let a := (dlat / 2).sin * (dlat / 2).sin +
    (toRad lat1).cos * (toRad lat2).cos * (dlon / 2).sin * (dlon / 2).sin
  earthRadius * 2 * a.sqrt.asin

end Geo

end Credis
