import OmenBrowser.Lib.Wire

/- The checksum FNV-1a of 64 bits. -/
namespace Fnv
open Wire

def offsetBasis : UInt64 := 0xcbf29ce484222325

def prime : UInt64 := 0x100000001b3

def mixByte (checksum : UInt64) (byte : UInt8) : UInt64 := (checksum ^^^ byte.toUInt64) * prime

/-- `u64::to_le_bytes`. -/
def leBytes (value : UInt64) : Bytes :=
  (List.range 8).map (fun i => (value >>> (8 * UInt64.ofNat i)).toUInt8)

def mixU64 (checksum value : UInt64) : UInt64 := (leBytes value).foldl mixByte checksum

def mixBytes (checksum : UInt64) (value : String) : UInt64 := (utf8 value).foldl mixByte checksum

end Fnv
