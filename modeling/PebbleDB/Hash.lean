import PebbleDB.Bytes

/-!
# Checksums and hashes

`crc32.ChecksumIEEE` bit by bit (reflected polynomial `0xEDB88320`) and 64-bit
FNV-1a, on natural numbers so that the kernel can evaluate them.
-/
namespace PebbleDB

def crcBit (c : Nat) : Nat :=
  if c % 2 = 1 then (c >>> 1) ^^^ 0xEDB88320 else c >>> 1

def crcByte (c : Nat) (b : UInt8) : Nat := crcBit^[8] (c ^^^ b.toNat)

/-- `crc32.ChecksumIEEE`. -/
def checksumIEEE (data : Bytes) : Nat :=
  (data.foldl crcByte 0xFFFFFFFF ^^^ 0xFFFFFFFF) % 2 ^ 32

theorem checksumIEEE_lt (data : Bytes) : checksumIEEE data < 2 ^ 32 :=
  Nat.mod_lt _ (by decide)

/-- The check value of CRC-32/IEEE: the checksum of `"123456789"`. -/
example : checksumIEEE [0x31, 0x32, 0x33, 0x34, 0x35, 0x36, 0x37, 0x38, 0x39] = 0xCBF43926 := by
  decide +kernel

/-- `fnv.New64a`, one `Write`, `Sum64`. -/
def fnv64a (data : Bytes) : Nat :=
  data.foldl (fun h b => ((h ^^^ b.toNat) * 1099511628211) % 2 ^ 64) 14695981039346656037

/-- The published hash of `"a"`. -/
example : fnv64a [0x61] = 0xaf63dc4c8601ec8c := by decide +kernel

end PebbleDB
