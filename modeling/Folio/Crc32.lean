import Folio.Protocol

/-! The CRC-32 of `crc32fast` (reflected polynomial `EDB88320`). Proofs about the record
format hold for any checksum; this one instantiates them on concrete files. -/
namespace Folio.Crc32
open Protocol

def crcBit (c : UInt32) : UInt32 :=
  if c &&& 1 = 1 then (c >>> 1) ^^^ 0xEDB88320 else c >>> 1

def crcBits : Nat → UInt32 → UInt32
  | 0, c => c
  | n+1, c => crcBits n (crcBit c)

def crcByte (c : UInt32) (b : UInt8) : UInt32 := crcBits 8 (c ^^^ b.toUInt32)

def crc32 (bs : Bytes) : UInt32 := bs.foldl crcByte 0xFFFFFFFF ^^^ 0xFFFFFFFF

/- The standard check value of the nine digits "123456789". -/
example : crc32 [0x31, 0x32, 0x33, 0x34, 0x35, 0x36, 0x37, 0x38, 0x39] = 0xCBF43926 := by
  decide +kernel

end Folio.Crc32
