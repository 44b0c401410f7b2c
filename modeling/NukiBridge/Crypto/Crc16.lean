/-! The CRC of `nuki_crypto.c`: polynomial 0x1021, start value 0xFFFF, most
significant bit first. -/
namespace NukiBridge.Crypto

/-- One pass of the inner loop. -/
def crc16Shift (crc : UInt16) : UInt16 :=
  if crc &&& 0x8000 ≠ 0 then (crc <<< 1) ^^^ 0x1021 else crc <<< 1

def crc16Byte (crc : UInt16) (byte : UInt8) : UInt16 :=
  let crc := crc ^^^ (byte.toUInt16 <<< 8)
  (List.range 8).foldl (fun crc _ => crc16Shift crc) crc

def nukiCrc16 (data : List UInt8) : UInt16 := data.foldl crc16Byte 0xFFFF

end NukiBridge.Crypto
