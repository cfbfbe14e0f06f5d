/-! Bytes as two hexadecimal digits. -/
namespace ButtonPad.Hex

def digit (n : Nat) : Char := "0123456789abcdef".toList.getD n '0'

def digits (b : UInt8) : String := String.ofList [digit (b.toNat / 16), digit (b.toNat % 16)]

def marked (b : UInt8) : String := "0x" ++ digits b

end ButtonPad.Hex
