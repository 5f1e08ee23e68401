import CanisterShell.Bytes

/-!
# The checksum CRC-32

The cyclic redundancy check of Ethernet and zip files, bit by bit: least significant bit first, with
the register and the result complemented.
-/

namespace CanisterShell

namespace Crc32

/-- Shifts one bit out of the register. -/
def shift (r : UInt32) : UInt32 :=
  if r &&& 1 = 1 then (r >>> 1) ^^^ 0xEDB88320 else r >>> 1

/-- Takes one byte into the register. -/
def step (r : UInt32) (b : UInt8) : UInt32 :=
  shift (shift (shift (shift (shift (shift (shift (shift (r ^^^ b.toUInt32))))))))

end Crc32

def crc32 (bytes : Bytes) : UInt32 := ~~~(bytes.foldl Crc32.step 0xFFFFFFFF)

end CanisterShell
