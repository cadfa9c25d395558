import Projs.Construction.Nasmlib.Crc64
import Projs.Library.ReflectedCrc

namespace Projs.Nasmlib
open ReflectedCrc

/-- The reflected polynomial of the table. -/
def crc64Polynomial : BitVec 64 := 0x95ac9329ac4bc9b5

/-- A byte is divided bit by bit. -/
def crc64Bits (crc : UInt64) (c : UInt8) : UInt64 :=
  .ofBitVec (bitSteps crc64Polynomial 8 (crc.toBitVec ^^^ c.toBitVec.setWidth 64))

/-- Every entry of the table is the division of its index. -/
theorem crc64Tab_eq : crc64Tab = (List.range 256).map fun index =>
    .ofBitVec (bitSteps crc64Polynomial 8 (BitVec.ofNat 64 index)) := by
  decide +kernel

theorem crc64Tab_getD (c : BitVec 8) : (crc64Tab.getD c.toNat 0).toBitVec =
    bitSteps crc64Polynomial 8 (c.setWidth 64) := by
  have inside : c.toNat < 256 := c.isLt
  rw [crc64Tab_eq, List.getD_eq_getElem?_getD, List.getElem?_map,
    List.getElem?_eq_getElem (by rw [List.length_range]; exact inside), List.getElem_range]
  exact congrArg (bitSteps crc64Polynomial 8) (BitVec.ofNat_toNat 64 c)

/-- The table works off a byte as the division does bit by bit. -/
theorem crc64Byte_eq (crc : UInt64) (c : UInt8) : crc64Byte crc c = crc64Bits crc c := by
  apply UInt64.eq_of_toBitVec_eq
  have shifted : (crc.toBitVec ^^^ c.toBitVec.setWidth 64) >>> 8 = crc.toBitVec >>> 8 := by
    apply BitVec.eq_of_getLsbD_eq
    intro index _
    simp [BitVec.getLsbD_ushiftRight]
  have low : (crc.toBitVec ^^^ c.toBitVec.setWidth 64).setWidth 8 =
      (crc.toUInt8 ^^^ c).toBitVec := by
    apply BitVec.eq_of_getLsbD_eq
    intro index inside
    simp [inside]
  rw [crc64Bits, bitSteps_eq, shifted, low, ← crc64Tab_getD]
  rfl

/-- The checksum divides the string bit by bit, from whatever value it starts. -/
theorem crc64_eq (crc : UInt64) (str : List UInt8) :
    crc64 crc str = str.foldl crc64Bits crc := by
  rw [crc64]
  congr 1
  funext crc c
  exact crc64Byte_eq crc c

/-- The other checksum is that of the string in lower case. -/
theorem crc64i_eq (crc : UInt64) (str : List UInt8) :
    crc64i crc str = crc64 crc (str.map nasmTolower) := by
  rw [crc64i, crc64, List.foldl_map]

end Projs.Nasmlib
