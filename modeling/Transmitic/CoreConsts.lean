/-
  File:      Transmitic/CoreConsts.lean
  Subject:   The constants of the wire format and of the ciphers' nonces (core_consts.rs, crypto.rs).
-/
import Mathlib

namespace Transmitic

/-! ## 1. The greeting of a connection -/

/-- `TRAQ`. -/
def tranMagicNumber : List UInt8 := [84, 82, 65, 81]

def tranApiMajor : Nat := 10

def tranApiMinor : Nat := 0

/-- Seconds before an unknown or blocked peer is let go. -/
def deniedSleep : Nat := 30

/-! ## 2. The frame layout -/

def msgTypeSize : Nat := 2

def payloadSizeLen : Nat := 4

def crcSize : Nat := 4

def maxDataSize : Nat := 100000

def cryptoExtensionSize : Nat := 16

def totalBufferSize : Nat := msgTypeSize + payloadSizeLen + maxDataSize + crcSize

def totalCryptoBufferSize : Nat := totalBufferSize + cryptoExtensionSize

def payloadOffset : Nat := msgTypeSize + payloadSizeLen

/-! ## 3. The messages -/

def msgFileList : UInt16 := 1

def msgFileListPiece : UInt16 := 2

def msgFileListFinal : UInt16 := 3

def msgFileChunk : UInt16 := 4

def msgFileFinished : UInt16 := 5

def msgFileInvalidFile : UInt16 := 6

def msgCannotSelectDirectory : UInt16 := 7

def msgFileSelectionContinue : UInt16 := 8

def msgReverse : UInt16 := 9

def msgReverseNoList : UInt16 := 10

/-- The messages whose payload a checksum follows. -/
def crcMessages : List UInt16 :=
  [msgFileListPiece, msgFileListFinal, msgFileChunk, msgFileSelectionContinue]

/-! ## 4. Nonces -/

def nonceInit : Nat := 0

/-- The largest number of 96 bits. -/
def nonceMax : Nat := 79228162514264337593543950335

theorem nonceMax_eq : nonceMax = 2 ^ 96 - 1 := by decide

end Transmitic
