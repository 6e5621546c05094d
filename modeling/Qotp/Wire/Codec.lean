import Qotp.Framework.LittleEndian

namespace Qotp

open Framework

abbrev Bytes := List UInt8

/-- The fixed-width integers of codec.go, all little-endian. -/
def putUint16 (v : Nat) : Bytes := putLE 2 v
def putUint24 (v : Nat) : Bytes := putLE 3 v
def putUint32 (v : Nat) : Bytes := putLE 4 v
def putUint48 (v : Nat) : Bytes := putLE 6 v
def putUint64 (v : Nat) : Bytes := putLE 8 v

/-- The readers index the buffer without a length check of their own: on a
short buffer they panic. -/
def uint16 (b : Bytes) : Option Nat := getLE? 2 b
def uint24 (b : Bytes) : Option Nat := getLE? 3 b
def uint32 (b : Bytes) : Option Nat := getLE? 4 b
def uint48 (b : Bytes) : Option Nat := getLE? 6 b
def uint64 (b : Bytes) : Option Nat := getLE? 8 b

def putOffsetVarint (offset : Nat) (isExtend : Bool) : Bytes :=
  if isExtend then putUint48 offset else putUint24 offset

def offsetVarint (buf : Bytes) (isExtend : Bool) : Option Nat :=
  if isExtend then uint48 buf else uint24 buf

def offsetSize (isExtend : Bool) : Nat := if isExtend then 6 else 3

theorem putOffsetVarint_length (offset : Nat) (isExtend : Bool) :
    (putOffsetVarint offset isExtend).length = offsetSize isExtend := by
  cases isExtend <;> simp [putOffsetVarint, offsetSize, putUint24, putUint48]

end Qotp
