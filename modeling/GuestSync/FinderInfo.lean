/-
# GuestSync.FinderInfo -- the block that gives a file its type and creator

The Finder knows a file's format and the application it belongs to by two codes
of four octets. They travel in a block of thirty-two octets: the type, the
creator, one octet of flags that is always 0x01, and zeros.
-/
import GuestSync.Text.Utf8

namespace GuestSync

/-- A code of four octets. -/
structure FourCode where
  a : UInt8
  b : UInt8
  c : UInt8
  d : UInt8
  deriving DecidableEq, Repr

namespace FourCode

/-- The octets of a code. -/
def bytes (k : FourCode) : Bytes := [k.a, k.b, k.c, k.d]

/-- The code of exactly four octets. -/
def ofBytes? : Bytes → Option FourCode
  | [a, b, c, d] => some ⟨a, b, c, d⟩
  | _ => none

theorem ofBytes?_bytes (k : FourCode) : ofBytes? k.bytes = some k := rfl

/-- The code of four ASCII characters. -/
def ofChars (a b c d : Char) : FourCode :=
  ⟨a.toNat.toUInt8, b.toNat.toUInt8, c.toNat.toUInt8, d.toNat.toUInt8⟩

end FourCode

/-- The two codes that a block carries. -/
structure FinderInfo where
  fileType : FourCode
  creator : FourCode
  deriving DecidableEq, Repr

namespace FinderInfo

/-- The name of the extended attribute that holds the block. -/
def attributeName : String := "user.com.apple.FinderInfo"

/-- The block of thirty-two octets. -/
def block (i : FinderInfo) : Bytes :=
  i.fileType.bytes ++ i.creator.bytes ++ 0x01 :: List.replicate 23 0x00

theorem length_block (i : FinderInfo) : i.block.length = 32 := rfl

/-- The codes at the front of a block. -/
def ofBlock? (bs : Bytes) : Option FinderInfo := do
  return ⟨← FourCode.ofBytes? (bs.take 4), ← FourCode.ofBytes? ((bs.drop 4).take 4)⟩

theorem ofBlock?_block (i : FinderInfo) : ofBlock? i.block = some i := rfl

end FinderInfo

end GuestSync
