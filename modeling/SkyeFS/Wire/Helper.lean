import SkyeFS.Foundation.Xdr
import SkyeFS.Index.Mapping

/-! The filters of common/skye_rpc_helper.c for what requests and replies carry.

A header table is sent as its three counters and its bitmap, a byte of which goes
through a `signed char`. References and credentials are sent by the fields that the
headers of PVFS declare, through pointers to unsigned words.
-/

set_option autoImplicit false

namespace SkyeFS.Wire

open Foundation Index

/-- `PVFS_fs_id` is signed. -/
structure PvfsObjectRef where
  handle : UInt64
  fsId : Int32
deriving DecidableEq

structure PvfsCredentials where
  uid : UInt32
  gid : UInt32
deriving DecidableEq

def xdrPvfsObjectRef : XdrFilter PvfsObjectRef := .sequence [
  xdrUInt64.field (·.handle) fun objp handle => { objp with handle },
  xdrUInt32.field (·.fsId.toUInt32) fun objp word => { objp with fsId := word.toInt32 }]

def xdrPvfsCredentials : XdrFilter PvfsCredentials := .sequence [
  xdrUInt32.field (·.uid) fun objp uid => { objp with uid },
  xdrUInt32.field (·.gid) fun objp gid => { objp with gid }]

/-- A byte of the bitmap behind a `char *`. -/
def xdrBitmapByte : XdrFilter Byte := xdrChar.field Int8.ofBitVec fun _ => Int8.toBitVec

def xdrGigaMapping : XdrFilter GigaMapping := .sequence [
  xdrUInt32.field (·.currRadix) fun objp currRadix => { objp with currRadix },
  xdrUInt32.field (·.zerothServer) fun objp zerothServer => { objp with zerothServer },
  xdrUInt32.field (·.serverCount) fun objp serverCount => { objp with serverCount },
  (xdrBitmapByte.vector maxBmapLen).field (·.bitmap) fun objp bitmap => { objp with bitmap }]

-- The eighth bit of a byte fills the three bytes in front of it.
example : xdrBitmapByte.encode 0x81#8 = [255, 255, 255, 129] := by decide
example : xdrPvfsCredentials.encode ⟨1, 0x01020304⟩ = [0, 0, 0, 1, 1, 2, 3, 4] := by decide

theorem xdrPvfsObjectRef_roundTrips : xdrPvfsObjectRef.RoundTrips := by
  refine XdrFilter.Copies.roundTrips (XdrFilter.sequence_cons_copies (XdrFilter.field_copies xdrUInt64_roundTrips _ _)
    (XdrFilter.sequence_cons_copies (XdrFilter.field_copies xdrUInt32_roundTrips _ _) XdrFilter.sequence_nil_copies)) ?_
  -- Both fields of the old reference are overwritten.
  intro value old
  cases value
  rfl

theorem xdrPvfsCredentials_roundTrips : xdrPvfsCredentials.RoundTrips := by
  refine XdrFilter.Copies.roundTrips (XdrFilter.sequence_cons_copies (XdrFilter.field_copies xdrUInt32_roundTrips _ _)
    (XdrFilter.sequence_cons_copies (XdrFilter.field_copies xdrUInt32_roundTrips _ _) XdrFilter.sequence_nil_copies)) ?_
  intro value old
  cases value
  rfl

theorem xdrBitmapByte_roundTrips : xdrBitmapByte.RoundTrips := by
  refine XdrFilter.Copies.roundTrips (XdrFilter.field_copies xdrChar_roundTrips _ _) ?_
  intro value old
  rfl

theorem xdrGigaMapping_roundTrips : xdrGigaMapping.RoundTrips := by
  have bitmap : (xdrBitmapByte.vector maxBmapLen).RoundTrips := XdrFilter.vector_roundTrips xdrBitmapByte_roundTrips
  refine XdrFilter.Copies.roundTrips (XdrFilter.sequence_cons_copies (XdrFilter.field_copies xdrUInt32_roundTrips _ _)
    (XdrFilter.sequence_cons_copies (XdrFilter.field_copies xdrUInt32_roundTrips _ _)
      (XdrFilter.sequence_cons_copies (XdrFilter.field_copies xdrUInt32_roundTrips _ _)
        (XdrFilter.sequence_cons_copies (XdrFilter.field_copies bitmap _ _) XdrFilter.sequence_nil_copies)))) ?_
  intro value old
  cases value
  rfl

/-- What is decoded is what was encoded, over any old contents, and the stream is left at what follows. -/
theorem wire_round_trip (rest : List UInt8) :
    (∀ mapping old, xdrGigaMapping.decode (xdrGigaMapping.encode mapping ++ rest) old = some (mapping, rest)) ∧
      (∀ ref old, xdrPvfsObjectRef.decode (xdrPvfsObjectRef.encode ref ++ rest) old = some (ref, rest)) ∧
      ∀ creds old, xdrPvfsCredentials.decode (xdrPvfsCredentials.encode creds ++ rest) old = some (creds, rest) := by
  refine ⟨?_, ?_, ?_⟩
  · intro mapping old
    exact xdrGigaMapping_roundTrips mapping rest old
  · intro ref old
    exact xdrPvfsObjectRef_roundTrips ref rest old
  · intro creds old
    exact xdrPvfsCredentials_roundTrips creds rest old

end SkyeFS.Wire
