import SkyeFS.Foundation.XdrString
import SkyeFS.Wire.Helper

/-! The calls of common/skye_rpc.x on the wire.

A call is sent as the number of its procedure and its arguments, one after the other. The
server picks the filter of the arguments by the number, has it write over a record of
zeros, and calls the handler with what it finds there.
-/

set_option autoImplicit false

namespace SkyeFS.Wire

open Foundation

def maxPathnameLen : Nat := 4096

abbrev SkyePathname := CString maxPathnameLen

def xdrSkyePathname : XdrFilter SkyePathname := xdrString maxPathnameLen

/-- The header of PVFS must agree that `mode_t` is a word. -/
def xdrModeT : XdrFilter UInt32 := xdrUInt32

/-! ### The arguments of the procedures -/

/-- Of `SKYE_RPC_LOOKUP`, `SKYE_RPC_PARTITION` and `SKYE_RPC_REMOVE`. -/
structure NameArgument where
  creds : PvfsCredentials
  parent : PvfsObjectRef
  name : SkyePathname
deriving DecidableEq

/-- Of `SKYE_RPC_CREATE` and `SKYE_RPC_MKDIR`. -/
structure MakeArgument where
  creds : PvfsCredentials
  parent : PvfsObjectRef
  name : SkyePathname
  mode : UInt32
deriving DecidableEq

structure RenameArgument where
  creds : PvfsCredentials
  srcName : SkyePathname
  srcParent : PvfsObjectRef
  dstName : SkyePathname
  dstParent : PvfsObjectRef
deriving DecidableEq

structure BucketAddArgument where
  handle : PvfsObjectRef
  index : Int32
deriving DecidableEq

structure BucketRemoveArgument where
  creds : PvfsCredentials
  handle : PvfsObjectRef
  index : Int32
deriving DecidableEq

instance : Inhabited PvfsCredentials := ⟨⟨0, 0⟩⟩

instance : Inhabited PvfsObjectRef := ⟨⟨0, 0⟩⟩

def xdrNameArgument : XdrFilter NameArgument := .sequence [
  xdrPvfsCredentials.field (·.creds) fun objp creds => { objp with creds },
  xdrPvfsObjectRef.field (·.parent) fun objp parent => { objp with parent },
  xdrSkyePathname.field (·.name) fun objp name => { objp with name }]

def xdrMakeArgument : XdrFilter MakeArgument := .sequence [
  xdrPvfsCredentials.field (·.creds) fun objp creds => { objp with creds },
  xdrPvfsObjectRef.field (·.parent) fun objp parent => { objp with parent },
  xdrSkyePathname.field (·.name) fun objp name => { objp with name },
  xdrModeT.field (·.mode) fun objp mode => { objp with mode }]

def xdrRenameArgument : XdrFilter RenameArgument := .sequence [
  xdrPvfsCredentials.field (·.creds) fun objp creds => { objp with creds },
  xdrSkyePathname.field (·.srcName) fun objp srcName => { objp with srcName },
  xdrPvfsObjectRef.field (·.srcParent) fun objp srcParent => { objp with srcParent },
  xdrSkyePathname.field (·.dstName) fun objp dstName => { objp with dstName },
  xdrPvfsObjectRef.field (·.dstParent) fun objp dstParent => { objp with dstParent }]

def xdrBucketAddArgument : XdrFilter BucketAddArgument := .sequence [
  xdrPvfsObjectRef.field (·.handle) fun objp handle => { objp with handle },
  xdrInt.field (·.index) fun objp index => { objp with index }]

def xdrBucketRemoveArgument : XdrFilter BucketRemoveArgument := .sequence [
  xdrPvfsCredentials.field (·.creds) fun objp creds => { objp with creds },
  xdrPvfsObjectRef.field (·.handle) fun objp handle => { objp with handle },
  xdrInt.field (·.index) fun objp index => { objp with index }]

/-! ### The calls -/

inductive SkyeRpc where
  | init
  | lookup (argument : NameArgument)
  | partition (argument : NameArgument)
  | create (argument : MakeArgument)
  | mkdir (argument : MakeArgument)
  | rename (argument : RenameArgument)
  | remove (argument : NameArgument)
  | bucketAdd (argument : BucketAddArgument)
  | bucketRemove (argument : BucketRemoveArgument)
deriving DecidableEq

namespace SkyeRpc

def procedure : SkyeRpc → Nat
  | init => 1
  | lookup _ => 2
  | partition _ => 3
  | create _ => 101
  | mkdir _ => 102
  | rename _ => 103
  | remove _ => 104
  | bucketAdd _ => 201
  | bucketRemove _ => 202

/-- What the stub of the client sends after the number. -/
def encode : SkyeRpc → List UInt8
  | init => []
  | lookup argument | partition argument | remove argument => xdrNameArgument.encode argument
  | create argument | mkdir argument => xdrMakeArgument.encode argument
  | rename argument => xdrRenameArgument.encode argument
  | bucketAdd argument => xdrBucketAddArgument.encode argument
  | bucketRemove argument => xdrBucketRemoveArgument.encode argument

/-- The dispatcher of the server: `none` where it answers with an error of its own. -/
def decode (procedure : Nat) (bytes : List UInt8) : Option (SkyeRpc × List UInt8) :=
  match procedure with
  | 1 => some (init, bytes)
  | 2 => (xdrNameArgument.decode bytes ⟨default, default, default⟩).map (Prod.map lookup id)
  | 3 => (xdrNameArgument.decode bytes ⟨default, default, default⟩).map (Prod.map partition id)
  | 101 => (xdrMakeArgument.decode bytes ⟨default, default, default, 0⟩).map (Prod.map create id)
  | 102 => (xdrMakeArgument.decode bytes ⟨default, default, default, 0⟩).map (Prod.map mkdir id)
  | 103 => (xdrRenameArgument.decode bytes ⟨default, default, default, default, default⟩).map (Prod.map rename id)
  | 104 => (xdrNameArgument.decode bytes ⟨default, default, default⟩).map (Prod.map remove id)
  | 201 => (xdrBucketAddArgument.decode bytes ⟨default, 0⟩).map (Prod.map bucketAdd id)
  | 202 => (xdrBucketRemoveArgument.decode bytes ⟨default, default, 0⟩).map (Prod.map bucketRemove id)
  | _ => none

end SkyeRpc

section
open XdrFilter

theorem xdrPvfsObjectRef_transfers : xdrPvfsObjectRef.Transfers fun value _ => value := by
  refine ⟨xdrPvfsObjectRef_roundTrips, ?_⟩
  apply sequence_cons_aligned (field_aligned xdrUInt64_transfers.aligned _ _)
  exact sequence_cons_aligned (field_aligned xdrUInt32_transfers.aligned _ _) sequence_nil_aligned

theorem xdrPvfsCredentials_transfers : xdrPvfsCredentials.Transfers fun value _ => value := by
  refine ⟨xdrPvfsCredentials_roundTrips, ?_⟩
  apply sequence_cons_aligned (field_aligned xdrUInt32_transfers.aligned _ _)
  exact sequence_cons_aligned (field_aligned xdrUInt32_transfers.aligned _ _) sequence_nil_aligned

theorem xdrSkyePathname_transfers : xdrSkyePathname.Transfers fun value _ => value :=
  ⟨xdrString_roundTrips (by decide), xdrString_aligned _⟩

-- In each record every member is copied, so that nothing of the zeros is left.

theorem xdrNameArgument_transfers : xdrNameArgument.Transfers fun value _ => value := by
  apply Transfers.whole
  · apply sequence_cons_transfers (field_transfers xdrPvfsCredentials_transfers _ _)
    apply sequence_cons_transfers (field_transfers xdrPvfsObjectRef_transfers _ _)
    exact sequence_cons_transfers (field_transfers xdrSkyePathname_transfers _ _) sequence_nil_transfers
  · intro value old
    rfl

theorem xdrMakeArgument_transfers : xdrMakeArgument.Transfers fun value _ => value := by
  apply Transfers.whole
  · apply sequence_cons_transfers (field_transfers xdrPvfsCredentials_transfers _ _)
    apply sequence_cons_transfers (field_transfers xdrPvfsObjectRef_transfers _ _)
    apply sequence_cons_transfers (field_transfers xdrSkyePathname_transfers _ _)
    exact sequence_cons_transfers (field_transfers xdrUInt32_transfers _ _) sequence_nil_transfers
  · intro value old
    rfl

theorem xdrRenameArgument_transfers : xdrRenameArgument.Transfers fun value _ => value := by
  apply Transfers.whole
  · apply sequence_cons_transfers (field_transfers xdrPvfsCredentials_transfers _ _)
    apply sequence_cons_transfers (field_transfers xdrSkyePathname_transfers _ _)
    apply sequence_cons_transfers (field_transfers xdrPvfsObjectRef_transfers _ _)
    apply sequence_cons_transfers (field_transfers xdrSkyePathname_transfers _ _)
    exact sequence_cons_transfers (field_transfers xdrPvfsObjectRef_transfers _ _) sequence_nil_transfers
  · intro value old
    rfl

theorem xdrBucketAddArgument_transfers : xdrBucketAddArgument.Transfers fun value _ => value := by
  apply Transfers.whole
  · apply sequence_cons_transfers (field_transfers xdrPvfsObjectRef_transfers _ _)
    exact sequence_cons_transfers (field_transfers xdrInt_transfers _ _) sequence_nil_transfers
  · intro value old
    rfl

theorem xdrBucketRemoveArgument_transfers : xdrBucketRemoveArgument.Transfers fun value _ => value := by
  apply Transfers.whole
  · apply sequence_cons_transfers (field_transfers xdrPvfsCredentials_transfers _ _)
    apply sequence_cons_transfers (field_transfers xdrPvfsObjectRef_transfers _ _)
    exact sequence_cons_transfers (field_transfers xdrInt_transfers _ _) sequence_nil_transfers
  · intro value old
    rfl

theorem dispatched {Argument : Type} {filter : XdrFilter Argument} (aligned : filter.Aligned) {zeros : Argument}
    {build : Argument → SkyeRpc} {bytes rest : List UInt8} {call : SkyeRpc}
    (decoded : (filter.decode bytes zeros).map (Prod.map build id) = some (call, rest)) {number : Nat}
    (numbered : ∀ argument, (build argument).procedure = number) :
    call.procedure = number ∧ ∃ used, bytes = used ++ rest ∧ 4 ∣ used.length := by
  obtain ⟨⟨argument, left⟩, taken, same⟩ := Option.map_eq_some_iff.mp decoded
  cases same
  exact ⟨numbered argument, aligned bytes zeros argument left taken⟩

end

namespace SkyeRpc

theorem decode_encode (call : SkyeRpc) (rest : List UInt8) :
    decode call.procedure (call.encode ++ rest) = some (call, rest) := by
  cases call with
  | init => rfl
  | lookup argument | partition argument | remove argument =>
    simp only [procedure, encode, decode, xdrNameArgument_transfers.copies argument rest, Option.map_some]
    rfl
  | create argument | mkdir argument =>
    simp only [procedure, encode, decode, xdrMakeArgument_transfers.copies argument rest, Option.map_some]
    rfl
  | rename argument =>
    simp only [procedure, encode, decode, xdrRenameArgument_transfers.copies argument rest, Option.map_some]
    rfl
  | bucketAdd argument =>
    simp only [procedure, encode, decode, xdrBucketAddArgument_transfers.copies argument rest, Option.map_some]
    rfl
  | bucketRemove argument =>
    simp only [procedure, encode, decode, xdrBucketRemoveArgument_transfers.copies argument rest, Option.map_some]
    rfl

theorem decode_some {number : Nat} {bytes rest : List UInt8} {call : SkyeRpc}
    (decoded : decode number bytes = some (call, rest)) :
    call.procedure = number ∧ ∃ used, bytes = used ++ rest ∧ 4 ∣ used.length := by
  unfold decode at decoded
  split at decoded
  case h_1 =>
    cases decoded
    exact ⟨rfl, [], rfl, Nat.dvd_zero 4⟩
  case h_2 | h_3 | h_7 => exact dispatched xdrNameArgument_transfers.aligned decoded fun _ => rfl
  case h_4 | h_5 => exact dispatched xdrMakeArgument_transfers.aligned decoded fun _ => rfl
  case h_6 => exact dispatched xdrRenameArgument_transfers.aligned decoded fun _ => rfl
  case h_8 => exact dispatched xdrBucketAddArgument_transfers.aligned decoded fun _ => rfl
  case h_9 => exact dispatched xdrBucketRemoveArgument_transfers.aligned decoded fun _ => rfl
  case h_10 => cases decoded

end SkyeRpc

/-- Every call arrives as it was sent, for the procedure that it was sent to, and leaves the stream at what follows. What
is accepted at all is a call of that procedure and takes whole words from the stream. -/
theorem calls_arrive :
    (∀ call rest, SkyeRpc.decode call.procedure (call.encode ++ rest) = some (call, rest)) ∧
      ∀ number bytes call rest, SkyeRpc.decode number bytes = some (call, rest) →
        call.procedure = number ∧ ∃ used, bytes = used ++ rest ∧ 4 ∣ used.length :=
  ⟨SkyeRpc.decode_encode, fun _ _ _ _ decoded => SkyeRpc.decode_some decoded⟩

end SkyeFS.Wire
