import SkyeFS.Index.Routing

/-! The cached directory of a server and the check every handler makes first.

A handler looks the name up in the server's own table and answers `-EAGAIN`, with
a copy of the table, when the partition belongs to another server.
-/

set_option autoImplicit false

namespace SkyeFS.Server

open Index Foundation.SuffixTree

/-- The fields of `struct skye_directory` that handlers and the split thread read;
`splitting_index = -1` is `none`. -/
structure SkyeDirectory where
  mapping : GigaMapping
  splittingIndex : Option Nat

inductive Locality where
  | here (index : Nat)
  | again (bitmap : GigaMapping)
deriving DecidableEq

section
variable {Name : Type} (shahash : Name → Digest)

/-- The lookup and locality check that opens `enter_bucket` and `skye_rpc_lookup_1_svc`.
`none` stands for a failed assertion of the lookup. -/
def locality (servernum : Nat) (dir : SkyeDirectory) (name : Name) : Option Locality :=
  (gigaGetIndexForFile shahash dir.mapping name).map fun index =>
    if gigaGetServerForIndex dir.mapping index = servernum then .here index else .again dir.mapping

variable {shahash}

theorem locality_here {servernum : Nat} {dir : SkyeDirectory} {name : Name} {index : Nat} :
    locality shahash servernum dir name = some (.here index) ↔
      gigaGetIndexForFile shahash dir.mapping name = some index ∧
        gigaGetServerForIndex dir.mapping index = servernum := by
  simp only [locality, Option.map_eq_some_iff]
  constructor
  · rintro ⟨found, computed, decided⟩
    split at decided
    · rename_i owner
      cases decided
      exact ⟨computed, owner⟩
    · cases decided
  · rintro ⟨computed, owner⟩
    exact ⟨index, computed, if_pos owner⟩

theorem locality_again {servernum : Nat} {dir : SkyeDirectory} {name : Name} {bitmap : GigaMapping} :
    locality shahash servernum dir name = some (.again bitmap) ↔ bitmap = dir.mapping ∧
      ∃ index, gigaGetIndexForFile shahash dir.mapping name = some index ∧
        gigaGetServerForIndex dir.mapping index ≠ servernum := by
  simp only [locality, Option.map_eq_some_iff]
  constructor
  · rintro ⟨found, computed, decided⟩
    split at decided
    · cases decided
    · rename_i foreign
      cases decided
      exact ⟨rfl, found, computed, foreign⟩
  · rintro ⟨rfl, index, computed, foreign⟩
    exact ⟨index, computed, if_neg foreign⟩

end

end SkyeFS.Server
