import GrammarModule.Text.Quoted

/-!
# GrammarModule.Handle

A handle to a compiled grammar: the address of its tables, which belong to the grammar library
and live as long as the process. A null address is no handle.
-/

namespace GrammarModule

structure Handle where
  address : UInt64
  address_ne : address ≠ 0
  deriving DecidableEq

namespace Handle

def ofAddress? (address : UInt64) : Option Handle :=
  if h : address ≠ 0 then some ⟨address, h⟩ else none

/-- The address in hexadecimal, as in `0x1000`. -/
def text (h : Handle) : String :=
  String.ofList ('0' :: 'x' :: Text.hexadecimal h.address.toNat)

/-- The text with the name of the kind of value, as diagnostics show it. -/
def label (h : Handle) : String := "GrammarHandle(" ++ h.text ++ ")"

theorem ofAddress?_address (h : Handle) : ofAddress? h.address = some h := by
  simp [ofAddress?, h.address_ne]

theorem ofAddress?_eq_some_iff {address : UInt64} {h : Handle} :
    ofAddress? address = some h ↔ h.address = address := by
  constructor
  · intro e
    simp only [ofAddress?] at e
    split at e
    · cases e; rfl
    · cases e
  · rintro rfl
    exact ofAddress?_address h

end Handle
end GrammarModule
