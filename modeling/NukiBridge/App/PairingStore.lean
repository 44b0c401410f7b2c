import NukiBridge.App.PairingAddress
import NukiBridge.Interaction.Outline

/-! The two copies of the pairing: the record in RAM and the one in the settings. Only
`nuki_storage_save_pairing` writes them, the first before the second can fail. -/
namespace NukiBridge

open Interaction Rules

def AppOp.saves : AppOp → Bool
  | .savePairing _ => true
  | _ => false

namespace AppState

/-- The two copies. -/
def Keeps (p q : Option PairingData) (s : AppState) : Prop := s.pairing = p ∧ s.settings = q

/-- Only saving a pairing writes to one of the copies. -/
theorem Keeps.of_call {p q : Option PairingData} {op : AppOp} {choice : AppChoice}
    {s s' : AppState} {result : op.Answer} (h : s.Keeps p q) (other : op.saves = false)
    (calls : s.call op choice = some (.answer result s')) : s'.Keeps p q := by
  cases called_of_call calls with
  | saved data => cases other
  | requested => exact h
  | other _ _ _ _ _ _ pairing settings => exact ⟨pairing.trans h.1, settings.trans h.2⟩

end AppState

section Outlines

variable {p q : Option PairingData} {post : Response → AppState → Prop}

end Outlines

end NukiBridge
