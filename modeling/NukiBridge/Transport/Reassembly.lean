import NukiBridge.Buffer.Memory
import NukiBridge.Protocol.Frame

/-! The receive buffer of one transport. Indications are appended to a flat
accumulator until it is full; a reset clears it as a whole. Seen from outside,
the accumulator is a list of at most 256 bytes. -/
namespace NukiBridge

open Buffer

/-- `rx_buf` and `rx_len`. -/
structure Reassembly where
  rxBuf : Bytes wireMaxLen
  rxLen : Nat
  fits : rxLen ≤ wireMaxLen

namespace Reassembly

def empty : Reassembly := ⟨Bytes.zero _, 0, Nat.zero_le _⟩

/-- The append of `notify_cb`: what exceeds the space that is left is dropped. -/
def notify (rx : Reassembly) (data : List UInt8) : Reassembly :=
  let space := wireMaxLen - rx.rxLen
  let copy := min space data.length
  { rxBuf := ⟨memcpy rx.rxBuf.val rx.rxLen (data.take copy), by
      have hFits := rx.fits
      rw [length_memcpy (by rw [Bytes.length, List.length_take]; omega), Bytes.length]⟩
    rxLen := rx.rxLen + copy
    fits := by
      have hFits := rx.fits
      omega }

/-- The clearing of `nuki_transport_reset`. -/
def clear (rx : Reassembly) : Reassembly := ⟨rx.rxBuf, 0, Nat.zero_le _⟩

/-- The bytes accumulated since the last reset. -/
def bytes (rx : Reassembly) : List UInt8 := rx.rxBuf.val.take rx.rxLen

@[simp] theorem length_bytes (rx : Reassembly) : rx.bytes.length = rx.rxLen := by
  rw [bytes, List.length_take, Bytes.length, Nat.min_eq_left rx.fits]

/-- An append is an append, cut to the size of the buffer. -/
theorem bytes_notify (rx : Reassembly) (data : List UInt8) :
    (rx.notify data).bytes = (rx.bytes ++ data).take wireMaxLen := by
  have hFits := rx.fits
  have hTake : data.take (min (wireMaxLen - rx.rxLen) data.length) =
      data.take (wireMaxLen - rx.rxLen) := by
    rw [← List.take_eq_take_min]
  have hKnown : (rx.notify data).bytes =
      rx.bytes ++ data.take (min (wireMaxLen - rx.rxLen) data.length) :=
    take_memcpy rfl (by rw [Bytes.length]; exact hFits)
      (by simp only [notify, List.length_take]; omega)
  have hAll : rx.bytes.take wireMaxLen = rx.bytes :=
    List.take_of_length_le (by rw [length_bytes]; exact hFits)
  rw [hKnown, hTake, List.take_append (i := wireMaxLen), hAll, length_bytes]

/-- What was accumulated is only ever extended. Bytes that no longer fit are dropped at the end. -/
theorem rxLen_notify (rx : Reassembly) (data : List UInt8) :
    rx.rxLen ≤ (rx.notify data).rxLen := Nat.le_add_right _ _

end Reassembly

/-- A message as the lock indicates it: one or more fragments. -/
structure Fragments where
  first : List UInt8
  rest : List (List UInt8)
  deriving DecidableEq

def Fragments.bytes (fragments : Fragments) : List UInt8 :=
  fragments.first ++ fragments.rest.flatten

/-- The receive buffer together with what the lock still has to indicate: the
fragments left of the current message, and the messages after it. -/
structure Feed where
  rx : Reassembly
  current : List (List UInt8)
  later : List Fragments

namespace Feed

/-- The next indication arrives. -/
def indicate (f : Feed) : Option Feed :=
  match f.current, f.later with
  | data :: rest, _ => some { f with rx := f.rx.notify data, current := rest }
  | [], message :: others =>
      some { f with rx := f.rx.notify message.first, current := message.rest, later := others }
  | [], [] => none

/-- All indications have arrived. -/
def Exhausted (f : Feed) : Prop := f.current = [] ∧ f.later = []

instance (f : Feed) : Decidable f.Exhausted := inferInstanceAs (Decidable (_ ∧ _))

/-- How many indications are still to come. -/
def outstanding (f : Feed) : Nat :=
  f.current.length + (f.later.map fun message => message.rest.length + 1).sum

theorem outstanding_indicate {f f' : Feed} (h : f.indicate = some f') :
    f.outstanding = f'.outstanding + 1 := by
  obtain ⟨rx, current, later⟩ := f
  cases current with
  | cons data rest =>
      cases h
      simp [outstanding]
      omega
  | nil =>
      cases later with
      | nil => cases h
      | cons message others =>
          cases h
          simp [outstanding]
          omega

theorem rxLen_indicate {f f' : Feed} (h : f.indicate = some f') : f.rx.rxLen ≤ f'.rx.rxLen := by
  obtain ⟨rx, current, later⟩ := f
  cases current with
  | cons data rest =>
      cases h
      exact rx.rxLen_notify data
  | nil =>
      cases later with
      | nil => cases h
      | cons message others =>
          cases h
          exact rx.rxLen_notify message.first

theorem indicate_eq_none_iff (f : Feed) : f.indicate = none ↔ f.Exhausted := by
  obtain ⟨rx, current, later⟩ := f
  cases current <;> cases later <;> simp [indicate, Exhausted]

theorem Exhausted.indicate_ne {f f' : Feed} (h : f.Exhausted) : f.indicate ≠ some f' := by
  rw [f.indicate_eq_none_iff.mpr h]
  exact Option.some_ne_none f' |>.symm

end Feed
end NukiBridge
