import Mathlib.Data.List.Basic
import Mathlib.Data.List.TakeDrop

/-! Packets in a byte stream without checksum: a start byte, a command, a length and
so many bytes of payload. What precedes a start byte is skipped, and a length over
the limit abandons the packet where it stands. -/
namespace Framing

structure Packet where
  cmd : UInt8
  payload : List UInt8
  deriving DecidableEq, Repr

variable {sof : UInt8} {maxLen : Nat}

/-- The packets of a stream, in one pass. A last packet that is not complete yet is
not one of them. -/
def packets (sof : UInt8) (maxLen : Nat) (stream : List UInt8) : List Packet :=
  match stream with
  | [] => []
  | byte :: rest =>
      if byte ≠ sof then packets sof maxLen rest
      else match rest with
        | cmd :: len :: rest =>
            if maxLen < len.toNat then packets sof maxLen rest
            else if rest.length < len.toNat then []
            else ⟨cmd, rest.take len.toNat⟩ :: packets sof maxLen (rest.drop len.toNat)
        | _ => []
termination_by stream.length
decreasing_by
  · exact Nat.lt_succ_self _
  · rw [List.length_cons, List.length_cons, List.length_cons]
    omega
  · rw [List.length_drop, List.length_cons, List.length_cons, List.length_cons]
    omega

/-- The bytes of a packet. -/
def Packet.bytes (sof : UInt8) (packet : Packet) : List UInt8 :=
  sof :: packet.cmd :: UInt8.ofNat packet.payload.length :: packet.payload

/-- A stream of packets, each with the bytes before it, and the bytes after the last. -/
def stream (sof : UInt8) (segments : List (List UInt8 × Packet)) (last : List UInt8) :
    List UInt8 :=
  segments.flatMap (fun segment => segment.1 ++ segment.2.bytes sof) ++ last

@[simp] theorem packets_nil : packets sof maxLen [] = [] := by
  rw [packets]

theorem packets_skip {byte : UInt8} (rest : List UInt8) (h : byte ≠ sof) :
    packets sof maxLen (byte :: rest) = packets sof maxLen rest := by
  rw [packets.eq_def]
  exact if_pos h

/-- The three branches behind a start byte and a header: a length that is too large, a packet that
is still incomplete, and a packet. -/
theorem packets_header (cmd len : UInt8) (rest : List UInt8) :
    packets sof maxLen (sof :: cmd :: len :: rest) =
      if maxLen < len.toNat then packets sof maxLen rest
      else if rest.length < len.toNat then []
      else ⟨cmd, rest.take len.toNat⟩ :: packets sof maxLen (rest.drop len.toNat) := by
  rw [packets, if_neg (not_not.mpr rfl)]

/-- A rejected header is dropped whole. The search for the next start byte begins behind it. -/
theorem packets_reject {cmd len : UInt8} (rest : List UInt8) (h : maxLen < len.toNat) :
    packets sof maxLen (sof :: cmd :: len :: rest) = packets sof maxLen rest := by
  rw [packets_header, if_pos h]

/-- A complete packet at the front is read, and the reading goes on behind it. -/
theorem packets_complete {cmd len : UInt8} {payload : List UInt8} (rest : List UInt8)
    (hLen : payload.length = len.toNat) (hMax : len.toNat ≤ maxLen) :
    packets sof maxLen (sof :: cmd :: len :: (payload ++ rest)) =
      ⟨cmd, payload⟩ :: packets sof maxLen rest := by
  rw [packets_header, if_neg (by omega), if_neg (by rw [List.length_append]; omega), ← hLen,
    List.take_append_of_le_length (Nat.le_refl _), List.take_length,
    List.drop_append_of_le_length (Nat.le_refl _), List.drop_length, List.nil_append]

/-- What of a packet has arrived is no packet yet, wherever it was cut. -/
theorem packets_sof : packets sof maxLen [sof] = [] := by
  rw [packets, if_neg (not_not.mpr rfl)]
  intro _ _ _ h
  exact absurd h (by simp)

theorem packets_sof_cmd (cmd : UInt8) : packets sof maxLen [sof, cmd] = [] := by
  rw [packets, if_neg (not_not.mpr rfl)]
  intro _ _ _ h
  exact absurd h (by simp)

theorem packets_short {cmd len : UInt8} {payload : List UInt8} (hLen : payload.length < len.toNat)
    (hMax : len.toNat ≤ maxLen) : packets sof maxLen (sof :: cmd :: len :: payload) = [] := by
  rw [packets_header, if_neg (by omega), if_pos hLen]

/-- What contains no start byte is skipped, whatever it is and however long. -/
theorem packets_noise {noise : List UInt8} (rest : List UInt8) (h : ∀ byte ∈ noise, byte ≠ sof) :
    packets sof maxLen (noise ++ rest) = packets sof maxLen rest := by
  induction noise with
  | nil => rfl
  | cons byte noise ih =>
      rw [List.cons_append, packets_skip _ (h byte List.mem_cons_self)]
      exact ih fun other hOther => h other (List.mem_cons_of_mem _ hOther)

/-- What the sender wrote for a packet is read as this packet, and the reading goes on right behind
it. -/
theorem packets_bytes {packet : Packet} (rest : List UInt8)
    (hMax : packet.payload.length ≤ maxLen) (hByte : maxLen < 256) :
    packets sof maxLen (packet.bytes sof ++ rest) = packet :: packets sof maxLen rest := by
  have hLen : (UInt8.ofNat packet.payload.length).toNat = packet.payload.length := by
    rw [UInt8.toNat_ofNat']
    exact Nat.mod_eq_of_lt (by omega)
  exact packets_complete rest hLen.symm (by omega)

/-- A packet that is cut short is none. -/
theorem packets_cut {packet : Packet} {part : List UInt8} (h : part <+: packet.bytes sof)
    (cut : part ≠ packet.bytes sof) (hMax : packet.payload.length ≤ maxLen)
    (hByte : maxLen < 256) : packets sof maxLen part = [] := by
  have hLen : (UInt8.ofNat packet.payload.length).toNat = packet.payload.length := by
    rw [UInt8.toNat_ofNat']
    exact Nat.mod_eq_of_lt (by omega)
  rw [Packet.bytes] at h cut
  match part with
  | [] => exact packets_nil
  | [first] =>
      obtain rfl : first = sof := (List.cons_prefix_cons.mp h).1
      exact packets_sof
  | [first, cmd] =>
      obtain rfl : first = sof := (List.cons_prefix_cons.mp h).1
      exact packets_sof_cmd cmd
  | first :: cmd :: len :: payload =>
      obtain ⟨rfl, hHeader⟩ := List.cons_prefix_cons.mp h
      obtain ⟨rfl, hLength⟩ := List.cons_prefix_cons.mp hHeader
      obtain ⟨rfl, hPayload⟩ := List.cons_prefix_cons.mp hLength
      apply packets_short
      · rw [hLen]
        apply Nat.lt_of_le_of_ne hPayload.length_le
        intro hSame
        exact cut (by rw [hPayload.eq_of_length hSame])
      · rw [hLen]
        exact hMax

/-- More bytes only add packets. What was read stays read, so a receiver may work byte by byte. -/
theorem packets_prefix_append (bytes rest : List UInt8) :
    packets sof maxLen bytes <+: packets sof maxLen (bytes ++ rest) := by
  fun_induction packets sof maxLen bytes with
  | case1 => exact List.nil_prefix
  | case2 byte bytes other ih =>
      rw [List.cons_append, packets_skip _ other]
      exact ih
  | case3 byte same cmd len bytes long ih =>
      obtain rfl := not_not.mp same
      rw [List.cons_append, List.cons_append, List.cons_append, packets_reject _ long]
      exact ih
  | case4 => exact List.nil_prefix
  | case5 byte same cmd len bytes long complete ih =>
      obtain rfl := not_not.mp same
      have hLength : (bytes.take len.toNat).length = len.toNat := by
        rw [List.length_take]
        omega
      have hSplit : bytes ++ rest = bytes.take len.toNat ++ (bytes.drop len.toNat ++ rest) := by
        rw [← List.append_assoc, List.take_append_drop]
      rw [List.cons_append, List.cons_append, List.cons_append, hSplit,
        packets_complete _ hLength (Nat.le_of_not_lt long)]
      exact (List.prefix_cons_inj _).mpr ih
  | case6 => exact List.nil_prefix

/-- Packets that follow each other at once are all read, in their order. -/
theorem packets_flatMap {sent : List Packet} (hByte : maxLen < 256)
    (fits : ∀ packet ∈ sent, packet.payload.length ≤ maxLen) :
    packets sof maxLen (sent.flatMap (Packet.bytes sof)) = sent := by
  induction sent with
  | nil => exact packets_nil
  | cons packet sent ih =>
      obtain ⟨hFits, hRest⟩ := List.forall_mem_cons.mp fits
      rw [List.flatMap_cons, packets_bytes _ hFits hByte, ih hRest]

/-- Exactly the packets that were sent, whatever their payloads contain. -/
theorem packets_stream {segments : List (List UInt8 × Packet)} {last : List UInt8}
    (hByte : maxLen < 256)
    (hSegments : ∀ segment ∈ segments, (∀ byte ∈ segment.1, byte ≠ sof) ∧
      segment.2.payload.length ≤ maxLen)
    (hLast : ∀ byte ∈ last, byte ≠ sof) :
    packets sof maxLen (stream sof segments last) = segments.map Prod.snd := by
  induction segments with
  | nil =>
      have hNoise := @packets_noise sof maxLen _ [] hLast
      rwa [List.append_nil, packets_nil] at hNoise
  | cons segment segments ih =>
      obtain ⟨hNoise, hMax⟩ := hSegments segment List.mem_cons_self
      rw [stream, List.flatMap_cons, List.append_assoc, List.append_assoc, packets_noise _ hNoise,
        packets_bytes _ hMax hByte, List.map_cons]
      congr 1
      exact ih fun other hOther => hSegments other (List.mem_cons_of_mem _ hOther)

end Framing
