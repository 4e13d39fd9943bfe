import CameraFw.Recorder.Lemmas.Parser

/-!
# Steps over packets

What the parser reads from a packet, and where the step over it ends.
-/

namespace CameraFw.Recorder

open CameraFw.Base

/-! ## The fields of a packet -/

theorem Packet.lead_len (p : Packet) : p.lead.length = 21 := by
  simp [Packet.lead, p.pre_len, p.mid_len, p.tag_len]

theorem Packet.firstBytes_len (p : Packet) (a b : Nat) :
    (p.firstBytes a b).length = 31 + p.payload.length + p.padding.length := by
  simp [Packet.firstBytes, p.lead_len]; omega

theorem Packet.otherBytes_len (p : Packet) :
    p.otherBytes.length = 23 + p.payload.length + p.padding.length := by
  simp [Packet.otherBytes, p.lead_len]; omega

theorem le_field {a c : List UInt8} {off n v : Nat} (ha : a.length = off) :
    le (load (a ++ (toLE n v ++ c)) off n) = v % 256 ^ n := by
  have := load_append_mid (a := a) (b := toLE n v) (c := c)
  rw [length_toLE, ha] at this
  rw [this, le_toLE]

theorem paddingLength_lead (p : Packet) (t : List UInt8) :
    paddingLength (p.lead ++ t) = p.padding.length := by
  have h := p.padding_lt
  have hf := le_field (c := p.mid ++ p.tag ++ t) (n := 2) (v := p.padding.length) p.pre_len
  simp only [paddingLength, le16, asfErrorCorrectionSize, Packet.lead, List.append_assoc] at hf ⊢
  rw [hf]; omega

theorem fields_firstBytes (p : Packet) {a b : Nat} (ha : a < 4294967296) (t : List UInt8) :
    fppFrameSize (p.firstBytes a b ++ t) = a ∧ fppLen (p.firstBytes a b ++ t) = p.payload.length ∧
    paddingLength (p.firstBytes a b ++ t) = p.padding.length := by
  have hp := p.payload_lt
  refine ⟨?_, ?_, ?_⟩
  · have hf := le_field (c := toLE 4 b ++ (toLE 2 p.payload.length ++ (p.payload ++ p.padding)) ++ t) (n := 4)
      (v := a) p.lead_len
    simp only [fppFrameSize, le32, Packet.firstBytes, payloadHeader, asfPayloadInformationSize,
      asfErrorCorrectionSize, List.append_assoc] at hf ⊢
    rw [hf]; omega
  · have hl : (p.lead ++ (toLE 4 a ++ toLE 4 b)).length = 29 := by simp [p.lead_len]
    have hf := le_field (c := p.payload ++ p.padding ++ t) (n := 2) (v := p.payload.length) hl
    simp only [fppLen, le16, Packet.firstBytes, payloadHeader, asfPayloadInformationSize,
      asfErrorCorrectionSize, List.append_assoc] at hf ⊢
    rw [hf]; omega
  · rw [Packet.firstBytes, List.append_assoc]; exact paddingLength_lead p _

theorem presentTime_firstBytes (p : Packet) (a b : Nat) (t : List UInt8) :
    fppPresentTime (p.firstBytes a b ++ t) = b % 2 ^ 32 := by
  have hl : (p.lead ++ toLE 4 a).length = 25 := by simp [p.lead_len]
  have hf := le_field (c := toLE 2 p.payload.length ++ (p.payload ++ p.padding) ++ t) (n := 4) (v := b) hl
  simp only [fppPresentTime, le32, Packet.firstBytes, payloadHeader, asfPayloadInformationSize,
    asfErrorCorrectionSize, List.append_assoc] at hf ⊢
  exact hf

theorem fields_otherBytes (p : Packet) (t : List UInt8) :
    oppLen (p.otherBytes ++ t) = p.payload.length ∧ paddingLength (p.otherBytes ++ t) = p.padding.length := by
  have hp := p.payload_lt
  refine ⟨?_, ?_⟩
  · have hf := le_field (c := p.payload ++ p.padding ++ t) (n := 2) (v := p.payload.length) p.lead_len
    simp only [oppLen, le16, Packet.otherBytes, payloadHeader, asfPayloadInformationSize,
      asfErrorCorrectionSize, List.append_assoc] at hf ⊢
    rw [hf]; omega
  · rw [Packet.otherBytes, List.append_assoc]; exact paddingLength_lead p _

/-! ## Steps over packets -/

/-- The walk steps over the packets `ps`, one after the other. -/
inductive Walks (S : List UInt8) : SmbcAsfDs → List (List UInt8) → SmbcAsfDs → Prop where
  | nil {ds} : Walks S ds [] ds
  | cons {ds p ps ds'} : (packetStep S ds).doneOffset = ds.doneOffset + p.length →
      Walks S (packetStep S ds) ps ds' → Walks S ds (p :: ps) ds'

theorem Walks.packetStart {S ds ps ds'} (h : Walks S ds ps ds') :
    ∀ j, j ≤ ps.length → packetStart S ds j = ds.doneOffset + ((ps.take j).map List.length).sum := by
  induction h with
  | nil => intro j hj; obtain rfl := Nat.le_zero.mp hj; rfl
  | cons hp _ ih =>
      intro j hj
      cases j with
      | zero => rfl
      | succ j =>
          have := ih j (by simpa using hj)
          simp only [Recorder.packetStart, Function.iterate_succ_apply] at this ⊢
          rw [this, hp, List.take_succ_cons, List.map_cons, List.sum_cons]; omega

/-- The parser expects a frame at offset `p`. -/
def AtFrame (ds : SmbcAsfDs) (p : Nat) : Prop := ds.state = .FPH ∧ ds.stateSize = 31 ∧ ds.doneOffset = p

/-- The parser expects a continuation packet at offset `p` and is `n` bytes short of the frame's end. -/
def InFrame (ds : SmbcAsfDs) (p n : Nat) : Prop :=
  ds.state = .OPH ∧ ds.stateSize = 23 ∧ ds.doneOffset = p ∧ ds.rFrameSize = BitVec.ofNat 32 n

theorem ofNat_sub_ofNat {a b : Nat} (h : b ≤ a) :
    BitVec.ofNat 32 a - BitVec.ofNat 32 b = BitVec.ofNat 32 (a - b) := by
  apply BitVec.eq_of_toNat_eq
  simp only [BitVec.toNat_sub, BitVec.toNat_ofNat]
  omega

theorem ofNat_eq_zero {a : Nat} (h : a < 4294967296) : BitVec.ofNat 32 a = 0 ↔ a = 0 := by
  constructor
  · intro h'
    have := congrArg BitVec.toNat h'
    simp only [BitVec.toNat_ofNat] at this
    simp at this
    omega
  · rintro rfl; rfl

/-- Both kinds of packets end alike: if bytes of the frame are missing, the next packet goes on with it,
else a frame begins behind the padding. -/
theorem packet_ends (ds : SmbcAsfDs) {n k : Nat} (done pad : Nat)
    (hr : ds.rFrameSize = BitVec.ofNat 32 n - BitVec.ofNat 32 k) (hn : n < 4294967296) (hle : k ≤ n)
    (hpad : k < n → pad = 0) :
    ∃ r, (if ds.rFrameSize ≠ 0 then some (changeState ds .OPH otherPacketHeaderSize done)
        else some (changeState ds .FPH firstPacketHeaderSize (done + pad))) = some r ∧
      (k = n → AtFrame r.2 (ds.doneOffset + (done + pad))) ∧
      (k < n → InFrame r.2 (ds.doneOffset + (done + pad)) (n - k)) := by
  rw [ofNat_sub_ofNat hle] at hr
  have hz : ds.rFrameSize = 0 ↔ n - k = 0 := by
    rw [hr]
    exact ofNat_eq_zero (by omega)
  by_cases hlt : k < n
  · rw [if_pos (by rw [Ne, hz]; omega)]
    refine ⟨_, rfl, fun heq => absurd heq (by omega), fun _ => ⟨rfl, rfl, ?_, hr⟩⟩
    simp only [changeState, hpad hlt, Nat.add_zero]
  · rw [if_neg (by rw [Ne, hz]; omega)]
    exact ⟨_, rfl, fun _ => ⟨rfl, rfl, rfl⟩, fun h => absurd h hlt⟩

theorem packetStep_first {S ds p} {q : Packet} {a b : Nat} {t : List UInt8} (hds : AtFrame ds p)
    (hS : S.drop p = q.firstBytes a b ++ t) (ha : a < 4294967296) (hle : q.payload.length ≤ a)
    (hpad : q.payload.length < a → q.padding = []) :
    (q.payload.length = a → AtFrame (packetStep S ds) (p + (q.firstBytes a b).length)) ∧
    (q.payload.length < a → InFrame (packetStep S ds) (p + (q.firstBytes a b).length)
      (a - q.payload.length)) := by
  obtain ⟨hst, hsz, hoff⟩ := hds
  obtain ⟨h1, h2, h3⟩ := fields_firstBytes q (b := b) ha t
  obtain ⟨r, hr, hat, hin⟩ := packet_ends
    { ds with
      rFrameSize := BitVec.ofNat 32 a - BitVec.ofNat 32 q.payload.length
      prevPresentTime := ds.presentTime
      presentTime := BitVec.ofNat 32 (fppPresentTime (q.firstBytes a b ++ t)) }
    (q.payload.length + firstPacketHeaderSize) q.padding.length rfl ha hle (fun h => by rw [hpad h]; rfl)
  have hproc : processState (S.drop p) ds.stateSize ds = some r := by
    simp only [processState, Int.lt_irrefl, if_false, hst, hS, h1, h2, h3]
    exact hr
  have hlen : (q.firstBytes a b).length = q.payload.length + firstPacketHeaderSize + q.padding.length := by
    rw [q.firstBytes_len, Nat.add_comm 31]
    rfl
  rw [packetStep, hoff, hproc, ← hoff, hlen]
  exact ⟨hat, hin⟩

theorem packetStep_other {S ds p n} {q : Packet} {t : List UInt8} (hds : InFrame ds p n)
    (hS : S.drop p = q.otherBytes ++ t) (hn : n < 4294967296) (hle : q.payload.length ≤ n)
    (hpad : q.payload.length < n → q.padding = []) :
    (q.payload.length = n → AtFrame (packetStep S ds) (p + q.otherBytes.length)) ∧
    (q.payload.length < n → InFrame (packetStep S ds) (p + q.otherBytes.length) (n - q.payload.length)) := by
  obtain ⟨hst, hsz, hoff, hfr⟩ := hds
  obtain ⟨h1, h2⟩ := fields_otherBytes q t
  obtain ⟨r, hr, hat, hin⟩ :=
    packet_ends { ds with rFrameSize := ds.rFrameSize - BitVec.ofNat 32 q.payload.length }
    (q.payload.length + otherPacketHeaderSize) q.padding.length (by rw [hfr]) hn hle
    (fun h => by rw [hpad h]; rfl)
  have hproc : processState (S.drop p) ds.stateSize ds = some r := by
    simp only [processState, Int.lt_irrefl, if_false, hst, hS, h1, h2]
    exact hr
  have hlen : q.otherBytes.length = q.payload.length + otherPacketHeaderSize + q.padding.length := by
    rw [q.otherBytes_len, Nat.add_comm 23]
    rfl
  rw [packetStep, hoff, hproc, ← hoff, hlen]
  exact ⟨hat, hin⟩

/-! ## Frames -/

def payloadSum (qs : List Packet) : Nat := (qs.map fun q => q.payload.length).sum

theorem drop_append_len {S a t : List UInt8} {p : Nat} (h : S.drop p = a ++ t) :
    S.drop (p + a.length) = t := by
  rw [← List.drop_drop, h, List.drop_left]

end CameraFw.Recorder
