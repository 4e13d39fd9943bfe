import CameraFw.Recorder.Stream

/-!
# The parser as a walk over the stream

What one step of `process_state` does behind the header object, and that `process_asf_state` on the
buffer is the walk over the stream as far as the received bytes go.
-/

namespace CameraFw.Recorder

open CameraFw.Base

/-- The parser is at the start of a packet, and waits for the header of that kind of packet. -/
def SmbcAsfDs.AtPacket (ds : SmbcAsfDs) : Prop :=
  (ds.state = .FPH ∧ ds.stateSize = 31) ∨ (ds.state = .OPH ∧ ds.stateSize = 23)

theorem SmbcAsfDs.AtPacket.size_pos {ds : SmbcAsfDs} (h : ds.AtPacket) : 0 < ds.stateSize := by
  rcases h with ⟨_, h⟩ | ⟨_, h⟩ <;> omega

theorem afterHeader_atPacket (v : List UInt8) : (afterHeader v).AtPacket := Or.inl ⟨rfl, rfl⟩

/-! ## One step -/

structure Moved (ds ds' : SmbcAsfDs) (d : Nat) : Prop where
  size_le : ds.stateSize ≤ d
  doneOffset : ds'.doneOffset = ds.doneOffset + d
  prevDoneOffset : ds'.prevDoneOffset = ds.doneOffset
  packetCount : ds'.packetCount = ds.packetCount + 1
  hohSize : ds'.hohSize = ds.hohSize
  headerBuf : ds'.headerBuf = ds.headerBuf
  atPacket : ds'.AtPacket

theorem processState_short {buf : List UInt8} {n : Int} {ds} (h : n < ds.stateSize) :
    processState buf n ds = none := by
  simp [processState, h]

theorem processState_moved (buf : List UInt8) {n : Int} {ds} (hp : ds.AtPacket) (hn : ds.stateSize ≤ n) :
    ∃ d ds', processState buf n ds = some (d, ds') ∧ Moved ds ds' d := by
  have hlt : ¬ n < ds.stateSize := by omega
  simp only [processState, hlt, ↓reduceIte]
  rcases hp with ⟨hst, hsz⟩ | ⟨hst, hsz⟩ <;> simp only [hst] <;> split
  · exact ⟨_, _, rfl, by rw [hsz]; simp [firstPacketHeaderSize, asfErrorCorrectionSize,
      asfPayloadInformationSize, payloadFirstPacketHeaderSize], rfl, rfl, rfl, rfl, rfl, Or.inr ⟨rfl, rfl⟩⟩
  · exact ⟨_, _, rfl, by rw [hsz]; simp only [firstPacketHeaderSize, asfErrorCorrectionSize,
      asfPayloadInformationSize, payloadFirstPacketHeaderSize]; omega, rfl, rfl, rfl, rfl, rfl,
        Or.inl ⟨rfl, rfl⟩⟩
  · exact ⟨_, _, rfl, by rw [hsz]; simp [otherPacketHeaderSize, asfErrorCorrectionSize,
      asfPayloadInformationSize, payloadOtherPacketHeaderSize], rfl, rfl, rfl, rfl, rfl, Or.inr ⟨rfl, rfl⟩⟩
  · exact ⟨_, _, rfl, by rw [hsz]; simp only [otherPacketHeaderSize, asfErrorCorrectionSize,
      asfPayloadInformationSize, payloadOtherPacketHeaderSize]; omega, rfl, rfl, rfl, rfl, rfl,
        Or.inl ⟨rfl, rfl⟩⟩

/-- Behind the header object the parser reads nothing but the packet header it has waited for. -/
theorem processState_congr {a b : List UInt8} {m n : Int} {ds} (hp : ds.AtPacket) (hm : ds.stateSize ≤ m)
    (hn : ds.stateSize ≤ n) (h : a.take ds.stateSize = b.take ds.stateSize) :
    processState a m ds = processState b n ds := by
  have hm' : ¬ m < ds.stateSize := by omega
  have hn' : ¬ n < ds.stateSize := by omega
  have hf : ∀ off k, off + k ≤ ds.stateSize → load a off k = load b off k := fun off k => load_congr h
  have hpad : paddingLength a = paddingLength b := by
    unfold paddingLength le16
    rw [hf _ _ (by rcases hp with ⟨_, hs⟩ | ⟨_, hs⟩ <;> simp [hs, asfErrorCorrectionSize])]
  simp only [processState, hm', hn', ↓reduceIte, hpad]
  rcases hp with ⟨hst, hs⟩ | ⟨hst, hs⟩
  · have h1 : fppFrameSize a = fppFrameSize b := by
      unfold fppFrameSize le32; rw [hf _ _ (by rw [hs]; decide)]
    have h2 : fppLen a = fppLen b := by unfold fppLen le16; rw [hf _ _ (by rw [hs]; decide)]
    have h3 : fppPresentTime a = fppPresentTime b := by
      unfold fppPresentTime le32; rw [hf _ _ (by rw [hs]; decide)]
    simp only [hst, h1, h2, h3]
  · have h1 : oppLen a = oppLen b := by unfold oppLen le16; rw [hf _ _ (by rw [hs]; decide)]
    simp only [hst, h1]

theorem packetStep_moved (S : List UInt8) {ds} (hp : ds.AtPacket) : ∃ d, Moved ds (packetStep S ds) d := by
  obtain ⟨d, ds', he, hm⟩ := processState_moved (S.drop ds.doneOffset) hp (le_refl (ds.stateSize : Int))
  refine ⟨d, ?_⟩
  simpa only [packetStep, he] using hm

theorem packetStep_atPacket (S : List UInt8) {ds} (hp : ds.AtPacket) : (packetStep S ds).AtPacket := by
  obtain ⟨_, hm⟩ := packetStep_moved S hp; exact hm.atPacket

theorem packetStep_lt (S : List UInt8) {ds} (hp : ds.AtPacket) :
    ds.doneOffset < (packetStep S ds).doneOffset := by
  obtain ⟨d, hm⟩ := packetStep_moved S hp
  have := hm.size_le
  have := hp.size_pos
  rw [hm.doneOffset]; omega

/-! ## Counting the packet headers -/

theorem headersIn_fuel (S : List UInt8) (R : Nat) : ∀ fuel fuel' ds, ds.AtPacket →
    R < ds.doneOffset + fuel → R < ds.doneOffset + fuel' →
      headersIn S R fuel ds = headersIn S R fuel' ds := by
  intro fuel
  induction fuel with
  | zero =>
      intro fuel' ds hp h _
      cases fuel' with
      | zero => rfl
      | succ fuel' =>
          have : ¬ ds.doneOffset + ds.stateSize ≤ R := by omega
          simp [headersIn, this]
  | succ fuel ih =>
      intro fuel' ds hp h h'
      cases fuel' with
      | zero =>
          have : ¬ ds.doneOffset + ds.stateSize ≤ R := by omega
          simp [headersIn, this]
      | succ fuel' =>
          have hlt := packetStep_lt S hp
          simp only [headersIn]
          split
          · rw [ih fuel' _ (packetStep_atPacket S hp) (by omega) (by omega)]
          · rfl

theorem headerCount_fit {S : List UInt8} {R ds} (hp : ds.AtPacket) (h : ds.doneOffset + ds.stateSize ≤ R) :
    headerCount S R ds = headerCount S R (packetStep S ds) + 1 := by
  have hlt := packetStep_lt S hp
  have hpos := hp.size_pos
  unfold headerCount
  rw [headersIn, if_pos h, headersIn_fuel S R R (R + 1) _ (packetStep_atPacket S hp) (by omega) (by omega)]

theorem headerCount_short {S : List UInt8} {R ds} (h : R < ds.doneOffset + ds.stateSize) :
    headerCount S R ds = 0 := by
  have : ¬ ds.doneOffset + ds.stateSize ≤ R := by omega
  simp [headerCount, headersIn, this]

theorem parsed_fit {S : List UInt8} {R ds} (hp : ds.AtPacket) (h : ds.doneOffset + ds.stateSize ≤ R) :
    parsed S R ds = parsed S R (packetStep S ds) := by
  rw [parsed, headerCount_fit hp h, Function.iterate_succ_apply, parsed]

theorem parsed_short {S : List UInt8} {R ds} (h : R < ds.doneOffset + ds.stateSize) : parsed S R ds = ds := by
  rw [parsed, headerCount_short h, Function.iterate_zero_apply]

/-- The induction of the walk: it stops where the packet header is not complete, and steps on where it is. -/
theorem walk_induction {S : List UInt8} {R : Nat} {motive : SmbcAsfDs → Prop}
    (stop : ∀ ds, ds.AtPacket → R < ds.doneOffset + ds.stateSize → motive ds)
    (next : ∀ ds, ds.AtPacket → ds.doneOffset + ds.stateSize ≤ R → motive (packetStep S ds) → motive ds) :
    ∀ ds, ds.AtPacket → motive ds := by
  suffices h : ∀ n ds, ds.AtPacket → R + 1 - ds.doneOffset ≤ n → motive ds from
    fun ds hp => h _ ds hp (le_refl _)
  intro n
  induction n with
  | zero =>
      intro ds hp hn
      exact stop ds hp (by omega)
  | succ n ih =>
      intro ds hp hn
      have hlt := packetStep_lt S hp
      by_cases h : ds.doneOffset + ds.stateSize ≤ R
      · exact next ds hp h (ih _ (packetStep_atPacket S hp) (by omega))
      · exact stop ds hp (by omega)

theorem parsed_atPacket {S : List UInt8} {R ds} (hp : ds.AtPacket) : (parsed S R ds).AtPacket := by
  refine walk_induction (S := S) (R := R) (motive := fun ds => (parsed S R ds).AtPacket) ?_ ?_ ds hp
  · intro ds hp h; rwa [parsed_short h]
  · intro ds hp h ih; rwa [parsed_fit hp h]

theorem parsed_le {S : List UInt8} {R ds} (hp : ds.AtPacket) :
    ds.doneOffset ≤ (parsed S R ds).doneOffset := by
  refine walk_induction (S := S) (R := R) (motive := fun ds => ds.doneOffset ≤ (parsed S R ds).doneOffset)
    ?_ ?_ ds hp
  · intro ds hp h; rw [parsed_short h]
  · intro ds hp h ih
    have := packetStep_lt S hp
    rw [parsed_fit hp h]; omega

/-- What the parser has seen of the stream so far does not matter for how it goes on. -/
theorem parsed_parsed {S : List UInt8} {R R' ds} (hp : ds.AtPacket) (hR : R ≤ R') :
    parsed S R' (parsed S R ds) = parsed S R' ds := by
  refine walk_induction (S := S) (R := R)
    (motive := fun ds => parsed S R' (parsed S R ds) = parsed S R' ds) ?_ ?_ ds hp
  · intro ds hp h; rw [parsed_short h]
  · intro ds hp h ih
    rw [parsed_fit hp h, ih, ← parsed_fit hp (by omega)]

/-! ## The steps of the walk -/

theorem iterate_atPacket (S : List UInt8) {ds} (hp : ds.AtPacket) (j : Nat) :
    ((packetStep S)^[j] ds).AtPacket := by
  induction j with
  | zero => exact hp
  | succ j ih => rw [Function.iterate_succ_apply']; exact packetStep_atPacket S ih

theorem iterate_kept (S : List UInt8) {ds} (hp : ds.AtPacket) (j : Nat) :
    ((packetStep S)^[j] ds).packetCount = ds.packetCount + j ∧
    ((packetStep S)^[j] ds).hohSize = ds.hohSize ∧
    ((packetStep S)^[j] ds).headerBuf = ds.headerBuf := by
  induction j with
  | zero => exact ⟨rfl, rfl, rfl⟩
  | succ j ih =>
      obtain ⟨_, hm⟩ := packetStep_moved S (iterate_atPacket S hp j)
      rw [Function.iterate_succ_apply', hm.packetCount, hm.hohSize, hm.headerBuf, ih.1, ih.2.1, ih.2.2]
      exact ⟨by omega, rfl, rfl⟩

theorem iterate_prev (S : List UInt8) {ds} (hp : ds.AtPacket) (j : Nat) :
    ((packetStep S)^[j + 1] ds).prevDoneOffset = packetStart S ds j := by
  obtain ⟨_, hm⟩ := packetStep_moved S (iterate_atPacket S hp j)
  rw [Function.iterate_succ_apply', hm.prevDoneOffset, packetStart]

theorem packetStart_lt (S : List UInt8) {ds} (hp : ds.AtPacket) (j : Nat) :
    packetStart S ds j < packetStart S ds (j + 1) := by
  simp only [packetStart, Function.iterate_succ_apply']
  exact packetStep_lt S (iterate_atPacket S hp j)

/-- The header of each packet that is counted lies in the first `R` bytes. -/
theorem header_of_lt_headerCount {S : List UInt8} {R ds} (hp : ds.AtPacket) :
    ∀ j, j < headerCount S R ds → packetStart S ds j + ((packetStep S)^[j] ds).stateSize ≤ R := by
  refine walk_induction (S := S) (R := R)
    (motive := fun ds => ∀ j, j < headerCount S R ds →
      packetStart S ds j + ((packetStep S)^[j] ds).stateSize ≤ R) ?_ ?_ ds hp
  · intro ds hp h j hj; rw [headerCount_short h] at hj; omega
  · intro ds hp h ih j hj
    cases j with
    | zero => exact h
    | succ j =>
        rw [headerCount_fit hp h] at hj
        exact ih j (by omega)

theorem packetStart_of_lt_headerCount {S : List UInt8} {R ds} (hp : ds.AtPacket) (j : Nat)
    (hj : j < headerCount S R ds) :
    packetStart S ds j + 23 ≤ R := by
  have hle := header_of_lt_headerCount hp j hj
  rcases iterate_atPacket S hp j with ⟨_, hs⟩ | ⟨_, hs⟩ <;> omega

theorem parsed_prev {S : List UInt8} {R ds} (hp : ds.AtPacket) (h0 : ds.prevDoneOffset = 0) :
    (parsed S R ds).prevDoneOffset = lastPacketStart S R ds := by
  unfold parsed lastPacketStart
  cases headerCount S R ds with
  | zero => exact h0
  | succ k => exact iterate_prev S hp k

theorem lastPacketStart_le {S : List UInt8} {R ds} (hp : ds.AtPacket) : lastPacketStart S R ds ≤ R := by
  have h := packetStart_of_lt_headerCount (S := S) (R := R) hp
  unfold lastPacketStart
  split
  · omega
  · rename_i k hk
    have := h k (by omega)
    omega

/-- If there is a last packet, it is one of those that were counted. -/
theorem lastPacketStart_pos {S : List UInt8} {R : Nat} {ds : SmbcAsfDs} (h : 0 < lastPacketStart S R ds) :
    ∃ k, headerCount S R ds = k + 1 ∧ lastPacketStart S R ds = packetStart S ds k := by
  unfold lastPacketStart at h ⊢
  cases hk : headerCount S R ds with
  | zero => rw [hk] at h; exact absurd h (Nat.lt_irrefl 0)
  | succ k => exact ⟨k, rfl, rfl⟩

/-! ## `process_asf_state` is the walk -/

/-- A step on a buffer that holds the stream from the parser's offset up to byte `R` is the one over the
stream, and what is left of the buffer is the stream behind the packet. -/
theorem processState_window {S : List UInt8} {R : Nat} {buf : List UInt8} {bufSize : Int} {ds}
    (hp : ds.AtPacket) (hb : bufSize = (R : Int) - ds.doneOffset)
    (hfit : ds.doneOffset + ds.stateSize ≤ R)
    (hbuf : buf.take bufSize.toNat = load S ds.doneOffset bufSize.toNat) :
    ∃ d, processState buf bufSize ds = some (d, packetStep S ds) ∧ Moved ds (packetStep S ds) d ∧
      (buf.drop d).take (bufSize - d).toNat = load S (packetStep S ds).doneOffset (bufSize - d).toNat := by
  have hsee : buf.take ds.stateSize = (S.drop ds.doneOffset).take ds.stateSize := by
    have := congrArg (List.take ds.stateSize) hbuf
    simpa only [load, List.take_take, Nat.min_eq_left (show ds.stateSize ≤ bufSize.toNat by omega)] using this
  have hcongr := processState_congr (m := bufSize) (n := ds.stateSize) hp (by omega) (le_refl _) hsee
  obtain ⟨d, ds', he, hm⟩ := processState_moved buf (n := bufSize) hp (by omega)
  obtain rfl : packetStep S ds = ds' := by rw [packetStep, ← hcongr, he]
  refine ⟨d, he, hm, ?_⟩
  have := congrArg (List.drop d) hbuf
  simp only [load, List.drop_take, List.drop_drop] at this
  rw [load, hm.doneOffset, show (bufSize - d).toNat = bufSize.toNat - d by omega]
  exact this

/-- A walk over a buffer that holds the stream from the parser's offset up to byte `R`: it goes from
packet to packet while their headers fit into the buffer. -/
theorem window_induction {S : List UInt8} {R : Nat} {motive : Nat → List UInt8 → Int → SmbcAsfDs → Prop}
    (stop : ∀ fuel buf (bufSize : Int) ds, bufSize < ds.stateSize → R < ds.doneOffset + ds.stateSize →
      motive fuel buf bufSize ds)
    (next : ∀ fuel buf (bufSize : Int) ds d, ds.AtPacket → 0 < bufSize → ds.doneOffset + ds.stateSize ≤ R →
      processState buf bufSize ds = some (d, packetStep S ds) → Moved ds (packetStep S ds) d →
      motive fuel (buf.drop d) (bufSize - d) (packetStep S ds) → motive (fuel + 1) buf bufSize ds) :
    ∀ fuel buf (bufSize : Int) ds, ds.AtPacket → bufSize = (R : Int) - ds.doneOffset → bufSize.toNat ≤ fuel →
      buf.take bufSize.toNat = load S ds.doneOffset bufSize.toNat → motive fuel buf bufSize ds := by
  intro fuel
  induction fuel with
  | zero =>
      intro buf bufSize ds hp hb hf _
      have hpos := hp.size_pos
      exact stop 0 buf bufSize ds (by omega) (by omega)
  | succ fuel ih =>
      intro buf bufSize ds hp hb hf hbuf
      have hpos := hp.size_pos
      by_cases hfit : ds.doneOffset + ds.stateSize ≤ R
      · obtain ⟨d, he, hm, hrest⟩ := processState_window hp hb hfit hbuf
        have hsz := hm.size_le
        have hoff := hm.doneOffset
        exact next fuel buf bufSize ds d hp (by omega) hfit he hm
          (ih (buf.drop d) (bufSize - d) (packetStep S ds) hm.atPacket (by omega) (by omega) hrest)
      · exact stop (fuel + 1) buf bufSize ds (by omega) (by omega)

/-- The loop of `process_asf_state` on such a buffer. -/
theorem processLoop_eq {S : List UInt8} {R : Nat} (fuel : Nat) (buf : List UInt8) (bufSize : Int)
    (total : Nat) (ds : SmbcAsfDs) (hp : ds.AtPacket) (hb : bufSize = (R : Int) - ds.doneOffset)
    (hf : bufSize.toNat ≤ fuel) (hbuf : buf.take bufSize.toNat = load S ds.doneOffset bufSize.toNat) :
    processLoop fuel buf bufSize total ds =
      (total + ((parsed S R ds).doneOffset - ds.doneOffset), parsed S R ds) := by
  revert total
  refine window_induction (R := R) (motive := fun fuel buf bufSize ds => ∀ total,
    processLoop fuel buf bufSize total ds =
    (total + ((parsed S R ds).doneOffset - ds.doneOffset),
      parsed S R ds)) ?_ ?_ fuel buf bufSize ds hp hb hf hbuf
  · intro fuel buf bufSize ds hsize hshort total
    rw [parsed_short hshort]
    cases fuel with
    | zero => simp [processLoop]
    | succ fuel =>
        rw [processLoop]
        split
        · rw [processState_short hsize]
          simp
        · simp
  · intro fuel buf bufSize ds d hp hpos hfit he hm ih total
    have hoff := hm.doneOffset
    have hle := parsed_le (S := S) (R := R) hm.atPacket
    rw [processLoop, if_pos hpos]
    simp only [he]
    rw [ih, parsed_fit hp hfit]
    congr 1
    omega

theorem processAsfState_eq {S : List UInt8} {R : Nat} {buf : List UInt8} {bufSize : Int} {ds}
    (hp : ds.AtPacket) (hb : bufSize = (R : Int) - ds.doneOffset)
    (hbuf : buf.take bufSize.toNat = load S ds.doneOffset bufSize.toNat) :
    processAsfState buf bufSize ds = ((parsed S R ds).doneOffset - ds.doneOffset, parsed S R ds) := by
  rw [processAsfState, processLoop_eq _ _ _ _ _ hp hb (le_refl _) hbuf, Nat.zero_add]

/-- The first step parses the header object whatever the buffer holds of it. -/
theorem processState_header (buf : List UInt8) {n : Int} (hn : 0 ≤ n) :
    processState buf n .zero = some (hohSizeOf buf + dataObjectHeaderSize, afterHeader buf) := by
  rw [processState, if_neg (by simp [SmbcAsfDs.zero]; omega)]
  rfl

theorem afterHeader_doneOffset (v : List UInt8) :
    (afterHeader v).doneOffset = hohSizeOf v + dataObjectHeaderSize := by
  simp [afterHeader, changeState, SmbcAsfDs.zero]

/-- What the buffer holds behind the header object is the stream behind it. -/
theorem window_afterHeader {S : List UInt8} {R : Nat} {buf : List UInt8} (hbuf : buf.take R = load S 0 R) :
    (buf.drop (hohSizeOf buf + dataObjectHeaderSize)).take
        ((R : Int) - ((hohSizeOf buf + dataObjectHeaderSize : Nat) : Int)).toNat =
      load S (afterHeader buf).doneOffset
        ((R : Int) - ((hohSizeOf buf + dataObjectHeaderSize : Nat) : Int)).toNat := by
  have := congrArg (List.drop (hohSizeOf buf + dataObjectHeaderSize)) hbuf
  simp only [load, List.drop_take, List.drop_drop] at this
  rw [load, afterHeader_doneOffset,
    show ((R : Int) - ((hohSizeOf buf + dataObjectHeaderSize : Nat) : Int)).toNat =
    R - (hohSizeOf buf + dataObjectHeaderSize) by omega]
  simpa using this

/-- The first call parses the header object, and then goes on as the walk does. -/
theorem processAsfState_first {S : List UInt8} {R : Nat} {buf : List UInt8} (hR : 0 < R)
    (hbuf : buf.take R = load S 0 R) :
    processAsfState buf R SmbcAsfDs.zero =
      ((parsed S R (afterHeader buf)).doneOffset, parsed S R (afterHeader buf)) := by
  have hp := afterHeader_atPacket buf
  have hoff := afterHeader_doneOffset buf
  have hle := parsed_le (S := S) (R := R) hp
  have hpos : 0 < hohSizeOf buf + dataObjectHeaderSize := by simp [dataObjectHeaderSize, asfDataSize]
  obtain ⟨k, hk⟩ : ∃ k, R = k + 1 := ⟨R - 1, by omega⟩
  rw [processAsfState, Int.toNat_natCast, hk, processLoop, ← hk, if_pos (by omega),
    processState_header _ (by omega)]
  simp only
  rw [processLoop_eq (S := S) (R := R) _ _ _ _ _ hp (by omega) (by omega) (window_afterHeader hbuf)]
  congr 1
  omega

end CameraFw.Recorder
