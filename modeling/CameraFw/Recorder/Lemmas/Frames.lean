import CameraFw.Recorder.Frames
import CameraFw.Recorder.Lemmas.Packets

/-!
# The walk over frames cut in any way

Within a frame the parser expects a continuation packet as long as bytes of the frame are missing. So it
is right about the packets of a frame exactly if the last of several is not empty.
-/

namespace CameraFw.Recorder

open CameraFw.Base

variable {S t : List UInt8} {ds : SmbcAsfDs} {p : Nat}

/-! ## Lists of marks -/

/-- The state and the offset at the start of the next `k` packets. -/
def views (S : List UInt8) (k : Nat) (ds : SmbcAsfDs) : List (SmbcState × Nat) :=
  (List.iterate (packetStep S) ds k).map fun ds => (ds.state, ds.doneOffset)

theorem views_succ (S : List UInt8) (k : Nat) (ds : SmbcAsfDs) :
    views S (k + 1) ds = (ds.state, ds.doneOffset) :: views S k (packetStep S ds) := rfl

theorem views_add (S : List UInt8) (a b : Nat) (ds : SmbcAsfDs) :
    views S (a + b) ds = views S a ds ++ views S b ((packetStep S)^[a] ds) := by
  rw [views, List.iterate_add, List.map_append]
  rfl

theorem length_views (S : List UInt8) (k : Nat) (ds : SmbcAsfDs) : (views S k ds).length = k := by
  rw [views, List.length_map, List.length_iterate]

theorem bytesOf_cons (x : SmbcState × List UInt8) (ps : List (SmbcState × List UInt8)) :
    bytesOf (x :: ps) = x.2 ++ bytesOf ps := by
  simp [bytesOf]

theorem bytesOf_append (ps qs : List (SmbcState × List UInt8)) :
    bytesOf (ps ++ qs) = bytesOf ps ++ bytesOf qs := by
  simp [bytesOf]

theorem marks_append (p : Nat) (ps qs : List (SmbcState × List UInt8)) :
    marks p (ps ++ qs) = marks p ps ++ marks (p + (bytesOf ps).length) qs := by
  induction ps generalizing p with
  | nil => simp [marks, bytesOf]
  | cons x ps ih =>
      rw [List.cons_append, marks, ih, marks, bytesOf_cons, List.length_append, Nat.add_assoc]; rfl

theorem map_fst_marks (p : Nat) (ps : List (SmbcState × List UInt8)) :
    (marks p ps).map Prod.fst = ps.map Prod.fst := by
  induction ps generalizing p with
  | nil => rfl
  | cons x ps ih => rw [marks, List.map_cons, List.map_cons, ih]

/-! ## One frame -/

/-- The parser in front of the packets `qs`, the rest of a frame: while bytes are missing it expects a
continuation packet, and then a frame. -/
def Expects (ds : SmbcAsfDs) (p : Nat) (qs : List Packet) : Prop :=
  (0 < payloadSum qs ∧ InFrame ds p (payloadSum qs)) ∨ (payloadSum qs = 0 ∧ AtFrame ds p)

theorem payloadSum_cons (q : Packet) (qs : List Packet) :
    payloadSum (q :: qs) = q.payload.length + payloadSum qs := by
  simp [payloadSum]

theorem ne_nil_of_payloadSum {qs : List Packet} (h : 0 < payloadSum qs) : qs ≠ [] := by
  rintro rfl
  simp [payloadSum] at h

theorem mem_dropLast_cons {x q : Packet} {qs : List Packet} (h : x ∈ qs.dropLast) :
    x ∈ (q :: qs).dropLast := by
  rw [List.dropLast_cons_of_ne_nil (by rintro rfl; simp at h)]
  exact List.mem_cons_of_mem _ h

/-- What the step over a packet leaves, with `n` bytes missing before it and the packets `qs` to come. -/
theorem expects_of_step {m n : Nat} {qs : List Packet} (hsum : n = m + payloadSum qs)
    (hlast : m = n → AtFrame ds p) (hnext : m < n → InFrame ds p (n - m)) : Expects ds p qs := by
  rcases Nat.eq_zero_or_pos (payloadSum qs) with h0 | hpos
  · exact Or.inr ⟨h0, hlast (by omega)⟩
  · have hin := hnext (by omega)
    rw [hsum, Nat.add_sub_cancel_left] at hin
    exact Or.inl ⟨hpos, hin⟩

theorem expects_first {q : Packet} {qs : List Packet} {b : Nat} (hds : AtFrame ds p)
    (hS : S.drop p = q.firstBytes (payloadSum (q :: qs)) b ++ t) (hlt : payloadSum (q :: qs) < 4294967296)
    (hpad : qs ≠ [] → q.padding = []) :
    Expects (packetStep S ds) (p + (q.firstBytes (payloadSum (q :: qs)) b).length) qs := by
  have hsum := payloadSum_cons q qs
  obtain ⟨hlast, hnext⟩ := packetStep_first hds hS hlt (by omega) fun h =>
    hpad (ne_nil_of_payloadSum (by omega))
  exact expects_of_step hsum hlast hnext

theorem expects_other {q : Packet} {qs : List Packet} (hds : InFrame ds p (payloadSum (q :: qs)))
    (hS : S.drop p = q.otherBytes ++ t) (hlt : payloadSum (q :: qs) < 4294967296)
    (hpad : qs ≠ [] → q.padding = []) :
    Expects (packetStep S ds) (p + q.otherBytes.length) qs := by
  have hsum := payloadSum_cons q qs
  obtain ⟨hlast, hnext⟩ := packetStep_other hds hS hlt (by omega) fun h =>
    hpad (ne_nil_of_payloadSum (by omega))
  exact expects_of_step hsum hlast hnext

def LastFull (qs : List Packet) : Prop := ∀ q, qs.getLast? = some q → 0 < q.payload.length

theorem lastFull_cons {q : Packet} {qs : List Packet} (hpos : 0 < payloadSum (q :: qs)) :
    LastFull (q :: qs) ↔ LastFull qs := by
  cases qs with
  | nil =>
      refine iff_of_true ?_ nofun
      intro x hx
      cases hx
      simpa [payloadSum] using hpos
  | cons q' qs => simp only [LastFull, List.getLast?_cons_cons]

theorem not_lastFull_of_payloadSum {qs : List Packet} (hne : qs ≠ []) (h : payloadSum qs = 0) :
    ¬ LastFull qs := by
  intro hf
  have hx := List.getLast?_eq_some_getLast hne
  have hle : (qs.getLast hne).payload.length ≤ payloadSum qs :=
    List.single_le_sum (by simp) _ (List.mem_map_of_mem (List.getLast_mem hne))
  have := hf _ hx
  omega

def otherPackets (qs : List Packet) : List (SmbcState × List UInt8) := qs.map fun q => (.OPH, q.otherBytes)

/-- The continuation packets: either the last of them is not empty and the parser is right about all, or
it takes one of them for the start of a frame. -/
theorem rest_cases {qs : List Packet} (hds : Expects ds p qs) (hlt : payloadSum qs < 4294967296)
    (hpad : ∀ q ∈ qs.dropLast, q.padding = []) (hS : S.drop p = bytesOf (otherPackets qs) ++ t) :
    (LastFull qs ∧ views S qs.length ds = marks p (otherPackets qs) ∧
      AtFrame ((packetStep S)^[qs.length] ds) (p + (bytesOf (otherPackets qs)).length)) ∨
    (¬ LastFull qs ∧ (views S qs.length ds).map Prod.fst ≠ (otherPackets qs).map Prod.fst) := by
  induction qs generalizing ds p with
  | nil =>
      rcases hds with ⟨h, -⟩ | ⟨-, h⟩
      · simp [payloadSum] at h
      · exact Or.inl ⟨nofun, rfl, h⟩
  | cons q qs ih =>
      rcases hds with ⟨hpos, hin⟩ | ⟨h0, hat⟩
      · rw [otherPackets, List.map_cons, bytesOf_cons, List.append_assoc] at hS
        have hsum := payloadSum_cons q qs
        have hnext := expects_other hin hS hlt fun hne =>
          hpad q (by rw [List.dropLast_cons_of_ne_nil hne]; exact List.mem_cons_self)
        have hrest := ih hnext (by omega) (fun x hx => hpad x (mem_dropLast_cons hx)) (drop_append_len hS)
        obtain ⟨hst, -, hoff, -⟩ := hin
        rw [lastFull_cons hpos, List.length_cons, views_succ, Function.iterate_succ_apply, hst, hoff]
        refine hrest.imp ?_ ?_
        · rintro ⟨h1, h2, h3⟩
          refine ⟨h1, ?_, ?_⟩
          · rw [h2]
            rfl
          · rw [otherPackets, List.map_cons, bytesOf_cons, List.length_append, ← Nat.add_assoc]
            exact h3
        · rintro ⟨h1, h2⟩
          exact ⟨h1, fun hc => h2 (List.cons.inj hc).2⟩
      · refine Or.inr ⟨not_lastFull_of_payloadSum (List.cons_ne_nil _ _) h0, fun hc => ?_⟩
        simp only [List.length_cons, views_succ, otherPackets, List.map_cons, hat.1, List.cons.injEq,
          reduceCtorEq, false_and] at hc

theorem CutFrame.packets_eq (f : CutFrame) :
    f.packets = (.FPH, f.first.firstBytes
      (payloadSum (f.first :: f.rest)) f.presentTime) :: otherPackets f.rest := by
  rw [payloadSum_cons]
  rfl

theorem frame_cases (f : CutFrame) (hds : AtFrame ds p) (hS : S.drop p = bytesOf f.packets ++ t) :
    (f.EndsFull ∧ views S f.packets.length ds = marks p f.packets ∧
      AtFrame ((packetStep S)^[f.packets.length] ds) (p + (bytesOf f.packets).length)) ∨
    (¬ f.EndsFull ∧ (views S f.packets.length ds).map Prod.fst ≠ f.packets.map Prod.fst) := by
  have hlt : payloadSum (f.first :: f.rest) < 4294967296 := by
    rw [payloadSum_cons]
    exact f.size_lt
  have hsum := payloadSum_cons f.first f.rest
  rw [f.packets_eq, bytesOf_cons, List.append_assoc] at hS
  have hnext := expects_first hds hS hlt fun hne =>
    f.padded f.first (by rw [List.dropLast_cons_of_ne_nil hne]; exact List.mem_cons_self)
  have hrest := rest_cases hnext (by omega) (fun x hx => f.padded x (mem_dropLast_cons hx))
    (drop_append_len hS)
  have hlen : (otherPackets f.rest).length = f.rest.length := List.length_map _
  rw [f.packets_eq, List.length_cons, hlen, views_succ, Function.iterate_succ_apply, hds.1, hds.2.2]
  refine hrest.imp ?_ ?_
  · rintro ⟨h1, h2, h3⟩
    refine ⟨h1, ?_, ?_⟩
    · rw [h2]
      rfl
    · rw [bytesOf_cons, List.length_append, ← Nat.add_assoc]
      exact h3
  · rintro ⟨h1, h2⟩
    exact ⟨h1, fun hc => h2 (List.cons.inj hc).2⟩

/-! ## The frames -/

theorem frames_reached {frames : List CutFrame} (hfull : ∀ f ∈ frames, f.EndsFull) (hds : AtFrame ds p)
    (hS : S.drop p = bytesOf (frames.flatMap CutFrame.packets) ++ t) :
    views S (frames.flatMap CutFrame.packets).length ds = marks p (frames.flatMap CutFrame.packets) ∧
      AtFrame ((packetStep S)^[(frames.flatMap CutFrame.packets).length] ds)
        (p + (bytesOf (frames.flatMap CutFrame.packets)).length) := by
  induction frames generalizing ds p with
  | nil => exact ⟨rfl, hds⟩
  | cons f frames ih =>
      rw [List.flatMap_cons, bytesOf_append, List.append_assoc] at hS
      rcases frame_cases f hds hS with ⟨-, hviews, hat⟩ | ⟨hbad, -⟩
      · obtain ⟨hviews', hat'⟩ := ih (fun g hg => hfull g (by simp [hg])) hat (drop_append_len hS)
        rw [List.flatMap_cons, List.length_append, views_add, marks_append, hviews, hviews', bytesOf_append,
          List.length_append, ← Nat.add_assoc, Nat.add_comm f.packets.length, Function.iterate_add_apply]
        exact ⟨rfl, hat'⟩
      · exact absurd (hfull f (by simp)) hbad

/-- If the parser is in the right state at every packet, then the frames end as it expects. -/
theorem endsFull_of_states {frames : List CutFrame} (hds : AtFrame ds p)
    (hS : S.drop p = bytesOf (frames.flatMap CutFrame.packets) ++ t)
    (hstates : (views S (frames.flatMap CutFrame.packets).length ds).map Prod.fst =
      (frames.flatMap CutFrame.packets).map Prod.fst) : ∀ f ∈ frames, f.EndsFull := by
  induction frames generalizing ds p with
  | nil => exact nofun
  | cons f frames ih =>
      rw [List.flatMap_cons, bytesOf_append, List.append_assoc] at hS
      rw [List.flatMap_cons, List.length_append, views_add, List.map_append, List.map_append] at hstates
      obtain ⟨hf, hrest⟩ := List.append_inj hstates (by rw [List.length_map, List.length_map, length_views])
      rcases frame_cases f hds hS with ⟨hfull, -, hat⟩ | ⟨-, hbad⟩
      · intro g hg
        rcases List.mem_cons.mp hg with rfl | hg
        · exact hfull
        · exact ih hat (drop_append_len hS) hrest g hg
      · exact absurd hf hbad

/-! ## Frames without empty packets -/

def Frame.cut (f : Frame) : CutFrame where
  first := f.first
  rest := f.rest
  presentTime := f.presentTime
  size_lt := f.size_lt
  padded := f.padded

theorem Frame.cut_endsFull (f : Frame) : f.cut.EndsFull := fun q hq => f.rest_pos q (List.mem_of_getLast? hq)

theorem packets_cut (frames : List Frame) :
    ((frames.map Frame.cut).flatMap CutFrame.packets).map Prod.snd = frames.flatMap Frame.packets := by
  induction frames with
  | nil => rfl
  | cons f frames ih =>
      have hf : f.cut.packets.map Prod.snd = f.packets := by
        simp only [CutFrame.packets, Frame.packets, List.map_cons, List.map_map]
        rfl
      rw [List.map_cons, List.flatMap_cons, List.map_append, ih, hf, List.flatMap_cons]

/-- A walk that sees the marks of the packets steps over them. -/
theorem walks_of_views {ps : List (SmbcState × List UInt8)} (hviews : views S ps.length ds = marks p ps)
    (hoff : ds.doneOffset = p) (hend : ((packetStep S)^[ps.length] ds).doneOffset = p + (bytesOf ps).length) :
    Walks S ds (ps.map Prod.snd) ((packetStep S)^[ps.length] ds) := by
  induction ps generalizing ds p with
  | nil => exact .nil
  | cons x ps ih =>
      rw [bytesOf_cons, List.length_append, ← Nat.add_assoc] at hend
      have hrest : views S ps.length (packetStep S ds) = marks (p + x.2.length) ps := (List.cons.inj hviews).2
      have hnext : (packetStep S ds).doneOffset = p + x.2.length := by
        cases ps with
        | nil => simpa [bytesOf] using hend
        | cons y ps => exact (Prod.mk.inj (List.cons.inj hrest).1).2
      exact .cons (by rw [hnext, hoff]) (ih hrest hnext hend)

theorem afterHeader_atFrame {header v : List UInt8} (hh : HeaderObjects header)
    (hv : hohSizeOf v = hohSizeOf header) :
    AtFrame (afterHeader v) header.length :=
  ⟨rfl, rfl, by rw [afterHeader_doneOffset, hv, hh]⟩

/-- On a well-formed stream, and with the right size of the header object, the walk visits the packets. -/
theorem packetStart_asfStream {header : List UInt8} {frames : List Frame} {v : List UInt8}
    (hh : HeaderObjects header) (hv : hohSizeOf v = hohSizeOf header) :
    ∀ j, j ≤ (frames.flatMap Frame.packets).length →
      packetStart (asfStream header frames) (afterHeader v) j = streamBoundary header frames j := by
  have hat := afterHeader_atFrame hh hv
  have hS : (asfStream header frames).drop header.length =
      bytesOf ((frames.map Frame.cut).flatMap CutFrame.packets) ++ [] := by
    rw [asfStream, List.drop_left, List.append_nil, bytesOf, packets_cut]
  have hfull : ∀ f ∈ frames.map Frame.cut, f.EndsFull := by
    intro f hf
    obtain ⟨g, -, rfl⟩ := List.mem_map.mp hf
    exact g.cut_endsFull
  obtain ⟨hviews, -, -, hend⟩ := frames_reached hfull hat hS
  have hwalks := walks_of_views hviews hat.2.2 hend
  rw [packets_cut] at hwalks
  intro j hj
  rw [hwalks.packetStart j hj, hat.2.2, streamBoundary]

/-! ## Presentation times -/

theorem packetStep_times (S : List UInt8) (hst : ds.state = .FPH) :
    (packetStep S ds).presentTime = BitVec.ofNat 32 (fppPresentTime (S.drop ds.doneOffset)) ∧
      (packetStep S ds).prevPresentTime = ds.presentTime := by
  have hlt : ¬ ((ds.stateSize : Int) < ds.stateSize) := by omega
  simp only [packetStep, processState, hlt, ↓reduceIte, hst]
  split_ifs <;> exact ⟨rfl, rfl⟩

theorem packetStep_times_first {q : Packet} {a b : Nat} (hds : AtFrame ds p)
    (hS : S.drop p = q.firstBytes a b ++ t) :
    (packetStep S ds).presentTime = BitVec.ofNat 32 b ∧
      (packetStep S ds).prevPresentTime = ds.presentTime := by
  obtain ⟨hst, -, hoff⟩ := hds
  have ht : BitVec.ofNat 32 (b % 2 ^ 32) = BitVec.ofNat 32 b := by
    refine BitVec.eq_of_toNat_eq ?_
    simp
  have htimes := packetStep_times S hst
  rwa [hoff, hS, presentTime_firstBytes, ht] at htimes

theorem packetStep_times_other (S : List UInt8) (hst : ds.state = .OPH) :
    (packetStep S ds).presentTime = ds.presentTime ∧
      (packetStep S ds).prevPresentTime = ds.prevPresentTime := by
  have hlt : ¬ ((ds.stateSize : Int) < ds.stateSize) := by omega
  simp only [packetStep, processState, hlt, ↓reduceIte, hst]
  split_ifs <;> exact ⟨rfl, rfl⟩

/-- The two times that the parser keeps, after it has come to these. -/
def keepTimes (times : List Nat) (prev present : BitVec 32) : BitVec 32 × BitVec 32 :=
  times.foldl (fun p t => (p.2, BitVec.ofNat 32 t)) (prev, present)

theorem iterate_times (S : List UInt8) {ds : SmbcAsfDs} (hp : ds.AtPacket) (k : Nat) :
    (((packetStep S)^[k] ds).prevPresentTime, ((packetStep S)^[k] ds).presentTime) =
      keepTimes (timesRead S k ds) ds.prevPresentTime ds.presentTime := by
  induction k generalizing ds with
  | zero => rfl
  | succ k ih =>
      rw [Function.iterate_succ_apply, ih (packetStep_atPacket S hp), timesRead, keepTimes, keepTimes,
        List.foldl_append]
      rcases hp with ⟨hst, -⟩ | ⟨hst, -⟩
      · obtain ⟨h1, h2⟩ := packetStep_times S hst
        rw [if_pos hst, h1, h2]
        rfl
      · obtain ⟨h1, h2⟩ := packetStep_times_other S hst
        rw [if_neg (by rw [hst]; decide), h1, h2]
        rfl

theorem keepTimes_fst (times : List Nat) :
    (keepTimes times 0 0).1 = BitVec.ofNat 32 (times.reverse.getD 1 0) := by
  rcases List.eq_nil_or_concat times with rfl | ⟨ts, t, rfl⟩
  · rfl
  · rcases List.eq_nil_or_concat ts with rfl | ⟨us, u, rfl⟩
    · rfl
    · simp [keepTimes]

/-- The previous time of the parser is the last but one that the walk has read. -/
theorem prevPresentTime_parsed (S v : List UInt8) (R : Nat) :
    (parsed S R (afterHeader v)).prevPresentTime = BitVec.ofNat 32 (timeRead S R (afterHeader v)) := by
  have htimes := iterate_times S (afterHeader_atPacket v) (headerCount S R (afterHeader v))
  exact (congrArg Prod.fst htimes).trans (keepTimes_fst _)

theorem state_of_views {ps : List (SmbcState × List UInt8)} (h : views S ps.length ds = marks p ps) {j : Nat}
    {x : SmbcState × List UInt8} (hj : ps[j]? = some x) : ((packetStep S)^[j] ds).state = x.1 := by
  have hlt : j < ps.length := (List.getElem?_eq_some_iff.mp hj).1
  have hstates := congrArg (fun l => (l.map Prod.fst)[j]?) h
  simp only [map_fst_marks, List.getElem?_map, hj, views, List.getElem?_iterate _ _ _ _ hlt,
    Option.map_some] at hstates
  exact Option.some.inj hstates

/-- From its first packet on the parser has the time of the frame, and that of the frame before as the
previous one. -/
theorem frame_times {f : CutFrame} (hfull : f.EndsFull) (hds : AtFrame ds p)
    (hS : S.drop p = bytesOf f.packets ++ t) {r : Nat} (hr : r < f.packets.length) :
    ((packetStep S)^[r + 1] ds).presentTime = BitVec.ofNat 32 f.presentTime ∧
      ((packetStep S)^[r + 1] ds).prevPresentTime = ds.presentTime := by
  induction r with
  | zero =>
      rw [f.packets_eq, bytesOf_cons, List.append_assoc] at hS
      exact packetStep_times_first hds hS
  | succ r ih =>
      obtain ⟨h1, h2⟩ := ih (by omega)
      rcases frame_cases f hds hS with ⟨-, hviews, -⟩ | ⟨hbad, -⟩
      · rw [f.packets_eq, List.length_cons] at hr
        have hx : f.packets[r + 1]? = (otherPackets f.rest)[r]? := by
          rw [f.packets_eq, List.getElem?_cons_succ]
        obtain ⟨q, hq⟩ : ∃ q, (otherPackets f.rest)[r]? = some (.OPH, q) := by
          rw [otherPackets, List.length_map] at hr
          exact ⟨_, by rw [otherPackets, List.getElem?_map, List.getElem?_eq_getElem (by omega)]; rfl⟩
        have hst := state_of_views hviews (hx.trans hq)
        obtain ⟨h3, h4⟩ := packetStep_times_other S hst
        rw [Function.iterate_succ_apply', h3, h4]
        exact ⟨h1, h2⟩
      · exact absurd hfull hbad

/-- Behind a frame the parser has its time. -/
theorem presentTime_reached {pre : List CutFrame} {f : CutFrame} (hfull : ∀ g ∈ pre ++ [f], g.EndsFull)
    (hds : AtFrame ds p) (hS : S.drop p = bytesOf ((pre ++ [f]).flatMap CutFrame.packets) ++ t) :
    ((packetStep S)^[((pre ++ [f]).flatMap CutFrame.packets).length] ds).presentTime =
      BitVec.ofNat 32 f.presentTime := by
  simp only [List.flatMap_append, List.flatMap_cons, List.flatMap_nil, List.append_nil, bytesOf_append,
    List.append_assoc] at hS
  obtain ⟨-, hat⟩ := frames_reached (fun g hg => hfull g (by simp [hg])) hds hS
  have hpos : f.packets.length = f.packets.length - 1 + 1 := by
    rw [f.packets_eq, List.length_cons]
    omega
  simp only [List.flatMap_append, List.flatMap_cons, List.flatMap_nil, List.append_nil, List.length_append]
  rw [Nat.add_comm, Function.iterate_add_apply, hpos]
  exact (frame_times (hfull f (by simp)) hat (drop_append_len hS) (by omega)).1

/-! ## Frames without the empty packets at their end -/

theorem CutFrame.trimmed_endsFull (f : CutFrame) : f.trimmed.EndsFull := by
  intro q hq
  have hne : f.trimmed.rest ≠ [] := fun h0 => by simp [h0] at hq
  rw [List.getLast?_eq_some_getLast hne, Option.some.injEq] at hq
  subst hq
  have hlast := List.rdropWhile_last_not (fun q : Packet => q.payload.isEmpty) f.rest hne
  exact List.length_pos_iff.mpr fun h0 => hlast (List.isEmpty_iff.mpr h0)

theorem CutFrame.bytesOf_trimmed (f : CutFrame) : bytesOf f.trimmed.packets <+: bytesOf f.packets := by
  obtain ⟨t, ht⟩ := List.rdropWhile_prefix (fun q : Packet => q.payload.isEmpty) f.rest
  have hsize : f.trimmed.size = f.size := congrArg (f.first.payload.length + ·) (sum_trimPackets f.rest)
  refine ⟨bytesOf (otherPackets t), ?_⟩
  rw [← bytesOf_append]
  refine congrArg bytesOf ?_
  rw [CutFrame.packets, CutFrame.packets, hsize, ← ht, List.map_append]
  rfl

/-! ## The trace of the parser -/

theorem processTrace_eq {R : Nat} (fuel : Nat) (buf : List UInt8) (bufSize : Int) (ds : SmbcAsfDs)
    (hp : ds.AtPacket) (hb : bufSize = (R : Int) - ds.doneOffset) (hf : bufSize.toNat ≤ fuel)
    (hbuf : buf.take bufSize.toNat = load S ds.doneOffset bufSize.toNat) :
    processTrace fuel buf bufSize ds = List.iterate (packetStep S) (packetStep S ds)
      (headerCount S R ds) := by
  refine window_induction (R := R) (motive := fun fuel buf bufSize ds => processTrace fuel buf bufSize ds =
    List.iterate (packetStep S) (packetStep S ds)
      (headerCount S R ds)) ?_ ?_ fuel buf bufSize ds hp hb hf hbuf
  · intro fuel buf bufSize ds hsize hshort
    rw [headerCount_short hshort]
    cases fuel with
    | zero => rfl
    | succ fuel =>
        rw [processTrace]
        split
        · rw [processState_short hsize]
          rfl
        · rfl
  · intro fuel buf bufSize ds d hp hpos hfit he _ ih
    rw [processTrace, if_pos hpos]
    simp only [he]
    rw [ih, headerCount_fit hp hfit]
    rfl

theorem asfTrace_eq (hS : 0 < S.length) :
    asfTrace S S.length .zero =
      List.iterate (packetStep S) (afterHeader S) (headerCount S S.length (afterHeader S) + 1) := by
  have hp := afterHeader_atPacket S
  have hoff := afterHeader_doneOffset S
  have hpos : 0 < hohSizeOf S + dataObjectHeaderSize := by simp [dataObjectHeaderSize, asfDataSize]
  obtain ⟨k, hk⟩ : ∃ k, S.length = k + 1 := ⟨S.length - 1, by omega⟩
  have hbuf : S.take S.length = load S 0 S.length := by simp [load]
  rw [asfTrace, Int.toNat_natCast, hk, processTrace, ← hk, if_pos (by omega),
    processState_header _ (by omega)]
  simp only
  rw [processTrace_eq (S := S) (R := S.length) _ _ _ _ hp (by omega) (by omega) (window_afterHeader hbuf)]
  rfl

/-- The trace ends where `process_asf_state` leaves the parser. -/
theorem processLoop_trace (fuel : Nat) (buf : List UInt8) (bufSize : Int) (total : Nat) (ds : SmbcAsfDs) :
    (processLoop fuel buf bufSize total ds).2 = (processTrace fuel buf bufSize ds).getLast?.getD ds := by
  induction fuel generalizing buf bufSize total ds with
  | zero => rfl
  | succ fuel ih =>
      rw [processLoop, processTrace]
      split
      · cases processState buf bufSize ds with
        | none => rfl
        | some r =>
            simp only [ih, List.getLast?_cons]
            rfl
      · rfl

/-! ## How far the walk gets -/

theorem stateSize_le_packet {f : CutFrame} {x : SmbcState × List UInt8} (hx : x ∈ f.packets)
    (hp : ds.AtPacket) (hst : ds.state = x.1) : ds.stateSize ≤ x.2.length := by
  rw [f.packets_eq] at hx
  rcases List.mem_cons.mp hx with rfl | hx
  · rcases hp with ⟨-, hs⟩ | ⟨ho, -⟩
    · rw [hs, Packet.firstBytes_len]
      omega
    · rw [hst] at ho
      cases ho
  · obtain ⟨q, -, rfl⟩ := List.mem_map.mp hx
    rcases hp with ⟨ho, -⟩ | ⟨-, hs⟩
    · rw [hst] at ho
      cases ho
    · rw [hs, Packet.otherBytes_len]
      omega

/-- The packets that the walk is right about and that are there are counted. -/
theorem headerCount_marks {R : Nat} {ps : List (SmbcState × List UInt8)} (hp : ds.AtPacket)
    (hps : ∀ x ∈ ps, ∃ f : CutFrame, x ∈ f.packets) (hviews : views S ps.length ds = marks p ps)
    (hR : p + (bytesOf ps).length ≤ R) :
    headerCount S R ds = ps.length + headerCount S R ((packetStep S)^[ps.length] ds) := by
  induction ps generalizing ds p with
  | nil => rw [List.length_nil, Nat.zero_add]; rfl
  | cons x ps ih =>
      rw [List.length_cons, views_succ, marks] at hviews
      obtain ⟨hmark, hviews⟩ := List.cons.inj hviews
      obtain ⟨hst, hoff⟩ := Prod.mk.inj hmark
      rw [bytesOf_cons, List.length_append] at hR
      obtain ⟨f, hf⟩ := hps x (by simp)
      have hsize := stateSize_le_packet hf hp hst
      rw [headerCount_fit hp (by omega), List.length_cons, Function.iterate_succ_apply,
        ih (packetStep_atPacket S hp) (fun y hy => hps y (by simp [hy])) hviews (by omega)]
      omega

end CameraFw.Recorder
