import CameraFw.Proxy.Lemmas.Buffer

/-!
# Putting the line in

The bytes that leave the buffer, with the three writes of the round in which the line is put in.
-/

namespace CameraFw.Proxy

open CameraFw.Base

variable {c : Conn} {r : Round} {s t : Cli} {u : Up} {k n : Nat}

/-! ## Where the line goes -/

theorem Held.length_mem (h : Held u k n) {p : Nat} : (mem c p u).length + c.base ≤ 2 ^ 32 := by
  have hroom := c.room
  have hsize := h.size
  simp only [mem, List.length_append, List.length_replicate, length_toLE]
  omega

theorem Held.le_mem (h : Held u k n) {p : Nat} : n ≤ (mem c p u).length := by
  have hle := h.le
  simp only [mem, List.length_append]
  omega

theorem firstHdrEnd_bound {m : List UInt8} {i} (h : firstHdrEnd m = some i) : i + 2 ≤ m.length := by
  have hb := strstr_bound h
  have hc : (cstr m).length ≤ m.length := (List.takeWhile_prefix _).length_le
  simp only [crlf, List.length_cons, List.length_nil] at hb
  omega

/-- With two bytes in the buffer, the test for the line finds the end of a line inside the buffer. -/
theorem inserts_iff (h : Held u k n) {p : Nat} (hn : 2 ≤ n) :
    inserts c (mem c p u) u = true ↔
      u.isHttp = some true ∧ u.hdrSent = false ∧ ∃ i, firstHdrEnd (mem c p u) = some i ∧ i + 2 ≤ n := by
  have hptr : (u.sslPtr - 2) % 2 ^ 32 = n - 2 := by
    have hle := h.le
    have hsize := h.size
    have : BUFFSIZE = 16384 := rfl
    rw [h.ptr]
    omega
  have hoff : hdrOff c (mem c p u) % 2 ^ 32 ≤ n - 2 ↔ ∃ i, firstHdrEnd (mem c p u) = some i ∧ i + 2 ≤ n := by
    unfold hdrOff
    cases hi : firstHdrEnd (mem c p u) with
    | none =>
        have hle := h.le
        have hsize := h.size
        have hpos := c.pos
        have huser := c.user
        have : BUFFSIZE = 16384 := rfl
        simp only [reduceCtorEq, false_and, exists_false, iff_false]
        omega
    | some i =>
        have hb := firstHdrEnd_bound hi
        have hlen := @Held.length_mem c u k n h p
        have hpos := c.pos
        simp only [Option.some.injEq, exists_eq_left']
        omega
  simp only [inserts, Bool.and_eq_true, beq_iff_eq, Bool.not_eq_true', decide_eq_true_eq, hptr, hoff,
    and_assoc]

/-! ## What has gone out -/

/-- The first `k` bytes of the client have gone out, in one piece or with the line somewhere between them. -/
def Passed (c : Conn) (u : Up) (k : Nat) : Prop :=
  u.sent = u.received.take k ∨
    u.hdrSent = true ∧ ∃ i ≤ k, u.sent = u.received.take i ++ header c ++ (u.received.take k).drop i

def Sound (c : Conn) (u : Up) : Prop := ∃ k n, Held u k n ∧ Passed c u k

theorem drop_take_add {l : List UInt8} {i k j : Nat} (hi : i ≤ k) (hk : k ≤ l.length) :
    (l.take (k + j)).drop i = (l.take k).drop i ++ (l.drop k).take j := by
  rw [List.take_add, List.drop_append_of_le_length (by simp; omega)]

theorem Sound.append (h : Sound c u) {bytes : List UInt8} (hfit : u.sslPtr + bytes.length ≤ BUFFSIZE) :
    Sound c (u.append bytes) := by
  obtain ⟨k, n, hheld, hpassed⟩ := h
  have htotal := hheld.total
  have htake : ∀ j ≤ k, (u.append bytes).received.take j = u.received.take j := fun j hj =>
    List.take_append_of_le_length (by omega)
  refine ⟨k, n + bytes.length, hheld.append (by rw [hheld.ptr] at hfit; omega), ?_⟩
  rcases hpassed with hsent | ⟨hhdr, i, hi, hsent⟩
  · exact Or.inl (by rw [htake k (Nat.le_refl k)]; exact hsent)
  · exact Or.inr ⟨hhdr, i, hi, by rw [htake k (Nat.le_refl k), htake i hi]; exact hsent⟩

/-- More bytes from the buffer go out behind the others. -/
theorem Passed.more (h : Passed c u k) (hk : k ≤ u.received.length) (j : Nat) :
    Passed c { u with sent := u.sent ++ (u.received.drop k).take j } (k + j) := by
  rcases h with hsent | ⟨hhdr, i, hi, hsent⟩
  · exact Or.inl (by rw [hsent, List.take_add])
  · refine Or.inr ⟨hhdr, i, by omega, ?_⟩
    rw [drop_take_add hi hk, ← List.append_assoc, ← hsent]

/-- The line goes out after `j₁` more bytes, and `j₂` bytes after it. -/
theorem Passed.insert (hsent : u.sent = u.received.take k) (hk : k + j₁ ≤ u.received.length) (j₂ : Nat) :
    Passed c
      { u with
        sent := u.sent ++ (u.received.drop k).take j₁ ++ header c ++ (u.received.drop (k + j₁)).take j₂
        hdrSent := true } (k + (j₁ + j₂)) := by
  have hcut : (u.received.take (k + j₁)).drop (k + j₁) = [] :=
    List.drop_eq_nil_of_le (List.length_take_le _ _)
  refine Or.inr ⟨rfl, k + j₁, by omega, ?_⟩
  dsimp only
  rw [← Nat.add_assoc, drop_take_add (Nat.le_refl _) hk, hcut, List.nil_append, hsent, List.take_add]

/-! ## A round without the line -/

theorem scanned_eq (c : Conn) (s : Cli) :
    ∃ cnt http, scanned c s = { s with up := { s.up with spaceCnt := cnt, isHttp := http } } := by
  unfold scanned detect
  split
  · split
    · exact ⟨_, _, rfl⟩
    · exact ⟨_, _, rfl⟩
  · exact ⟨s.up.spaceCnt, s.up.isHttp, rfl⟩

theorem mem_scanned : mem c (scanned c s).sockPtr (scanned c s).up = mem c s.sockPtr s.up := by
  obtain ⟨cnt, http, h⟩ := scanned_eq c s
  rw [h]; rfl

theorem Held.scanned (h : Held s.up k n) : Held (scanned c s).up k n := by
  obtain ⟨cnt, http, hs⟩ := scanned_eq c s
  rw [hs]; exact h.congr rfl rfl rfl

theorem Passed.scanned (h : Passed c s.up k) : Passed c (scanned c s).up k := by
  obtain ⟨cnt, http, hs⟩ := scanned_eq c s
  rw [hs]; exact h

/-- What a round without the line sends: `j` bytes. -/
theorem writePlain_kept {I : Up → Prop} {m : List UInt8} (hheld : Held s.up k n)
    (hm : m = mem c s.sockPtr s.up)
    (hI : ∀ j ≤ n, I ({ s.up with sent := s.up.sent ++ (s.up.received.drop k).take j }.drop m j)) :
    Kept I (·.1.up) (writePlain r m s) := by
  have hmem : m.take n = s.up.received.drop k := hm ▸ hheld.take_mem
  obtain ⟨j, hj, hout, hnum⟩ := writeSocket_cases m n r.write1 (hm ▸ hheld.le_mem) hheld.lt
  have hout' : m.take j = (s.up.received.drop k).take j := by
    rw [← hmem, List.take_take, Nat.min_eq_left hj]
  unfold writePlain
  rw [hheld.ptr]
  simp only [hout, hout']
  refine advance_kept hheld.ptr ?_ hj hnum (hI j hj)
  subst hm
  exact (hheld.congr (v := { s.up with
    sent := s.up.sent ++ (s.up.received.drop k).take j }) rfl rfl rfl).drop_zero

theorem writePlain_sound {m : List UInt8} (hheld : Held s.up k n) (hm : m = mem c s.sockPtr s.up)
    (hpassed : Passed c s.up k) : Kept (Sound c) (·.1.up) (writePlain r m s) := by
  refine writePlain_kept hheld hm fun j hj => ?_
  have htotal := hheld.total
  subst hm
  exact ⟨k + j, n - j, (hheld.drop hj).congr rfl rfl rfl, hpassed.more (by omega) j⟩

/-! ## The round with the line -/

/-- The results of the three writes, in their order. -/
def results (c : Conn) (r : Round) (m : List UInt8) (sslPtr : Int) : Int × Int × Int :=
  ((writeSocket m (hdrOff c m + 2) r.write1).1, (writeSocket (header c) (header c).length r.header).1,
    (writeSocket (m.drop (hdrOff c m + 2).toNat) (sslPtr - (hdrOff c m + 2)) r.write2).1)

/-- The rest is sent only behind the whole line of the client, the inserted line goes out whole or not
at all, and the sum of the two counts says what has been sent. -/
def Whole (c : Conn) (r : Round) (m : List UInt8) (sslPtr : Int) : Prop :=
  ((results c r m sslPtr).1 = hdrOff c m + 2 ∨ (results c r m sslPtr).2.2 ≤ 0) ∧
    ((results c r m sslPtr).2.1 = (header c).length ∨ (results c r m sslPtr).2.1 ≤ 0) ∧
      ((0 ≤ (results c r m sslPtr).1 ∧ 0 ≤ (results c r m sslPtr).2.2) ∨
        (results c r m sslPtr).1 + (results c r m sslPtr).2.2 = -1)

instance (c : Conn) (r : Round) (m : List UInt8) (sslPtr : Int) : Decidable (Whole c r m sslPtr) :=
  inferInstanceAs (Decidable (_ ∧ _ ∧ _))

theorem length_header (c : Conn) : (header c).length < 2 ^ 32 := by
  have hshort := c.short
  have htake : (c.ntop.takeWhile (· ≠ 58)).length ≤ c.ntop.length := (List.takeWhile_prefix _).length_le
  simp only [header, List.length_append, crlf, ascii, List.length_map, List.length_cons, List.length_nil]
  have : "StunnelRemoteIP: ".toList.length = 17 := by decide
  omega

/-- Two writes, the second one of what lies behind the first `i` bytes, put out the stream in its order
if the second one comes to something only after the first one is whole. -/
theorem writes_in_order {m D : List UInt8} {k n i j₁ j₂ : Nat} (hmem : m.take n = D.drop k) (hj₁ : j₁ ≤ n)
    (hj₂ : i + j₂ ≤ n) (hbehind : j₁ = i ∨ j₂ = 0) :
    m.take j₁ = (D.drop k).take j₁ ∧ (m.drop i).take j₂ = (D.drop (k + j₁)).take j₂ := by
  constructor
  · rw [← hmem, List.take_take, Nat.min_eq_left hj₁]
  · rcases hbehind with rfl | rfl
    · have hdrop : D.drop (k + j₁) = (m.take n).drop j₁ := by rw [hmem, List.drop_drop]
      rw [hdrop, List.drop_take, List.take_take, Nat.min_eq_left (by omega)]
    · simp

/-- What a round that meets the condition sends: `j₁` bytes, the line or nothing, and `j₂` bytes. -/
theorem writeInserted_kept {I : Up → Prop} {m : List UInt8} {i : Nat} (hheld : Held s.up k n)
    (hm : m = mem c s.sockPtr s.up) (hi : firstHdrEnd m = some i) (hin : i + 2 ≤ n)
    (hwhole : Whole c r m s.up.sslPtr)
    (hI : ∀ j₁ j₂ line, j₁ + j₂ ≤ n → line = [] ∨ line = header c →
      ((results c r m s.up.sslPtr).1 = i + 2 → j₁ = i + 2) →
      ((results c r m s.up.sslPtr).2.1 = (header c).length → line = header c) →
      I ({ s.up with
          sent := s.up.sent ++ (s.up.received.drop k).take j₁ ++ line ++ (s.up.received.drop (k + j₁)).take j₂
          hdrSent := true }.drop m (j₁ + j₂))) :
    Kept I (·.1.up) (writeInserted c r m s) := by
  have hmem : m.take n = s.up.received.drop k := hm ▸ hheld.take_mem
  have hle : n ≤ m.length := hm ▸ hheld.le_mem
  have hlt := hheld.lt
  have hoff : hdrOff c m + 2 = ((i + 2 : Nat) : Int) := by simp [hdrOff, hi]
  have hrest : s.up.sslPtr - ((i + 2 : Nat) : Int) = ((n - (i + 2) : Nat) : Int) := by rw [hheld.ptr]; omega
  obtain ⟨j₁, hj₁, hout1, hnum1⟩ := writeSocket_cases m (i + 2) r.write1 (by omega) (by omega)
  obtain ⟨jh, hjh, houth, hnumh⟩ :=
    writeSocket_cases (header c) (header c).length r.header (Nat.le_refl _) (length_header c)
  obtain ⟨j₂, hj₂, hout2, hnum2⟩ :=
    writeSocket_cases (m.drop (i + 2)) (n - (i + 2)) r.write2 (by simp; omega) (by omega)
  have hw2 : (if firstHdrEnd m = none then Wr.failed else r.write2) = r.write2 := by rw [hi]; rfl
  simp only [Whole, results, hoff, hrest, Int.toNat_natCast] at hwhole hI
  obtain ⟨horder, hline, hcount⟩ := hwhole
  have hsum : (writeSocket m ((i + 2 : Nat) : Int) r.write1).1 +
        (writeSocket (m.drop (i + 2)) ((n - (i + 2) : Nat) : Int) r.write2).1 = ((j₁ + j₂ : Nat) : Int) ∨
      (writeSocket m ((i + 2 : Nat) : Int) r.write1).1 +
        (writeSocket (m.drop (i + 2)) ((n - (i + 2) : Nat) : Int) r.write2).1 = -1 ∧ j₁ + j₂ = 0 := by omega
  have hbehind : j₁ = i + 2 ∨ j₂ = 0 := by omega
  have hfit : j₁ + j₂ ≤ n := by omega
  obtain ⟨hout1', hout2'⟩ := @writes_in_order m s.up.received k n (i + 2) j₁ j₂ hmem (by omega)
    (by omega) hbehind
  have hhdr : (header c).take jh = [] ∨ (header c).take jh = header c := by
    rcases hline with hall | hnone
    · exact Or.inr (List.take_of_length_le (by omega))
    · exact Or.inl (by rw [show jh = 0 by omega]; rfl)
  unfold writeInserted
  simp only [hw2, hoff, hrest, Int.toNat_natCast, hout1, houth, hout2, hout1', hout2']
  refine advance_kept hheld.ptr ?_ hfit hsum ?_
  · subst hm
    exact (hheld.congr (v := { s.up with
      sent := s.up.sent ++ (s.up.received.drop k).take j₁ ++ (header c).take jh ++
        (s.up.received.drop (k + j₁)).take j₂
      hdrSent := true }) rfl rfl rfl).drop_zero
  · refine hI j₁ j₂ _ hfit hhdr (by omega) ?_
    intro hall
    exact List.take_of_length_le (by omega)

theorem writeInserted_sound {m : List UInt8} {i : Nat} (hheld : Held s.up k n) (hm : m = mem c s.sockPtr s.up)
    (hsent : s.up.sent = s.up.received.take k) (hi : firstHdrEnd m = some i) (hin : i + 2 ≤ n)
    (hwhole : Whole c r m s.up.sslPtr) : Kept (Sound c) (·.1.up) (writeInserted c r m s) := by
  refine writeInserted_kept hheld hm hi hin hwhole ?_
  intro j₁ j₂ line hfit hline _ _
  have htotal := hheld.total
  subst hm
  refine ⟨k + (j₁ + j₂), n - (j₁ + j₂), (hheld.drop hfit).congr rfl rfl rfl, ?_⟩
  rcases hline with rfl | rfl
  · refine Or.inl ?_
    simp only [Up.drop, hsent, List.append_nil]
    rw [← Nat.add_assoc, List.take_add, List.take_add]
  · exact Passed.insert hsent (by omega) j₂

end CameraFw.Proxy
