import CameraFw.Flash.Transfer

/-!
# What a transfer moves
-/

namespace CameraFw.Flash

open CameraFw.Base

/-! ## One DMA -/

theorem or_and_right (x y z : BitVec 32) : (x ||| y) &&& z = (x &&& z) ||| (y &&& z) := by
  ext i
  simp [Bool.and_or_distrib_right]

theorem dcnt_single (b c : BitVec 32) :
    (Mde.mk b (c ||| (1#32 <<< MDE_NXT_SHIFT) ||| (1#32 <<< MDE_VALID_SHIFT) |||
      (1#32 <<< MDE_EMDE_SHIFT))).dcnt = c.toNat % 2 ^ 21 := by
  have hmod := Nat.and_two_pow_sub_one_eq_mod c.toNat 21
  simp only [Mde.dcnt, or_and_right, BitVec.toNat_or, BitVec.toNat_and]
  simpa [MDE_NXT_SHIFT, MDE_VALID_SHIFT, MDE_EMDE_SHIFT] using hmod

theorem last_single (b c : BitVec 32) : (Mde.mk b (c ||| (1#32 <<< MDE_EMDE_SHIFT))).last = true := by
  have hbit : ((c ||| (1#32 <<< MDE_EMDE_SHIFT)) &&& 0x80000000#32).getLsbD 31 = true := by
    rw [BitVec.getLsbD_and, BitVec.getLsbD_or]
    simp [MDE_EMDE_SHIFT]
  simp only [Mde.last, bne_iff_ne, ne_eq]
  intro h
  rw [h] at hbit
  cases hbit

/-- A single buffer: the controller moves its length modulo the count field. -/
theorem dmaMoves_single (mode : Mode) (b c addr : BitVec 32) :
    dmaMoves mode (setupDma [⟨b, c⟩]).1 addr = [mode.piece b addr (c.toNat % 2 ^ 21)] := by
  simp [setupDma, dmaMoves, dcnt_single, last_single]

theorem setupDma_total (b c : BitVec 32) : (setupDma [⟨b, c⟩]).2 = c := by
  simp [setupDma]

/-! ## The DMA loop -/

section Loop

variable {mode : Mode} {e : DmaEnd} {x : Xfer}

def Xfer.dst (mode : Mode) (x : Xfer) : BitVec 32 := mode.dst x.bufNow (x.addr.setWidth 32)

def Xfer.chunk (mode : Mode) (x : Xfer) : Extent 32 :=
  mode.piece x.bufNow (x.addr.setWidth 32) (x.thisCnt.toNat % 2 ^ 21)

/-- The state after one chunk. -/
def Xfer.next (mode : Mode) (e : DmaEnd) (x : Xfer) : Xfer where
  bufNow := x.bufNow + x.thisCnt
  len := x.len - x.thisCnt
  addr := x.addr + x.thisCnt.setWidth 64
  retlen := x.retlen + x.thisCnt
  rc := if e.ok then x.rc else .IOERR
  log := x.log ++ [x.chunk mode]
  polls := x.polls
  ends := x.ends ++ [e]

theorem dmaPass_leave (h : x.len = 0) : dmaPass mode e x = .leave x := by
  simp [dmaPass, h]

theorem dmaPass_again (h : x.len ≠ 0) : dmaPass mode e x = .again (x.next mode e) := by
  simp only [dmaPass, if_neg h, setupDma_total, dmaMoves_single, ne_eq, not_true_eq_false, ↓reduceIte,
    Xfer.next, Xfer.chunk]

theorem Xfer.thisCnt_toNat (x : Xfer) : x.thisCnt.toNat = min x.len.toNat 0x3fff00 := by
  have hmax : MAX_DMA_CNT.toNat = 0x3fff00 := rfl
  simp only [Xfer.thisCnt, gt_iff_lt, BitVec.lt_def]
  split <;> omega

theorem Xfer.thisCnt_pos (h : x.len ≠ 0) : 0 < x.thisCnt.toNat := by
  have hpos : x.len.toNat ≠ 0 := fun h0 => h (BitVec.eq_of_toNat_eq h0)
  rw [x.thisCnt_toNat]
  omega

theorem Xfer.next_len (mode : Mode) (e : DmaEnd) (x : Xfer) :
    (x.next mode e).len.toNat = x.len.toNat - x.thisCnt.toNat := by
  have hle : x.thisCnt ≤ x.len := by rw [BitVec.le_def, x.thisCnt_toNat]; omega
  exact BitVec.toNat_sub_of_le hle

theorem Xfer.next_dst (mode : Mode) (e : DmaEnd) (x : Xfer) :
    (x.next mode e).dst mode = x.dst mode + BitVec.ofNat 32 x.thisCnt.toNat := by
  cases mode with
  | read => simp [Xfer.dst, Xfer.next, Mode.dst]
  | write => simp [Xfer.dst, Xfer.next, Mode.dst, BitVec.setWidth_add]

/-- How the loop goes on from `x` in round `i`: the pieces it moves, the ends of the chunks, and where
it ends. -/
structure Moved (mode : Mode) (env : Nat → DmaEnd) (i : Nat) (x y : Xfer) (log : List (Extent 32))
    (ends : List DmaEnd) : Prop where
  log_eq : y.log = x.log ++ log
  polls_eq : y.polls = x.polls
  ends_eq : y.ends = x.ends ++ ends
  retlen_eq : y.retlen = x.retlen + x.len
  rc_ok : y.rc = .ok ↔ x.rc = .ok ∧ ∀ e ∈ ends, e.ok = true
  spans : Spans log (x.dst mode) 0 x.len.toNat
  done : x.len = 0 → log = [] ∧ ends = []
  first : x.len ≠ 0 → ∃ rest more, log = x.chunk mode :: rest ∧ ends = env i :: more ∧
    Spans rest (x.dst mode) x.thisCnt.toNat x.len.toNat ∧ (x.thisCnt = x.len → rest = [] ∧ more = [])

theorem Moved.refl {env : Nat → DmaEnd} {i : Nat} (h : x.len = 0) : Moved mode env i x x [] [] where
  log_eq := by simp
  polls_eq := rfl
  ends_eq := by simp
  retlen_eq := by simp [h]
  rc_ok := by simp
  spans := by intro f hf; cases hf
  done := fun _ => ⟨rfl, rfl⟩
  first := fun hne => absurd h hne

theorem Moved.step {env : Nat → DmaEnd} {i : Nat} {y : Xfer} {log : List (Extent 32)} {ends : List DmaEnd}
    (h : x.len ≠ 0) (hm : Moved mode env (i + 1) (x.next mode (env i)) y log ends) :
    Moved mode env i x y (x.chunk mode :: log) (env i :: ends) := by
  have hcnt := x.thisCnt_toNat
  have hlt := x.len.isLt
  -- the pieces of the rest, counted from where this chunk starts
  have hrest : Spans log (x.dst mode) x.thisCnt.toNat x.len.toNat := by
    have hs := hm.spans
    rw [x.next_dst, x.next_len] at hs
    have hshift := hs.shift (by omega)
    rwa [show x.thisCnt.toNat + (x.len.toNat - x.thisCnt.toNat) = x.len.toNat by omega] at hshift
  refine ⟨?_, hm.polls_eq, ?_, ?_, ?_, ?_, fun h0 => absurd h0 h,
    fun _ => ⟨log, ends, rfl, rfl, hrest, fun heq => hm.done ?_⟩⟩
  · rw [hm.log_eq]; simp [Xfer.next]
  · rw [hm.ends_eq]; simp [Xfer.next]
  · rw [hm.retlen_eq]; simp only [Xfer.next]; ring
  · rw [hm.rc_ok]
    cases hok : (env i).ok <;> simp [Xfer.next, hok]
  · have hn : (x.chunk mode).n ≤ x.thisCnt.toNat := Nat.mod_le _ _
    exact .cons (by omega) (hrest.mono (Nat.zero_le _) (Nat.le_refl _))
  · simp [Xfer.next, heq]

theorem dmaLoop_moved (mode : Mode) (env : Nat → DmaEnd) :
    ∀ fuel i x, x.len.toNat < fuel →
      ∃ y log ends, whileLoop (dmaPass mode) env fuel i x = some y ∧ Moved mode env i x y log ends := by
  intro fuel
  induction fuel with
  | zero => intro i x h; omega
  | succ fuel ih =>
      intro i x hfuel
      by_cases h0 : x.len = 0
      · exact ⟨x, [], [], by simp [whileLoop, dmaPass_leave h0], .refl h0⟩
      · have hpos := x.thisCnt_pos h0
        have hcnt := x.thisCnt_toNat
        obtain ⟨y, log, ends, hy, hm⟩ := ih (i + 1) (x.next mode (env i)) (by rw [x.next_len]; omega)
        exact ⟨y, x.chunk mode :: log, env i :: ends, by simp [whileLoop, dmaPass_again h0, hy], hm.step h0⟩

def Xfer.src (mode : Mode) (x : Xfer) : BitVec 32 := mode.src x.bufNow (x.addr.setWidth 32)

variable {env : Nat → DmaEnd} {i : Nat} {y : Xfer} {log : List (Extent 32)} {ends : List DmaEnd}

/-- Below the range of the count field a single chunk moves everything. -/
theorem Moved.tiles (hm : Moved mode env i x y log ends) (h : x.len.toNat < 2 ^ 21) :
    Tiles log (x.dst mode) (x.src mode) x.len.toNat ∧ ends = if x.len = 0 then [] else [env i] := by
  by_cases h0 : x.len = 0
  · obtain ⟨rfl, rfl⟩ := hm.done h0
    rw [if_pos h0, h0]
    exact ⟨rfl, rfl⟩
  · have hcnt : x.thisCnt.toNat = x.len.toNat := by rw [x.thisCnt_toNat]; omega
    obtain ⟨rest, more, rfl, rfl, _, hrest⟩ := hm.first h0
    obtain ⟨rfl, rfl⟩ := hrest (BitVec.eq_of_toNat_eq hcnt)
    have hn : (x.chunk mode).n = x.len.toNat := by
      simp only [Xfer.chunk, Mode.piece, hcnt]
      exact Nat.mod_eq_of_lt h
    exact ⟨⟨rfl, rfl, Nat.le_of_eq hn, by rw [hn]; exact Nat.sub_self _⟩, by rw [if_neg h0]⟩

/-- From there on the last byte of the first chunk is not moved. -/
theorem Moved.gap (hm : Moved mode env i x y log ends) (h : 2 ^ 21 ≤ x.len.toNat) :
    ∃ k < x.len.toNat, sources log (x.dst mode + BitVec.ofNat 32 k) = [] := by
  have hcnt := x.thisCnt_toNat
  have hlt := x.len.isLt
  obtain ⟨rest, more, rfl, _, hspans, _⟩ := hm.first fun h0 => by simp [h0] at h
  have hoff := toNat_add_ofNat_sub (w := 32) (k := x.thisCnt.toNat - 1) (x.dst mode) (by omega)
  refine ⟨x.thisCnt.toNat - 1, by omega, ?_⟩
  have hn : (x.chunk mode).n = x.thisCnt.toNat - 2 ^ 21 := by
    simp only [Xfer.chunk, Mode.piece]
    omega
  have hout : ¬ (x.chunk mode).Covers (x.dst mode + BitVec.ofNat 32 (x.thisCnt.toNat - 1)) := by
    rw [Extent.Covers, show (x.chunk mode).dst = x.dst mode from rfl, hoff, hn]
    omega
  rw [sources_cons, if_neg hout, hspans.sources_eq_nil (by omega) (.inl (by omega))]
  rfl

theorem Moved.starts (hm : Moved mode env i x y log ends) (h : 2 ^ 22 ≤ x.len.toNat) :
    sources log (x.dst mode) ≠ [] := by
  have hcnt := x.thisCnt_toNat
  obtain ⟨rest, more, rfl, _⟩ := hm.first fun h0 => by simp [h0] at h
  refine sources_ne_nil List.mem_cons_self ?_
  have hn : (x.chunk mode).n = 0x1fff00 := by
    simp only [Xfer.chunk, Mode.piece]
    omega
  rw [Extent.Covers, show (x.chunk mode).dst = x.dst mode from rfl, sub_self, hn]
  decide

end Loop

/-! ## Programmed I/O -/

section PioWrite

variable {polls : Nat → List (BitVec 8)}

/-- Poll `k` of the programmed writes finds the command done. -/
def Polled (polls : Nat → List (BitVec 8)) (k : Nat) : Prop :=
  pollingIntr NOR_CMD_INTR_MASK 0 (polls k) = true

theorem pioWrite_tiles : ∀ k n addr p, n % 4 = 0 → (∀ j, j < n / 4 → Polled polls (k + j)) →
    Tiles (pioWrite polls k n addr p).log addr p n ∧ ∀ b ∈ (pioWrite polls k n addr p).polls, b = true := by
  intro k n addr p
  fun_induction pioWrite polls k n addr p with
  | case1 => exact fun _ _ => ⟨rfl, by simp⟩
  | case2 k n addr p hpoll rest ih =>
      intro hn hall
      obtain ⟨htiles, hpolls⟩ := ih (by omega) fun j hj => by
        rw [show k + 1 + j = k + (j + 1) by omega]
        exact hall (j + 1) (by omega)
      refine ⟨⟨rfl, rfl, Nat.le_add_left 4 n, htiles⟩, fun b hb => ?_⟩
      rcases List.mem_cons.mp hb with rfl | hb
      · rfl
      · exact hpolls b hb
  | case3 k n addr p hpoll => exact fun _ hall => absurd (hall 0 (by omega)) hpoll
  | case4 n k addr p h0 h4 =>
      intro hn
      have hne : n ≠ 0 := h0
      have hge : n = n - 4 + 4 := by omega
      exact absurd hge (h4 (n - 4))

theorem pioWrite_spans :
    ∀ k n addr p, n ≤ 2 ^ 32 → Spans (pioWrite polls k n addr p).log addr 0 (4 * (n / 4)) := by
  intro k n addr p
  fun_induction pioWrite polls k n addr p with
  | case1 => intro _ e he; cases he
  | case2 k n addr p hpoll rest ih =>
      intro hn
      have hshift := (ih (by omega)).shift (k := 4) (by omega)
      exact .cons (show 4 ≤ 4 * ((n + 4) / 4) by omega) (hshift.mono (Nat.zero_le _) (by omega))
  | case3 k n addr p hpoll =>
      intro hn
      exact .cons (show 4 ≤ 4 * ((n + 4) / 4) by omega) fun e he => by cases he
  | case4 => intro _ e he; cases he

theorem polled_of_pioWrite : ∀ k n addr p, (∀ b ∈ (pioWrite polls k n addr p).polls, b = true) →
    ∀ j, j < n / 4 → Polled polls (k + j) := by
  intro k n addr p
  fun_induction pioWrite polls k n addr p with
  | case1 => intro _ j hj; omega
  | case2 k n addr p hpoll rest ih =>
      intro hall j hj
      cases j with
      | zero => exact hpoll
      | succ j =>
          rw [show k + (j + 1) = k + 1 + j by omega]
          exact ih (fun b hb => hall b (List.mem_cons_of_mem _ hb)) j (by omega)
  | case3 k n addr p hpoll => intro hall; exact absurd (hall false (by simp)) (by simp)
  | case4 n k addr p h0 h4 =>
      intro _ j hj
      have hge : n = n - 4 + 4 := by omega
      exact absurd hge (h4 (n - 4))

end PioWrite

/-! ## Whole transfers -/

section Whole

variable {mode : Mode} {pio : BitVec 32 → BitVec 32 → Nat → Pio} {size : BitVec 32} {pos : BitVec 64}
  {len buf : BitVec 32} {env : Env}

theorem pioLen_lt (buf : BitVec 32) : (pioLen buf).toNat < 16 := by
  have hmod := Nat.and_two_pow_sub_one_eq_mod buf.toNat 4
  have heq : (pioLen buf).toNat = buf.toNat % 2 ^ 4 := by
    rw [pioLen, BitVec.toNat_and, ← hmod]
    rfl
  omega

theorem enter_eq (h0 : ∀ addr p, pio addr p 0 = ⟨[], []⟩) :
    enter pio pos len buf =
      ⟨buf + pioLen buf, len - pioLen buf, pos + (pioLen buf).setWidth 64, pioLen buf, .ok,
        (pio (pos.setWidth 32) buf (pioLen buf).toNat).log,
          (pio (pos.setWidth 32) buf (pioLen buf).toNat).polls,
        []⟩ := by
  by_cases h : pioLen buf = 0
  · simp [enter, h, h0]
  · simp only [enter, ne_eq, h, not_false_eq_true, ↓reduceIte]

theorem enter_dst (h0 : ∀ addr p, pio addr p 0 = ⟨[], []⟩) :
    (enter pio pos len buf).dst mode
      = mode.dst buf (pos.setWidth 32) + BitVec.ofNat 32 (pioLen buf).toNat := by
  rw [enter_eq h0]
  cases mode with
  | read => simp [Xfer.dst, Mode.dst]
  | write => simp [Xfer.dst, Mode.dst, BitVec.setWidth_add]

theorem enter_src (h0 : ∀ addr p, pio addr p 0 = ⟨[], []⟩) :
    (enter pio pos len buf).src mode
      = mode.src buf (pos.setWidth 32) + BitVec.ofNat 32 (pioLen buf).toNat := by
  rw [enter_eq h0]
  cases mode with
  | read => simp [Xfer.src, Mode.src, BitVec.setWidth_add]
  | write => simp [Xfer.src, Mode.src]

theorem not_past_end (h : pos.toNat + len.toNat ≤ size.toNat) :
    (size.setWidth 64).slt (pos + len.setWidth 64) = false := by
  have hsize := size.isLt
  have hlen := len.isLt
  have hsum : (pos + len.setWidth 64).toNat = pos.toNat + len.toNat := by
    rw [BitVec.toNat_add, BitVec.toNat_setWidth]
    omega
  have hs : (size.setWidth 64).toNat = size.toNat := by rw [BitVec.toNat_setWidth]; omega
  rw [BitVec.slt, decide_eq_false_iff_not, BitVec.toInt_eq_toNat_of_lt (by omega),
    BitVec.toInt_eq_toNat_of_lt (by omega)]
  omega

/-- A request within the chip that gets the semaphore: the state before and after the loop. -/
theorem transfer_moved (h : pos.toNat + len.toNat ≤ size.toNat) (hint : env.interrupted = false) :
    ∃ y log ends, transfer mode pio size pos len buf env =
      some ⟨y.rc, some y.retlen, y.log, y.polls, y.ends⟩ ∧
      Moved mode env.dma 0 (enter pio pos len buf) y log ends := by
  obtain ⟨y, log, ends, hy, hm⟩ :=
    dmaLoop_moved mode env.dma (2 ^ 32) 0 (enter pio pos len buf) (BitVec.isLt _)
  exact ⟨y, log, ends, by simp [transfer, not_past_end h, hint, hy], hm⟩

theorem transfer_interrupted (h : pos.toNat + len.toNat ≤ size.toNat) (hint : env.interrupted = true) :
    transfer mode pio size pos len buf env = some (.refused .ERESTARTSYS) := by
  simp [transfer, not_past_end h, hint]

variable {y : Xfer} {log : List (Extent 32)} {ends : List DmaEnd}

/-- A transfer that reaches exactly `len` addresses has a first part within them and a rest within the
count field. -/
theorem fits_of_covered (h0 : ∀ addr p, pio addr p 0 = ⟨[], []⟩)
    (hm : Moved mode env.dma 0 (enter pio pos len buf) y log ends)
    (hpio : Spans (pio (pos.setWidth 32) buf (pioLen buf).toNat).log (mode.dst buf (pos.setWidth 32)) 0
      (pioLen buf).toNat)
    (hcov : ∀ a, sources y.log a ≠ [] ↔ (a - mode.dst buf (pos.setWidth 32)).toNat < len.toNat) :
    (pioLen buf).toNat ≤ len.toNat ∧ len.toNat - (pioLen buf).toNat < 2 ^ 21 := by
  have hp := pioLen_lt buf
  have hlen := len.isLt
  have hlog : y.log = (pio (pos.setWidth 32) buf (pioLen buf).toNat).log ++ log := by
    rw [hm.log_eq, enter_eq h0]
  have hrest : (enter pio pos len buf).len.toNat = (2 ^ 32 - (pioLen buf).toNat + len.toNat) % 2 ^ 32 := by
    rw [enter_eq h0, BitVec.toNat_sub]
  have hle : (pioLen buf).toNat ≤ len.toNat := by
    by_contra hgt
    -- the length has wrapped, and the first DMA starts behind the range
    have hstart := hm.starts (by omega)
    rw [enter_dst h0] at hstart
    have hin := (hcov _).mp (by rw [hlog, sources_append]; exact List.append_ne_nil_of_right_ne_nil _ hstart)
    rw [toNat_add_ofNat_sub _ (by omega)] at hin
    omega
  refine ⟨hle, ?_⟩
  by_contra hlarge
  obtain ⟨k, hk, hgap⟩ := hm.gap (by omega)
  rw [enter_dst h0, add_assoc, ← BitVec.ofNat_add] at hgap
  have hoff := toNat_add_ofNat_sub (w := 32) (k := (pioLen buf).toNat + k)
    (mode.dst buf (pos.setWidth 32)) (by omega)
  refine (hcov (mode.dst buf (pos.setWidth 32) + BitVec.ofNat 32 ((pioLen buf).toNat + k))).mpr (by omega) ?_
  rw [hlog, sources_append, hgap, hpio.sources_eq_nil (by omega) (.inr (by omega)), List.append_nil]

/-- The DMA part starts where the first part should end. -/
theorem dma_spans (h0 : ∀ addr p, pio addr p 0 = ⟨[], []⟩)
    (hm : Moved mode env.dma 0 (enter pio pos len buf) y log ends) (hle : (pioLen buf).toNat ≤ len.toNat) :
    Spans log (mode.dst buf (pos.setWidth 32)) (pioLen buf).toNat len.toNat := by
  have hlen := len.isLt
  have hrest : (len - pioLen buf).toNat = len.toNat - (pioLen buf).toNat := BitVec.toNat_sub_of_le hle
  have hs := hm.spans
  rw [enter_dst h0, enter_eq h0, hrest] at hs
  exact (hs.shift (by omega)).mono (Nat.le_refl _) (by omega)

theorem tiles_of_fits (h0 : ∀ addr p, pio addr p 0 = ⟨[], []⟩)
    (hm : Moved mode env.dma 0 (enter pio pos len buf) y log ends)
    (hpio : Tiles (pio (pos.setWidth 32) buf (pioLen buf).toNat).log (mode.dst buf (pos.setWidth 32))
      (mode.src buf (pos.setWidth 32)) (pioLen buf).toNat)
    (hle : (pioLen buf).toNat ≤ len.toNat) (hlt : len.toNat - (pioLen buf).toNat < 2 ^ 21) :
    Tiles y.log (mode.dst buf (pos.setWidth 32)) (mode.src buf (pos.setWidth 32)) len.toNat ∧
      ends = if len = pioLen buf then [] else [env.dma 0] := by
  have hrest : (enter pio pos len buf).len.toNat = len.toNat - (pioLen buf).toNat := by
    rw [enter_eq h0]
    exact BitVec.toNat_sub_of_le hle
  have hzero : (enter pio pos len buf).len = 0 ↔ len = pioLen buf := by
    rw [enter_eq h0]
    exact sub_eq_zero
  obtain ⟨htiles, hends⟩ := hm.tiles (by omega)
  rw [enter_dst h0, enter_src h0, hrest] at htiles
  have hall := hpio.append htiles
  rw [Nat.add_sub_cancel' hle] at hall
  rw [hm.log_eq, hends, enter_eq h0]
  exact ⟨hall, if_congr (by rw [← hzero, enter_eq h0]) rfl rfl⟩

end Whole

end CameraFw.Flash
