import CameraFw.Flash.Lemmas.Map
import CameraFw.Flash.Lemmas.Transfer

/-!
# What a read, a write and an erase of the flash do

The first part has as many bytes as the buffer address is past a multiple of 16. The condition for a
read is that it is not longer than the request, and that the rest fits into the count field of the DMA
controller. A write needs in addition that the first part is made of whole words and that the polls find
each of them done. An erase needs a start from which steps of whole sectors meet every sector of the
range.
-/

namespace CameraFw.Flash

open CameraFw.Base

variable {size : BitVec 32} {len buf : BitVec 32} {env : Env}

/-- The first part is not longer than the request, and the length of the rest fits into the count field. -/
def Fits (len buf : BitVec 32) : Prop :=
  (pioLen buf).toNat ≤ len.toNat ∧ len.toNat - (pioLen buf).toNat < 2 ^ 21

instance : Decidable (Fits len buf) := inferInstanceAs (Decidable (_ ∧ _))

/-! ## Reads -/

/-- What is left in memory: the bytes of the flash from `start` on in `buf[0, len)`, nothing written
elsewhere. -/
def Copied (start : BitVec 64) (len buf : BitVec 32) (r : Result) : Prop :=
  (∀ a, (sources r.log a).getLast?.map BitVec.toNat =
    if (a - buf).toNat < len.toNat then some (start.toNat + (a - buf).toNat) else none) ∧
  r.retlen = some len

theorem Copied.covered {start : BitVec 64} {r : Result} (h : Copied start len buf r) (a : BitVec 32) :
    sources r.log a ≠ [] ↔ (a - buf).toNat < len.toNat := by
  have ha := h.1 a
  by_cases hin : (a - buf).toNat < len.toNat
  · rw [if_pos hin] at ha
    refine ⟨fun _ => hin, fun _ hnil => ?_⟩
    rw [hnil] at ha
    cases ha
  · rw [if_neg hin, Option.map_eq_none_iff, List.getLast?_eq_none_iff] at ha
    exact ⟨fun hne => absurd ha hne, fun hlt => absurd hlt hin⟩

/-- Every DMA ends well. -/
def quiet : Env where
  interrupted := false
  polls := fun _ => [0x08]
  dma := fun _ => ⟨0x0c, by decide, 0⟩

/-- Each byte of `buf[0, len)` was issued once, to its place in the flash, nothing went elsewhere, and
no poll and no DMA reported a time-out or a failure. -/
def Programmed (dest : BitVec 64) (len buf : BitVec 32) (r : Result) : Prop :=
  (∀ a, sources r.log a =
    if dest.toNat ≤ a.toNat ∧ a.toNat < dest.toNat + len.toNat then
      [buf + BitVec.ofNat 32 (a.toNat - dest.toNat)]
    else []) ∧
  (∀ b ∈ r.polls, b = true) ∧ ∀ e ∈ r.ends, e.ok = true ∧ timedOut e.intr = false

/-- The part by programmed I/O is made of whole words that are found done, and the DMA, if there is one,
does not end with a time-out. -/
def WordsDone (len buf : BitVec 32) (env : Env) : Prop :=
  (pioLen buf).toNat % 4 = 0 ∧ (∀ k < (pioLen buf).toNat / 4, Polled env.polls k) ∧
    (len ≠ pioLen buf → timedOut (env.dma 0).intr = false)

theorem offset_lt_iff {pos : BitVec 64} (h : pos.toNat + len.toNat ≤ size.toNat) (a : BitVec 32) :
    (a - pos.setWidth 32).toNat < len.toNat ↔ pos.toNat ≤ a.toNat ∧ a.toNat < pos.toNat + len.toNat := by
  have hsize := size.isLt
  have ha := a.isLt
  rw [BitVec.toNat_sub, BitVec.toNat_setWidth]
  omega

theorem Programmed.covered {dest : BitVec 64} {r : Result} (h : dest.toNat + len.toNat ≤ size.toNat)
    (hp : Programmed dest len buf r) (a : BitVec 32) :
    sources r.log a ≠ [] ↔ (a - dest.setWidth 32).toNat < len.toNat := by
  rw [hp.1 a, offset_lt_iff h]
  by_cases hin : dest.toNat ≤ a.toNat ∧ a.toNat < dest.toNat + len.toNat
  · rw [if_pos hin]
    exact ⟨fun _ => hin, fun _ => List.cons_ne_nil _ _⟩
  · rw [if_neg hin]
    exact ⟨fun hne => absurd rfl hne, fun hlt => absurd hlt hin⟩

theorem programmed_of_tiles {dest : BitVec 64} {log : List (Extent 32)}
    (h : dest.toNat + len.toNat ≤ size.toNat) (htiles : Tiles log (dest.setWidth 32) buf len.toNat)
    (a : BitVec 32) :
    sources log a =
      if dest.toNat ≤ a.toNat ∧ a.toNat < dest.toNat + len.toNat then
        [buf + BitVec.ofNat 32 (a.toNat - dest.toNat)]
      else [] := by
  have hiff := offset_lt_iff h a
  rw [htiles.sources len.isLt.le a]
  by_cases hin : (a - dest.setWidth 32).toNat < len.toNat
  · have hoff : a - dest.setWidth 32 = BitVec.ofNat 32 (a.toNat - dest.toNat) := by
      apply BitVec.eq_of_toNat_eq
      have hsize := size.isLt
      have ha := a.isLt
      rw [BitVec.toNat_sub, BitVec.toNat_setWidth, BitVec.toNat_ofNat]
      omega
    rw [if_pos hin, if_pos (hiff.mp hin), hoff]
  · rw [if_neg hin, if_neg fun hr => hin (hiff.mpr hr)]

section

variable {dest : BitVec 64} {y : Xfer} {log : List (Extent 32)} {ends : List DmaEnd}

/-- The last bytes of a first part that is not made of whole words are never issued. -/
theorem words_of_covered
    (hm : Moved .write env.dma 0
      (enter (fun addr p n => pioWrite env.polls 0 n addr p) dest len buf) y log ends)
    (hle : (pioLen buf).toNat ≤ len.toNat)
    (hcov : ∀ a, sources y.log a ≠ [] ↔ (a - dest.setWidth 32).toNat < len.toNat) :
    (pioLen buf).toNat % 4 = 0 := by
  have hp := (pioLen buf).isLt
  have hlog := hm.log_eq
  rw [enter_eq fun _ _ => rfl] at hlog
  have hpio := @pioWrite_spans env.polls 0 (pioLen buf).toNat (dest.setWidth 32) buf hp.le
  have hdma := dma_spans (fun _ _ => rfl) hm hle
  have hoff := toNat_add_ofNat_sub (w := 32) (k := 4 * ((pioLen buf).toNat / 4)) (dest.setWidth 32) (by omega)
  by_contra hne
  refine (hcov (dest.setWidth 32 + BitVec.ofNat 32 (4 * ((pioLen buf).toNat / 4)))).mpr (by omega) ?_
  rw [hlog, sources_append, hpio.sources_eq_nil (by omega) (.inr (by omega)),
    hdma.sources_eq_nil len.isLt.le (.inl (by simp only [Mode.dst]; omega)), List.append_nil]

end

/-- A write within the chip returns, and if it reports success it has programmed what was asked exactly
under the condition. -/
theorem flashWrite_programmed_iff {dest : BitVec 64} (h : dest.toNat + len.toNat ≤ size.toNat) :
    ∃ r, flashWrite size dest len buf env = some r ∧
      (r.rc = .ok → (Programmed dest len buf r ↔ Fits len buf ∧ WordsDone len buf env)) := by
  cases hint : env.interrupted with
  | true => exact ⟨_, transfer_interrupted h hint, fun hrc => by cases hrc⟩
  | false =>
      obtain ⟨y, log, ends, hy, hm⟩ := @transfer_moved .write (fun addr p n => pioWrite env.polls 0 n addr p)
        _ _ _ buf _ h hint
      refine ⟨_, hy, fun hrc => ?_⟩
      have hends : y.ends = ends := by rw [hm.ends_eq, enter_eq fun _ _ => rfl]; rfl
      have hpolls : y.polls = (pioWrite env.polls 0 (pioLen buf).toNat (dest.setWidth 32) buf).polls := by
        rw [hm.polls_eq, enter_eq fun _ _ => rfl]
      constructor
      · intro hp
        have hcov := hp.covered h
        have hspans := @pioWrite_spans env.polls 0 (pioLen buf).toNat (dest.setWidth 32) buf
          (pioLen buf).isLt.le
        have hfits : Fits len buf := fits_of_covered (fun _ _ => rfl) hm
          (hspans.mono (Nat.le_refl 0) (Nat.mul_div_le _ 4)) hcov
        have hmod := words_of_covered hm hfits.1 hcov
        have hpolled := polled_of_pioWrite 0 (pioLen buf).toNat (dest.setWidth 32) buf (hpolls ▸ hp.2.1)
        simp only [Nat.zero_add] at hpolled
        refine ⟨hfits, hmod, hpolled, fun hne => ?_⟩
        have hpio := (pioWrite_tiles 0 (pioLen buf).toNat (dest.setWidth 32) buf hmod
          (by simpa using hpolled)).1
        obtain ⟨_, hone⟩ := tiles_of_fits (fun _ _ => rfl) hm hpio hfits.1 hfits.2
        rw [if_neg hne] at hone
        exact (hp.2.2 (env.dma 0) (by simp [hends, hone])).2
      · rintro ⟨⟨hle, hlt⟩, hmod, hpolled, hout⟩
        obtain ⟨hpio, hall⟩ := pioWrite_tiles 0 (pioLen buf).toNat (dest.setWidth 32) buf hmod
          (by simpa using hpolled)
        obtain ⟨htiles, hone⟩ := tiles_of_fits (fun _ _ => rfl) hm hpio hle hlt
        refine ⟨programmed_of_tiles h htiles, hpolls ▸ hall, fun e he => ?_⟩
        rw [hends] at he
        refine ⟨(hm.rc_ok.mp hrc).2 e he, ?_⟩
        by_cases hne : len = pioLen buf
        · rw [hone, if_pos hne] at he
          cases he
        · rw [hone, if_neg hne, List.mem_singleton] at he
          exact he ▸ hout hne

theorem flashWrite_programmed_unaligned :
    ∃ r, flashWrite 0x800000 0x10000 20 0x3004 quiet = some r ∧ r.rc = .ok ∧
      Programmed 0x10000 20 0x3004 r := by
  obtain ⟨r, hr, hiff⟩ := @flashWrite_programmed_iff 0x800000 20 0x3004 quiet 0x10000 (by decide)
  have hok : (flashWrite 0x800000 0x10000 20 0x3004 quiet).any (fun r => r.rc = .ok) = true := by
    decide +kernel
  rw [hr, Option.any_some, decide_eq_true_eq] at hok
  have hpolled : ∀ k < (pioLen 0x3004).toNat / 4, Polled quiet.polls k := fun _ _ => rfl
  exact ⟨r, hr, hok, (hiff hok).mpr ⟨by decide, by decide, hpolled, fun _ => by decide⟩⟩

/-- A single byte from an odd address: success, and nothing was issued. -/
theorem flashWrite_nothing :
    ∃ r, flashWrite 0x800000 0x10000 1 0x3001 quiet = some r ∧ r.rc = .ok ∧ r.retlen = some 1 ∧
      ¬ Programmed 0x10000 1 0x3001 r := by
  have hrun : (flashWrite 0x800000 0x10000 1 0x3001 quiet).any
      (fun r => r.rc = .ok ∧ r.retlen = some 1 ∧ sources r.log 0x10000 = []) = true := by decide +kernel
  obtain ⟨r, hr, hok⟩ := (Option.any_eq_true _ _).mp hrun
  obtain ⟨hrc, hlen, hnil⟩ := of_decide_eq_true hok
  refine ⟨r, hr, hrc, hlen, fun hp => ?_⟩
  have hissued := hp.1 0x10000
  rw [hnil, if_pos (by decide)] at hissued
  cases hissued

/-! ## Erases -/

section Erase

variable {c : Chip} {addr : BitVec 32} {interrupted : Bool} {ok : Nat → Bool}

def Intersects (s : Sector) (addr len : BitVec 32) : Prop :=
  ∃ x, addr.toNat ≤ x ∧ x < addr.toNat + len.toNat ∧ s.lo ≤ x ∧ x < s.hi

/-- Nothing is erased and the request rejected, or exactly the sectors of the range are erased; a range
that runs past the end is rejected. -/
def ErasedRight (c : Chip) (addr len : BitVec 32) (r : Erased) : Prop :=
  (r.rc ≠ .ok ∧ r.erased = [] ∨
    r.rc = .ok ∧ ∀ x, x ∈ r.erased ↔ ∃ s ∈ c.map, Intersects s addr len ∧ x = s.startAddr) ∧
  (c.size.toNat < addr.toNat + len.toNat → r.rc ≠ .ok)

/-- If the sum of address and length, as 32 bits, is within the chip, so is the range; and each sector
that begins inside the range reaches in it as far as the address is behind the start of its own sector. -/
def Erasable (c : Chip) (addr len : BitVec 32) : Prop :=
  addr.toNat ≤ c.size.toNat → (addr + len).toNat ≤ c.size.toNat →
    addr.toNat + len.toNat ≤ c.size.toNat ∧
    ∀ t ∈ c.map, t.lo ≤ addr.toNat → addr.toNat < t.hi →
      ∀ s ∈ c.map, t.lo < s.lo → s.lo < addr.toNat + len.toNat →
        s.lo + (addr.toNat - t.lo) < min (addr.toNat + len.toNat) s.hi

instance : Decidable (Erasable c addr len) := inferInstanceAs (Decidable (_ → _ → _ ∧ _))

theorem intersects_iff {s t : Sector} (hs : s ∈ c.map) (ht : t ∈ c.map) (hlo : t.lo ≤ addr.toNat)
    (hhi : addr.toNat < t.hi) (hlen : 0 < len.toNat) :
    Intersects s addr len ↔ t.lo ≤ s.lo ∧ s.lo < addr.toNat + len.toNat := by
  have hs' := (c.adjoins.bounds hs).2.1
  constructor
  · rintro ⟨x, h1, h2, h3, h4⟩
    refine ⟨?_, by omega⟩
    rcases c.adjoins.before hs ht with rfl | hlt | hgt <;> omega
  · rintro ⟨hle, hlt⟩
    refine ⟨max addr.toNat s.lo, by omega, by omega, by omega, ?_⟩
    rcases c.adjoins.before hs ht with rfl | hlt' | hgt <;> omega

/-- Within the chip the loop erases the right sectors exactly if it visits all of them. -/
theorem erased_iff_visits {t : Sector} {new : List (BitVec 32)} (ht : t ∈ c.map) (hlo : t.lo ≤ addr.toNat)
    (hhi : addr.toNat < t.hi) (hlen : 0 < len.toNat)
    (hnew : ∀ x, x ∈ new ↔
      ∃ s, Visit Sector.lo Sector.hi c.map (addr.toNat + len.toNat) addr.toNat s ∧ x = s.startAddr) :
    (∀ x, x ∈ new ↔ ∃ s ∈ c.map, Intersects s addr len ∧ x = s.startAddr) ↔
      ∀ s ∈ c.map, t.lo ≤ s.lo → s.lo < addr.toNat + len.toNat →
        Visit Sector.lo Sector.hi c.map (addr.toNat + len.toNat) addr.toNat s := by
  constructor
  · intro hall s hs hle hlt
    have hmem := (hall s.startAddr).mpr ⟨s, hs, (intersects_iff hs ht hlo hhi hlen).mpr ⟨hle, hlt⟩, rfl⟩
    obtain ⟨u, hu, heq⟩ := (hnew _).mp hmem
    have hsu : u.lo = s.lo := by rw [Sector.lo, ← heq]; rfl
    have hs' := (c.adjoins.bounds hs).2.1
    have hu' := (c.adjoins.bounds hu.lt.1).2.1
    rwa [c.adjoins.unique hs hu.lt.1 (Nat.le_refl _) hs' hsu.le (by omega)]
  · intro hall x
    rw [hnew]
    constructor
    · rintro ⟨s, hs, rfl⟩
      obtain ⟨hmem, _, hhi', hlo'⟩ := hs.lt
      have hs' := (c.adjoins.bounds hmem).2.1
      exact ⟨s, hmem, ⟨max addr.toNat s.lo, by omega, by omega, by omega, by omega⟩, rfl⟩
    · rintro ⟨s, hs, hint, rfl⟩
      obtain ⟨hle, hlt⟩ := (intersects_iff hs ht hlo hhi hlen).mp hint
      exact ⟨s, hall s hs hle hlt, rfl⟩

theorem flashErase_refused (h : c.size.toNat < addr.toNat ∨ c.size.toNat < (addr + len).toNat) :
    flashErase c.map c.size addr len interrupted ok = some ⟨.EINVAL, []⟩ := by
  by_cases hgt : addr > c.size
  · simp [flashErase, hgt]
  · have hsum : addr + len > c.size := h.resolve_left hgt
    simp [flashErase, hgt, hsum]

theorem flashErase_accepted (h : addr.toNat ≤ c.size.toNat) (hsum : (addr + len).toNat ≤ c.size.toNat) :
    flashErase c.map c.size addr len interrupted ok =
      if interrupted then some ⟨.ERESTARTSYS, []⟩
      else whileLoop (erasePass c.map) ok (2 ^ 32) 0 ⟨len, addr, []⟩ := by
  have h1 : ¬ addr > c.size := Nat.not_lt.mpr h
  have h2 : ¬ addr + len > c.size := Nat.not_lt.mpr hsum
  rw [flashErase, if_neg h1, if_neg h2]

/-- A sum that has wrapped comes from a length that is negative as an `int`: nothing is erased, and
success reported. -/
theorem flashErase_wrapped (h : addr.toNat ≤ c.size.toNat) (hwrap : c.size.toNat < addr.toNat + len.toNat)
    (hsum : (addr + len).toNat ≤ c.size.toNat) :
    whileLoop (erasePass c.map) ok (2 ^ 32) 0 ⟨len, addr, []⟩ = some ⟨.ok, []⟩ := by
  have hsmall := c.small
  rw [BitVec.toNat_add] at hsum
  have hlt := len.isLt
  have hint : len.toInt = (len.toNat : Int) - 2 ^ 32 := by
    rw [BitVec.toInt_eq_toNat_cond, if_neg (by omega)]
    rfl
  have hneg : (0#32).slt len = false := by
    rw [BitVec.slt, decide_eq_false_iff_not, hint, BitVec.toInt_zero]
    omega
  simp [whileLoop, erasePass, hneg]

theorem eraseLoop_within (hok : ∀ k, ok k = true) (h : addr.toNat + len.toNat ≤ c.size.toNat) :
    ∃ new, whileLoop (erasePass c.map) ok (2 ^ 32) 0 ⟨len, addr, []⟩ = some ⟨.ok, new⟩ ∧
      ∀ x, x ∈ new ↔
        ∃ s, Visit Sector.lo Sector.hi c.map (addr.toNat + len.toNat) addr.toNat s ∧ x = s.startAddr := by
  have hsmall := c.small
  have hlen : len.toInt = len.toNat := BitVec.toInt_eq_toNat_of_lt (by omega)
  obtain ⟨new, hrun, hnew⟩ := eraseLoop_visits hok h (2 ^ 32) 0 ⟨len, addr, []⟩
    (by dsimp only; omega) (by dsimp only; omega)
  exact ⟨new, hrun, hnew⟩

theorem right_iff_erasable {new : List (BitVec 32)} (h : addr.toNat + len.toNat ≤ c.size.toNat)
    (hsum : (addr + len).toNat ≤ c.size.toNat)
    (hnew : ∀ x, x ∈ new ↔
      ∃ s, Visit Sector.lo Sector.hi c.map (addr.toNat + len.toNat) addr.toNat s ∧ x = s.startAddr) :
    ErasedRight c addr len ⟨.ok, new⟩ ↔ Erasable c addr len := by
  have hright : ErasedRight c addr len ⟨.ok, new⟩ ↔
      ∀ x, x ∈ new ↔ ∃ s ∈ c.map, Intersects s addr len ∧ x = s.startAddr := by
    constructor
    · rintro ⟨⟨hne, _⟩ | ⟨_, hall⟩, _⟩
      · exact absurd rfl hne
      · exact hall
    · exact fun hall => ⟨.inr ⟨rfl, hall⟩, fun hgt => by omega⟩
  rw [hright]
  rcases Nat.eq_zero_or_pos len.toNat with h0 | hpos
  · -- an empty range: nothing is visited and nothing asked for
    constructor
    · refine fun _ _ _ => ⟨h, fun t ht hlo hhi s hs hlt hlt' => ?_⟩
      have hs' := (c.adjoins.bounds hs).2.1
      rcases c.adjoins.before hs ht with rfl | hst | hts <;> omega
    · intro _ x
      rw [hnew]
      constructor
      · rintro ⟨s, hs, _⟩
        have := hs.lt
        omega
      · rintro ⟨s, _, ⟨y, hy⟩, _⟩
        omega
  · obtain ⟨t, ht, hlo, hhi⟩ := c.adjoins.covered (Nat.zero_le addr.toNat) (by omega)
    rw [erased_iff_visits ht hlo hhi hpos hnew,
      c.adjoins.visit_all_iff h _ addr.toNat t (Nat.le_refl _) ht hlo hhi (by omega)]
    constructor
    · refine fun hall _ _ => ⟨h, fun u hu hlo' hhi' => ?_⟩
      rwa [c.adjoins.unique hu ht hlo' hhi' hlo hhi]
    · exact fun her => (her (by omega) hsum).2 t ht hlo hhi

/-- An erase returns, and is right exactly if it is interrupted or the range is erasable. -/
theorem flashErase_right_iff (hok : ∀ k, ok k = true) :
    ∃ r, flashErase c.map c.size addr len interrupted ok = some r ∧
      (ErasedRight c addr len r ↔ interrupted = true ∨ Erasable c addr len) := by
  by_cases hrange : addr.toNat ≤ c.size.toNat ∧ (addr + len).toNat ≤ c.size.toNat
  · obtain ⟨haddr, hsum⟩ := hrange
    rw [flashErase_accepted haddr hsum]
    cases interrupted with
    | true =>
        refine ⟨_, rfl, fun _ => .inl rfl, fun _ => ⟨.inl ⟨by decide, rfl⟩, fun _ => by decide⟩⟩
    | false =>
        simp only [Bool.false_eq_true, ↓reduceIte, false_or]
        by_cases hwrap : c.size.toNat < addr.toNat + len.toNat
        · refine ⟨_, flashErase_wrapped haddr hwrap hsum, fun h => absurd rfl (h.2 hwrap), fun h => ?_⟩
          have := (h haddr hsum).1
          omega
        · obtain ⟨new, hrun, hnew⟩ := eraseLoop_within hok (Nat.le_of_not_lt hwrap)
          exact ⟨_, hrun, right_iff_erasable (Nat.le_of_not_lt hwrap) hsum hnew⟩
  · have hbad : c.size.toNat < addr.toNat ∨ c.size.toNat < (addr + len).toNat := by omega
    refine ⟨_, flashErase_refused hbad, ?_⟩
    constructor
    · exact fun _ => .inr fun h1 h2 => absurd ⟨h1, h2⟩ hrange
    · exact fun _ => ⟨.inl ⟨by decide, rfl⟩, fun _ => by decide⟩

/-- Eight sectors of 8 KB and fifteen of 64 KB. -/
def bootSectors : Geometry := ⟨⟨8, 8⟩ :: ⟨64, 15⟩ :: List.replicate 14 ⟨0, 0⟩, rfl⟩

def bootChip : Chip := bootSectors.chip (by decide) (by decide)

/-- From the last small sector into the second large one. -/
theorem flashErase_right_boot :
    ∃ r, flashErase bootChip.map bootChip.size 0xe000 0x12001 false (fun _ => true) = some r ∧
      ErasedRight bootChip 0xe000 0x12001 r := by
  obtain ⟨r, hr, hiff⟩ := @flashErase_right_iff 0x12001 bootChip 0xe000 false (fun _ => true) fun _ => rfl
  exact ⟨r, hr, hiff.mpr (.inr (by decide +kernel))⟩

/-- A length that makes the sum wrap is accepted, and nothing erased; a start inside a sector misses the
last sector. -/
theorem flashErase_wrong :
    (∃ r, flashErase bootChip.map bootChip.size 0x10000 0xfffff000 false (fun _ => true) = some r ∧
      ¬ ErasedRight bootChip 0x10000 0xfffff000 r) ∧
    ∃ r, flashErase bootChip.map bootChip.size 0x1000 0x2000 false (fun _ => true) = some r ∧
      ¬ ErasedRight bootChip 0x1000 0x2000 r := by
  have hwrap : flashErase bootChip.map bootChip.size 0x10000 0xfffff000 false (fun _ => true) =
      some ⟨.ok, []⟩ := by
    decide +kernel
  have hmiss : flashErase bootChip.map bootChip.size 0x1000 0x2000 false (fun _ => true) =
      some ⟨.ok, [0]⟩ := by
    decide +kernel
  refine ⟨⟨_, hwrap, fun h => h.2 (by decide +kernel) rfl⟩, ⟨_, hmiss, fun h => ?_⟩⟩
  rcases h.1 with ⟨hne, _⟩ | ⟨_, hall⟩
  · exact hne rfl
  · -- the second sector is in the range
    have hmem := (hall 0x2000).mpr ⟨⟨0x2000, 0x2000⟩, by decide +kernel, ⟨0x2000, by decide⟩, rfl⟩
    simp at hmem

end Erase

end CameraFw.Flash
