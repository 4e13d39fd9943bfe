import CameraFw.Gio.Registers

/-!
# One pin at a time

Each setter changes the bits of its pin and nothing else, and each getter reads the bits of its pin, but
for the getter of the interrupt edges: its mask is 0x11, not 3.
-/

namespace CameraFw.Gio

variable {r : Regs} {w k : Nat}

/-! ## Bits -/

@[simp] theorem getLsbD_readBits (i : Nat) : (readBits w r k).getLsbD i = (decide (i < w) && r (k + i)) := by
  unfold readBits
  rw [BitVec.getLsbD_ofFnLE]
  by_cases h : i < w <;> simp [h]

theorem getLsbD_one_shiftLeft {i j : Nat} (hw : 0 < w) :
    (1#w <<< i).getLsbD j = (decide (j < w) && decide (j = i)) := by
  rw [BitVec.getLsbD_shiftLeft, BitVec.getLsbD_one]
  by_cases hj : j < w
  · by_cases hji : j < i
    · simp [hj, hji, show ¬j = i by omega]
    · simp only [hj, hji, decide_true, decide_false, Bool.true_and, Bool.not_false, hw, Bool.true_and]
      exact decide_eq_decide.mpr (by omega)
  · simp [hj]

/-- Setting one bit of what is read, and writing it back. -/
theorem writeBits_or {i : Nat} (hi : i < w) :
    writeBits r k (readBits w r k ||| (1#w <<< i)) = Function.update r (k + i) true := by
  funext j
  unfold writeBits
  by_cases hj : j = k + i
  · subst hj
    rw [if_pos (by omega), Function.update_self, BitVec.getLsbD_or, getLsbD_one_shiftLeft (by omega)]
    simp [show k + i - k = i by omega, hi]
  · rw [Function.update_of_ne hj]
    split
    · rename_i h
      rw [BitVec.getLsbD_or, getLsbD_one_shiftLeft (by omega), getLsbD_readBits]
      simp [show ¬(j - k = i) by omega, show k + (j - k) = j by omega, show j - k < w by omega]
    · rfl

theorem writeBits_and_not {i : Nat} (hi : i < w) :
    writeBits r k (readBits w r k &&& ~~~(1#w <<< i)) = Function.update r (k + i) false := by
  funext j
  unfold writeBits
  by_cases hj : j = k + i
  · subst hj
    rw [if_pos (by omega), Function.update_self, BitVec.getLsbD_and, BitVec.getLsbD_not,
      getLsbD_one_shiftLeft (by omega)]
    simp [show k + i - k = i by omega, hi]
  · rw [Function.update_of_ne hj]
    split
    · rename_i h
      rw [BitVec.getLsbD_and, BitVec.getLsbD_not, getLsbD_one_shiftLeft (by omega), getLsbD_readBits]
      simp [show ¬(j - k = i) by omega, show k + (j - k) = j by omega, show j - k < w by omega]
    · rfl

theorem readBits_writeBits (v : BitVec w) : readBits w (writeBits r k v) k = v := by
  refine BitVec.eq_of_getLsbD_eq fun i hi => ?_
  rw [getLsbD_readBits, writeBits, if_pos (by omega)]
  simp [hi]

theorem writeBits_writeBits (u v : BitVec w) : writeBits (writeBits r k u) k v = writeBits r k v := by
  funext j
  unfold writeBits
  split <;> rfl

/-! ## One bit for each pin -/

section Pins

variable {base gpio : Nat} {bit : BitVec 8}

theorem writeGpio_eq (h : gpio ≤ 15) :
    writeGpio r gpio base bit = Function.update r (8 * base + gpio) (bit ≠ 0) := by
  unfold writeGpio
  split
  · rename_i hbit
    rw [writew, readw, writeBits_or (by omega), decide_eq_true hbit]
  · rename_i hbit
    rw [writew, readw, writeBits_and_not (by omega), decide_eq_false hbit]

theorem readGpio_eq (h : gpio ≤ 15) : readGpio r gpio base = if r (8 * base + gpio) then 1 else 0 := by
  refine BitVec.eq_of_getLsbD_eq fun i hi => ?_
  have hone : (0x01 : BitVec 16).getLsbD i = decide (i = 0) := by simp [BitVec.getLsbD_one]
  rw [readGpio, BitVec.getLsbD_setWidth, BitVec.getLsbD_and, hone, BitVec.getLsbD_ushiftRight, readw,
    getLsbD_readBits]
  by_cases hi0 : i = 0
  · subst hi0
    cases r (8 * base + gpio) <;> simp [show gpio < 16 by omega]
  · cases r (8 * base + gpio) <;> simp [hi0]

theorem setPin_eq (h : gpio ≤ 15) :
    setPin base r gpio bit = Function.update r (8 * base + gpio) (bit ≠ 0) := by
  rw [setPin, if_neg (by omega), writeGpio_eq h]

theorem getPin_eq (h : gpio ≤ 15) : getPin base r gpio = if r (8 * base + gpio) then 1 else 0 := by
  rw [getPin, if_neg (by omega), readGpio_eq h]

/-- The half words around the register of the levels reach the bits that are read from it. -/
theorem setIrqLevel_eq_setPin (gpio : Nat) : setIrqLevel r gpio bit = setPin GPIO_KEY_LEVEL r gpio bit := by
  unfold setIrqLevel
  by_cases h : gpio > 15
  · rw [if_pos h, setPin, if_pos h]
  · rw [if_neg h, setPin_eq (by omega)]
    split
    · rw [writeGpio_eq (by omega), show 8 * (GPIO_KEY_LEVEL - 1) + (gpio + 8) = 8 * GPIO_KEY_LEVEL + gpio by
        simp only [GPIO_KEY_LEVEL]; omega]
    · rw [writeGpio_eq (by omega),
        show 8 * (GPIO_KEY_LEVEL + 1) + (gpio - 8) = 8 * GPIO_KEY_LEVEL + gpio by omega]

/-- The registers with one bit for each pin. -/
def pinRegs : List Nat :=
  [GPIO_ENB, GPIO_DO, GPIO_OE, GPIO_DI, GPIO_KEY_ENB, GPIO_KEY_POL, GPIO_KEY_LEVEL, GPIO_KEY_MASK,
    GPIO_KEY_STATUS]

theorem pinRegs_apart {a b : Nat} (ha : a ∈ pinRegs) (hb : b ∈ pinRegs) : a = b ∨ a + 2 ≤ b ∨ b + 2 ≤ a := by
  have : ∀ a ∈ pinRegs, ∀ b ∈ pinRegs, a = b ∨ a + 2 ≤ b ∨ b + 2 ≤ a := by decide
  exact this a ha b hb

/-- What is set for a pin is read back, and no other pin or register sees it. -/
theorem getPin_setPin {other q : Nat} (hb : base ∈ pinRegs) (ho : other ∈ pinRegs) (hp : gpio ≤ 15)
    (hq : q ≤ 15) :
    getPin other (setPin base r gpio bit) q =
      if other = base ∧ q = gpio then (if bit ≠ 0 then 1 else 0) else getPin other r q := by
  have hapart := pinRegs_apart hb ho
  rw [getPin_eq hq, getPin_eq hq, setPin_eq hp]
  by_cases h : other = base ∧ q = gpio
  · obtain ⟨rfl, rfl⟩ := h
    simp only [Function.update_self, and_self, if_true, decide_eq_true_eq]
  · rw [Function.update_of_ne (by omega), if_neg h]

/-- A direction that is set is the one that is read. -/
theorem getDir_setDir {dir : Dir} (h : gpio ≤ 15) (hdir : dir ≠ .GIO_DIR_UNKNOWN) :
    getDir (setDir r gpio dir) gpio = some dir := by
  have hset : ¬gpio > 15 := by omega
  have hne : 8 * GPIO_ENB + gpio ≠ 8 * GPIO_KEY_ENB + gpio := by simp only [GPIO_ENB, GPIO_KEY_ENB]; omega
  simp only [getDir, setDir, if_neg hset]
  cases dir with
  | GIO_DIR_UNKNOWN => exact absurd rfl hdir
  | GIO_DIR_IN => simp [readGpio_eq h, writeGpio_eq h, Function.update_of_ne hne]
  | GIO_DIR_OUT => simp [readGpio_eq h, writeGpio_eq h, Function.update_of_ne hne.symm]

end Pins

/-! ## Interrupt edges -/

theorem writeBits_or_and_not {v : BitVec w} {i : Nat} (hi : i < w) :
    writeBits r k (v ||| (1#w <<< i)) = Function.update (writeBits r k v) (k + i) true ∧
      writeBits r k (v &&& ~~~(1#w <<< i)) = Function.update (writeBits r k v) (k + i) false := by
  have hor := @writeBits_or (writeBits r k v) w k i hi
  have hand := @writeBits_and_not (writeBits r k v) w k i hi
  rw [readBits_writeBits, writeBits_writeBits] at hor hand
  exact ⟨hor, hand⟩

theorem edgeBit_eq (gpio : Nat) : 8 * GPIO_KEY_EDGE + gpio * 2 = edgeBit gpio := by
  rw [edgeBit, Nat.mul_comm gpio]

/-- Setting an edge writes the two bits of its pin. -/
theorem setIrqEdge_eq {gpio : Nat} {edge : Edge} (h : gpio ≤ 15) :
    setIrqEdge r gpio edge = Function.update (Function.update r (edgeBit gpio) (edge.code.getLsbD 0))
      (edgeBit gpio + 1) (edge.code.getLsbD 1) := by
  have hlow : gpio * 2 < 32 := by omega
  have hhigh : gpio * 2 + 1 < 32 := by omega
  rw [setIrqEdge, if_neg (by omega)]
  simp only [writel, readl]
  cases edge with
  | GIO_FALLING_EDGE =>
      rw [(writeBits_or_and_not hhigh).1, writeBits_and_not hlow, ← Nat.add_assoc, edgeBit_eq]
      rfl
  | GIO_RISING_EDGE =>
      rw [(writeBits_or_and_not hhigh).2, writeBits_or hlow, ← Nat.add_assoc, edgeBit_eq]
      rfl
  | GIO_ANY_EDGE =>
      rw [(writeBits_or_and_not hhigh).2, writeBits_and_not hlow, ← Nat.add_assoc, edgeBit_eq]
      rfl

theorem setIrqEdge_low {gpio q : Nat} {edge : Edge} (h : gpio ≤ 15) :
    setIrqEdge r gpio edge (edgeBit q) = if q = gpio then edge.code.getLsbD 0 else r (edgeBit q) := by
  rw [setIrqEdge_eq h, Function.update_of_ne (by unfold edgeBit; omega)]
  split
  · rename_i hq
    rw [hq, Function.update_self]
  · rw [Function.update_of_ne (by unfold edgeBit; omega)]

theorem setIrqEdge_high {gpio q : Nat} {edge : Edge} (h : gpio ≤ 15) :
    setIrqEdge r gpio edge (edgeBit q + 1) = if q = gpio then edge.code.getLsbD 1 else r (edgeBit q + 1) := by
  rw [setIrqEdge_eq h]
  split
  · rename_i hq
    rw [hq, Function.update_self]
  · rw [Function.update_of_ne (by unfold edgeBit; omega), Function.update_of_ne (by unfold edgeBit; omega)]

/-- The fields after an edge is set: the pin has its edge, the others have what they had. -/
theorem edgeField_setIrqEdge {gpio q : Nat} {edge : Edge} (h : gpio ≤ 15) :
    edgeField (setIrqEdge r gpio edge) q = if q = gpio then edge.code else edgeField r q := by
  refine BitVec.eq_of_getLsbD_eq fun i hi => ?_
  rw [edgeField, getLsbD_readBits, decide_eq_true hi, Bool.true_and]
  obtain rfl | rfl : i = 0 ∨ i = 1 := by omega
  · rw [Nat.add_zero, setIrqEdge_low h]
    split
    · rfl
    · rw [edgeField, getLsbD_readBits, decide_eq_true hi, Bool.true_and, Nat.add_zero]
  · rw [setIrqEdge_high h]
    split
    · rfl
    · rw [edgeField, getLsbD_readBits, decide_eq_true hi, Bool.true_and]

/-- What the getter makes of the register: the lower bit of the pin, and as 16 the lower bit of the pin
two places on. -/
theorem getLsbD_getIrqEdge {gpio i : Nat} (h : gpio ≤ 15) (hi : i < 8) :
    (getIrqEdge r gpio).getLsbD i =
      ((i = 0 && r (edgeBit gpio)) || (i = 4 && (decide (gpio + 2 ≤ 15) && r (edgeBit (gpio + 2))))) := by
  have hmask : (0x0011 : BitVec 32).getLsbD i = (decide (i = 0) || decide (i = 4)) := by
    have : ∀ i < 8, (0x0011 : BitVec 32).getLsbD i = (decide (i = 0) || decide (i = 4)) := by decide
    exact this i hi
  rw [getIrqEdge, if_neg (by omega), BitVec.getLsbD_setWidth, BitVec.getLsbD_and, hmask,
    BitVec.getLsbD_ushiftRight, readl, getLsbD_readBits]
  by_cases h0 : i = 0
  · subst h0
    simp [show gpio * 2 < 32 by omega, edgeBit_eq]
  · by_cases h4 : i = 4
    · subst h4
      simp [← Nat.add_assoc, edgeBit_eq, show edgeBit gpio + 4 = edgeBit (gpio + 2) by unfold edgeBit; omega,
        show gpio * 2 + 4 < 32 ↔ gpio + 2 ≤ 15 by omega]
    · simp [h0, h4]

/-- The getter gives the two bits of a pin exactly if the upper one is 0 and the lower one of the pin
two places on is 0. -/
theorem getIrqEdge_eq_field_iff {gpio : Nat} (h : gpio ≤ 15) :
    getIrqEdge r gpio = (edgeField r gpio).setWidth 8 ↔
      r (edgeBit gpio + 1) = false ∧ (gpio + 2 ≤ 15 → r (edgeBit (gpio + 2)) = false) := by
  have hfield : ∀ i < 8, ((edgeField r gpio).setWidth 8).getLsbD i =
      (decide (i < 2) && r (edgeBit gpio + i)) := by
    intro i hi
    rw [BitVec.getLsbD_setWidth, edgeField, getLsbD_readBits, decide_eq_true hi, Bool.true_and]
  constructor
  · intro heq
    have hone := hfield 1 (by decide)
    have hfour := hfield 4 (by decide)
    rw [← heq, getLsbD_getIrqEdge h (by decide)] at hone hfour
    refine ⟨by simpa using hone.symm, fun hq => ?_⟩
    simpa [hq] using hfour
  · rintro ⟨hupper, hnext⟩
    refine BitVec.eq_of_getLsbD_eq fun i hi => ?_
    rw [hfield i hi, getLsbD_getIrqEdge h hi]
    by_cases h0 : i = 0
    · subst h0; simp
    · by_cases h1 : i = 1
      · subst h1; simp [hupper]
      · have hfour : (decide (gpio + 2 ≤ 15) && r (edgeBit (gpio + 2))) = false := by
          by_cases hq : gpio + 2 ≤ 15
          · rw [hnext hq, Bool.and_false]
          · rw [decide_eq_false hq, Bool.false_and]
        rw [hfour, decide_eq_false h0, decide_eq_false (show ¬i < 2 by omega)]
        simp

/-- The input functions stand in a byte of their own: no pin is read differently after they are set. -/
theorem setInFunc_frame {base gpio : Nat} (hb : base ∈ pinRegs) (hp : gpio ≤ 15) (flags : BitVec 8) :
    getPin base (setInFunc r flags) gpio = getPin base r gpio ∧
      edgeField (setInFunc r flags) gpio = edgeField r gpio ∧
      readb (setInFunc r flags) GPIO_RSTN_63 = readb r GPIO_RSTN_63 ||| flags := by
  have hother : ∀ j, ¬(8 * GPIO_RSTN_63 ≤ j ∧ j < 8 * GPIO_RSTN_63 + 8) → setInFunc r flags j = r j :=
    fun j hj => if_neg hj
  have hapart : ∀ b ∈ pinRegs, b + 2 ≤ GPIO_RSTN_63 ∨ GPIO_RSTN_63 + 1 ≤ b := by decide
  refine ⟨?_, ?_, readBits_writeBits _⟩
  · have := hapart base hb
    rw [getPin_eq hp, getPin_eq hp, hother _ (by omega)]
  · refine BitVec.eq_of_getLsbD_eq fun i hi => ?_
    rw [edgeField, edgeField, getLsbD_readBits, getLsbD_readBits,
      hother _ (by simp only [edgeBit, GPIO_KEY_EDGE, GPIO_RSTN_63]; omega)]

/-- Setting an edge changes the two bits of its pin only, to the edge. Any pin is then read as its two
bits exactly if its edge is not a falling one and the edge two pins on is not a rising one (or, of
values nobody sets, both bits are set). -/
theorem irqEdge_isolated_iff (r : Regs) (p q : Fin 16) (edge : Edge) :
    ((∀ k, k ≠ edgeBit p → k ≠ edgeBit p + 1 → setIrqEdge r p edge k = r k) ∧
        edgeField (setIrqEdge r p edge) p = edge.code ∧
        getIrqEdge (setIrqEdge r p edge) q = (edgeField (setIrqEdge r p edge) q).setWidth 8) ↔
      (if (q : Nat) = p then edge ≠ .GIO_FALLING_EDGE else r (edgeBit q + 1) = false) ∧
        ((q : Nat) + 2 ≤ 15 → if (q : Nat) + 2 = p then edge ≠ .GIO_RISING_EDGE
          else r (edgeBit (q + 2)) = false) := by
  have hp : (p : Nat) ≤ 15 := by omega
  have hset : (∀ k, k ≠ edgeBit p → k ≠ edgeBit p + 1 → setIrqEdge r p edge k = r k) ∧
      edgeField (setIrqEdge r p edge) p = edge.code := by
    refine ⟨fun k hlow hhigh => ?_, by rw [edgeField_setIrqEdge hp, if_pos rfl]⟩
    rw [setIrqEdge_eq hp, Function.update_of_ne hhigh, Function.update_of_ne hlow]
  rw [getIrqEdge_eq_field_iff (by omega), and_iff_right hset.1, and_iff_right hset.2]
  refine and_congr ?_ (imp_congr_right fun _ => ?_)
  · rw [setIrqEdge_high hp]
    split
    · cases edge <;> decide
    · rfl
  · rw [setIrqEdge_low hp]
    split
    · cases edge <;> decide
    · rfl

/-- A falling edge is read as any edge, and a rising edge of pin 2 is seen at pin 0. -/
theorem irqEdge_misread :
    getIrqEdge (setIrqEdge (fun _ => false) 0 .GIO_FALLING_EDGE) 0 = 0 ∧
      edgeField (setIrqEdge (fun _ => false) 0 .GIO_FALLING_EDGE) 0 = 2 ∧
      getIrqEdge (setIrqEdge (fun _ => false) 2 .GIO_RISING_EDGE) 0 = 16 := by
  decide +kernel

end CameraFw.Gio
