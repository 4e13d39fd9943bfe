import CameraFw.Firmware.Theorems
import CameraFw.Firmware.Tool

/-!
# The status says nothing

No path of `main` sets `errcode` to anything but 0, so that only a signal makes a run look failed. A run
is honest if it stores inside the file, or if the accesses that it should not have made kill it.
-/

namespace CameraFw.Firmware

open CameraFw.Base

variable {host : Host} {argv : List (List UInt8)} {m : List UInt8}

/-! ## Words of the memory -/

theorem Host.byteAt_inside {o : Int} (h0 : 0 ≤ o) (h : o < m.length) : host.byteAt m o = m[o.toNat]? :=
  if_pos ⟨h0, h⟩

theorem load_four {o : Nat} {a b c d : UInt8} (ha : m[o]? = some a) (hb : m[o + 1]? = some b)
    (hc : m[o + 2]? = some c) (hd : m[o + 3]? = some d) : load m o 4 = [a, b, c, d] := by
  refine List.ext_getElem? fun k => ?_
  rw [load, List.getElem?_take]
  by_cases hk : k < 4
  · interval_cases k <;> simp_all [List.getElem?_drop]
  · rw [if_neg hk, List.getElem?_eq_none (by simpa using hk)]

/-- Within the file it is the word of the file. -/
theorem Host.wordAt_inside {i : Int} (h0 : 0 ≤ i) (h : 4 * i + 4 ≤ m.length) :
    host.wordAt m i = some (word m (4 * i.toNat)) := by
  obtain ⟨k, rfl⟩ := Int.eq_ofNat_of_zero_le h0
  have hb : ∀ j : Nat, j < 4 → ∃ b, host.byteAt m (4 * (k : Int) + j) = some b ∧ m[4 * k + j]? = some b := by
    intro j hj
    have hlt : 4 * k + j < m.length := by omega
    refine ⟨m[4 * k + j], ?_, List.getElem?_eq_getElem hlt⟩
    rw [Host.byteAt_inside (by omega) (by omega), show (4 * (k : Int) + j).toNat = 4 * k + j by omega]
    exact List.getElem?_eq_getElem hlt
  obtain ⟨a, ha, ha'⟩ := hb 0 (by decide)
  obtain ⟨b, hb', hb''⟩ := hb 1 (by decide)
  obtain ⟨c, hc, hc'⟩ := hb 2 (by decide)
  obtain ⟨d, hd, hd'⟩ := hb 3 (by decide)
  simp only [Nat.cast_zero, Nat.cast_one, Nat.cast_ofNat, Int.add_zero, Nat.add_zero] at ha ha' hb' hc hd
  unfold Host.wordAt
  rw [ha, hb', hc, hd, Int.toNat_natCast, word, le32, load_four ha' hb'' hc' hd']

theorem Host.storesAt_inside {i : Int} (h0 : 0 ≤ i) (h : 4 * i + 4 ≤ m.length) :
    host.storesAt m i = true := by
  refine List.all_eq_true.mpr fun k hk => decide_eq_true (.inl ?_)
  have := List.mem_range.mp hk
  omega

/-- The mapping ends with the file and nothing lies around it. -/
structure Host.Bare (host : Host) : Prop where
  around : ∀ o, host.around o = none
  endures : ∀ o, host.endures o = false

theorem Host.Bare.byteAt_outside (hb : host.Bare) {o : Int} (h : ¬(0 ≤ o ∧ o < m.length)) :
    host.byteAt m o = none :=
  (if_neg h).trans (hb.around o)

theorem Host.Bare.wordAt_eq (hb : host.Bare) (i : Int) : host.wordAt m i = fptr m i := by
  by_cases h : 0 ≤ i ∧ 4 * i + 4 ≤ m.length
  · rw [Host.wordAt_inside h.1 h.2, fptr, if_pos h]
  · rw [fptr, if_neg h]
    unfold Host.wordAt
    by_cases h0 : 0 ≤ i
    · rw [hb.byteAt_outside (o := 4 * i + 3) (by omega)]
      split <;> simp_all
    · rw [hb.byteAt_outside (o := 4 * i) (by omega)]

theorem Host.Bare.storesAt_eq (hb : host.Bare) (i : Int) :
    host.storesAt m i = decide (0 ≤ i ∧ 4 * i + 4 ≤ m.length) := by
  by_cases h : 0 ≤ i ∧ 4 * i + 4 ≤ m.length
  · rw [Host.storesAt_inside h.1 h.2, decide_eq_true h]
  · rw [decide_eq_false h, Host.storesAt, List.all_eq_false]
    by_cases h0 : 0 ≤ i
    · refine ⟨3, by decide, ?_⟩
      simp only [hb.endures, Bool.false_eq_true, or_false, decide_eq_true_eq]
      omega
    · refine ⟨0, by decide, ?_⟩
      simp only [hb.endures, Bool.false_eq_true, or_false, decide_eq_true_eq]
      omega

theorem storeWord_eq {i : Nat} {w : BitVec 32} (h : 4 * i + 4 ≤ m.length) :
    storeWord m i w = store m (4 * i) (toLE 4 w.toNat) := by
  have hlen := length_toLE 4 w.toNat
  refine List.ext_getElem? fun k => ?_
  rw [storeWord, List.getElem?_mapIdx, store, List.append_assoc]
  by_cases h1 : k < 4 * i
  · rw [List.getElem?_append_left (by simp; omega), List.getElem?_take_of_lt h1]
    simp only [show ¬((4 : Int) * i ≤ k ∧ (k : Int) < 4 * i + 4) by omega, if_false, Option.map_id']
  · rw [List.getElem?_append_right (by simp; omega), List.length_take, Nat.min_eq_left (by omega)]
    by_cases h2 : k < 4 * i + 4
    · rw [List.getElem?_append_left (by omega), List.getElem?_eq_getElem (show k < m.length by omega)]
      simp only [show (4 : Int) * i ≤ k ∧ (k : Int) < 4 * i + 4 by omega, if_true, Option.map_some, and_self,
        show ((k : Int) - 4 * i).toNat = k - 4 * i by omega, List.getD_eq_getElem?_getD]
      rw [List.getElem?_eq_getElem (by omega), Option.getD_some]
    · rw [List.getElem?_append_right (by omega), List.getElem?_drop, hlen,
        show 4 * i + 4 + (k - 4 * i - 4) = k by omega]
      simp only [show ¬((4 : Int) * i ≤ k ∧ (k : Int) < 4 * i + 4) by omega, if_false, Option.map_id']

/-! ## The sum -/

theorem Host.Bare.sumLoop_eq (hb : host.Bare) {n : Nat} {i : Int} {c : BitVec 32} :
    host.sumLoop m n i c = Firmware.sumLoop m n i c := by
  induction n generalizing i c with
  | zero => rfl
  | succ n ih =>
      cases h : fptr m i with
      | none => simp only [Host.sumLoop, Firmware.sumLoop, hb.wordAt_eq, h]
      | some w => simp only [Host.sumLoop, Firmware.sumLoop, hb.wordAt_eq, h, ih]

theorem Host.sumLoop_eq_none_iff {n : Nat} {i : Int} {c : BitVec 32} :
    host.sumLoop m n i c = none ↔ ∃ j, i ≤ j ∧ j < i + n ∧ host.wordAt m j = none := by
  induction n generalizing i c with
  | zero =>
      simp only [sumLoop, reduceCtorEq, false_iff, not_exists]
      omega
  | succ n ih =>
      cases hw : host.wordAt m i with
      | none => simpa only [sumLoop, hw, true_iff] using ⟨i, le_refl i, by omega, hw⟩
      | some w =>
          simp only [sumLoop, hw, ih]
          constructor
          · rintro ⟨j, h1, h2, h⟩
            exact ⟨j, by omega, by omega, h⟩
          · rintro ⟨j, h1, h2, h⟩
            have hne : j ≠ i := by
              rintro rfl
              simp [hw] at h
            exact ⟨j, by omega, by omega, h⟩

/-! ## How a run ends -/

theorem Host.insert_of_faults (h : host.Faults argv m) : host.insert argv m = ⟨none, none, some m⟩ := by
  unfold Host.insert
  cases hs : host.sumLoop m ((endOffset argv).tdiv 4 - (startOffset argv).tdiv 4).toNat
    ((startOffset argv).tdiv 4) 0 with
  | none => rfl
  | some checksum =>
      rcases h with ⟨i, h1, h2, hi⟩ | h
      · have hnone : host.sumLoop m ((endOffset argv).tdiv 4 - (startOffset argv).tdiv 4).toNat
            ((startOffset argv).tdiv 4) 0 = none :=
          Host.sumLoop_eq_none_iff.mpr ⟨i, h1, by omega, hi⟩
        cases hs.symm.trans hnone
      · simp only [h, Bool.false_eq_true, if_false]

theorem Host.insert_of_not_faults (h : ¬host.Faults argv m) :
    ∃ w, host.insert argv m =
      ⟨some 0, some (4 * (checksumOffset argv).tdiv 4),
        some (storeWord m ((checksumOffset argv).tdiv 4) w)⟩ := by
  obtain ⟨hl, hs⟩ := not_or.mp h
  unfold Host.insert
  cases hsum : host.sumLoop m ((endOffset argv).tdiv 4 - (startOffset argv).tdiv 4).toNat
    ((startOffset argv).tdiv 4) 0 with
  | none =>
      obtain ⟨j, h1, h2, hj⟩ := Host.sumLoop_eq_none_iff.mp hsum
      exact absurd ⟨j, h1, by omega, hj⟩ hl
  | some checksum => exact ⟨_, if_pos (Bool.not_eq_false _ ▸ hs)⟩

theorem Host.opened_file (h : host.opened argv = some m) : host.file (argv.getD 1 []) = some m := by
  unfold Host.opened at h
  cases hf : host.file (argv.getD 1 []) with
  | none =>
      simp only [hf] at h
      split_ifs at h
  | some m' =>
      simp only [hf] at h
      split_ifs at h
      exact h

theorem Host.Bare.insert_file (hb : host.Bare) :
    (host.insert argv m).file =
      some (((Firmware.sumLoop m ((endOffset argv).tdiv 4 - (startOffset argv).tdiv 4).toNat
      ((startOffset argv).tdiv 4) 0).bind fun c =>
        setFptr m ((checksumOffset argv).tdiv 4) (~~~c + 1)).getD m) := by
  unfold Host.insert
  rw [hb.sumLoop_eq]
  cases Firmware.sumLoop m ((endOffset argv).tdiv 4 - (startOffset argv).tdiv 4).toNat
    ((startOffset argv).tdiv 4) 0 with
  | none => rfl
  | some c =>
      simp only [hb.storesAt_eq, Option.bind_some, setFptr]
      by_cases h : 0 ≤ (checksumOffset argv).tdiv 4 ∧ 4 * (checksumOffset argv).tdiv 4 + 4 ≤ m.length
      · obtain ⟨k, hk⟩ := Int.eq_ofNat_of_zero_le h.1
        simp only [h, and_self, decide_true, if_true, Option.getD_some]
        rw [hk] at h ⊢
        rw [storeWord_eq (by omega), Int.toNat_natCast]
      · simp only [h, decide_false, Bool.false_eq_true, if_false, Option.getD_none]

theorem main_eq_mapped (hmm : host.mmap = true) :
    main m (number (argv.getD 2 [])) (number (argv.getD 3 []))
      (if argv.length = 5 then some (number (argv.getD 4 [])) else none) =
      if endOffset argv = 0 ∨ host.mapped argv m = false then some m
      else (Firmware.sumLoop m ((endOffset argv).tdiv 4 - (startOffset argv).tdiv 4).toNat
        ((startOffset argv).tdiv 4) 0).bind fun c => setFptr m ((checksumOffset argv).tdiv 4) (~~~c + 1) := by
  have hm : host.mapped argv m = false ↔
      m = [] ∨ (m.length : Int) < endOffset argv ∨ endOffset argv < startOffset argv := by
    simp only [Host.mapped, hmm, true_and, decide_eq_false_iff_not, not_and_or, not_not, ne_eq]
  by_cases h : endOffset argv = 0 ∨ host.mapped argv m = false
  · rw [if_pos h]
    rw [hm] at h
    simp only [main, startOffset, endOffset] at h ⊢
    split_ifs with h1 h2 h3 h4
    · rfl
    · rfl
    · rfl
    · rfl
    all_goals exact absurd h (not_or.mpr ⟨h1, not_or.mpr ⟨h2, not_or.mpr ⟨h3, h4⟩⟩⟩)
  · rw [if_neg h]
    rw [hm] at h
    simp only [startOffset, endOffset, not_or] at h ⊢
    simp only [main, h, if_false]
    cases Firmware.sumLoop m _ ((toInt (number (argv.getD 2 []))).tdiv 4) 0 with
    | none => rfl
    | some c =>
        simp only [Option.bind_some, checksumOffset, endOffset]
        split_ifs <;> rfl

/-- Where nothing lies around the file and all calls succeed, a run does to it what `main` does. -/
theorem Host.Bare.tool_file (hb : host.Bare) (hs : host.fstat = true) (hmm : host.mmap = true)
    (hargc : 4 ≤ argv.length) (hf : host.file (argv.getD 1 []) = some m) :
    (host.tool argv).file = some ((main m (number (argv.getD 2 [])) (number (argv.getD 3 []))
      (if argv.length = 5 then some (number (argv.getD 4 [])) else none)).getD m) := by
  have hopen : host.opened argv = if endOffset argv = 0 then none else some m := by
    rw [Host.opened, if_neg (by omega), hf]
    simp [hs]
  rw [main_eq_mapped hmm, Host.tool, hopen, hf]
  by_cases he : endOffset argv = 0
  · cases host.unmaps <;> simp [he]
  · cases hm : host.mapped argv m with
    | false => simp [he, hm]
    | true => simp only [he, hm, if_false, if_true, hb.insert_file, Bool.true_eq_false, or_self]

/-! ## Honest runs -/

/-- A status of 0 without a store is a lie. -/
theorem not_honest_of_idle {file : Option (List UInt8)} (h : host.tool argv = ⟨some 0, none, file⟩) :
    ¬Honest host argv := by
  intro hh
  obtain ⟨_, off, _, hoff, _⟩ := hh.status.mp (by rw [h])
  simp [h] at hoff

/-- A signal in front of every store is no lie. -/
theorem honest_of_signal (h : host.tool argv = ⟨none, none, host.file (argv.getD 1 [])⟩) :
    Honest host argv where
  status := by simp [h]
  offsets := by simp [h]
  unchanged := by simp [h]

theorem honest_of_stored {w : BitVec 32} (hf : host.file (argv.getD 1 []) = some m)
    (h : host.tool argv = ⟨some 0, some (4 * (checksumOffset argv).tdiv 4),
      some (storeWord m ((checksumOffset argv).tdiv 4) w)⟩) :
    Honest host argv ↔ OffsetsInside argv m.length := by
  constructor
  · intro hh
    exact hh.offsets (by rw [h]) m hf
  · intro hin
    have hpos := Int.tdiv_nonneg hin.checksum (by decide : (0 : Int) ≤ 4)
    refine ⟨?_, ?_, ?_⟩
    · simp only [h, true_iff]
      exact ⟨m, _, hf, rfl, by omega, hin.word, Int.dvd_mul_right _ _⟩
    · intro _ m' hm'
      rw [Option.some.inj (hm'.symm.trans hf)]
      exact hin
    · simp [h]

/-- The runs whose status can be trusted. -/
theorem tool_honest_iff (host : Host) (argv : List (List UInt8)) :
    Honest host argv ↔
      (host.opened argv = none ∧ host.unmaps = true) ∨
      ∃ m, host.opened argv = some m ∧ host.mapped argv m = true ∧
        (host.Faults argv m ∨ OffsetsInside argv m.length) := by
  cases ho : host.opened argv with
  | none =>
      simp only [true_and, reduceCtorEq, false_and, exists_false, or_false]
      cases hu : host.unmaps with
      | true => simpa only [iff_true] using honest_of_signal (by simp [Host.tool, ho, hu])
      | false =>
          have hidle : host.tool argv = ⟨some 0, none, host.file (argv.getD 1 [])⟩ := by
            simp [Host.tool, ho, hu]
          simpa only [Bool.false_eq_true, iff_false] using not_honest_of_idle hidle
  | some m =>
      have hf := Host.opened_file ho
      simp only [reduceCtorEq, false_and, false_or, Option.some.injEq, exists_eq_left']
      by_cases hm : host.mapped argv m = true
      · by_cases hfault : host.Faults argv m
        · simp only [hm, hfault, true_or, true_and, iff_true]
          exact honest_of_signal (by simp only [Host.tool, ho, hm, if_true, Host.insert_of_faults hfault, hf])
        · obtain ⟨w, hw⟩ := Host.insert_of_not_faults hfault
          simp only [hm, hfault, false_or, true_and]
          exact honest_of_stored hf (by simp only [Host.tool, ho, hm, if_true, hw]; rfl)
      · have hidle : host.tool argv = ⟨some 0, none, host.file (argv.getD 1 [])⟩ := by
          simp [Host.tool, ho, hm]
        simpa only [hm, Bool.false_eq_true, false_and, iff_false] using not_honest_of_idle hidle

/-- A host with a file of eight bytes, mapped into a page. -/
def paged : Host where
  file _ := some (List.replicate 8 0)
  fstat := true
  mmap := true
  around o := if 0 ≤ o ∧ o < 4096 then some 0 else none
  endures o := decide (0 ≤ o ∧ o < 4096)
  unmaps := false

/-- No arguments at all, a range that ends behind the file, a word that goes behind it because it is put
at the end of the range, an offset in front of the file that the division takes into it: 0 each time. -/
theorem tool_lies :
    paged.tool [ascii "checksum"] = ⟨some 0, none, some (List.replicate 8 0)⟩ ∧
    paged.tool [ascii "checksum", ascii "fw", ascii "0", ascii "0x10"] =
      ⟨some 0, none, some (List.replicate 8 0)⟩ ∧
    paged.tool [ascii "checksum", ascii "fw", ascii "0", ascii "8"] =
      ⟨some 0, some 8, some (List.replicate 8 0)⟩ ∧
    checksumOffset [ascii "checksum", ascii "fw", ascii "0", ascii "8", ascii "-3"] = -3 ∧
    paged.tool [ascii "checksum", ascii "fw", ascii "0", ascii "8", ascii "-3"] =
      ⟨some 0, some 0, some (List.replicate 8 0)⟩ ∧
    ¬Honest paged [ascii "checksum"] := by
  have h : paged.tool [ascii "checksum"] = ⟨some 0, none, some (List.replicate 8 0)⟩ := by decide
  exact ⟨h, by decide +kernel, by decide +kernel, by decide, by decide +kernel, not_honest_of_idle h⟩

end CameraFw.Firmware
