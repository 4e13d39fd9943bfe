import CameraFw.Crontab.Grammar

/-!
# `decode_elem` sets the values of the elements
-/

namespace CameraFw.Crontab

open CameraFw.Base

/-! ## Bits -/

theorem toNat_bitMask {r : Nat} (h : r < 8) : (UInt8.ofNat (1 <<< r)).toNat = 2 ^ r := by
  have hpow : 2 ^ r < 2 ^ 8 := Nat.pow_lt_pow_right (by decide) h
  rw [UInt8.toNat_ofNat', Nat.one_shiftLeft, Nat.mod_eq_of_lt hpow]

theorem testBit_lowMask {r k : Nat} (hr : r < 8) :
    (UInt8.ofNat (0xff >>> (8 - r))).toNat.testBit k = decide (k < r) := by
  have hlt : 0xff >>> (8 - r) < 2 ^ 8 := lt_of_le_of_lt (Nat.shiftRight_le _ _) (by decide)
  rw [UInt8.toNat_ofNat', Nat.mod_eq_of_lt hlt, Nat.testBit_shiftRight, show 0xff = 2 ^ 8 - 1 from rfl,
    Nat.testBit_two_pow_sub_one]
  exact decide_eq_decide.mpr (by omega)

theorem testBit_highMask {r k : Nat} (hk : k < 8) :
    (UInt8.ofNat (0xff <<< (r + 1))).toNat.testBit k = decide (r < k) := by
  rw [UInt8.toNat_ofNat', Nat.testBit_mod_two_pow, Nat.testBit_shiftLeft, show 0xff = 2 ^ 8 - 1 from rfl,
    Nat.testBit_two_pow_sub_one, ← Bool.decide_and, ← Bool.decide_and]
  exact decide_eq_decide.mpr (by omega)

theorem bitTest_eq_testBit (bits : Bitstr) (i : Nat) :
    bitTest bits i = (bits.getD (i / 8) 0).toNat.testBit (i % 8) := by
  have hmask := toNat_bitMask (Nat.mod_lt i (show 0 < 8 by decide))
  have hzero : ∀ b : UInt8, (b ≠ 0) ↔ b.toNat ≠ 0 := fun b => by rw [ne_eq, ← UInt8.toNat_inj]; rfl
  simp only [bitTest, hzero, UInt8.toNat_and, hmask, Nat.and_two_pow]
  cases Nat.testBit _ _ <;> simp

@[simp] theorem length_bitSet (bits : Bitstr) (i : Nat) : (bitSet bits i).length = bits.length :=
  List.length_modify _ _ _

theorem bitTest_bitSet {bits : Bitstr} {i : Nat} (h : i / 8 < bits.length) (j : Nat) :
    bitTest (bitSet bits i) j = (bitTest bits j || decide (j = i)) := by
  have hmask := toNat_bitMask (Nat.mod_lt i (show 0 < 8 by decide))
  rw [bitTest_eq_testBit, bitTest_eq_testBit, bitSet, List.getD_eq_getElem?_getD, List.getElem?_modify]
  by_cases hb : i / 8 = j / 8
  · have hj : j / 8 < bits.length := hb ▸ h
    have heq : (i % 8 = j % 8) = (j = i) := by simp only [eq_iff_iff]; omega
    simp [hb, hj, UInt8.toNat_or, hmask, Nat.testBit_or, Nat.testBit_two_pow, heq]
  · have hne : j ≠ i := by rintro rfl; exact hb rfl
    simp [hb, hne]

@[simp] theorem length_bitNclear (bits : Bitstr) (start stop : Nat) :
    (bitNclear bits start stop).length = bits.length := by simp [bitNclear]

theorem bitTest_bitNclear {bits : Bitstr} {start stop : Nat} (h : start ≤ stop) (i : Nat) :
    bitTest (bitNclear bits start stop) i = (bitTest bits i && !decide (start ≤ i ∧ i ≤ stop)) := by
  rw [bitTest_eq_testBit, bitTest_eq_testBit, bitNclear, List.getD_eq_getElem?_getD, List.getElem?_mapIdx]
  cases hb : bits[i / 8]? with
  | none => simp [hb]
  | some b =>
      have hs := Nat.mod_lt start (show 0 < 8 by decide)
      have hi := Nat.mod_lt i (show 0 < 8 by decide)
      have hmask : ∀ (A : Prop) [Decidable A], (A ↔ ¬ (start ≤ i ∧ i ≤ stop)) →
          (b.toNat.testBit (i % 8) && decide A) =
            (b.toNat.testBit (i % 8) && !decide (start ≤ i ∧ i ≤ stop)) := by
        intro A _ hA
        rw [decide_eq_decide.mpr hA, decide_not]
      simp only [Option.map_some, Option.getD_some, List.getD_eq_getElem?_getD, hb]
      split_ifs with hsame hbyte hfirst hmid hlast
      · rw [UInt8.toNat_and, UInt8.toNat_or, Nat.testBit_and, Nat.testBit_or, testBit_lowMask hs,
          testBit_highMask hi, ← Bool.decide_or]
        exact hmask _ (by omega)
      · simpa using hmask True (by simp only [true_iff]; omega)
      · rw [UInt8.toNat_and, Nat.testBit_and, testBit_lowMask hs]
        exact hmask _ (by omega)
      · have hin : start ≤ i ∧ i ≤ stop := by omega
        simp [hin]
      · rw [UInt8.toNat_and, Nat.testBit_and, testBit_highMask hi]
        exact hmask _ (by omega)
      · simpa using hmask True (by simp only [true_iff]; omega)

/-- The loop sets every value from its start to its end that the step reaches. -/
theorem bitTest_bitSetEvery {step eval : Nat} (hstep : 0 < step) :
    ∀ {n i : Nat} {bits : Bitstr}, eval < i + n → eval / 8 < bits.length → ∀ j,
      bitTest (bitSetEvery step eval n i bits) j =
        (bitTest bits j || decide (i ≤ j ∧ j ≤ eval ∧ step ∣ j - i)) := by
  intro n
  induction n with
  | zero =>
      intro i bits hn _ j
      have hout : ¬ (i ≤ j ∧ j ≤ eval ∧ step ∣ j - i) := by omega
      simp [bitSetEvery, hout]
  | succ n ih =>
      intro i bits hn hlen j
      simp only [bitSetEvery]
      split_ifs with hi
      · have hbyte : i / 8 < bits.length := lt_of_le_of_lt (Nat.div_le_div_right hi) hlen
        rw [ih (by omega) (by simpa using hlen), bitTest_bitSet hbyte, Bool.or_assoc, ← Bool.decide_or]
        refine congrArg _ (decide_eq_decide.mpr ?_)
        constructor
        · rintro (rfl | ⟨hj, hje, hd⟩)
          · exact ⟨le_rfl, hi, by simp⟩
          · refine ⟨by omega, hje, ?_⟩
            rw [show j - i = j - (i + step) + step by omega]
            exact Nat.dvd_add hd dvd_rfl
        · rintro ⟨hj, hje, hd⟩
          rcases Nat.eq_or_lt_of_le hj with rfl | hlt
          · exact Or.inl rfl
          · have hle : step ≤ j - i := Nat.le_of_dvd (by omega) hd
            refine Or.inr ⟨by omega, hje, ?_⟩
            rw [show j - (i + step) = j - i - step by omega]
            exact Nat.dvd_sub hd dvd_rfl
      · have hout : ¬ (i ≤ j ∧ j ≤ eval ∧ step ∣ j - i) := by omega
        simp [hout]

@[simp] theorem length_bitSetEvery (step eval n i : Nat) (bits : Bitstr) :
    (bitSetEvery step eval n i bits).length = bits.length := by
  induction n generalizing i bits with
  | zero => rfl
  | succ n ih => simp only [bitSetEvery]; split_ifs <;> simp [ih]

/-! ## Values -/

/-- What the decoder needs of a field: `zerov` is none of its values but zero, and its names are three
small letters. -/
structure FieldSpec.Regular (f : FieldSpec) : Prop where
  nonempty : f.base < f.nbits
  small : f.nbits ≤ 2147483647
  zerov : ∀ v : Nat, f.base ≤ v → v < f.nbits → (v : Int) = f.zerov → v = 0
  names : ∀ abbrs ∈ f.abbrs, abbrs.Nodup ∧ ∀ a ∈ abbrs, a.length = 3 ∧ ∀ c ∈ a, 97 ≤ c

theorem regular_noNames {nbits : Nat} {zerov : Int} (hz : zerov = 0 ∨ zerov = -1) (hpos : 1 < nbits)
    (hsmall : nbits ≤ 2147483647) : (FieldSpec.mk nbits none zerov).Regular := by
  refine ⟨?_, hsmall, fun v _ _ hv => ?_, by simp⟩
  · simp only [FieldSpec.base]; split <;> omega
  · simp only at hv; omega

theorem monthNames_bytes :
    monthNames =
      [[120, 120, 120], [106, 97, 110], [102, 101, 98], [109, 97, 114], [97, 112, 114], [109, 97, 121],
        [106, 117, 110],
        [106, 117, 108], [97, 117, 103], [115, 101, 112], [111, 99, 116], [110, 111, 118],
          [100, 101, 99]] := by
  decide +kernel

theorem regular_months : monthsField.Regular := by
  refine ⟨by decide, by decide, fun v _ _ hv => ?_, ?_⟩
  · simp only [monthsField] at hv; omega
  · rintro _ ⟨⟩
    rw [monthNames_bytes]
    exact ⟨by simp, by simp⟩

variable {f : FieldSpec}

theorem base_eq_toNat (f : FieldSpec) : f.base = f.base.toNat := by
  unfold FieldSpec.base
  split <;> rfl

/-- Digits and letters, which no other character of an element is. -/
def Alnum (c : UInt8) : Prop := isdigit c ∨ 65 ≤ c

theorem letter_of_tolower {c : UInt8} (h : 97 ≤ tolower c) : 65 ≤ c := by
  unfold tolower at h
  split at h
  · rename_i hc; exact hc.1
  · exact UInt8.le_trans (by decide) h

theorem not_isdigit_of_letter {c : UInt8} (h : 65 ≤ c) : ¬ isdigit c := by
  simp only [isdigit, decide_eq_true_eq, UInt8.le_iff_toNat_le, UInt8.reduceToNat] at h ⊢
  omega

/-- None of `*`, `,`, `-` and `/`, nor the NUL. -/
theorem Alnum.ne {c d : UInt8} (h : Alnum c) (hd : d.toNat < 48) : c ≠ d := by
  rintro rfl
  simp only [Alnum, isdigit, decide_eq_true_eq, UInt8.le_iff_toNat_le, UInt8.reduceToNat] at h
  omega

theorem Writes.alnum (hf : f.Regular) {text : List UInt8} {v : Nat} (h : Writes f text v) :
    text ≠ [] ∧ ∀ c ∈ text, Alnum c := by
  cases h with
  | number hne hds => exact ⟨hne, fun c hc => Or.inl (hds c hc)⟩
  | name hab hi =>
      obtain ⟨hlen, hletters⟩ := (hf.names _ hab).2 _ (List.mem_of_getElem? hi)
      rw [List.length_map] at hlen
      refine ⟨List.ne_nil_of_length_pos (by omega), fun c hc => Or.inr ?_⟩
      exact letter_of_tolower (hletters _ (List.mem_map_of_mem hc))

theorem strtol_digits {ds rest : List UInt8} (hds : ∀ c ∈ ds, isdigit c)
    (hrest : ∀ c ∈ rest.head?, ¬ isdigit c) :
    strtol (ds ++ rest) = (min 2147483647 (decimal ds), rest) := by
  have htake : rest.takeWhile isdigit = [] := by
    cases rest with
    | nil => rfl
    | cons c rest => exact List.takeWhile_cons_of_neg (hrest c rfl)
  have hdrop : rest.dropWhile isdigit = rest := by
    cases rest with
    | nil => rfl
    | cons c rest => exact List.dropWhile_cons_of_neg (hrest c rfl)
  rw [strtol, List.takeWhile_append_of_pos hds, List.dropWhile_append_of_pos hds, htake, hdrop,
    List.append_nil]
  rfl

theorem locString_name {abbrs : List (List UInt8)} {text rest : List UInt8} {i : Nat} (hnd : abbrs.Nodup)
    (hlen : text.length = 3) (hi : abbrs[i]? = some (text.map tolower)) :
    locString (text ++ rest) abbrs = ((i : Int), rest) := by
  obtain ⟨hlt, hget⟩ := List.getElem?_eq_some_iff.mp hi
  have hfind : abbrs.findIdx? (· = text.map tolower) = some i := by
    refine List.findIdx?_eq_some_iff_getElem.mpr ⟨hlt, by simp [hget], fun j hj => ?_⟩
    have hne : abbrs[j] ≠ abbrs[i] := fun e => by
      have := (List.Nodup.getElem_inj_iff hnd).mp e
      omega
    simpa [hget] using hne
  rw [locString, ← hlen, List.take_left, hfind, List.drop_left]

theorem Writes.reads {text rest : List UInt8} {v : Nat} (h : Writes f text v)
    (hrest : ∀ c ∈ rest.head?, ¬ isdigit c) :
    Reads f (text ++ rest) v rest := by
  cases h with
  | number hne hds => exact .number hne hds hrest
  | name hab hi => exact .name hab hi

theorem Reads.value_eq (hf : f.Regular) {str rest : List UInt8} {v : Nat} (h : Reads f str v rest)
    (hv : v ≤ 2147483647) (hlow : f.base ≤ f.meant v) (hhigh : f.meant v < f.nbits) :
    f.value str = some ((f.meant v : Int), rest) := by
  have hrange : ¬ ((f.meant v : Int) < f.base ∨ (f.meant v : Int) ≥ f.nbits) := by omega
  have hmeant : (if (v : Int) = f.zerov then 0 else (v : Int)) = f.meant v := by
    unfold FieldSpec.meant
    split_ifs <;> rfl
  cases h with
  | @number ds rest hne hds hrest =>
      have hhead : isdigit ((ds ++ rest).headD 0) := by
        obtain ⟨c, ds, rfl⟩ := List.exists_cons_of_ne_nil hne
        exact hds c (by simp)
      simp only [FieldSpec.value, if_pos hhead, strtol_digits hds hrest, Nat.min_eq_right hv, hmeant,
        if_neg hrange]
  | @name abbrs text rest i hab hi =>
      obtain ⟨hnd, hnames⟩ := hf.names _ hab
      obtain ⟨hlen, hletters⟩ := hnames _ (List.mem_of_getElem? hi)
      rw [List.length_map] at hlen
      have hhead : ¬ isdigit ((text ++ rest).headD 0) := by
        have hne : text ≠ [] := List.ne_nil_of_length_pos (by omega)
        obtain ⟨c, t, rfl⟩ := List.exists_cons_of_ne_nil hne
        exact not_isdigit_of_letter (letter_of_tolower (hletters _ (by simp)))
      simp only [FieldSpec.value, if_neg hhead, hab, Option.map_some, locString_name hnd hlen hi,
        hmeant, if_neg hrange]

theorem FieldSpec.value_text (hf : f.Regular) (n : Value f) {rest : List UInt8}
    (hrest : ∀ c ∈ rest.head?, ¬ isdigit c) : f.value (n.text ++ rest) = some ((n.val : Int), rest) := by
  have hmeant : f.meant n.val = n.val := by
    unfold FieldSpec.meant
    split_ifs with hz
    · exact (hf.zerov n.val n.low n.high hz).symm
    · rfl
  have hv : n.val ≤ 2147483647 := by
    have := hf.small
    have := n.high
    omega
  have h := (n.writes.reads hrest).value_eq hf hv
  rw [hmeant] at h
  exact h n.low n.high

/-! ## Elements -/

theorem Bounds.base_le_low (b : Bounds f) : f.base ≤ b.low := by
  have := base_eq_toNat f
  cases b with
  | star => exact this.le
  | one n => exact n.low
  | range n m =>
      have := n.low
      have := m.low
      simp only [Bounds.low]; omega

theorem Bounds.high_lt (hf : f.Regular) (b : Bounds f) : b.high < f.nbits := by
  have := hf.nonempty
  have := base_eq_toNat f
  cases b with
  | star => simp only [Bounds.high]; omega
  | one n => exact n.high
  | range n m => exact max_lt n.high m.high

theorem FieldSpec.range_text (hf : f.Regular) (b : Bounds f) {rest : List UInt8}
    (hrest : ∀ c ∈ rest.head?, ¬ isdigit c ∧ c ≠ 45) :
    f.range (b.text ++ rest) = some ((b.low : Int), (b.high : Int), rest) := by
  have hdigit : ∀ c ∈ rest.head?, ¬ isdigit c := fun c hc => (hrest c hc).1
  -- a value does not begin with a star
  have hstar : ∀ (n : Value f) (s : List UInt8), (n.text ++ s).head? ≠ some 42 := by
    intro n s
    obtain ⟨hne, hall⟩ := n.writes.alnum hf
    obtain ⟨c, t, ht⟩ := List.exists_cons_of_ne_nil hne
    rw [ht, List.cons_append, List.head?_cons]
    exact fun e => (hall c (by simp [ht])).ne (by decide) (Option.some.inj e)
  cases b with
  | star =>
      have := hf.nonempty
      have := base_eq_toNat f
      simp [FieldSpec.range, Bounds.text, Bounds.low, Bounds.high]
      omega
  | one n =>
      have hdash : rest.head? ≠ some 45 := fun e => (hrest 45 e).2 rfl
      simp only [FieldSpec.range, Bounds.text, if_neg (hstar n rest), FieldSpec.value_text hf n hdigit,
        if_neg hdash]
      rfl
  | range n m =>
      have hvalue : f.value (n.text ++ 45 :: (m.text ++ rest)) = _ :=
        FieldSpec.value_text hf n (by simp only [List.head?_cons, Option.mem_some_iff, forall_eq']; decide)
      simp only [FieldSpec.range, Bounds.text, List.append_assoc, List.cons_append, if_neg (hstar n _),
        hvalue,
        List.head?_cons, if_true, List.tail_cons, FieldSpec.value_text hf m hdigit, Bounds.low, Bounds.high]
      split_ifs with hlt
      · rw [Nat.min_eq_right (by omega), Nat.max_eq_left (by omega)]
      · rw [Nat.min_eq_left (by omega), Nat.max_eq_right (by omega)]

theorem increment_none (sval eval : Int) : increment sval eval [] = some 1 := rfl

theorem increment_step {low high : Nat} (s : Step (high - low)) (hhigh : high ≤ 2147483647)
    {rest : List UInt8} (hrest : ∀ c ∈ rest.head?, ¬ isdigit c) :
    increment low high (47 :: (s.digits ++ rest)) = some (decimal s.digits) := by
  have hpos := s.pos
  have hle := s.le
  have hatoi : atoi (s.digits ++ rest) = decimal s.digits := by
    rw [atoi, strtol_digits s.all_digits hrest, Nat.min_eq_right (by omega)]
  have hhead : isdigit ((s.digits ++ rest).headD 0) := by
    obtain ⟨c, ds, hds⟩ := List.exists_cons_of_ne_nil s.ne_nil
    rw [hds]
    exact s.all_digits c (by simp [hds])
  have hstep : ¬ ((decimal s.digits : Int) ≤ 0 ∨ (decimal s.digits : Int) > (high : Int) - low) := by omega
  simp only [increment, List.head?_cons, if_true, List.tail_cons, if_pos hhead, hatoi, if_neg hstep]

theorem FieldSpec.elem_text (hf : f.Regular) (e : Elem f) (bits : Bitstr) :
    f.elem e.text bits = some (bitSetEvery e.stride e.bounds.high
      (e.bounds.high + 1 - e.bounds.low) e.bounds.low bits) := by
  obtain ⟨b, step⟩ := e
  have hhigh := b.high_lt hf
  have hsmall := hf.small
  cases step with
  | none =>
      have hrange : f.range (b.text ++ []) = _ := FieldSpec.range_text hf b (by simp)
      rw [List.append_nil] at hrange
      simp only [FieldSpec.elem, Elem.text, hrange, increment_none, Elem.stride, Int.toNat_natCast]
  | some s =>
      have hrange : f.range (b.text ++ 47 :: s.digits) = _ :=
        FieldSpec.range_text hf b (by simp only [List.head?_cons, Option.mem_some_iff, forall_eq']; decide)
      have hstep : increment b.low b.high (47 :: (s.digits ++ [])) = _ :=
        increment_step s (by omega) (by simp)
      rw [List.append_nil] at hstep
      simp only [FieldSpec.elem, Elem.text, hrange, hstep, Elem.stride, Int.toNat_natCast]

/-- An element sets the values it denotes, and no other bit changes. -/
theorem FieldSpec.elem_bits (hf : f.Regular) (e : Elem f) {bits : Bitstr}
    (hlen : (f.nbits - 1) / 8 < bits.length) :
    ∃ bits', f.elem e.text bits = some bits' ∧ bits'.length = bits.length ∧
      ∀ j, bitTest bits' j = (bitTest bits j || decide (e.Denotes j)) := by
  have hhigh := e.bounds.high_lt hf
  have hstride : 0 < e.stride := by
    unfold Elem.stride
    split
    · decide
    · rename_i s _; exact s.pos
  refine ⟨_, FieldSpec.elem_text hf e bits, length_bitSetEvery _ _ _ _ _, fun j => ?_⟩
  exact bitTest_bitSetEvery hstride (by omega) (lt_of_le_of_lt (Nat.div_le_div_right (by omega)) hlen) j

theorem Bounds.chars (hf : f.Regular) (b : Bounds f) :
    b.text ≠ [] ∧ ∀ c ∈ b.text, Alnum c ∨ c = 42 ∨ c = 45 := by
  cases b with
  | star => exact ⟨by simp [Bounds.text], by simp [Bounds.text]⟩
  | one n =>
      obtain ⟨hne, hall⟩ := n.writes.alnum hf
      exact ⟨hne, fun c hc => Or.inl (hall c hc)⟩
  | range n m =>
      refine ⟨by simp [Bounds.text], fun c hc => ?_⟩
      simp only [Bounds.text, List.mem_append, List.mem_cons] at hc
      rcases hc with hc | rfl | hc
      · exact Or.inl ((n.writes.alnum hf).2 c hc)
      · exact Or.inr (Or.inr rfl)
      · exact Or.inl ((m.writes.alnum hf).2 c hc)

theorem Elem.text_ne_nil (hf : f.Regular) (e : Elem f) : e.text ≠ [] := by
  unfold Elem.text
  split
  · exact (e.bounds.chars hf).1
  · simp

theorem Elem.comma_notMem (hf : f.Regular) (e : Elem f) : 44 ∉ e.text := by
  have hbounds : 44 ∉ e.bounds.text := by
    intro hm
    rcases (e.bounds.chars hf).2 44 hm with h | h | h
    · exact h.ne (by decide) rfl
    · cases h
    · cases h
  unfold Elem.text
  split
  · exact hbounds
  · rename_i s _
    have hdigits : 44 ∉ s.digits := fun hm => absurd (s.all_digits 44 hm) (by decide)
    simp [hbounds, hdigits]

/-! ## Lists of elements -/

theorem FieldSpec.elems_cons {str : List UInt8} {strs : List (List UInt8)} (hne : ¬ (str = [] ∧ strs = []))
    (bits : Bitstr) : f.elems (str :: strs) bits = (f.elem str bits).bind (f.elems strs) := by
  rw [FieldSpec.elems]
  · cases f.elem str bits <;> rfl
  · exact fun hstr hstrs => hne ⟨hstr, hstrs⟩

theorem FieldSpec.elems_bits (hf : f.Regular) (es : List (Elem f)) {bits : Bitstr}
    (hlen : (f.nbits - 1) / 8 < bits.length) :
    ∃ bits', f.elems (es.map Elem.text) bits = some bits' ∧ bits'.length = bits.length ∧
      ∀ j, bitTest bits' j = (bitTest bits j || decide (∃ e ∈ es, e.Denotes j)) := by
  induction es generalizing bits with
  | nil => exact ⟨bits, rfl, rfl, by simp⟩
  | cons e es ih =>
      obtain ⟨bits₁, h₁, hlen₁, hbits₁⟩ := FieldSpec.elem_bits hf e hlen
      have hlen' : (f.nbits - 1) / 8 < bits₁.length := by omega
      obtain ⟨bits₂, h₂, hlen₂, hbits₂⟩ := ih hlen'
      refine ⟨bits₂, ?_, by omega, fun j => ?_⟩
      · rw [List.map_cons, FieldSpec.elems_cons (fun hnil => e.text_ne_nil hf hnil.1), h₁,
          Option.bind_some, h₂]
      · rw [hbits₂, hbits₁, Bool.or_assoc, ← Bool.decide_or]
        simp

theorem splitOn_fieldText (hf : f.Regular) {es : List (Elem f)} (hne : es ≠ []) :
    (fieldText es).splitOn 44 = es.map Elem.text := by
  refine List.splitOn_intercalate 44 ?_ (by simpa using hne)
  intro l hl
  obtain ⟨e, _, rfl⟩ := List.mem_map.mp hl
  exact e.comma_notMem hf

/-- In the field's range the bits are those of the elements, whatever they were before; the others stay. -/
theorem decodeElem_fieldText (hf : f.Regular) (es : List (Elem f)) {bits : Bitstr}
    (hlen : (f.nbits - 1) / 8 < bits.length) :
    ∃ bits', decodeElem f (fieldText es) bits = some bits' ∧ bits'.length = bits.length ∧
      ∀ i, bitTest bits' i =
        if f.base ≤ i ∧ i < f.nbits then decide (∃ e ∈ es, e.Denotes i) else bitTest bits i := by
  have hbase := base_eq_toNat f
  have hnonempty := hf.nonempty
  have hclear : ∀ i, bitTest (bitNclear bits f.base.toNat (f.nbits - 1)) i = _ := bitTest_bitNclear (by omega)
  obtain ⟨bits', helems, hlen', hbits'⟩ :=
    FieldSpec.elems_bits hf es ((length_bitNclear bits _ _).symm ▸ hlen)
  refine ⟨bits', ?_, by simpa using hlen', fun i => ?_⟩
  · cases es with
    | nil => simpa [decodeElem, fieldText, FieldSpec.elems] using helems
    | cons e es => rw [decodeElem, splitOn_fieldText hf (by simp), helems]
  · have hin : (∃ e ∈ es, e.Denotes i) → f.base ≤ i ∧ i < f.nbits := by
      rintro ⟨e, _, hlow, hhigh, _⟩
      have := e.bounds.base_le_low
      have := e.bounds.high_lt hf
      omega
    rw [hbits', hclear]
    split_ifs with hi
    · have hcleared : f.base.toNat ≤ i ∧ i ≤ f.nbits - 1 := by omega
      rw [decide_eq_true hcleared]
      simp
    · have hkept : ¬ (f.base.toNat ≤ i ∧ i ≤ f.nbits - 1) := by omega
      rw [decide_eq_false hkept, decide_eq_false (mt hin hi)]
      simp

end CameraFw.Crontab
