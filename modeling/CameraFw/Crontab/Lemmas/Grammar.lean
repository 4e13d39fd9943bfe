import CameraFw.Crontab.Lemmas.Fields

/-!
# `decode_elem` accepts what begins well
-/

namespace CameraFw.Crontab

open CameraFw.Base

theorem dayNames_bytes :
    dayNames =
      [[115, 117, 110], [109, 111, 110], [116, 117, 101], [119, 101, 100], [116, 104, 117], [102, 114, 105],
        [115, 97, 116]] := by
  decide +kernel

theorem regular_dow : dowField.Regular := by
  refine ⟨by decide, by decide, fun v _ hv h7 => ?_, ?_⟩
  · simp only [dowField] at hv h7; omega
  · rintro _ ⟨⟩
    rw [dayNames_bytes]
    exact ⟨by simp, by simp⟩

theorem TimeField.regular (k : TimeField) : k.spec.Regular ∧ k.spec.zerov < 2147483647 := by
  cases k with
  | minutes => exact ⟨regular_noNames (Or.inl rfl) (by decide) (by decide), by decide⟩
  | hours => exact ⟨regular_noNames (Or.inl rfl) (by decide) (by decide), by decide⟩
  | dom => exact ⟨regular_noNames (Or.inr rfl) (by decide) (by decide), by decide⟩
  | months => exact ⟨regular_months, by decide⟩
  | dow => exact ⟨regular_dow, by decide⟩

variable {f : FieldSpec} {str rest : List UInt8}

/-! ## Values -/

theorem Reads.head_ne_star (hf : f.Regular) {v : Nat} (h : Reads f str v rest) : str.head? ≠ some 42 := by
  have hhead : ∀ text : List UInt8, Writes f text v → (text ++ rest).head? ≠ some 42 := by
    intro text hw
    obtain ⟨hne, hall⟩ := hw.alnum hf
    obtain ⟨c, t, rfl⟩ := List.exists_cons_of_ne_nil hne
    exact fun e => (hall c (by simp)).ne (by decide) (Option.some.inj e)
  cases h with
  | number hne hds _ => exact hhead _ (.number hne hds)
  | name hab hi => exact hhead _ (.name hab hi)

theorem dropWhile_isdigit_head (str : List UInt8) : ∀ c ∈ (str.dropWhile isdigit).head?, ¬ isdigit c := by
  intro c hc
  have := List.head?_dropWhile_not isdigit str
  rw [hc] at this
  simpa using this

theorem reads_digits (h : isdigit (str.headD 0)) :
    Reads f str (decimal (str.takeWhile isdigit)) (str.dropWhile isdigit) := by
  have hne : str.takeWhile isdigit ≠ [] := by
    cases str with
    | nil => exact absurd h (by decide)
    | cons c str =>
        have hc : isdigit c := h
        simp [List.takeWhile_cons_of_pos hc]
  have hreads : Reads f (str.takeWhile isdigit ++ str.dropWhile isdigit) _ _ :=
    .number hne (fun c hc => List.mem_takeWhile_imp hc) (dropWhile_isdigit_head str)
  rwa [List.takeWhile_append_dropWhile] at hreads

theorem reads_locString {abbrs : List (List UInt8)} (hab : f.abbrs = some abbrs)
    (h : 0 ≤ (locString str abbrs).1) :
    ∃ i : Nat, (locString str abbrs).1 = i ∧ Reads f str i (locString str abbrs).2 := by
  unfold locString at h ⊢
  cases hi : abbrs.findIdx? (· = (str.take 3).map tolower) with
  | none => rw [hi] at h; simp at h
  | some i =>
      obtain ⟨hlt, hget, _⟩ := List.findIdx?_eq_some_iff_getElem.mp hi
      have hname : abbrs[i]? = some ((str.take 3).map tolower) := by
        rw [List.getElem?_eq_getElem hlt]
        simpa using hget
      have hreads : Reads f (str.take 3 ++ str.drop 3) i (str.drop 3) := .name hab hname
      rw [List.take_append_drop] at hreads
      exact ⟨i, rfl, hreads⟩

theorem ReadsValue.value_eq (hf : f.Regular) (hz : f.zerov < 2147483647) {n : Nat}
    (h : ReadsValue f str n rest) :
    f.value str = some ((n : Int), rest) := by
  obtain ⟨v, hv, rfl, hlow, hhigh⟩ := h
  have hsmall := hf.small
  have hshort : v ≤ 2147483647 := by
    unfold FieldSpec.meant at hhigh
    split at hhigh <;> omega
  exact hv.value_eq hf hshort hlow hhigh

theorem ReadsValue.lt {n : Nat} (h : ReadsValue f str n rest) : n < f.nbits := by
  obtain ⟨_, _, _, _, hlt⟩ := h
  exact hlt

theorem FieldSpec.value_some {x : Int} (h : f.value str = some (x, rest)) :
    ∃ y : Int,
      (if isdigit (str.headD 0) then some (((strtol str).1 : Int), (strtol str).2)
        else f.abbrs.map (locString str)) =
        some (y, rest) ∧ x = (if y = f.zerov then 0 else y) ∧ f.base ≤ x ∧ x < f.nbits := by
  simp only [FieldSpec.value] at h
  generalize (if isdigit (str.headD 0) then some (((strtol str).1 : Int), (strtol str).2)
    else f.abbrs.map (locString str)) = read at h ⊢
  cases read with
  | none => cases h
  | some r =>
      obtain ⟨y, rest'⟩ := r
      by_cases hrange : (if y = f.zerov then 0 else y) < f.base ∨ (if y = f.zerov then 0 else y) ≥ f.nbits
      · simp only [if_pos hrange] at h; cases h
      · simp only [if_neg hrange, Option.some.injEq, Prod.mk.injEq] at h
        obtain ⟨rfl, rfl⟩ := h
        exact ⟨y, rfl, rfl, by omega, by omega⟩

theorem FieldSpec.value_reads (hf : f.Regular) (hz : f.zerov < 2147483647) {x : Int}
    (h : f.value str = some (x, rest)) :
    ∃ n : Nat, x = n ∧ ReadsValue f str n rest := by
  have hsmall := hf.small
  have hbase := base_eq_toNat f
  obtain ⟨y, hy, hx, hlow, hhigh⟩ := FieldSpec.value_some h
  suffices hread : ∃ v : Nat, Reads f str v rest ∧ x = f.meant v by
    obtain ⟨v, hv, hxv⟩ := hread
    exact ⟨f.meant v, hxv, v, hv, rfl, by omega, by omega⟩
  split_ifs at hy with hdigit
  · cases hy
    refine ⟨_, reads_digits hdigit, ?_⟩
    have hfst : (strtol str).1 = min 2147483647 (decimal (str.takeWhile isdigit)) := rfl
    -- a number that is cut off would be out of the range
    rw [hfst] at hx
    unfold FieldSpec.meant
    split_ifs at hx ⊢ <;> omega
  · obtain ⟨abbrs, hab, hloc⟩ := Option.map_eq_some_iff.mp hy
    have hfst : (locString str abbrs).1 = y := by rw [hloc]
    have hsnd : (locString str abbrs).2 = rest := by rw [hloc]
    have hpos : 0 ≤ (locString str abbrs).1 := by
      unfold locString at hfst ⊢
      unfold FieldSpec.base at hlow
      split
      · exact Int.natCast_nonneg _
      · rename_i hnone
        rw [hnone] at hfst
        simp only at hfst
        split_ifs at hx hlow <;> omega
    obtain ⟨i, hi, hreads⟩ := reads_locString hab hpos
    rw [hsnd] at hreads
    refine ⟨i, hreads, ?_⟩
    rw [hx, ← hfst, hi, FieldSpec.meant]
    split_ifs <;> rfl

/-! ## Elements -/

theorem ReadsBounds.range_eq (hf : f.Regular) (hz : f.zerov < 2147483647) {low high : Nat}
    (h : ReadsBounds f str low high rest) : f.range str = some ((low : Int), (high : Int), rest) := by
  cases h with
  | star =>
      have := hf.nonempty
      have := base_eq_toNat f
      simp [FieldSpec.range]
      omega
  | one hn hrest =>
      have hstar : str.head? ≠ some 42 := by
        obtain ⟨v, hv, _⟩ := hn
        exact hv.head_ne_star hf
      simp only [FieldSpec.range, if_neg hstar, hn.value_eq hf hz, if_neg hrest]
  | range hn hm =>
      have hstar : str.head? ≠ some 42 := by
        obtain ⟨v, hv, _⟩ := hn
        exact hv.head_ne_star hf
      simp only [FieldSpec.range, if_neg hstar, hn.value_eq hf hz, List.head?_cons, if_true, List.tail_cons,
        hm.value_eq hf hz]
      split_ifs with hlt
      · rw [Nat.min_eq_right (by omega), Nat.max_eq_left (by omega)]
      · rw [Nat.min_eq_left (by omega), Nat.max_eq_right (by omega)]

theorem ReadsBounds.elem_eq (hf : f.Regular) (hz : f.zerov < 2147483647) {low high : Nat}
    (h : ReadsBounds f str low high rest) (bits : Bitstr) :
    f.elem str bits =
      (increment low high rest).map fun step => bitSetEvery step high (high + 1 - low) low bits := by
  simp only [FieldSpec.elem, h.range_eq hf hz, Int.toNat_natCast]
  cases increment low high rest <;> rfl

theorem FieldSpec.range_reads (hf : f.Regular) (hz : f.zerov < 2147483647) {x y : Int}
    (h : f.range str = some (x, y, rest)) :
    ∃ low high : Nat, x = low ∧ y = high ∧ low ≤ high ∧ high < f.nbits ∧ ReadsBounds f str low high rest := by
  have hbase := base_eq_toNat f
  have hnonempty := hf.nonempty
  unfold FieldSpec.range at h
  split_ifs at h with hstar
  · obtain ⟨t, rfl⟩ := List.head?_eq_some_iff.mp hstar
    cases h
    exact ⟨f.base.toNat, f.nbits - 1, hbase, by omega, by omega, by omega, .star⟩
  · cases hv : f.value str with
    | none => rw [hv] at h; cases h
    | some r =>
        obtain ⟨sval, str'⟩ := r
        obtain ⟨n, rfl, hn⟩ := FieldSpec.value_reads hf hz hv
        have hnlt := hn.lt
        simp only [hv] at h
        split_ifs at h with hdash
        · obtain ⟨t, rfl⟩ := List.head?_eq_some_iff.mp hdash
          cases hw : f.value t with
          | none => simp [hw] at h
          | some r =>
              obtain ⟨eval, str''⟩ := r
              obtain ⟨m, rfl, hm⟩ := FieldSpec.value_reads hf hz hw
              have hmlt := hm.lt
              have hrest : str'' = rest ∧ x = min n m ∧ y = max n m := by
                simp only [List.tail_cons, hw] at h
                split_ifs at h <;> cases h <;> exact ⟨rfl, by omega, by omega⟩
              obtain ⟨rfl, hx, hy⟩ := hrest
              exact ⟨min n m, max n m, by omega, by omega, by omega, by omega, .range hn hm⟩
        · cases h
          exact ⟨n, n, rfl, rfl, le_rfl, hnlt, .one hn hdash⟩

theorem increment_reads {low high k : Nat} (hhigh : high < 2147483647)
    (h : increment low high rest = some k) :
    rest.head? ≠ some 47 ∨
      ∃ (s : Step (high - low)) (rest' : List UInt8), rest = 47 :: (s.digits ++ rest') ∧
        ∀ c ∈ rest'.head?, ¬ isdigit c := by
  by_cases hslash : rest.head? = some 47
  · obtain ⟨t, rfl⟩ := List.head?_eq_some_iff.mp hslash
    unfold increment at h
    rw [if_pos hslash, List.tail_cons] at h
    split_ifs at h with hdigit hbad
    have hatoi : atoi t = min 2147483647 (decimal (t.takeWhile isdigit)) := rfl
    have hne : t.takeWhile isdigit ≠ [] := by
      cases t with
      | nil => exact absurd hdigit (by decide)
      | cons c t =>
          have hc : isdigit c := hdigit
          simp [List.takeWhile_cons_of_pos hc]
    refine Or.inr ⟨⟨t.takeWhile isdigit, hne, fun c hc => List.mem_takeWhile_imp hc, by omega, by omega⟩,
      t.dropWhile isdigit, ?_, dropWhile_isdigit_head t⟩
    simp
  · exact Or.inl hslash

theorem FieldSpec.elem_isSome (hf : f.Regular) (hz : f.zerov < 2147483647) (bits : Bitstr) :
    (f.elem str bits).isSome ↔ ∃ rest, ReadsElem f str rest := by
  have hsmall := hf.small
  constructor
  · intro h
    cases hr : f.range str with
    | none => simp [FieldSpec.elem, hr] at h
    | some r =>
        obtain ⟨x, y, rest⟩ := r
        obtain ⟨low, high, rfl, rfl, _, hhigh, hreads⟩ := FieldSpec.range_reads hf hz hr
        cases hi : increment low high rest with
        | none => simp [FieldSpec.elem, hr, hi] at h
        | some k =>
            rcases increment_reads (by omega) hi with hplain | ⟨s, rest', rfl, hrest'⟩
            · exact ⟨rest, .plain hreads hplain⟩
            · exact ⟨rest', .stepped s hreads hrest'⟩
  · rintro ⟨rest, h⟩
    cases h with
    | plain h hrest => simp [h.elem_eq hf hz, increment, hrest]
    | @stepped low high s h hrest =>
        obtain ⟨_, _, hlow, hhigh, _, hlt, _⟩ := FieldSpec.range_reads hf hz (h.range_eq hf hz)
        simp [h.elem_eq hf hz, increment_step s (by omega) hrest]

/-- Nothing but a step is left behind the bounds of a whole element. -/
theorem ReadsElem.range_end (hf : f.Regular) (hz : f.zerov < 2147483647) (h : ReadsElem f str []) :
    ∃ x y rest, f.range str = some (x, y, rest) ∧ ∀ c ∈ rest.head?, c = 47 := by
  cases h with
  | plain h _ => exact ⟨_, _, _, h.range_eq hf hz, by simp⟩
  | stepped s h _ => exact ⟨_, _, _, h.range_eq hf hz, by simp⟩

theorem FieldSpec.elems_isSome (hf : f.Regular) (hz : f.zerov < 2147483647) (strs : List (List UInt8))
    (bits : Bitstr) :
    (f.elems strs bits).isSome ↔
      ∀ s ∈ (if strs.getLast? = some [] then strs.dropLast else strs), ∃ rest, ReadsElem f s rest := by
  induction strs generalizing bits with
  | nil => simp [FieldSpec.elems]
  | cons str strs ih =>
      by_cases hlast : str = [] ∧ strs = []
      · obtain ⟨rfl, rfl⟩ := hlast
        simp [FieldSpec.elems]
      · have hparts : (if (str :: strs).getLast? = some [] then (str :: strs).dropLast else str :: strs) =
            str :: (if strs.getLast? = some [] then strs.dropLast else strs) := by
          cases strs with
          | nil =>
              have hstr : str ≠ [] := fun h => hlast ⟨h, rfl⟩
              simp [hstr]
          | cons t ts =>
              rw [List.getLast?_cons_cons, List.dropLast_cons_cons]
              split_ifs <;> rfl
        rw [hparts, List.forall_mem_cons, ← FieldSpec.elem_isSome hf hz bits, FieldSpec.elems_cons hlast]
        cases f.elem str bits with
        | none => simp
        | some bits' => simpa using ih bits'

theorem decodeElem_isSome (hf : f.Regular) (hz : f.zerov < 2147483647) (str : List UInt8) (bits : Bitstr) :
    (decodeElem f str bits).isSome ↔ BeginsWell f str :=
  FieldSpec.elems_isSome hf hz _ _

/-! ## Lines -/

theorem decodeField_some {line line' : List UInt8} {bits : Bitstr}
    (h : decodeField f line = some (bits, line')) :
    ∃ str, strtok blanks line = some (str, line') ∧ decodeElem f str (bitDecl f.nbits) = some bits := by
  unfold decodeField at h
  cases hs : strtok blanks line with
  | none => rw [hs] at h; cases h
  | some r =>
      obtain ⟨str, rest⟩ := r
      rw [hs] at h
      obtain ⟨bits', hd, hb⟩ := Option.map_eq_some_iff.mp h
      cases hb
      exact ⟨str, rfl, hd⟩

/-- A line gives a job only if all its time fields are accepted. -/
theorem decodeLine_fields {db : Passwd} {env : Env} {line : List UInt8} {c : Centry}
    (h : decodeLine db env line = some c) (k : TimeField) :
    ∃ str bits, word k.position line = some str ∧
      decodeElem k.spec str (bitDecl k.spec.nbits) = some bits := by
  simp only [decodeLine, bind, Option.bind_eq_some_iff, Prod.exists] at h
  obtain ⟨_, line₁, h₁, _, line₂, h₂, _, line₃, h₃, _, line₄, h₄, _, line₅, h₅, _⟩ := h
  obtain ⟨w₁, hw₁, hd₁⟩ := decodeField_some h₁
  obtain ⟨w₂, hw₂, hd₂⟩ := decodeField_some h₂
  obtain ⟨w₃, hw₃, hd₃⟩ := decodeField_some h₃
  obtain ⟨w₄, hw₄, hd₄⟩ := decodeField_some h₄
  obtain ⟨w₅, hw₅, hd₅⟩ := decodeField_some h₅
  cases k with
  | minutes => exact ⟨w₁, _, by simp [word, TimeField.position, hw₁], hd₁⟩
  | hours => exact ⟨w₂, _, by simp [word, TimeField.position, hw₁, hw₂], hd₂⟩
  | dom => exact ⟨w₃, _, by simp [word, TimeField.position, hw₁, hw₂, hw₃], hd₃⟩
  | months => exact ⟨w₄, _, by simp [word, TimeField.position, hw₁, hw₂, hw₃, hw₄], hd₄⟩
  | dow => exact ⟨w₅, _, by simp [word, TimeField.position, hw₁, hw₂, hw₃, hw₄, hw₅], hd₅⟩

/-! ## Days of the week -/

theorem FieldSpec.elems_replace {z s : List UInt8} (hz : z ≠ []) (hs : s ≠ [])
    (h : ∀ bits, f.elem z bits = f.elem s bits) (before after : List (List UInt8)) (bits : Bitstr) :
    f.elems (before ++ z :: after) bits = f.elems (before ++ s :: after) bits := by
  induction before generalizing bits with
  | nil =>
      rw [List.nil_append, List.nil_append, FieldSpec.elems_cons (fun hn => hz hn.1),
        FieldSpec.elems_cons (fun hn => hs hn.1), h]
  | cons b before ih =>
      rw [List.cons_append, List.cons_append, FieldSpec.elems_cons (by simp), FieldSpec.elems_cons (by simp)]
      exact congrArg _ (funext ih)

theorem meant_dow {v : Nat} (h : v ≤ 7) : dowField.meant v = v % 7 := by
  have hz : dowField.zerov = 7 := rfl
  rw [FieldSpec.meant, hz]
  split_ifs <;> omega

/-- A day of the week that is written up to 7 is one of 0 to 6. -/
theorem Writes.readsDay {text : List UInt8} {v : Nat} (h : Writes dowField text v) (hv : v ≤ 7)
    (hrest : ∀ c ∈ rest.head?, ¬ isdigit c) : ReadsValue dowField (text ++ rest) (v % 7) rest :=
  ⟨v, h.reads hrest, (meant_dow hv).symm, by simp [FieldSpec.base, dowField]; omega,
    by simp only [dowField]; omega⟩

theorem elem_lone {text : List UInt8} {v : Nat} (h : Writes dowField text v) (hv : v ≤ 7) (bits : Bitstr) :
    dowField.elem text bits = some (bitSet bits (v % 7)) := by
  have hreads : ReadsBounds dowField (text ++ []) (v % 7) (v % 7) [] :=
    .one (h.readsDay hv (by simp)) (by simp)
  have helem := hreads.elem_eq regular_dow (by decide) bits
  rw [List.append_nil] at helem
  simp [helem, increment_none, bitSetEvery]

namespace Days

variable {r : Days}

def stepText (r : Days) : List UInt8 :=
  match r.step with
  | none => []
  | some s => 47 :: s.digits

theorem text_eq (r : Days) : r.text = r.first ++ 45 :: (r.last ++ r.stepText) := rfl

theorem stepText_head (r : Days) : ∀ c ∈ r.stepText.head?, ¬ isdigit c := by
  unfold stepText
  split <;> simp [isdigit]

theorem readsBounds (r : Days) :
    ReadsBounds dowField r.text (min r.n (r.m % 7)) (max r.n (r.m % 7)) r.stepText := by
  have hn := r.n_le
  have hfirst : ReadsValue dowField (r.first ++ 45 :: (r.last ++ r.stepText)) (r.n % 7) _ :=
    r.writes_first.readsDay (by omega) (by simp [isdigit])
  rw [Nat.mod_eq_of_lt (by omega)] at hfirst
  exact .range hfirst (r.writes_last.readsDay r.m_le r.stepText_head)

theorem comma_notMem (r : Days) : 44 ∉ r.text := by
  have hfirst : 44 ∉ r.first := fun hm => ((r.writes_first.alnum regular_dow).2 _ hm).ne (by decide) rfl
  have hlast : 44 ∉ r.last := fun hm => ((r.writes_last.alnum regular_dow).2 _ hm).ne (by decide) rfl
  have hstep : 44 ∉ r.stepText := by
    unfold stepText
    split
    · simp
    · rename_i s _
      have hdigits : 44 ∉ s.digits := fun hm => absurd (s.all_digits 44 hm) (by decide)
      simp [hdigits]
  simp [text_eq, hfirst, hlast, hstep]

theorem decodeElem_eq (r : Days) (bits : Bitstr) :
    decodeElem dowField r.text bits =
      (increment (min r.n (r.m % 7) : Nat) (max r.n (r.m % 7) : Nat) r.stepText).map fun step =>
        bitSetEvery step (max r.n (r.m % 7)) (max r.n (r.m % 7) + 1 - min r.n (r.m % 7)) (min r.n (r.m % 7))
          (bitNclear bits 0 6) := by
  have hsplit : r.text.splitOn 44 = [r.text] := by
    refine List.splitOnP_eq_singleton fun x hx => beq_false_of_ne ?_
    rintro rfl
    exact r.comma_notMem hx
  have hne : ¬ (r.text = [] ∧ ([] : List (List UInt8)) = []) := by simp [text_eq]
  rw [decodeElem, hsplit, FieldSpec.elems_cons hne, r.readsBounds.elem_eq regular_dow (by decide)]
  simp [FieldSpec.elems, FieldSpec.base, dowField]

theorem stride_pos (r : Days) : 0 < r.stride := by
  unfold stride
  split
  · decide
  · rename_i s _; exact s.pos

theorem increment_stepText (r : Days) {low high : Nat} (hhigh : high < 2147483647) :
    increment low high r.stepText =
      if r.step.isSome ∧ ¬ low + r.stride ≤ high then none else some r.stride := by
  cases hs : r.step with
  | none => simp [stepText, stride, hs, increment]
  | some s =>
      have hpos := s.pos
      have hatoi : atoi s.digits = min 2147483647 (decimal s.digits) := by
        have hstrtol : strtol (s.digits ++ []) = _ := strtol_digits s.all_digits (by simp)
        rw [List.append_nil] at hstrtol
        rw [atoi, hstrtol]
      have hhead : isdigit (s.digits.headD 0) := by
        obtain ⟨c, ds, hds⟩ := List.exists_cons_of_ne_nil s.ne_nil
        rw [hds]
        exact s.all_digits c (by simp [hds])
      simp only [stepText, stride, hs, increment, List.head?_cons, if_true, List.tail_cons,
        if_pos hhead, hatoi, Option.isSome_some, true_and]
      split_ifs <;> first | omega | rfl | (rw [Option.some.injEq]; omega)

/-- The bits that are set for the range: 7 is taken for 0 before the ends are put in order. -/
theorem decodeElem_bits {bits bits' : Bitstr} (hlen : 0 < bits.length)
    (h : decodeElem dowField r.text bits = some bits') :
    ∀ day < 7, bitTest bits' day =
      decide (min r.n (r.m % 7) ≤ day ∧ day ≤ max r.n (r.m % 7) ∧ r.stride ∣ day - min r.n (r.m % 7)) := by
  intro day hday
  have hn := r.n_le
  have hstride := r.stride_pos
  rw [decodeElem_eq, increment_stepText _ (by omega)] at h
  split_ifs at h
  · cases h
  rw [Option.map_some, Option.some.injEq] at h
  subst h
  have hclear : bitTest (bitNclear bits 0 6) day = _ := bitTest_bitNclear (by decide) day
  have hcleared : 0 ≤ day ∧ day ≤ 6 := by omega
  rw [bitTest_bitSetEvery hstride (by omega) (by rw [length_bitNclear]; omega), hclear,
    decide_eq_true hcleared]
  simp

theorem decodeElem_isSome_iff (r : Days) (bits : Bitstr) :
    (decodeElem dowField r.text bits).isSome ↔
      (r.step.isSome → min r.n (r.m % 7) + r.stride ≤ max r.n (r.m % 7)) := by
  have hn := r.n_le
  rw [decodeElem_eq, Option.isSome_map, increment_stepText _ (by omega)]
  split_ifs with h
  · simp [h]
  · simp only [Option.isSome_some, true_iff]
    intro hs
    by_contra hlt
    exact h ⟨hs, hlt⟩

end Days

end CameraFw.Crontab
