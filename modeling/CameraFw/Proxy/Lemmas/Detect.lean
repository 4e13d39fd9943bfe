import CameraFw.Proxy.Lemmas.Insert

/-!
# Finding the request line

The scan sees the buffer through C strings: up to the first NUL, and beyond the end of the data.
-/

namespace CameraFw.Proxy

open CameraFw.Base

variable {c : Conn} {s : Cli} {u : Up} {k n : Nat}

/-! ## The scan -/

/-- The loop over `strchr` finds the spaces that the data have in front of the first NUL. -/
theorem scanSpaces_eq {m : List UInt8} (hn : n ≤ m.length) (missing : Nat) :
    ∀ space ≤ (cstr (m.take n)).length,
      match afterNth 32 missing ((cstr (m.take n)).drop space) with
      | none => ∃ j, scanSpaces m n missing space = .inl j
      | some t => scanSpaces m n missing space = .inr ((cstr (m.take n)).length - t.length) := by
  have hcut : cstr (m.take n) = (cstr m).take n := by
    have h := take_cstr_append (m.take n) (m.drop n)
    rw [List.take_append_drop, List.length_take, Nat.min_eq_left hn] at h
    exact h.symm
  induction missing with
  | zero =>
      intro space hspace
      simp only [afterNth_zero, scanSpaces, List.length_drop]
      congr 1; omega
  | succ missing ih =>
      intro space hspace
      have hlen : (cstr (m.take n)).length ≤ (cstr m).length := by rw [hcut, List.length_take]; omega
      have hdata : (cstr (m.take n)).drop space = ((cstr m).drop space).take (n - space) := by
        rw [hcut, List.drop_take]
      rw [afterNth_succ, hdata, List.findIdx?_take]
      simp only [scanSpaces, cstr_drop (show space ≤ (cstr m).length by omega)]
      cases hfind : ((cstr m).drop space).findIdx? (· = 32) with
      | none => exact ⟨_, rfl⟩
      | some i =>
          by_cases hin : i < n - space
          · have hi : space + i + 1 ≤ (cstr (m.take n)).length := by
              have := (List.findIdx?_eq_some_iff_getElem.mp hfind).1
              simp only [List.length_drop] at this
              rw [hcut, List.length_take]; omega
            have hrest : (((cstr m).drop space).take (n - space)).drop (i + 1) =
                (cstr (m.take n)).drop (space + i + 1) := by
              rw [← hdata, List.drop_drop, Nat.add_assoc]
            simp only [Option.bind_some, Option.guard, hin, decide_true, if_true, hrest]
            rw [if_neg (by omega)]
            exact ih _ hi
          · simp only [Option.bind_some, Option.guard, hin, decide_false, Bool.false_eq_true, if_false]
            exact ⟨missing + 1, if_pos (by omega)⟩

/-! ## What the data say -/

/-- The stream begins with two tokens and the name of the protocol, with one space between each. -/
def httpStart (stream : List UInt8) : Bool :=
  match afterNth 32 2 stream with
  | some t => t.take 5 == ascii "HTTP/"
  | none => false

/-- The same, denied for good: something else stands there. -/
def NotHttp (stream : List UInt8) : Prop := ∃ t, afterNth 32 2 stream = some t ∧ ¬ t.take 5 <+: ascii "HTTP/"

theorem httpStart_append {stream : List UInt8} (x : List UInt8) (h : httpStart stream = true) :
    httpStart (stream ++ x) = true := by
  unfold httpStart at h ⊢
  cases ht : afterNth 32 2 stream with
  | none => rw [ht] at h; cases h
  | some t =>
      rw [ht] at h
      rw [afterNth_append x ht]
      have h5 : t.take 5 = ascii "HTTP/" := by simpa using h
      have hlen : 5 ≤ t.length := by
        have := congrArg List.length h5
        rw [List.length_take, show (ascii "HTTP/").length = 5 by decide] at this
        omega
      simpa [List.take_append_of_le_length hlen] using h5

theorem NotHttp.append {stream : List UInt8} (x : List UInt8) (h : NotHttp stream) :
    NotHttp (stream ++ x) := by
  obtain ⟨t, ht, hne⟩ := h
  refine ⟨t ++ x, afterNth_append x ht, fun hpre => hne ?_⟩
  have hle : t.take 5 <+: (t ++ x).take 5 := by
    rw [List.take_append]
    exact List.prefix_append _ _
  exact hle.trans hpre

theorem NotHttp.httpStart {stream : List UInt8} (h : NotHttp stream) : httpStart stream = false := by
  obtain ⟨t, ht, hne⟩ := h
  simp only [Proxy.httpStart, ht, beq_eq_false_iff_ne]
  rintro heq
  exact hne (heq ▸ List.prefix_refl _)

theorem httpStart_few {stream : List UInt8} (h : stream.count 32 < 2) : httpStart stream = false := by
  unfold httpStart
  cases ht : afterNth 32 2 stream with
  | none => rfl
  | some t =>
      have := afterNth_isSome.mp (show (afterNth 32 2 stream).isSome by rw [ht]; rfl)
      omega

/-! ## The decision -/

/-- The bytes in the buffer, and those that have left it. -/
def Up.data (u : Up) : List UInt8 := u.sslBuff.take u.sslPtr.toNat
def Up.gone (u : Up) : List UInt8 := u.received.take (u.received.length - u.sslPtr.toNat)

/-- The scan starts where it should and sees what it should: the counted spaces have left the buffer, no
NUL stands in front of the missing ones, and the name of the protocol is not cut. -/
def Seen (u : Up) : Prop :=
  u.spaceCnt = u.gone.count 32 ∧
    ∀ t, afterNth 32 (2 - u.spaceCnt) u.data = some t →
      (afterNth 32 (2 - u.spaceCnt) (cstr u.data)).isSome = true ∧ (5 ≤ t.length ∨ ¬ t <+: ascii "HTTP/")

instance (u : Up) : Decidable (Seen u) := inferInstanceAs (Decidable (_ ∧ _))

theorem Held.data (h : Held u k n) : u.data = u.received.drop k := by
  rw [Up.data, h.ptr, Int.toNat_natCast, h.bytes]

theorem Held.gone (h : Held u k n) : u.gone = u.received.take k := by
  have := h.total
  rw [Up.gone, h.ptr, Int.toNat_natCast, show u.received.length - n = k by omega]

/-- `strncmp` decides right if the name is not cut, whatever stands behind the data. -/
theorem protocol_decided {t : List UInt8} (x : List UInt8) (h : 5 ≤ t.length ∨ ¬ t <+: ascii "HTTP/") :
    ((t ++ x).take 5 == ascii "HTTP/") = true ∧ t.take 5 = ascii "HTTP/" ∨
      ((t ++ x).take 5 == ascii "HTTP/") = false ∧ ¬ t.take 5 <+: ascii "HTTP/" := by
  have hlen : (ascii "HTTP/").length = 5 := by decide
  by_cases h5 : 5 ≤ t.length
  · rw [List.take_append_of_le_length h5]
    by_cases heq : t.take 5 = ascii "HTTP/"
    · exact Or.inl ⟨by simp [heq], heq⟩
    · refine Or.inr ⟨by simp [heq], fun hpre => heq (hpre.eq_of_length ?_)⟩
      rw [List.length_take, hlen]; omega
  · have hpre : ¬ t <+: ascii "HTTP/" := h.resolve_left h5
    have hshort : t.take 5 = t := List.take_of_length_le (by omega)
    refine Or.inr ⟨?_, by rw [hshort]; exact hpre⟩
    rw [beq_eq_false_iff_ne]
    intro heq
    refine hpre (heq ▸ ?_)
    rw [List.take_append, hshort]
    exact List.prefix_append _ _

theorem drop_to_suffix {v t : List UInt8} (rest : List UInt8) (h : t <:+ v) :
    (v ++ rest).drop (v.length - t.length) = t ++ rest := by
  obtain ⟨p, rfl⟩ := h
  rw [List.length_append, Nat.add_sub_cancel, List.append_assoc, List.drop_left]

/-- What the scan finds behind the last of the spaces it looks for: the rest of the stream, and then the
memory behind the buffer's contents. -/
theorem scan_rest (hheld : Held s.up k n) {missing : Nat} {tv : List UInt8}
    (hv : afterNth 32 missing (cstr (s.up.received.drop k)) = some tv) :
    ∃ t, afterNth 32 missing (s.up.received.drop k) = some t ∧
      (mem c s.sockPtr s.up).drop ((cstr (s.up.received.drop k)).length - tv.length) =
        t ++ (mem c s.sockPtr s.up).drop n := by
  have hdata : cstr (s.up.received.drop k) ++
      (s.up.received.drop k).dropWhile (· ≠ 0) = s.up.received.drop k :=
    List.takeWhile_append_dropWhile
  have hmem : mem c s.sockPtr s.up =
      cstr (s.up.received.drop k) ++
        ((s.up.received.drop k).dropWhile (· ≠ 0) ++ (mem c s.sockPtr s.up).drop n) := by
    rw [← List.append_assoc, hdata, ← hheld.take_mem, List.take_append_drop]
  refine ⟨tv ++ (s.up.received.drop k).dropWhile (· ≠ 0), ?_, ?_⟩
  · have hafter := afterNth_append ((s.up.received.drop k).dropWhile (· ≠ 0)) hv
    rwa [hdata] at hafter
  · rw [List.append_assoc, ← drop_to_suffix _ (afterNth_suffix hv), ← hmem]

/-- A scan that sees what it should decides right, or leaves a stream with fewer than two spaces undecided. -/
theorem scanned_of_seen (hheld : Held s.up k n) (hseen : Seen s.up) (hopen : s.up.isHttp = none)
    (hnot : s.up.hdrSent = false) (hfew : (s.up.received.take k).count 32 < 2) :
    ((scanned c s).up.isHttp = none ∧ s.up.received.count 32 < 2) ∨
      ((scanned c s).up.isHttp = some true ∧ httpStart s.up.received = true) ∨
        ((scanned c s).up.isHttp = some false ∧ NotHttp s.up.received) := by
  obtain ⟨hcnt, hfound⟩ := hseen
  rw [hheld.gone] at hcnt
  rw [hheld.data] at hfound
  have hscan := scanSpaces_eq (m := mem c s.sockPtr s.up) hheld.le_mem (2 - s.up.spaceCnt) 0 (Nat.zero_le _)
  rw [hheld.take_mem, List.drop_zero] at hscan
  have hsplit : s.up.received.take k ++ s.up.received.drop k = s.up.received := List.take_append_drop k _
  cases hv : afterNth 32 (2 - s.up.spaceCnt) (cstr (s.up.received.drop k)) with
  | none =>
      rw [hv] at hscan hfound
      obtain ⟨j, hj⟩ := hscan
      refine Or.inl ⟨?_, ?_⟩
      · simp only [scanned, detect, hopen, hnot, hheld.ptr, hj, and_self, if_true]
      · have hmiss : ¬ 2 - s.up.spaceCnt ≤ (s.up.received.drop k).count 32 := by
          intro hle
          obtain ⟨t, ht⟩ := Option.isSome_iff_exists.mp (afterNth_isSome.mpr hle)
          exact absurd (hfound t ht).1 (by decide)
        rw [← hsplit, List.count_append]
        omega
  | some tv =>
      rw [hv] at hscan
      obtain ⟨t, hafter, hdrop⟩ := scan_rest (c := c) hheld hv
      have hstream : afterNth 32 2 s.up.received = some t := by
        rw [← hsplit, afterNth_append_left _ hfew, ← hcnt]
        exact hafter
      have hdecide : (scanned c s).up.isHttp =
          some ((t ++ (mem c s.sockPtr s.up).drop n).take 5 == ascii "HTTP/") := by
        simp only [scanned, detect, hopen, hnot, hheld.ptr, hscan, and_self, if_true, hdrop]
      refine Or.inr ?_
      rcases protocol_decided ((mem c s.sockPtr s.up).drop n)
        (hfound t hafter).2 with ⟨hyes, hhttp⟩ | ⟨hno, hother⟩
      · exact Or.inl ⟨by rw [hdecide, hyes], by simp [httpStart, hstream, hhttp]⟩
      · exact Or.inr ⟨by rw [hdecide, hno], t, hstream, hother⟩

/-! ## The end of the first line -/

/-- The bytes hold no end of a line, not even the first half of one at their end. -/
def Unbroken (a : List UInt8) : Prop := strstr crlf a = none ∧ a.getLast? ≠ some 13

instance (a : List UInt8) : Decidable (Unbroken a) := inferInstanceAs (Decidable (_ ∧ _))

theorem strstr_unbroken {a : List UInt8} (x : List UInt8) (h : Unbroken a) :
    strstr crlf (a ++ x) = (strstr crlf x).map (· + a.length) := by
  obtain ⟨hnone, hlast⟩ := h
  induction a with
  | nil => simp
  | cons b a ih =>
      have hb : crlf.isPrefixOf (b :: (a ++ x)) = crlf.isPrefixOf (b :: a) := by
        cases a with
        | nil =>
            have h13 : b ≠ 13 := by simpa using hlast
            simp [crlf, List.isPrefixOf, h13.symm]
        | cons b' a => simp [crlf, List.isPrefixOf]
      simp only [strstr] at hnone
      split at hnone
      · cases hnone
      · rename_i hnp
        have hlast' : a.getLast? ≠ some 13 := by
          cases a with
          | nil => simp
          | cons b' a => simpa using hlast
        rw [List.cons_append, strstr, hb, if_neg hnp, ih (by simpa using hnone) hlast', Option.map_map]
        rfl

/-- In data with an end of a line before the first NUL, `strstr` finds it; else it finds none inside the
data. -/
theorem firstHdrEnd_iff (hheld : Held u k n) {p i : Nat} :
    (firstHdrEnd (mem c p u) = some i ∧ i + 2 ≤ n) ↔ strstr crlf (cstr (u.received.drop k)) = some i := by
  have hn : n ≤ (mem c p u).length := hheld.le_mem
  have hcut : (cstr (mem c p u)).take n = cstr (u.received.drop k) := by
    have h := take_cstr_append ((mem c p u).take n) ((mem c p u).drop n)
    rwa [List.take_append_drop, List.length_take, Nat.min_eq_left hn, hheld.take_mem] at h
  have hsplit := List.take_append_drop n (cstr (mem c p u))
  rw [hcut] at hsplit
  constructor
  · rintro ⟨hfind, hle⟩
    have hlen : i + 2 ≤ (cstr (u.received.drop k)).length := by
      have := strstr_bound hfind
      simp only [crlf, List.length_cons, List.length_nil] at this
      rw [← hcut, List.length_take]; omega
    rw [firstHdrEnd, ← hsplit] at hfind
    exact strstr_of_append hfind hlen
  · intro hfind
    refine ⟨by rw [firstHdrEnd, ← hsplit]; exact strstr_append _ hfind, ?_⟩
    have hb := strstr_bound hfind
    have hlen : (cstr (u.received.drop k)).length ≤ n := by rw [← hcut, List.length_take]; omega
    simp only [crlf, List.length_cons, List.length_nil] at hb
    omega

theorem strstr_cstr_none {a : List UInt8} (h : strstr crlf a = none) : strstr crlf (cstr a) = none := by
  cases hc : strstr crlf (cstr a) with
  | none => rfl
  | some i =>
      have := strstr_append (a.dropWhile (· ≠ 0)) hc
      rw [show cstr a ++ a.dropWhile (· ≠ 0) = a from List.takeWhile_append_dropWhile, h] at this
      cases this

end CameraFw.Proxy
