import CameraFw.Dhcp.UdpIp

/-!
# Facts about the UDP and IP headers
-/

namespace CameraFw.Dhcp

open CameraFw.Base

/-! ## The checksum -/

theorem addWords_toNat (s : BitVec 32) (bs : List UInt8) :
    (addWords s bs).toNat = (s.toNat + wordSum bs) % 2 ^ 32 := by
  fun_induction addWords s bs with
  | case1 s => simp [wordSum, Nat.mod_eq_of_lt s.isLt]
  | case2 s a => simp [wordSum]
  | case3 s a b bs ih =>
      rw [ih, BitVec.toNat_add, BitVec.toNat_ofNat, wordSum]
      omega

theorem inCksum_toNat {bs : List UInt8} (h : wordSum bs < 2 ^ 31) :
    (inCksum bs).toNat = 65535 - endAround (wordSum bs) := by
  have hsum : (addWords 0 bs).toNat = wordSum bs := by
    rw [addWords_toNat, show (0 : BitVec 32).toNat = 0 from rfl]
    omega
  have hlow : ∀ x : BitVec 32, (x &&& 0xffff).toNat = x.toNat % 65536 := by
    intro x
    rw [BitVec.toNat_and]
    exact Nat.and_two_pow_sub_one_eq_mod x.toNat 16
  have hshift : ∀ x : BitVec 32, x.toNat < 2 ^ 31 → (x.sshiftRight 16).toNat = x.toNat / 65536 := by
    intro x hx
    rw [BitVec.sshiftRight_eq_of_msb_false (BitVec.msb_eq_false_iff_two_mul_lt.mpr (by omega)),
      BitVec.toNat_ushiftRight, Nat.shiftRight_eq_div_pow]
  -- no step overflows, so the numbers are those of `endAround`
  have hfold : ((addWords 0 bs).sshiftRight 16 + (addWords 0 bs &&& 0xffff)).toNat
      = wordSum bs / 65536 + wordSum bs % 65536 := by
    rw [BitVec.toNat_add, hshift _ (by omega), hlow, hsum]
    omega
  simp only [inCksum, BitVec.toNat_setWidth, BitVec.toNat_not]
  rw [BitVec.toNat_add, hshift _ (by omega), hfold, endAround]
  omega

theorem inCksum_eq_zero_iff {bs : List UInt8} (h : wordSum bs < 2 ^ 31) :
    inCksum bs = 0 ↔ 0 < wordSum bs ∧ wordSum bs % 65535 = 0 := by
  have hlt := endAround_lt (wordSum bs)
  rw [← endAround_eq_iff (by omega), ← BitVec.toNat_inj, inCksum_toNat h,
    show (0 : BitVec 16).toNat = 0 from rfl]
  omega

theorem wordSum_lt {bs : List UInt8} (h : bs.length ≤ 65536) : wordSum bs < 2 ^ 31 := by
  have := wordSum_le bs
  omega

/-- The number that makes up for a sum, as `in_cksum` finds it. -/
theorem inCksum_complements {bs : List UInt8} (h : wordSum bs < 2 ^ 31) :
    (wordSum bs + (inCksum bs).toNat) % 65535 = 0 := by
  have hlt := endAround_lt (wordSum bs)
  have hmod : endAround (wordSum bs) % 65535 = wordSum bs % 65535 := endAround_modEq (by omega)
  rw [inCksum_toNat h]
  omega

/-! ## Lengths -/

@[simp] theorem length_htons (v : Nat) : (htons v).length = 2 := by simp [htons]

@[simp] theorem length_ipovly {len : List UInt8} (s d : BitVec 32) (h : len.length = 2) :
    (ipovly len s d).length = 20 := by
  simp [ipovly, h]

@[simp] theorem length_udphdr (h : Header) (sum : Nat) : (udphdr h sum).length = 8 := by simp [udphdr]

@[simp] theorem length_ipHeader (len id : BitVec 16) (sum : Nat) (s d : BitVec 32) :
    (ipHeader len id sum s d).length = 20 := by
  simp [ipHeader]

theorem ntohs_htons (v : Nat) : ntohs (htons v) = v % 65536 := by
  rw [ntohs, htons, List.reverse_reverse, le_toLE]; rfl

/-! ## Sending -/

theorem load_mid {a b c : List UInt8} {off n : Nat} (ha : a.length = off) (hb : b.length = n) :
    load (a ++ (b ++ c)) off n = b := by
  subst ha hb
  exact load_append_mid

theorem store_mid {a b c bs : List UInt8} {off : Nat} (ha : a.length = off) (hb : bs.length = b.length) :
    store (a ++ (b ++ c)) off bs = a ++ (bs ++ c) := by
  subst ha
  exact store_append hb

theorem overlaid_eq (m : List UInt8) (h : Header) :
    overlaid m h = ipovly (htons (h.msglen.toNat + 8)) h.saddr h.daddr ++ (udphdr h 0 ++ m.drop 28) := by
  rw [overlaid, store_zero, List.append_assoc]
  simp

/-- The checksums of the headers that are sent. -/
def Header.ipSum (h : Header) : Nat := (inCksum (ipHeader h.msglen h.ipId 0 h.saddr h.daddr)).toNat

theorem udpipgen_eq (m : List UInt8) (h : Header) :
    udpipgen m h = ipHeader h.msglen h.ipId h.ipSum h.saddr h.daddr ++
      (udphdr h (uhSum m h) ++ m.drop 28) := by
  have hmid : store (overlaid m h) 26 (toLE 2 (uhSum m h))
      = ipovly (htons (h.msglen.toNat + 8)) h.saddr h.daddr ++ (udphdr h (uhSum m h) ++ m.drop 28) := by
    rw [overlaid_eq, udphdr, udphdr]
    have := store_append (a := ipovly (htons (h.msglen.toNat + 8)) h.saddr h.daddr ++
        (toLE 2 h.sport.toNat ++ toLE 2 h.dport.toNat ++ htons (h.msglen.toNat + 8)))
      (b := toLE 2 0) (c := m.drop 28) (show (toLE 2 (uhSum m h)).length = (toLE 2 0).length by simp)
    simpa using this
  simp only [udpipgen, hmid, store_zero, length_ipHeader]
  rw [List.drop_left' (length_ipHeader ..), List.drop_left' (by simp)]
  rfl

theorem length_udpipgen {m : List UInt8} (h : Header) (hm : 28 ≤ m.length) :
    (udpipgen m h).length = m.length := by
  rw [udpipgen_eq]
  simp only [List.length_append, length_ipHeader, length_udphdr, List.length_drop]
  omega

theorem wordSum_ipHeader (len id : BitVec 16) (sum : Nat) (s d : BitVec 32) :
    wordSum (ipHeader len id sum s d) = wordSum (ipHeader len id 0 s d) + sum % 65536 := by
  have h : ∀ n, wordSum (ipHeader len id n s d)
      = wordSum ([0x45, 0] ++ htons (len.toNat + 28) ++ htons id.toNat ++ [0, 0, IPDEFTTL, IPPROTO_UDP])
        + (n % 65536 + wordSum (toLE 4 s.toNat ++ toLE 4 d.toNat)) := by
    intro n
    rw [ipHeader, List.append_assoc, List.append_assoc _ (toLE 2 n), wordSum_append_toLE _ _ (by simp)]
  rw [h sum, h 0]
  omega

theorem inCksum_ipHeader (h : Header) : inCksum (ipHeader h.msglen h.ipId h.ipSum h.saddr h.daddr) = 0 := by
  have hlt : ∀ n, wordSum (ipHeader h.msglen h.ipId n h.saddr h.daddr) < 2 ^ 31 :=
    fun n => wordSum_lt (by simp)
  have hpos : 0 < wordSum (ipHeader h.msglen h.ipId 0 h.saddr h.daddr) := by
    simp [ipHeader, wordSum]
  have hsum := inCksum_complements (hlt 0)
  have hsmall := (inCksum (ipHeader h.msglen h.ipId 0 h.saddr h.daddr)).isLt
  rw [inCksum_eq_zero_iff (hlt _), wordSum_ipHeader, Header.ipSum, Nat.mod_eq_of_lt hsmall]
  omega

/-- What the UDP checksum covers: the overlay, the UDP header and the message. -/
def datagram (m : List UInt8) (h : Header) (sum : Nat) : List UInt8 :=
  ipovly (htons (h.msglen.toNat + 8)) h.saddr h.daddr ++ (udphdr h sum ++ load m 28 h.msglen.toNat)

theorem load_overlaid {m : List UInt8} {h : Header} :
    load (overlaid m h) 0 (h.msglen.toNat + 28) = datagram m h 0 := by
  rw [overlaid_eq, load, List.drop_zero, datagram, List.take_append, List.take_of_length_le (by simp),
    List.take_append, List.take_of_length_le (by simp)]
  simp [load]

theorem wordSum_datagram (m : List UInt8) (h : Header) (sum : Nat) :
    wordSum (datagram m h sum) = wordSum (datagram m h 0) + sum % 65536 := by
  have hd : ∀ n, wordSum (datagram m h n)
      = wordSum (ipovly (htons (h.msglen.toNat + 8)) h.saddr h.daddr ++
          (toLE 2 h.sport.toNat ++ toLE 2 h.dport.toNat ++ htons (h.msglen.toNat + 8)))
        + (n % 65536 + wordSum (load m 28 h.msglen.toNat)) := by
    intro n
    rw [datagram, udphdr, List.append_assoc _ (toLE 2 n), ← List.append_assoc,
      wordSum_append_toLE _ _ (by simp)]
  rw [hd sum, hd 0]
  omega

theorem length_datagram_le (m : List UInt8) (h : Header) (sum : Nat) :
    (datagram m h sum).length ≤ h.msglen.toNat + 28 := by
  simp only [datagram, List.length_append, length_ipovly _ _ (length_htons _), length_udphdr, load,
    List.length_take]
  omega

/-- The checksum is never 0, and makes up for the rest. -/
theorem uhSum_spec {m : List UInt8} {h : Header} (hlen : h.msglen.toNat + 28 ≤ 65536) :
    0 < uhSum m h ∧ uhSum m h < 65536 ∧ (wordSum (datagram m h 0) + uhSum m h) % 65535 = 0 := by
  have hlt : wordSum (datagram m h 0) < 2 ^ 31 := wordSum_lt ((length_datagram_le m h 0).trans hlen)
  have hsum := inCksum_complements hlt
  have hsmall := (inCksum (datagram m h 0)).isLt
  simp only [uhSum, load_overlaid]
  split
  · rename_i h0
    rw [h0] at hsum
    simp only [BitVec.ofNat_eq_ofNat, BitVec.toNat_ofNat, Nat.zero_mod, Nat.add_zero] at hsum
    omega
  · rename_i h0
    have : (inCksum (datagram m h 0)).toNat ≠ 0 := fun h => h0 (BitVec.toNat_inj.mp (by simpa using h))
    omega

theorem inCksum_datagram {m : List UInt8} {h : Header} (hlen : h.msglen.toNat + 28 ≤ 65536) :
    inCksum (datagram m h (uhSum m h)) = 0 := by
  have hlt : wordSum (datagram m h (uhSum m h)) < 2 ^ 31 := wordSum_lt ((length_datagram_le m h _).trans hlen)
  obtain ⟨hpos, hsmall, hsum⟩ := uhSum_spec (m := m) hlen
  rw [inCksum_eq_zero_iff hlt, wordSum_datagram, Nat.mod_eq_of_lt hsmall]
  omega

/-! ## Checking -/

/-- The frame as it is when the UDP checksum is computed. -/
def overlay (f : List UInt8) : List UInt8 :=
  store (store f ETH_HLEN (List.replicate 9 0)) (ETH_HLEN + 10) (load f (ETH_HLEN + 24) 2)

theorem length_overlay {f : List UInt8} (h : 42 ≤ f.length) : (overlay f).length = f.length := by
  have h1 : (store f 14 (List.replicate 9 0)).length = f.length := length_store (by simp; omega)
  have h2 : (load f (14 + 24) 2).length = 2 := length_load (by omega)
  simp only [overlay, ETH_HLEN]
  rw [length_store (by rw [h1, h2]; omega), h1]

/-- How a packet without IP options is checked. -/
theorem udpipchk_plain {f : List UInt8} (hl : ipHl f = 20) (hlen : 42 ≤ f.length) :
    udpipchk f =
      if inCksum (load f ETH_HLEN 20) ≠ 0 then some (-1, f)
      else if load f (ETH_HLEN + 26) 2 = [0, 0] then some (0, f)
      else (fetch (overlay f) ETH_HLEN (ntohs (load f (ETH_HLEN + 24) 2) + 20)).bind fun covered =>
        if inCksum covered ≠ 0 then some (-2, overlay f)
        else some (0, store (overlay f) ETH_HLEN (load f ETH_HLEN 20)) := by
  have hfetch : ∀ off n, off + n ≤ 42 → fetch f off n = some (load f off n) :=
    fun off n h => if_pos (by omega)
  simp only [udpipchk, udpchk, hl, ETH_HLEN, ne_eq, not_true_eq_false, if_false, Nat.reduceAdd, Nat.reduceSub,
    Nat.reduceLT] at hfetch ⊢
  rw [hfetch 14 20 (by decide), hfetch 40 2 (by decide), hfetch 38 2 (by decide)]
  rfl

end CameraFw.Dhcp
