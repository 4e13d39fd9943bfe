import CameraFw.Dhcp.Lemmas.UdpIp

/-!
# What the checksums of the DHCP client guarantee

A packet with the headers of `udpipgen` passes `udpipchk`, and a packet that has passed does not pass
any more after one byte of it has changed.
-/

namespace CameraFw.Dhcp

open CameraFw.Base

/-! ## Sent and checked -/

section Sent

variable {eth m : List UInt8} {h : Header}

theorem ipHl_sent (heth : eth.length = ETH_HLEN) : ipHl (eth ++ udpipgen m h) = 20 := by
  rw [ipHl, ← heth, List.getD_append_right _ _ _ _ (Nat.le_refl _), Nat.sub_self, udpipgen_eq, ipHeader]
  simp

theorem load_sent_ip (heth : eth.length = ETH_HLEN) :
    load (eth ++ udpipgen m h) ETH_HLEN 20 = ipHeader h.msglen h.ipId h.ipSum h.saddr h.daddr := by
  rw [udpipgen_eq]
  exact load_mid heth (length_ipHeader ..)

theorem load_sent_udp (heth : eth.length = ETH_HLEN) {a b c : List UInt8} {n : Nat}
    (hb : b.length = n) (hudp : udphdr h (uhSum m h) = a ++ (b ++ c)) :
    load (eth ++ udpipgen m h) (ETH_HLEN + 20 + a.length) n = b := by
  have hsplit : eth ++ udpipgen m h
      = (eth ++ ipHeader h.msglen h.ipId h.ipSum h.saddr h.daddr ++ a) ++ (b ++ (c ++ m.drop 28)) := by
    simp only [udpipgen_eq, hudp, List.append_assoc]
  rw [hsplit]
  exact load_mid (by simp [heth]; omega) hb

theorem load_sent_ulen (heth : eth.length = ETH_HLEN) :
    load (eth ++ udpipgen m h) (ETH_HLEN + 24) 2 = htons (h.msglen.toNat + 8) :=
  load_sent_udp heth (a := toLE 2 h.sport.toNat ++ toLE 2 h.dport.toNat) (c := toLE 2 (uhSum m h))
    (length_htons _) (by simp [udphdr])

theorem load_sent_sum (heth : eth.length = ETH_HLEN) :
    load (eth ++ udpipgen m h) (ETH_HLEN + 26) 2 = toLE 2 (uhSum m h) :=
  load_sent_udp heth (a := toLE 2 h.sport.toNat ++ toLE 2 h.dport.toNat ++ htons (h.msglen.toNat + 8))
    (c := []) (length_toLE _ _) (by simp [udphdr])

theorem overlay_sent (heth : eth.length = ETH_HLEN) :
    overlay (eth ++ udpipgen m h) = eth ++ (ipovly (htons (h.msglen.toNat + 8)) h.saddr h.daddr ++
      (udphdr h (uhSum m h) ++ m.drop 28)) := by
  have hip : ipHeader h.msglen h.ipId h.ipSum h.saddr h.daddr =
      ([0x45, 0] ++ htons (h.msglen.toNat + 28) ++ htons h.ipId.toNat ++ [0, 0, IPDEFTTL]) ++
        ([IPPROTO_UDP] ++ (toLE 2 h.ipSum ++ (toLE 4 h.saddr.toNat ++ toLE 4 h.daddr.toNat))) := by
    simp [ipHeader]
  rw [overlay, load_sent_ulen heth, udpipgen_eq, hip, List.append_assoc, store_mid heth (by simp)]
  have hsplit : ∀ zeros rest : List UInt8,
      eth ++ (zeros ++ ([IPPROTO_UDP] ++
        (toLE 2 h.ipSum ++ (toLE 4 h.saddr.toNat ++ toLE 4 h.daddr.toNat)) ++ rest))
        = (eth ++ zeros ++ [IPPROTO_UDP]) ++
          (toLE 2 h.ipSum ++ (toLE 4 h.saddr.toNat ++ toLE 4 h.daddr.toNat ++ rest)) := by
    intro zeros rest
    simp only [List.append_assoc]
  rw [hsplit, store_mid (by simp [heth]) (by simp), ipovly]
  simp

theorem fetch_overlay_sent (heth : eth.length = ETH_HLEN) (hm : h.msglen.toNat + 28 ≤ m.length) :
    fetch (overlay (eth ++ udpipgen m h)) ETH_HLEN (h.msglen.toNat + 8 + 20) =
      some (datagram m h (uhSum m h)) := by
  have hlen : (datagram m h (uhSum m h)).length = h.msglen.toNat + 8 + 20 := by
    simp only [datagram, List.length_append, length_ipovly _ _ (length_htons _), length_udphdr,
      show (load m 28 h.msglen.toNat).length = h.msglen.toNat from length_load (by omega)]
    omega
  have hsplit : overlay (eth ++ udpipgen m h) = eth ++
      (datagram m h (uhSum m h) ++ m.drop (28 + h.msglen.toNat)) := by
    rw [overlay_sent heth, datagram, List.append_assoc, List.append_assoc, load, ← List.drop_drop,
      List.take_append_drop]
  rw [fetch, if_pos, hsplit, load_mid heth hlen]
  rw [hsplit, List.length_append, List.length_append, heth, hlen]
  omega

end Sent

/-- What is sent passes the check, which leaves it as it was. -/
theorem udpipchk_udpipgen (eth m : List UInt8) (h : Header) (heth : eth.length = ETH_HLEN)
    (hm : h.msglen.toNat + 28 ≤ m.length) (hlen : h.msglen.toNat + 28 ≤ 65535) :
    udpipchk (eth ++ udpipgen m h) = some (0, eth ++ udpipgen m h) := by
  have hframe : 42 ≤ (eth ++ udpipgen m h).length := by
    rw [List.length_append, heth, length_udpipgen h (by omega), ETH_HLEN]
    omega
  obtain ⟨hpos, hsmall, -⟩ := uhSum_spec (m := m) (h := h) (by omega)
  have hsum : toLE 2 (uhSum m h) ≠ [0, 0] := by
    intro h0
    have := congrArg wordSum h0
    rw [wordSum_toLE, Nat.mod_eq_of_lt hsmall] at this
    simp [wordSum] at this
    omega
  rw [udpipchk_plain (ipHl_sent heth) hframe, load_sent_ip heth, load_sent_sum heth,
    load_sent_ulen heth, inCksum_ipHeader,
    if_neg (by simp), if_neg hsum, ntohs_htons, Nat.mod_eq_of_lt (by omega), fetch_overlay_sent heth hm,
      Option.bind_some,
    inCksum_datagram (by omega), if_neg (by simp), overlay_sent heth, store_mid heth (by simp), ← udpipgen_eq]

/-! ## Changed on the way -/

section Changed

variable {f : List UInt8} {i : Nat} {b : UInt8}

/-- A part that passed does not pass with another byte in it. -/
theorem inCksum_load_set {m : List UInt8} {off n : Nat} (hn : n ≤ 65536) (hm : off + n ≤ m.length)
    (h0 : inCksum (load m off n) = 0) (hlo : off ≤ i) (hhi : i < off + n) (hb : m[i]? ≠ some b) :
    inCksum (load (m.set i b) off n) ≠ 0 := by
  have hlen := length_load hm
  have hi : i - off < (load m off n).length := by omega
  have hget : (load m off n)[i - off] = m[i] := by
    simp only [load, List.getElem_take, List.getElem_drop, show off + (i - off) = i by omega]
  have hbyte : (load m off n)[i - off] ≠ b := by
    intro h
    exact hb (by rw [List.getElem?_eq_getElem (by omega), ← hget, h])
  intro h
  rw [load_set_of_le n b hlo] at h
  have hold := ((inCksum_eq_zero_iff (wordSum_lt (by omega))).mp h0).2
  have hnew := ((inCksum_eq_zero_iff (wordSum_lt (by simp; omega))).mp h).2
  exact wordSum_set_ne hi hbyte (hnew.trans hold.symm)

theorem getElem?_store_above {m bs : List UInt8} {off : Nat} (hm : off + bs.length ≤ m.length)
    (h : off + bs.length ≤ i) :
    (store m off bs)[i]? = m[i]? := by
  have hlen : (m.take off ++ bs).length = off + bs.length := by simp; omega
  rw [store, List.getElem?_append_right (by omega), hlen, List.getElem?_drop]
  congr 1
  omega

theorem load_ulen_set (h38 : i ≠ 38) (h39 : i ≠ 39) :
    load (f.set i b) (ETH_HLEN + 24) 2 = load f (ETH_HLEN + 24) 2 := by
  rcases Nat.lt_or_ge i 38 with h | h
  · exact load_set_of_lt _ _ h
  · exact load_set_above _ (by simp only [ETH_HLEN]; omega)

/-- The overlay does not reach the UDP header. -/
theorem overlay_above (hlen : 42 ≤ f.length) (hi : 34 ≤ i) (h38 : i ≠ 38) (h39 : i ≠ 39) :
    overlay (f.set i b) = (overlay f).set i b ∧ (overlay f)[i]? = f[i]? := by
  have hzero : (store f 14 (List.replicate 9 0)).length = f.length := length_store (by simp; omega)
  have hulen : (load f 38 2).length = 2 := length_load (by omega)
  have h9 : 14 + (List.replicate 9 (0 : UInt8)).length ≤ f.length := by simp; omega
  have h9i : 14 + (List.replicate 9 (0 : UInt8)).length ≤ i := by simp; omega
  have h2 : 24 + (load f 38 2).length ≤ (store f 14 (List.replicate 9 0)).length := by omega
  constructor
  · rw [overlay, load_ulen_set h38 h39, overlay]
    simp only [ETH_HLEN]
    rw [store_set_above b h9 h9i, store_set_above b h2 (by omega)]
  · simp only [overlay, ETH_HLEN]
    rw [getElem?_store_above h2 (by omega), getElem?_store_above h9 h9i]

/-- A packet that passes has a right IP header. -/
theorem udpipchk_passed_header {f' : List UInt8} (hl : ipHl f = 20) (hlen : 42 ≤ f.length)
    (hok : udpipchk f = some (0, f')) : inCksum (load f ETH_HLEN 20) = 0 := by
  by_contra h
  rw [udpipchk_plain hl hlen, if_pos h] at hok
  simp at hok

/-- What it means for a packet with a UDP checksum to pass. -/
theorem udpipchk_passed {f' : List UInt8} (hl : ipHl f = 20) (hlen : 42 ≤ f.length)
    (hsum : load f (ETH_HLEN + 26) 2 ≠ [0, 0]) (hok : udpipchk f = some (0, f')) :
    ETH_HLEN + (ntohs (load f (ETH_HLEN + 24) 2) + 20) ≤ f.length ∧
      inCksum (load (overlay f) ETH_HLEN (ntohs (load f (ETH_HLEN + 24) 2) + 20)) = 0 := by
  have hip := udpipchk_passed_header hl hlen hok
  have hin : ETH_HLEN + (ntohs (load f (ETH_HLEN + 24) 2) + 20) ≤ f.length := by
    by_contra h
    rw [udpipchk_plain hl hlen, if_neg (by simpa using hip), if_neg hsum, fetch, length_overlay hlen,
      if_neg h] at hok
    simp at hok
  refine ⟨hin, ?_⟩
  by_contra h
  rw [udpipchk_plain hl hlen, if_neg (by simpa using hip), if_neg hsum, fetch, length_overlay hlen,
    if_pos hin, Option.bind_some, if_pos h] at hok
  simp at hok

end Changed

/-- A packet that has passed fails after one byte of its headers or of its message has been changed: a
byte of the IP header that leaves its length alone, or a byte that the UDP checksum covers, apart from
those of the UDP length, that does not take the checksum away. -/
theorem udpipchk_set (f f' : List UInt8) (i : Nat) (b : UInt8) (hl : ipHl f = 20) (hlen : 42 ≤ f.length)
    (hok : udpipchk f = some (0, f')) (hb : f[i]? ≠ some b) :
    (14 ≤ i → i < 34 → ipHl (f.set i b) = 20 → udpipchk (f.set i b) = some (-1, f.set i b)) ∧
    (f.length ≤ 65536 → load f (ETH_HLEN + 26) 2 ≠ [0, 0] → 34 ≤ i →
      i < 34 + ntohs (load f (ETH_HLEN + 24) 2) → i ≠ 38 → i ≠ 39 →
      load (f.set i b) (ETH_HLEN + 26) 2 ≠ [0, 0] →
        udpipchk (f.set i b) = some (-2, overlay (f.set i b))) := by
  have hip := udpipchk_passed_header hl hlen hok
  have hlen' : 42 ≤ (f.set i b).length := by simpa using hlen
  have heth : ETH_HLEN = 14 := rfl
  constructor
  · intro hlo hhi hl'
    have hne := inCksum_load_set (by decide) (show ETH_HLEN + 20 ≤ f.length by omega) hip hlo hhi hb
    rw [udpipchk_plain hl' hlen', if_pos hne]
  · intro hmax hsum hlo hhi h38 h39 hsum'
    obtain ⟨hin, hudp⟩ := udpipchk_passed hl hlen hsum hok
    obtain ⟨hset, hget⟩ := overlay_above (b := b) hlen hlo h38 h39
    have hhl : ipHl (f.set i b) = 20 := by
      rw [← hl, ipHl, ipHl, List.getD_eq_getElem?_getD, List.getD_eq_getElem?_getD,
        List.getElem?_set_ne (by omega)]
    have hip' : load (f.set i b) ETH_HLEN 20 = load f ETH_HLEN 20 := load_set_above b hlo
    have hne := inCksum_load_set (show ntohs (load f (ETH_HLEN + 24) 2) + 20 ≤ 65536 by omega)
      (by rw [length_overlay hlen]; exact hin) hudp (show ETH_HLEN ≤ i by omega)
      (by omega) (by rwa [hget])
    rw [udpipchk_plain hhl hlen', hip', if_neg (by simpa using hip), if_neg hsum',
      load_ulen_set h38 h39, fetch,
      length_overlay hlen', if_pos (by rwa [List.length_set]), Option.bind_some, hset, if_pos hne]

/-- A broadcast of four bytes from port 68 to port 67. -/
def broadcast : List UInt8 :=
  List.replicate 14 0 ++ udpipgen (List.replicate 32 7) ⟨0, 0xffffffff, 0x4400, 0x4300, 4, 1⟩

theorem udpipchk_broadcast_set :
    udpipchk (broadcast.set 28 9) = some (-1, broadcast.set 28 9) ∧
    udpipchk (broadcast.set 43 9) = some (-2, overlay (broadcast.set 43 9)) := by
  have hok : udpipchk broadcast = some (0, broadcast) := udpipchk_udpipgen _ _ _ rfl (by decide) (by decide)
  have hfields : ipHl broadcast = 20 ∧ 42 ≤ broadcast.length ∧ broadcast.length ≤ 65536 ∧
      load broadcast (ETH_HLEN + 26) 2 ≠ [0, 0] ∧ broadcast[28]? ≠ some 9 ∧ broadcast[43]? ≠ some 9 ∧
      ipHl (broadcast.set 28 9) = 20 ∧ 43 < 34 + ntohs (load broadcast (ETH_HLEN + 24) 2) ∧
      load (broadcast.set 43 9) (ETH_HLEN + 26) 2 ≠ [0, 0] := by decide +kernel
  obtain ⟨hl, hlen, hmax, hsum, h28, h43, hl', hhi, hsum'⟩ := hfields
  exact ⟨(udpipchk_set broadcast broadcast 28 9 hl hlen hok h28).1 (by decide) (by decide) hl',
    (udpipchk_set broadcast broadcast 43 9 hl hlen hok h43).2 hmax hsum (by decide) hhi (by decide)
    (by decide) hsum'⟩

end CameraFw.Dhcp
