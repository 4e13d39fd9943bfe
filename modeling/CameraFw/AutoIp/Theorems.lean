import CameraFw.AutoIp.Configure
import CameraFw.AutoIp.Probe

/-!
# Addresses the AutoIP module uses

The addresses made from the hardware address are all in the range for link-local addresses. Those made
from `rand()` are up to the values that are scaled beyond the third octet 254. A probe for an address
overlooks those who use the address in an ARP packet that is not a reply and does not ask for that
address.
-/

namespace CameraFw.AutoIp

open CameraFw.Base

/-! ## Candidates -/

/-- 169.254.x.y with x from 1 to 254. -/
def LinkLocal (ip : BitVec 32) : Prop :=
  octet ip 0 = 169 ∧ octet ip 1 = 254 ∧ 1 ≤ (octet ip 2).toNat ∧ (octet ip 2).toNat ≤ 254

instance (ip : BitVec 32) : Decidable (LinkLocal ip) := inferInstanceAs (Decidable (_ ∧ _))

theorem octet_htonl (x : BitVec 32) :
    octet (htonl x) 0 = x.extractLsb' 24 8 ∧ octet (htonl x) 1 = x.extractLsb' 16 8 ∧
      octet (htonl x) 2 = x.extractLsb' 8 8 := by
  refine ⟨?_, ?_, ?_⟩ <;>
  · apply BitVec.eq_of_getLsbD_eq
    intro i hi
    simp only [octet, htonl, BitVec.getLsbD_extractLsb', BitVec.getLsbD_or, BitVec.getLsbD_shiftLeft,
      BitVec.getLsbD_and, BitVec.getLsbD_ushiftRight]
    interval_cases i <;> simp

theorem octet_linkLocal (host : BitVec 16) :
    octet (linkLocal host) 0 = 169 ∧ octet (linkLocal host) 1 = 254 ∧
      octet (linkLocal host) 2 = host.extractLsb' 8 8 := by
  obtain ⟨h0, h1, h2⟩ := octet_htonl (NETWORK_ID <<< 16 ||| host.setWidth 32)
  rw [linkLocal, h0, h1, h2]
  refine ⟨?_, ?_, ?_⟩ <;>
  · apply BitVec.eq_of_getLsbD_eq
    intro i hi
    simp only [NETWORK_ID, BitVec.getLsbD_extractLsb', BitVec.getLsbD_or, BitVec.getLsbD_setWidth]
    interval_cases i <;> simp

theorem linkLocal_iff (host : BitVec 16) :
    LinkLocal (linkLocal host) ↔ 256 ≤ host.toNat ∧ host.toNat < 65280 := by
  obtain ⟨h0, h1, h2⟩ := octet_linkLocal host
  have hlt := host.isLt
  have hx : (host.extractLsb' 8 8).toNat = host.toNat / 256 := by
    rw [BitVec.extractLsb'_toNat, Nat.shiftRight_eq_div_pow]
    omega
  rw [LinkLocal, h0, h1, h2, hx]
  constructor
  · rintro ⟨_, _, hlo, hhi⟩
    omega
  · rintro ⟨hlo, hhi⟩
    exact ⟨rfl, rfl, by omega, by omega⟩

theorem StationID.third_range (m : StationID) : 1 ≤ m.third.toNat ∧ m.third.toNat ≤ 254 := by
  have hrange : ∀ b : BitVec 8, 1 ≤ b ∧ b ≤ 254 → 1 ≤ b.toNat ∧ b.toNat ≤ 254 := fun _ h => h
  simp only [StationID.third]
  split
  · exact hrange _ ‹_›
  · split
    · exact hrange _ ‹_›
    · split
      · decide
      · rename_i hout
        rw [not_or] at hout
        exact hrange _ ⟨BitVec.not_lt.mp hout.1, BitVec.not_lt.mp hout.2⟩

theorem StationID.hostID_toNat (m : StationID) : m.hostID.toNat = m.third.toNat * 256 + m.m2.toNat := by
  have h2 := m.m2.isLt
  have h3 := m.third.isLt
  have hshift : (m.third.setWidth 16 <<< 8).toNat = m.third.toNat <<< 8 := by
    rw [BitVec.toNat_shiftLeft, BitVec.toNat_setWidth, Nat.mod_eq_of_lt (by omega), Nat.shiftLeft_eq]
    omega
  rw [StationID.hostID, BitVec.toNat_or, hshift, BitVec.toNat_setWidth, Nat.mod_eq_of_lt (by omega),
    Nat.or_comm, ← Nat.shiftLeft_add_eq_or_of_lt h2, Nat.shiftLeft_eq]

/-- Every hardware address gives an address in the range. -/
theorem linkLocal_station (m : StationID) : LinkLocal (linkLocal m.hostID) := by
  have hthird := m.third_range
  have h2 := m.m2.isLt
  rw [linkLocal_iff, m.hostID_toNat]
  omega

/-- A random value gives one exactly if it is not scaled to 65024 or more. -/
theorem linkLocal_getNewIP (rand : Fin (RAND_MAX + 1)) : LinkLocal (getNewIP rand) ↔ scaled rand < 65024 := by
  have hlt : scaled rand < END_ADDR := by
    rw [scaled, Nat.div_lt_iff_lt_mul (by decide)]
    exact (Nat.mul_lt_mul_left (by decide)).mpr rand.isLt
  have hend : END_ADDR = 65279 := rfl
  have hstart : START_ADDR.toNat = 256 := rfl
  have hhost : (START_ADDR + BitVec.ofNat 16 (scaled rand)).toNat = 256 + scaled rand := by
    rw [BitVec.toNat_add, BitVec.toNat_ofNat]
    omega
  rw [getNewIP, linkLocal_iff, hhost]
  omega

/-! ## The loop -/

section Search

variable {c : Bool} {env : Env}

/-- The loop gets to round `k`. -/
def Reached (c : Bool) (env : Env) (k : Nat) : Prop := ∀ j < k, env.probe j (candidate c env j) ≠ 0

/-- Round `k` calls `rand()`, when there is no cache file or there was a collision. -/
def Draws (c : Bool) (env : Env) (k : Nat) : Prop := k ≠ 0 ∨ c = true ∨ env.station = none

theorem linkLocal_candidate (h : env.cache = .absent ∨ c = true) (k : Nat) :
    LinkLocal (candidate c env k) ↔ (Draws c env k → scaled (env.rand k) < 65024) := by
  by_cases hdraw : k ≠ 0 ∨ c = true
  · have hd : Draws c env k := or_assoc.mp (.inl hdraw)
    rw [candidate, if_pos hdraw, linkLocal_getNewIP]
    exact ⟨fun hlt _ => hlt, fun himp => himp hd⟩
  · rw [candidate, if_neg hdraw, h.resolve_right fun hc => hdraw (.inr hc)]
    cases hst : env.station with
    | none =>
        rw [show readFromAutoIPCacheFile .absent none = none from rfl, linkLocal_getNewIP]
        exact ⟨fun hlt _ => hlt, fun himp => himp (.inr (.inr hst))⟩
    | some m =>
        refine ⟨fun _ hd => ?_, fun _ => linkLocal_station m⟩
        rcases or_assoc.mpr hd with hd | hd
        · exact absurd hd hdraw
        · rw [hst] at hd; cases hd

/-- The addresses probed are those of the rounds that are reached. -/
theorem mem_search : ∀ n i ip, Act.probe ip ∈ (search c env n i).1 ↔
    ∃ k, i ≤ k ∧ k < i + n ∧ ip = candidate c env k ∧ ∀ j, i ≤ j → j < k →
      env.probe j (candidate c env j) ≠ 0 := by
  intro n
  induction n with
  | zero =>
      intro i ip
      constructor
      · intro h; cases h
      · rintro ⟨k, h1, h2, _⟩; omega
  | succ n ih =>
      intro i ip
      by_cases hfree : env.probe i (candidate c env i) = 0
      · simp only [search, if_pos hfree, List.mem_singleton, Act.probe.injEq]
        constructor
        · rintro rfl
          exact ⟨i, by omega, by omega, rfl, fun j h1 h2 => by omega⟩
        · rintro ⟨k, h1, _, rfl, hall⟩
          rcases Nat.lt_or_eq_of_le h1 with hlt | rfl
          · exact absurd hfree (hall i (by omega) hlt)
          · rfl
      · simp only [search, if_neg hfree, List.mem_cons, Act.probe.injEq, ih]
        constructor
        · rintro (rfl | ⟨k, h1, h2, rfl, hall⟩)
          · exact ⟨i, by omega, by omega, rfl, fun j h1 h2 => by omega⟩
          · refine ⟨k, by omega, by omega, rfl, fun j hj hjk => ?_⟩
            rcases Nat.lt_or_eq_of_le hj with hlt | rfl
            · exact hall j (by omega) hjk
            · exact hfree
        · rintro ⟨k, h1, h2, rfl, hall⟩
          rcases Nat.lt_or_eq_of_le h1 with hlt | rfl
          · exact .inr ⟨k, by omega, by omega, rfl, fun j hj hjk => hall j (by omega) hjk⟩
          · exact .inl rfl

theorem found_mem_search :
    ∀ n i ip, (search c env n i).2 = some ip → Act.probe ip ∈ (search c env n i).1 := by
  intro n
  induction n with
  | zero => intro i ip h; cases h
  | succ n ih =>
      intro i ip h
      by_cases hfree : env.probe i (candidate c env i) = 0
      · simp only [search, if_pos hfree, Option.some.injEq] at h ⊢
        exact List.mem_singleton.mpr (congrArg _ h.symm)
      · simp only [search, if_neg hfree] at h ⊢
        exact List.mem_cons_of_mem _ (ih (i + 1) ip h)

theorem setAddress_not_mem_search {n i : Nat} {ip : BitVec 32} :
    Act.setAddress ip ∉ (search c env n i).1 := by
  induction n generalizing i with
  | zero => simp [search]
  | succ n ih =>
      by_cases hfree : env.probe i (candidate c env i) = 0
      · simp [search, hfree]
      · simp [search, hfree, ih]

end Search

/-! ## A whole call -/

section Call

variable {v : Vars} {env : Env} {ip : BitVec 32}

/-- The address is probed or assigned. -/
def Uses (r : Result) (ip : BitVec 32) : Prop := Act.probe ip ∈ r.acts ∨ Act.setAddress ip ∈ r.acts

theorem uses_assign {a : BitVec 32} :
    (Act.probe ip ∉ (assign v env a).acts) ∧ (Act.setAddress ip ∈ (assign v env a).acts ↔ ip = a) := by
  cases hset : env.setAddress <;> cases hs : v.bStartUP <;> simp [assign, hset, hs]

theorem acts_eq (hstale : v.stale = true) :
    (dhcpAutoConfigureIP v env).acts = (if v.bStartUP then [] else [.destroyThread]) ++
      (search (collision v env) env AUTOIP_RETRY 0).1 ++
      match (search (collision v env) env AUTOIP_RETRY 0).2 with
      | some a => (assign { v with bCollision := collision v env } env a).acts
      | none => [] := by
  rw [dhcpAutoConfigureIP, if_pos (show (!v.bAutoConfiguredIP || v.bCollision) = true from hstale)]
  cases hfound : (search (collision v env) env AUTOIP_RETRY 0).2 <;>
    simp [show (v.bCollision || env.collided) = collision v env from rfl, hfound]

theorem uses_iff (hstale : v.stale = true) :
    Uses (dhcpAutoConfigureIP v env) ip ↔ Act.probe ip ∈ (search (collision v env) env AUTOIP_RETRY 0).1 := by
  have hstop : ∀ a : Act, a ≠ .destroyThread → a ∉ (if v.bStartUP then [] else [Act.destroyThread]) := by
    intro a ha
    cases v.bStartUP <;> simp [ha]
  have hprobe := hstop (.probe ip) (by simp)
  have hset := hstop (.setAddress ip) (by simp)
  rw [Uses, acts_eq hstale]
  cases hfound : (search (collision v env) env AUTOIP_RETRY 0).2 with
  | none => simp [hprobe, hset, setAddress_not_mem_search]
  | some a =>
      have hmem := found_mem_search _ _ a hfound
      simp only [List.mem_append, hprobe, hset, setAddress_not_mem_search, uses_assign, or_false, false_or]
      constructor
      · rintro (h | rfl)
        · exact h
        · exact hmem
      · exact .inl

/-- Without a cache file, or after a collision, the addresses used are link-local exactly if no value of
`rand()` that is drawn is scaled to 65024 or more. -/
theorem autoConfigure_linkLocal_iff (h : env.cache = .absent ∨ collision v env = true) :
    (∀ ip, Uses (dhcpAutoConfigureIP v env) ip → LinkLocal ip) ↔
      (v.stale = true → ∀ k < AUTOIP_RETRY, Reached (collision v env) env k → Draws (collision v env) env k →
        scaled (env.rand k) < 65024) := by
  cases hstale : v.stale with
  | false =>
      have hcond : ¬ (!v.bAutoConfiguredIP || v.bCollision) = true := by
        rw [show (!v.bAutoConfiguredIP || v.bCollision) = v.stale from rfl, hstale]
        exact Bool.false_ne_true
      refine ⟨fun _ hf => absurd hf Bool.false_ne_true, fun _ ip huse => ?_⟩
      rw [Uses, dhcpAutoConfigureIP, if_neg hcond] at huse
      rcases huse with huse | huse <;> cases huse
  | true =>
      simp only [uses_iff hstale, mem_search, forall_const]
      constructor
      · intro hall k hk hreach
        exact (linkLocal_candidate h k).mp (hall _ ⟨k, by omega, by omega, rfl, fun j _ hj => hreach j hj⟩)
      · rintro hcond ip ⟨k, _, hk, rfl, hall⟩
        exact (linkLocal_candidate h k).mpr (hcond k (by omega) fun j hj => hall j (by omega) hj)

/-- Start-up without a cache file; the address from the hardware address is taken, the next one free. -/
def firstTaken (rand : Fin (RAND_MAX + 1)) : Env where
  collided := false
  cache := .absent
  station := some ⟨0x12, 0x34, 0x56⟩
  rand := fun _ => rand
  probe := fun i _ => if i = 0 then 1 else 0
  setAddress := true

def startUp : Vars := ⟨false, true, false, false, 0⟩

theorem autoConfigure_linkLocal_firstTaken :
    Act.setAddress (getNewIP 1000000000) ∈ (dhcpAutoConfigureIP startUp (firstTaken 1000000000)).acts ∧
      ∀ ip, Uses (dhcpAutoConfigureIP startUp (firstTaken 1000000000)) ip → LinkLocal ip := by
  have hscaled : scaled 1000000000 < 65024 := by decide +kernel
  exact ⟨by decide +kernel, (autoConfigure_linkLocal_iff (.inl rfl)).mpr fun _ _ _ _ _ => hscaled⟩

/-- The largest value of `rand()` gives 169.254.255.254. -/
theorem autoConfigure_outside :
    Act.setAddress (getNewIP (Fin.last RAND_MAX)) ∈
        (dhcpAutoConfigureIP startUp (firstTaken (Fin.last RAND_MAX))).acts ∧
      octet (getNewIP (Fin.last RAND_MAX)) 2 = 255 ∧ ¬ LinkLocal (getNewIP (Fin.last RAND_MAX)) := by
  decide +kernel

end Call

/-! ## Probes -/

section Probe

variable {client : BitVec 48} {ip : BitVec 32} {answers : Nat → Answers}

/-- An ARP packet from another machine that has the address, or probes for it. -/
def Conflict (client : BitVec 48) (ip : BitVec 32) (m : ArpMessage) : Prop :=
  m.etherType = ETHERTYPE_ARP ∧ m.sHaddr ≠ client ∧
    (m.sInaddr = ip ∨ m.operation = ARPOP_REQUEST ∧ m.tInaddr = ip)

/-- An ARP packet from another machine that has the address, neither a reply nor a request for the address. -/
def Overlooked (client : BitVec 48) (ip : BitVec 32) (m : ArpMessage) : Prop :=
  m.etherType = ETHERTYPE_ARP ∧ m.sHaddr ≠ client ∧ m.sInaddr = ip ∧ m.operation ≠ ARPOP_REPLY ∧
    ¬ (m.operation = ARPOP_REQUEST ∧ m.tInaddr = ip)

instance (m : ArpMessage) : Decidable (Overlooked client ip m) := inferInstanceAs (Decidable (_ ∧ _))

theorem conflict_iff {m : ArpMessage} (h : decisive client ip m = false) :
    Conflict client ip m ↔ Overlooked client ip m := by
  constructor
  · rintro ⟨harp, hother, hwho⟩
    simp only [decisive, harp, ne_eq, not_true_eq_false, ↓reduceIte] at h
    by_cases hreply : m.operation = ARPOP_REPLY
    · -- a reply that has the address would have been seen
      simp only [hreply, ↓reduceIte, decide_eq_false_iff_not] at h
      rcases hwho with hs | ⟨hreq, _⟩
      · exact absurd hs h
      · rw [hreply] at hreq; cases hreq
    · simp only [hreply, ↓reduceIte, decide_eq_false_iff_not] at h
      have hnot : ¬ (m.operation = ARPOP_REQUEST ∧ m.tInaddr = ip) := fun hreq => h ⟨hreq.1, hother, hreq.2⟩
      exact ⟨harp, hother, hwho.resolve_right hnot, hreply, hnot⟩
  · rintro ⟨harp, hother, hs, _, _⟩
    exact ⟨harp, hother, .inl hs⟩

/-- What one round keeps: no packet so far was decisive. -/
theorem probePass_seen {a : Answers} {st : ProbeSt} (h : ∀ m ∈ st.seen, decisive client ip m = false) :
    (∀ st', probePass client ip a st = .again st' → ∀ m ∈ st'.seen, decisive client ip m = false) ∧
      ∀ seen, probePass client ip a st = .leave ⟨0, seen⟩ → seen = st.seen := by
  cases hp : st.phase with
  | send =>
      simp only [probePass, hp]
      split
      · exact ⟨fun _ h' => (by cases h'), fun _ h' => (by cases h'; rfl)⟩
      · split
        · exact ⟨fun _ h' => (by cases h'), fun _ h' => (by cases h')⟩
        · exact ⟨fun _ h' => (by cases h'; exact h), fun _ h' => (by cases h')⟩
  | receive =>
      simp only [probePass, hp]
      split
      · exact ⟨fun _ h' => (by cases h'), fun _ h' => (by cases h')⟩
      · rename_i m _
        split
        · exact ⟨fun _ h' => (by cases h'), fun _ h' => (by cases h')⟩
        · rename_i hm
          refine ⟨fun st' h' x hx => ?_, fun _ h' => (by cases h')⟩
          cases h'
          rcases List.mem_append.mp hx with hx | hx
          · exact h x hx
          · rw [List.mem_singleton.mp hx]
            exact Bool.eq_false_iff.mpr hm

theorem seen_not_decisive {fuel : Nat} {seen : List ArpMessage}
    (h : sendARPtoCheckUniqueness client ip answers fuel = some ⟨0, seen⟩) :
    ∀ m ∈ seen, decisive client ip m = false := by
  obtain ⟨n, st, _, hst, hleave⟩ := whileLoop_eq_some.mp h
  have hinv := head_inv (fun _ st => ∀ m ∈ st.seen, decisive client ip m = false) (by simp)
    (fun n t u ht hu => (probePass_seen ht).1 u hu) n st hst
  rw [(probePass_seen hinv).2 seen hleave]
  exact hinv

/-- When the address is reported free, there was no conflict exactly if no packet received was of the
kind overlooked. -/
theorem free_iff {fuel : Nat} {seen : List ArpMessage}
    (h : sendARPtoCheckUniqueness client ip answers fuel = some ⟨0, seen⟩) :
    (∀ m ∈ seen, ¬ Conflict client ip m) ↔ ∀ m ∈ seen, ¬ Overlooked client ip m := by
  have hseen := seen_not_decisive h
  exact forall₂_congr fun m hm => not_congr (conflict_iff (hseen m hm))

/-- The packet comes after the first probe, the other probes are met with silence. -/
def onePacket (m : ArpMessage) : Nat → Answers
  | 0 => ⟨true, none, .ready⟩
  | 1 => ⟨true, some m, .timeout⟩
  | _ => ⟨true, none, .timeout⟩

/-- Another machine asks for a third address. -/
theorem free_third_party :
    sendARPtoCheckUniqueness 0x1a 0x0105fea9 (onePacket ⟨0x0806, 1, 0x2b, 0x0205fea9, 0x0305fea9⟩) 7 =
        some ⟨0, [⟨0x0806, 1, 0x2b, 0x0205fea9, 0x0305fea9⟩]⟩ ∧
      ∀ m ∈ [(⟨0x0806, 1, 0x2b, 0x0205fea9, 0x0305fea9⟩ : ArpMessage)], ¬ Conflict 0x1a 0x0105fea9 m := by
  have hrun : sendARPtoCheckUniqueness 0x1a 0x0105fea9
      (onePacket ⟨0x0806, 1, 0x2b, 0x0205fea9, 0x0305fea9⟩) 7 =
      some ⟨0, [⟨0x0806, 1, 0x2b, 0x0205fea9, 0x0305fea9⟩]⟩ := by decide +kernel
  exact ⟨hrun, (free_iff hrun).mpr (by decide)⟩

/-- The machine that has the address asks for a third address. -/
theorem free_though_used :
    sendARPtoCheckUniqueness 0x1a 0x0105fea9 (onePacket ⟨0x0806, 1, 0x2b, 0x0105fea9, 0x0305fea9⟩) 7 =
        some ⟨0, [⟨0x0806, 1, 0x2b, 0x0105fea9, 0x0305fea9⟩]⟩ ∧
      Conflict 0x1a 0x0105fea9 ⟨0x0806, 1, 0x2b, 0x0105fea9, 0x0305fea9⟩ :=
  ⟨by decide +kernel, rfl, by decide, .inl rfl⟩

end Probe

end CameraFw.AutoIp
