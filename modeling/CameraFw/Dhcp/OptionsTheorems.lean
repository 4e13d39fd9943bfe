import CameraFw.Dhcp.Lemmas.Options

/-!
# What the client makes of the replies

`parseDhcpMsgRecv` with its table of lengths and blocks is a map from codes to data, for every sequence
of replies; it reads outside of a block exactly if a server's address or a mask of less than three bytes
is needed for another option. The renewal times that the client sets itself are those of the first
reply.
-/

namespace CameraFw.Dhcp

open CameraFw.Base

theorem parseAll_refines_from {nl : List UInt8} (hnl : nl.length = 4) :
    ∀ (rs : List Reply) (t : DhcpOptions), (∀ r ∈ rs, r.Ok) → t.Ok →
      (parseAll nl rs t).map DhcpOptions.view = learnAll nl rs t.view ∧ ∀ t',
        parseAll nl rs t = some t' → t'.Ok := by
  intro rs
  induction rs with
  | nil => intro t _ ht; exact ⟨rfl, fun t' h => Option.some.inj h ▸ ht⟩
  | cons r rs ih =>
      intro t hrs ht
      obtain ⟨hbad, hgood⟩ := parseDhcpMsgRecv_spec (hrs r (by simp)) hnl ht
      simp only [parseAll, learnAll, List.foldlM_cons, Option.bind_eq_bind]
      by_cases hf : (r.received t.view).Faulty
      · simp [hbad hf, hf]
      · obtain ⟨p, e, hp, hv, _⟩ := hgood hf
        rw [e, if_neg hf, Option.map_some, Option.bind_some, Option.bind_some, ← hv]
        exact ih p.options (fun x hx => hrs x (by simp [hx])) hp

/-- For every sequence of replies the table says what the map says, and the client reads outside of the
blocks exactly where a reply is faulty. -/
theorem parseAll_refines (nl : List UInt8) (rs : List Reply) (hnl : nl.length = 4) (hrs : ∀ r ∈ rs, r.Ok) :
    (parseAll nl rs .released).map DhcpOptions.view = learnAll nl rs (fun _ => none) :=
  (parseAll_refines_from hnl rs .released hrs .released).1

/-- A reply from 0.0.0.0 with these options and nothing else. -/
def replyWith (os : List Tlv.Opt) : Reply :=
  ⟨List.replicate 282 0 ++ (optsBytes os ++ endOption :: List.replicate
    (1231 - (optsBytes os).length) 0), 20, [0, 0, 0, 0]⟩

theorem replyWith_ok {os : List Tlv.Opt} {n : Nat} (h : Fits os n) (hn : n ≤ 308) : (replyWith os).Ok where
  frame := by
    have := h.size
    simp only [replyWith, List.length_append, List.length_replicate, List.length_cons, FRAME_SIZE]
    omega
  hl := show 20 ≤ 60 by decide
  ciaddr := rfl

theorem options_replyWith {os : List Tlv.Opt} {n : Nat} (h : Fits os n) (hn : n ≤ 308) :
    (replyWith os).options = os := by
  rw [Reply.options, replyWith, show msgRecv 20 + 240 = 282 from rfl,
    List.drop_left' (by rw [List.length_replicate])]
  exact decode_optsBytes h hn _

/-- A server identifier of one byte is copied to the name server, which takes four. -/
theorem parseAll_short_identifier :
    parseAll [255, 255, 255, 255] [replyWith [⟨54, [10]⟩]] .released = none := by
  have hfits : Fits [⟨54, [10]⟩] 3 := .one (n := 1) (by decide) (by decide) (by simp) (by decide)
  have hopts := options_replyWith hfits (by decide)
  have hlearn : learnAll [255, 255, 255, 255] [replyWith [⟨54, [10]⟩]] (fun _ => none) = none := by
    simp only [learnAll, List.foldlM_cons, Option.bind_eq_bind]
    rw [if_pos, Option.bind_none]
    rw [Reply.received, hopts]
    exact .inl ⟨rfl, [10], rfl, by decide⟩
  have href := parseAll_refines [255, 255, 255, 255] [replyWith [⟨54, [10]⟩]] rfl
    fun r hr => List.mem_singleton.mp hr ▸ replyWith_ok hfits (by decide)
  rw [hlearn] at href
  exact Option.map_eq_none_iff.mp href

/-! ## The times -/

theorem ntohl_htonl {v : Nat} (h : v < 2 ^ 32) : ntohl (htonl v) = v := by
  rw [ntohl, htonl, List.reverse_reverse, le_toLE]
  exact Nat.mod_eq_of_lt h

namespace OptionMap

/-- The lease time stays as it is when the timers are set, and each timer as it was when the other one is. -/
theorem complete_lease (m : OptionMap) (src yi nl : List UInt8) :
    m.complete src yi nl dhcpIPaddrLeaseTime = m.time dhcpIPaddrLeaseTime nl dhcpIPaddrLeaseTime := by
  rw [complete, time_of_ne (by decide), time_of_ne (by decide)]
  apply time_congr
  rw [missingFrom_of_ne (by decide) (by decide), missingFrom_of_ne (by decide) (by decide)]

theorem complete_T1 (m : OptionMap) (src yi nl : List UInt8) :
    m.complete src yi nl dhcpT1value
      = m.time dhcpT1value (htonl ((m.complete src yi nl).seconds dhcpIPaddrLeaseTime / 2)) dhcpT1value := by
  simp only [complete, seconds, word]
  rw [time_of_ne (x := dhcpT1value) (by decide),
    time_of_ne (x := dhcpIPaddrLeaseTime) (c := dhcpT2value) (by decide),
    time_of_ne (x := dhcpIPaddrLeaseTime) (c := dhcpT1value) (by decide)]
  apply time_congr
  rw [time_of_ne (by decide), missingFrom_of_ne (by decide) (by decide),
    missingFrom_of_ne (by decide) (by decide)]

theorem complete_T2 (m : OptionMap) (src yi nl : List UInt8) :
    m.complete src yi nl dhcpT2value
      = m.time dhcpT2value (htonl ((m.complete src yi nl).seconds dhcpIPaddrLeaseTime * 7 / 8))
        dhcpT2value := by
  simp only [complete, seconds, word]
  rw [time_of_ne (x := dhcpIPaddrLeaseTime) (c := dhcpT2value) (by decide),
    time_of_ne (x := dhcpIPaddrLeaseTime) (c := dhcpT1value) (by decide)]
  apply time_congr
  rw [time_of_ne (by decide), time_of_ne (by decide), missingFrom_of_ne (by decide) (by decide),
    missingFrom_of_ne (by decide) (by decide)]

/-- An option that is not in the list stays as it was. -/
theorem foldl_assign (os : List Tlv.Opt) (m : OptionMap) (c : UInt8) :
    os.foldl assign m c = (os.foldl assign (fun _ => none) c).or (m c) := by
  induction os using List.reverseRecOn with
  | nil => rfl
  | append_singleton os o ih =>
      simp only [List.foldl_append, List.foldl_cons, List.foldl_nil]
      by_cases h0 : o.data = []
      · simpa only [assign, h0, if_true] using ih
      · rcases eq_or_ne c o.code with rfl | hne
        · simp [assign, h0]
        · simpa only [assign, if_neg h0, Function.update_of_ne hne] using ih

theorem foldl_assign_absent {os : List Tlv.Opt} {c : UInt8} (h : ∀ o ∈ os, o.code ≠ c) (m : OptionMap) :
    os.foldl assign m c = m c := by
  induction os generalizing m with
  | nil => rfl
  | cons o os ih =>
      rw [List.foldl_cons, ih (fun x hx => h x (by simp [hx])), assign]
      split
      · rfl
      · exact Function.update_of_ne (h o (by simp)).symm _ _

end OptionMap

/-- The reply has no such option. -/
def Reply.Lacks (r : Reply) (c : UInt8) : Prop := ∀ o ∈ r.options, o.code ≠ c

section Timers

variable {nl : List UInt8} {r : Reply} {m : OptionMap} {c : UInt8}

/-- A timer that is set, and that the reply does not have, stays. -/
theorem Reply.Lacks.learned_timer (h : r.Lacks c) (hc : c = dhcpT1value ∨ c = dhcpT2value)
    (ht : m.HasTime c) :
    r.learned nl m c = m c ∧ (r.learned nl m).HasTime c := by
  have hrec : r.received m c = m c := OptionMap.foldl_assign_absent h m
  have ht' : (r.received m).HasTime c := by rwa [OptionMap.HasTime, hrec]
  have heq : r.learned nl m c = m c := by
    rcases hc with rfl | rfl
    · rw [Reply.learned, OptionMap.complete_T1, OptionMap.time_apply, if_pos ht', hrec]
    · rw [Reply.learned, OptionMap.complete_T2, OptionMap.time_apply, if_pos ht', hrec]
  exact ⟨heq, by rwa [OptionMap.HasTime, heq]⟩

theorem learnAll_timer (hc : c = dhcpT1value ∨ c = dhcpT2value) :
    ∀ (rs : List Reply) (m m' : OptionMap), (∀ r ∈ rs, r.Lacks c) → m.HasTime c →
      learnAll nl rs m = some m' → m' c = m c := by
  intro rs
  induction rs with
  | nil => intro m m' _ _ h; cases h; rfl
  | cons r rs ih =>
      intro m m' hrs ht h
      simp only [learnAll, List.foldlM_cons, Option.bind_eq_bind] at h
      split at h
      · simp at h
      · have hkeep : r.learned nl m c = m c ∧ (r.learned nl m).HasTime c :=
          (hrs r (by simp)).learned_timer hc ht
        obtain ⟨heq, ht'⟩ := hkeep
        rw [← heq]
        exact ih _ m' (fun x hx => hrs x (by simp [hx])) ht' h

/-- The first reply sets a timer that it does not have. -/
theorem Reply.Lacks.first_timer (h : r.Lacks c) {k : Nat} (hk : 0 < k) (hlt : k < 2 ^ 32)
    (hset : r.learned nl (fun _ => none) c = (r.received fun _ => none).time c (htonl k) c) :
    r.learned nl (fun _ => none) c = some (htonl k) ∧ (r.learned nl fun _ => none).HasTime c := by
  have hrec : r.received (fun _ => none) c = none := OptionMap.foldl_assign_absent h _
  have hno : ¬ (r.received fun _ => none).HasTime c := by
    rintro ⟨d, hd, _⟩
    rw [hrec] at hd
    cases hd
  have heq : r.learned nl (fun _ => none) c = some (htonl k) := by rw [hset, OptionMap.time_apply, if_neg hno]
  refine ⟨heq, htonl k, heq, length_htonl k, fun h0 => ?_⟩
  have := ntohl_htonl hlt
  rw [h0] at this
  have hzero : ntohl [0, 0, 0, 0] = 0 := rfl
  omega

/-- What a map says of a time that has been set. -/
theorem OptionMap.seconds_of_eq {d : List UInt8} (h : m c = some d) (hlen : d.length = 4) :
    m.seconds c = ntohl d := by
  rw [seconds, word, h, Option.getD_some, List.take_append_of_le_length (by omega),
    List.take_of_length_le (by omega)]

theorem ntohl_lt {bs : List UInt8} (h : bs.length ≤ 4) : ntohl bs < 2 ^ 32 := by
  have hlt : ∀ l : List UInt8, le l < 256 ^ l.length := by
    intro l
    induction l with
    | nil => simp [le]
    | cons b l ih =>
        have := b.toNat_lt
        rw [le, List.length_cons, Nat.pow_succ]
        omega
  have := hlt bs.reverse
  rw [List.length_reverse] at this
  exact this.trans_le ((Nat.pow_le_pow_right (by decide) h).trans (by decide))

theorem OptionMap.seconds_lt (m : OptionMap) (c : UInt8) : m.seconds c < 2 ^ 32 :=
  ntohl_lt (by simp only [word, List.length_take]; omega)

theorem learnAll_append (rs : List Reply) (q : Reply) (m : OptionMap) :
    learnAll nl (rs ++ [q]) m = (learnAll nl rs m).bind fun m => learnAll nl [q] m := by
  simp only [learnAll, List.foldlM_append, Option.bind_eq_bind]

/-- The lease time of a reply is the one that the client has after it. -/
theorem learnAll_lease {rs : List Reply} {q : Reply} {m m' : OptionMap} {d : List UInt8}
    (hq : q.received (fun _ => none) dhcpIPaddrLeaseTime = some d) (hd : d.length = 4 ∧ d ≠ [0, 0, 0, 0])
    (h : learnAll nl (rs ++ [q]) m = some m') : m'.seconds dhcpIPaddrLeaseTime = ntohl d := by
  rw [learnAll_append] at h
  obtain ⟨m₁, _, hm⟩ := Option.bind_eq_some_iff.mp h
  have hview : q.learned nl m₁ = m' := by
    simp only [learnAll, List.foldlM_cons, List.foldlM_nil, Option.bind_eq_bind] at hm
    split at hm
    · simp at hm
    · exact Option.some.inj hm
  have hrec : q.received m₁ dhcpIPaddrLeaseTime = some d := by
    rw [Reply.received, OptionMap.foldl_assign,
      show q.options.foldl OptionMap.assign (fun _ => none) dhcpIPaddrLeaseTime = some d from hq,
        Option.some_or]
  refine OptionMap.seconds_of_eq ?_ hd.1
  rw [← hview, Reply.learned, OptionMap.complete_lease, OptionMap.time_apply, if_pos ⟨d, hrec, hd⟩, hrec]

/-- A timer that the first reply sets to `k`, and that no reply has, is still `k` after all of them. -/
theorem learnAll_first_timer {rs : List Reply} {m' : OptionMap} {k : Nat}
    (hc : c = dhcpT1value ∨ c = dhcpT2value) (hk : 0 < k) (hlt : k < 2 ^ 32)
    (hall : ∀ x ∈ r :: rs, x.Lacks c)
    (hset : r.learned nl (fun _ => none) c = (r.received fun _ => none).time c (htonl k) c)
    (h : learnAll nl (r :: rs) (fun _ => none) = some m') : m'.seconds c = k := by
  obtain ⟨hfirst, hhas⟩ := (hall r List.mem_cons_self).first_timer hk hlt hset
  have hrest : learnAll nl rs (r.learned nl fun _ => none) = some m' := by
    simp only [learnAll, List.foldlM_cons, Option.bind_eq_bind] at h
    split at h
    · simp at h
    · exact h
  have hkeep := learnAll_timer hc rs _ _ (fun x hx => hall x (List.mem_cons_of_mem r hx)) hhas hrest
  rw [OptionMap.seconds_of_eq (hkeep.trans hfirst) (length_htonl k), ntohl_htonl hlt]

end Timers

/-- Without timers from the server, and with a first lease of two seconds or more, the client renews and
rebinds after one half and seven eighths of that lease, however short the lease is that a later reply
gives. -/
theorem timers_of_first_reply (nl : List UInt8) (r : Reply) (rs : List Reply) (t : DhcpOptions)
    (hnl : nl.length = 4) (hok : ∀ x ∈ r :: rs, x.Ok)
    (hlacks : ∀ x ∈ r :: rs, x.Lacks dhcpT1value ∧ x.Lacks dhcpT2value)
    (hl : 2 ≤ (r.learned nl fun _ => none).seconds dhcpIPaddrLeaseTime)
    (ht : parseAll nl (r :: rs) .released = some t) :
    t.view.seconds dhcpT1value = (r.learned nl fun _ => none).seconds dhcpIPaddrLeaseTime / 2 ∧
    t.view.seconds dhcpT2value = (r.learned nl fun _ => none).seconds dhcpIPaddrLeaseTime * 7 / 8 ∧
    ∀ before q d, r :: rs = before ++ [q] → q.received (fun _ => none) dhcpIPaddrLeaseTime = some d →
      d.length = 4 ∧ d ≠ [0, 0, 0, 0] → t.view.seconds dhcpIPaddrLeaseTime = ntohl d := by
  have hlearn : learnAll nl (r :: rs) (fun _ => none) = some t.view := by
    have := (parseAll_refines_from hnl _ .released hok .released).1
    rw [ht] at this
    exact this.symm
  have hlt := (r.learned nl fun _ => none).seconds_lt dhcpIPaddrLeaseTime
  refine ⟨?_, ?_, ?_⟩
  · exact learnAll_first_timer (.inl rfl) (by omega) (by omega) (fun x hx => (hlacks x hx).1)
      (OptionMap.complete_T1 ..) hlearn
  · exact learnAll_first_timer (.inr rfl) (by omega) (by omega) (fun x hx => (hlacks x hx).2)
      (OptionMap.complete_T2 ..) hlearn
  · intro before q d hrs hq hd
    exact learnAll_lease hq hd (hrs ▸ hlearn)

/-- A lease of 1000 seconds is followed by one of 100, and the client still renews after 500. -/
theorem timers_of_longer_lease :
    ∃ t, parseAll [255, 255, 255, 255] [replyWith [⟨51, [0, 0, 3, 232]⟩],
      replyWith [⟨51, [0, 0, 0, 100]⟩]] .released = some t ∧
      t.view.seconds dhcpIPaddrLeaseTime = 100 ∧ t.view.seconds dhcpT1value = 500 := by
  have hfits : ∀ a b, Fits [⟨51, [0, 0, a, b]⟩] 6 :=
    fun a b => .one (n := 4) (by decide) (by decide) (by simp) (by decide)
  have hopts := fun a b => options_replyWith (hfits a b) (by decide)
  have hok := fun a b => replyWith_ok (hfits a b) (by decide)
  have hlacks : ∀ a b c, c ≠ 51 → (replyWith [⟨51, [0, 0, a, b]⟩]).Lacks c := by
    intro a b c hc o ho
    rw [hopts a b] at ho
    cases List.mem_singleton.mp ho
    exact hc.symm
  have hrec : ∀ a b, (replyWith [⟨51, [0, 0, a, b]⟩]).received (fun _ => none) dhcpIPaddrLeaseTime =
      some [0, 0, a, b] := by
    intro a b
    rw [Reply.received, hopts a b]
    rfl
  have hfirst : ((replyWith [⟨51, [0, 0, 3, 232]⟩]).learned [255, 255, 255, 255] fun _ =>
      none).seconds dhcpIPaddrLeaseTime = 1000 := by
    refine (OptionMap.seconds_of_eq ?_ rfl).trans (show ntohl [0, 0, 3, 232] = 1000 from rfl)
    rw [Reply.learned, OptionMap.complete_lease, OptionMap.time_apply,
      if_pos ⟨_, hrec 3 232, rfl, by decide⟩, hrec]
  have hall : ∀ x ∈ [replyWith [⟨51, [0, 0, 3, 232]⟩], replyWith [⟨51, [0, 0, 0, 100]⟩]],
      x.Ok ∧ x.Lacks dhcpT1value ∧ x.Lacks dhcpT2value := by
    simp only [List.mem_cons, List.not_mem_nil, or_false, forall_eq_or_imp, forall_eq]
    exact ⟨⟨hok 3 232, hlacks _ _ _ (by decide), hlacks _ _ _ (by decide)⟩,
      hok 0 100, hlacks _ _ _ (by decide), hlacks _ _ _ (by decide)⟩
  obtain ⟨t, ht⟩ := Option.isSome_iff_exists.mp (show (parseAll [255, 255, 255, 255]
    [replyWith [⟨51, [0, 0, 3, 232]⟩], replyWith [⟨51, [0, 0, 0, 100]⟩]] .released).isSome = true by
      decide +kernel)
  obtain ⟨ht1, -, hlease⟩ := timers_of_first_reply [255, 255, 255, 255] _ _ t rfl
    (fun x hx => (hall x hx).1) (fun x hx => (hall x hx).2) (by rw [hfirst]; decide) ht
  exact ⟨t, ht, (hlease [_] _ _ rfl (hrec 0 100) ⟨rfl, by decide⟩).trans rfl, by rw [ht1, hfirst]⟩

end CameraFw.Dhcp
