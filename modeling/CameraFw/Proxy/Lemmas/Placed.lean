import CameraFw.Proxy.Lemmas.Detect

/-!
# Where the line stands

The rounds of a connection go through phases: nothing is known of the stream yet, it is no HTTP request,
it is one and its first line has not ended, the line has been put in.
-/

namespace CameraFw.Proxy

open CameraFw.Base

variable {c : Conn} {r : Round} {s : Cli} {u : Up} {k n : Nat}

/-- What the web server should get of a stream. -/
def proxied (c : Conn) (stream : List UInt8) : List UInt8 :=
  if httpStart stream then
    match strstr crlf stream with
    | some i => stream.take (i + 2) ++ header c ++ stream.drop (i + 2)
    | none => stream
  else stream

/-- Once everything has gone out, the web server has got what it should. -/
def Placed (c : Conn) (u : Up) : Prop := u.sslPtr = 0 → u.sent = proxied c u.received

instance (c : Conn) (u : Up) : Decidable (Placed c u) := inferInstanceAs (Decidable (_ → _))

inductive Phase (c : Conn) (u : Up) (k : Nat) : Prop where
  | undecided (http : u.isHttp = none) (hdr : u.hdrSent = false) (sent : u.sent = u.received.take k)
      (few : (u.received.take k).count 32 < 2)
  | other (http : u.isHttp = some false) (hdr : u.hdrSent = false) (sent : u.sent = u.received.take k)
      (no : NotHttp u.received)
  | request (http : u.isHttp = some true) (hdr : u.hdrSent = false) (sent : u.sent = u.received.take k)
      (yes : httpStart u.received = true) (ahead : strstr crlf (u.received.take k) = none)
  | done (i : Nat) (hdr : u.hdrSent = true) (yes : httpStart u.received = true)
      (first : strstr crlf u.received = some i) (behind : i + 2 ≤ k)
      (sent : u.sent = u.received.take (i + 2) ++ header c ++ (u.received.take k).drop (i + 2))

/-- The invariant of the rounds. -/
def Following (c : Conn) (u : Up) : Prop := ∃ k n, Held u k n ∧ Phase c u k

theorem Following.placed (h : Following c u) : Placed c u := by
  obtain ⟨k, n, hheld, hphase⟩ := h
  intro hptr
  have htotal := hheld.total
  have hn : n = 0 := by have := hheld.ptr; omega
  have hall : u.received.take k = u.received := List.take_of_length_le (by omega)
  cases hphase with
  | undecided http hdr sent few =>
      rw [hall] at sent few
      simp [proxied, httpStart_few few, sent]
  | other http hdr sent no =>
      rw [hall] at sent
      simp [proxied, no.httpStart, sent]
  | request http hdr sent yes ahead =>
      rw [hall] at sent ahead
      simp [proxied, yes, ahead, sent]
  | done i hdr yes first behind sent =>
      rw [hall] at sent
      simp [proxied, yes, first, sent]

theorem Following.append (h : Following c u) {bytes : List UInt8}
    (hfit : u.sslPtr + bytes.length ≤ BUFFSIZE) :
    Following c (u.append bytes) := by
  obtain ⟨k, n, hheld, hphase⟩ := h
  have htotal := hheld.total
  have htake : ∀ j ≤ k, (u.append bytes).received.take j = u.received.take j := fun j hj =>
    List.take_append_of_le_length (by omega)
  have hk := htake k (Nat.le_refl k)
  refine ⟨k, n + bytes.length, hheld.append (by rw [hheld.ptr] at hfit; omega), ?_⟩
  cases hphase with
  | undecided http hdr sent few => exact .undecided http hdr (hk ▸ sent) (hk ▸ few)
  | other http hdr sent no => exact .other http hdr (hk ▸ sent) (no.append bytes)
  | request http hdr sent yes ahead =>
      exact .request http hdr (hk ▸ sent) (httpStart_append bytes yes) (hk ▸ ahead)
  | done i hdr yes first behind sent =>
      refine .done i hdr (httpStart_append bytes yes) (strstr_append bytes first) behind ?_
      rw [hk, htake (i + 2) behind]
      exact sent

/-! ## After the scan -/

/-- The phases in a round, after the scan and before the writes. -/
inductive Judged (c : Conn) (u : Up) (k : Nat) : Prop where
  | undecided (http : u.isHttp = none) (hdr : u.hdrSent = false) (sent : u.sent = u.received.take k)
      (few : u.received.count 32 < 2)
  | other (http : u.isHttp = some false) (hdr : u.hdrSent = false) (sent : u.sent = u.received.take k)
      (no : NotHttp u.received)
  | request (http : u.isHttp = some true) (hdr : u.hdrSent = false) (sent : u.sent = u.received.take k)
      (yes : httpStart u.received = true)
  | done (i : Nat) (hdr : u.hdrSent = true) (yes : httpStart u.received = true)
      (first : strstr crlf u.received = some i) (behind : i + 2 ≤ k)
      (sent : u.sent = u.received.take (i + 2) ++ header c ++ (u.received.take k).drop (i + 2))

theorem scanned_self (h : s.up.isHttp ≠ none ∨ s.up.hdrSent = true) : scanned c s = s := by
  have hno : ¬ (s.up.isHttp = none ∧ s.up.hdrSent = false) := by
    rintro ⟨h1, h2⟩
    rcases h with h | h
    · exact h h1
    · rw [h2] at h; cases h
  simp only [scanned, detect, if_neg hno]

theorem Phase.judged (hheld : Held s.up k n) (h : Phase c s.up k)
    (hseen : s.up.hdrSent = false → s.up.isHttp = none → Seen s.up) : Judged c (scanned c s).up k := by
  cases h with
  | undecided http hdr sent few =>
      obtain ⟨cnt, http', heq⟩ := scanned_eq c s
      have hcase := @scanned_of_seen c s k n hheld (hseen hdr http) http hdr few
      rw [heq] at hcase ⊢
      rcases hcase with ⟨hnone, hcount⟩ | ⟨hyes, hstart⟩ | ⟨hno, hother⟩
      · exact .undecided hnone hdr sent hcount
      · exact .request hyes hdr sent hstart
      · exact .other hno hdr sent hother
  | other http hdr sent no =>
      rw [scanned_self (Or.inl (by rw [http]; simp))]
      exact .other http hdr sent no
  | request http hdr sent yes ahead =>
      rw [scanned_self (Or.inl (by rw [http]; simp))]
      exact .request http hdr sent yes
  | done i hdr yes first behind sent =>
      rw [scanned_self (Or.inr hdr)]
      exact .done i hdr yes first behind sent

/-! ## The writes -/

theorem Phase.drop {m : List UInt8} {j : Nat} (h : Phase c u k) : Phase c (u.drop m j) k := by
  cases h with
  | undecided http hdr sent few => exact .undecided http hdr sent few
  | other http hdr sent no => exact .other http hdr sent no
  | request http hdr sent yes ahead => exact .request http hdr sent yes ahead
  | done i hdr yes first behind sent => exact .done i hdr yes first behind sent

/-- In a request, nothing of an end of a line has gone out yet; if one is in the buffer, no NUL stands
in front of it and the writes take the line of the client and the inserted one; else there are two
bytes. -/
def Cut (c : Conn) (s : Cli) (r : Round) : Prop :=
  Unbroken s.up.gone ∧
    match strstr crlf s.up.data with
    | none => 2 ≤ s.up.sslPtr
    | some i =>
        strstr crlf (cstr s.up.data) = some i ∧
          (results c r (mem c s.sockPtr s.up) s.up.sslPtr).1 = i + 2 ∧
            (results c r (mem c s.sockPtr s.up) s.up.sslPtr).2.1 = (header c).length ∧
              0 ≤ (results c r (mem c s.sockPtr s.up) s.up.sslPtr).2.2

instance (c : Conn) (s : Cli) (r : Round) : Decidable (Cut c s r) :=
  have : Decidable (match strstr crlf s.up.data with
    | none => 2 ≤ s.up.sslPtr
    | some i =>
        strstr crlf (cstr s.up.data) = some i ∧
          (results c r (mem c s.sockPtr s.up) s.up.sslPtr).1 = i + 2 ∧
            (results c r (mem c s.sockPtr s.up) s.up.sslPtr).2.1 = (header c).length ∧
              0 ≤ (results c r (mem c s.sockPtr s.up) s.up.sslPtr).2.2) :=
    match strstr crlf s.up.data with
    | none => inferInstanceAs (Decidable (_ ≤ _))
    | some _ => inferInstanceAs (Decidable (_ ∧ _ ∧ _ ∧ _))
  inferInstanceAs (Decidable (_ ∧ _))

theorem writePlain_following {m : List UInt8} (hheld : Held s.up k n) (hm : m = mem c s.sockPtr s.up)
    (hjudged : Judged c s.up k)
    (hahead : s.up.isHttp = some true → s.up.hdrSent = false →
      Unbroken (s.up.received.take k) ∧ strstr crlf (s.up.received.drop k) = none) :
    Kept (Following c) (·.1.up) (writePlain r m s) := by
  refine writePlain_kept hheld hm fun j hj => ?_
  have hk : k ≤ s.up.received.length := by have := hheld.total; omega
  subst hm
  refine ⟨k + j, n - j, (hheld.drop hj).congr rfl rfl rfl, Phase.drop ?_⟩
  have hmore : s.up.received.take (k + j) = s.up.received.take k ++ (s.up.received.drop k).take j :=
    List.take_add
  cases hjudged with
  | undecided http hdr sent few =>
      refine .undecided http hdr (by rw [hmore, sent]) ?_
      exact Nat.lt_of_le_of_lt ((List.take_sublist _ _).count_le 32) few
  | other http hdr sent no => exact .other http hdr (by rw [hmore, sent]) no
  | request http hdr sent yes =>
      obtain ⟨hunbroken, hnone⟩ := hahead http hdr
      refine .request http hdr (by rw [hmore, sent]) yes ?_
      rw [hmore, strstr_unbroken _ hunbroken]
      cases hpart : strstr crlf ((s.up.received.drop k).take j) with
      | none => rfl
      | some i =>
          have := strstr_append ((s.up.received.drop k).drop j) hpart
          rw [List.take_append_drop, hnone] at this
          cases this
  | done i hdr yes first behind sent =>
      refine .done i hdr yes first (by omega) ?_
      rw [drop_take_add behind hk, ← List.append_assoc, ← sent]

theorem writeInserted_following {m : List UInt8} {i : Nat} (hheld : Held s.up k n)
    (hm : m = mem c s.sockPtr s.up) (hsent : s.up.sent = s.up.received.take k)
    (hyes : httpStart s.up.received = true) (hunbroken : Unbroken (s.up.received.take k))
    (hfirst : strstr crlf (s.up.received.drop k) = some i) (hi : firstHdrEnd m = some i)
    (hin : i + 2 ≤ n) (h1 : (results c r m s.up.sslPtr).1 = i + 2)
    (hline : (results c r m s.up.sslPtr).2.1 = (header c).length)
    (h2 : 0 ≤ (results c r m s.up.sslPtr).2.2) :
    Kept (Following c) (·.1.up) (writeInserted c r m s) := by
  have hoff : hdrOff c m = i := by simp [hdrOff, hi]
  have hwhole : Whole c r m s.up.sslPtr :=
    ⟨Or.inl (by rw [h1, hoff]), Or.inl hline, Or.inl ⟨by omega, h2⟩⟩
  refine writeInserted_kept hheld hm hi hin hwhole ?_
  intro j₁ j₂ line hfit _ hj₁ hl
  obtain rfl := hj₁ h1
  obtain rfl := hl hline
  have htotal := hheld.total
  have hcrlf : strstr crlf s.up.received = some (k + i) := by
    have h := strstr_unbroken (s.up.received.drop k) hunbroken
    rw [List.take_append_drop, hfirst, List.length_take, Nat.min_eq_left (by omega)] at h
    rw [h, Option.map_some, Nat.add_comm]
  have hout : (s.up.received.take (k + (i + 2 + j₂))).drop (k + i + 2) =
      (s.up.received.drop (k + (i + 2))).take j₂ := by
    rw [show k + (i + 2 + j₂) = k + i + 2 + j₂ by omega, List.drop_take, ← Nat.add_assoc,
      Nat.add_sub_cancel_left]
  subst hm
  refine ⟨k + (i + 2 + j₂), n - (i + 2 + j₂), (hheld.drop hfit).congr rfl rfl rfl, Phase.drop ?_⟩
  refine .done (k + i) rfl hyes hcrlf (by omega) ?_
  rw [hout, hsent, ← List.take_add, Nat.add_assoc]

/-- The condition on a round: as long as the line is not sent, the scan sees what it should, and in a
request the end of the first line is met whole. -/
def Clean (c : Conn) (s : Cli) (r : Round) : Prop :=
  s.sockWr = true → (ready r s).sockWr = true → s.up.hdrSent = false →
    (s.up.isHttp = none → Seen s.up) ∧ ((scanned c s).up.isHttp = some true → Cut c s r)

instance (c : Conn) (s : Cli) (r : Round) : Decidable (Clean c s r) :=
  inferInstanceAs (Decidable (_ → _ → _ → _))

/-- In a request the end of the line that the round finds is the first one in the data it holds. -/
theorem firstHdrEnd_scanned_iff (hheld : Held s.up k n) (i : Nat) :
    firstHdrEnd (mem c s.sockPtr s.up) = some i ∧ i + 2 ≤ n ↔
      strstr crlf (cstr ((scanned c s).up.received.drop k)) = some i := by
  rw [← mem_scanned]
  exact firstHdrEnd_iff (@Held.scanned c s k n hheld)

theorem inserts_scanned_iff (hheld : Held s.up k n) (hn : 2 ≤ n) (http : (scanned c s).up.isHttp = some true)
    (hdr : (scanned c s).up.hdrSent = false) : inserts c (mem c s.sockPtr s.up) (scanned c s).up = true ↔
      ∃ i, strstr crlf (cstr ((scanned c s).up.received.drop k)) = some i := by
  rw [← mem_scanned, inserts_iff (@Held.scanned c s k n hheld) hn]
  simp only [http, hdr, true_and, mem_scanned, firstHdrEnd_scanned_iff hheld]

theorem writeUp_following (hs : Following c s.up)
    (hclean : s.up.hdrSent = false →
      (s.up.isHttp = none → Seen s.up) ∧ ((scanned c s).up.isHttp = some true → Cut c s r)) :
    Kept (Following c) (·.1.up) (writeUp c r s) := by
  obtain ⟨k, n, hheld, hphase⟩ := hs
  have hscan := @Held.scanned c s k n hheld
  have hjudged := hphase.judged hheld fun hdr => (hclean hdr).1
  obtain ⟨cnt, http', heq⟩ := scanned_eq c s
  have hrec : (scanned c s).up.received = s.up.received := by rw [heq]
  have hptr : (scanned c s).up.sslPtr = s.up.sslPtr := by rw [heq]
  have hhdr : (scanned c s).up.hdrSent = s.up.hdrSent := by rw [heq]
  unfold writeUp
  dsimp only
  by_cases hreq : (scanned c s).up.isHttp = some true ∧ (scanned c s).up.hdrSent = false
  · obtain ⟨hopen, hfind⟩ := (hclean (hhdr ▸ hreq.2)).2 hreq.1
    rw [hheld.gone, ← hrec] at hopen
    rw [hheld.data, ← hrec] at hfind
    have hins := fun hn => inserts_scanned_iff hheld hn hreq.1 hreq.2
    cases hfirst : strstr crlf ((scanned c s).up.received.drop k) with
    | none =>
        rw [hfirst] at hfind
        have hn : 2 ≤ n := by have := hheld.ptr; dsimp only at hfind; omega
        rw [if_neg (by rw [hins hn, strstr_cstr_none hfirst]; simp)]
        exact writePlain_following hscan mem_scanned.symm hjudged fun _ _ => ⟨hopen, hfirst⟩
    | some i =>
        rw [hfirst] at hfind
        obtain ⟨hvis, h1, hline, h2⟩ := hfind
        obtain ⟨hi, hin⟩ := (firstHdrEnd_scanned_iff hheld i).mpr hvis
        rw [if_pos ((hins (by omega)).mpr ⟨i, hvis⟩)]
        cases hjudged with
        | undecided http hdr sent few => rw [http] at hreq; cases hreq.1
        | other http hdr sent no => rw [http] at hreq; cases hreq.1
        | done i hdr yes first behind sent => rw [hdr] at hreq; cases hreq.2
        | request http hdr sent yes =>
            rw [← hptr] at h1 hline h2
            exact writeInserted_following hscan mem_scanned.symm sent yes hopen hfirst hi hin h1 hline h2
  · have hno : ¬ inserts c (mem c s.sockPtr s.up) (scanned c s).up = true := by
      intro hins
      simp only [inserts, Bool.and_eq_true, beq_iff_eq, Bool.not_eq_true'] at hins
      exact hreq hins.1
    rw [if_neg hno]
    exact writePlain_following hscan mem_scanned.symm hjudged fun h1 h2 => absurd ⟨h1, h2⟩ hreq

end CameraFw.Proxy
