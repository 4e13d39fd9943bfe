import CameraFw.Ntp.Lemmas.Timeval

/-!
# What a call does to the clock

An attempt either leaves the clock alone and goes on to the next one, or it is the last of the call.
Which of the two is decided by its reply, and the time that it installs is a function of that reply and
of the clock readings.
-/

namespace CameraFw.Ntp

open CameraFw.Base CameraFw.Dst

variable {ar : Arith} {cfg : Config} {a : Answer} {s : Sntp}

/-! ## Replies -/

/-- The bytes of the datagram that reach `rx_pkt`. -/
def Answer.reply (a : Answer) : List UInt8 := (a.datagram.getD []).take 1024

/-- A datagram has come in, it is long enough, its stratum is acceptable and it repeats the time of the
query. -/
def Answer.accepted (ar : Arith) (cfg : Config) (a : Answer) : Bool :=
  a.select == .ready && a.datagram.isSome && (48 ≤ a.reply.length : Bool) &&
    (stratum a.reply ≤ maxStratum : Bool) && load a.reply 24 8 == timeval2ntp ar (cfg.utc a.sent)

/-- The time that the reply gives. -/
def Answer.time (ar : Arith) (cfg : Config) (a : Answer) : Timeval :=
  newTime ar cfg (cfg.utc a.sent) (ntp2timeval ar (load a.reply 32 8)) (ntp2timeval ar (load a.reply 40 8))
    (cfg.utc a.received) a.now

/-- The clock when `SETRTCTIME` looks at it. -/
def Answer.clock (ar : Arith) (cfg : Config) (a : Answer) : Int := wrap ((a.time ar cfg).sec + a.passed)

@[simp] theorem length_timeval2ntp (ar : Arith) (tv : Timeval) : (timeval2ntp ar tv).length = 8 := by
  simp [timeval2ntp]

theorem load_tx : load (sendQuery ar cfg a s).tx 24 8 = timeval2ntp ar (cfg.utc a.sent) := by
  have hlen := length_timeval2ntp ar (cfg.utc a.sent)
  have h1 : (store (List.replicate 48 (0 : UInt8)) 0 [UInt8.ofNat (clientVers <<< 3 ||| 0x03)]).length =
      48 := by
    rw [length_store] <;> simp
  simp only [sendQuery]
  rw [load_store_below, load_store_same]
  · omega
  · exact hlen.symm
  · rw [length_store] <;> omega
  · omega

/-- What `get_response` leaves if the datagram is there and long enough. -/
theorem getResponse_ready {bytes} (hsel : a.select = .ready) (hdata : a.datagram = some bytes)
    (hlen : 48 ≤ (bytes.take 1024).length) :
    ∃ rx, (∀ o n, o + n ≤ 48 → load rx o n = load a.reply o n) ∧
      getResponse ar cfg a s =
        (if stratum a.reply > maxStratum then Ret.CONNECT_BAD else Ret.GOOD_RESPONSE,
          { s with
            t4 := cfg.utc a.received, rx := rx, t2 := ntp2timeval ar (load a.reply 32 8),
            t3 := ntp2timeval ar (load a.reply 40 8) }) := by
  have hreply : a.reply = bytes.take 1024 := by simp [Answer.reply, hdata]
  have hrx : ∀ o n, o + n ≤ 48 → load (store s.rx 0 (bytes.take 1024)) o n = load a.reply o n := by
    intro o n hon
    simp only [store, List.take_zero, List.nil_append, hreply]
    exact load_append_left (by omega)
  have hstratum : stratum (store s.rx 0 (bytes.take 1024)) = stratum a.reply := by
    rw [stratum, hrx 1 1 (by omega), stratum]
  refine ⟨store s.rx 0 (bytes.take 1024), hrx, ?_⟩
  simp only [getResponse, hsel, hdata, if_neg (Nat.not_lt.mpr hlen), hstratum, hrx 32 8 (by omega),
    hrx 40 8 (by omega), abortOnAlarm, abortOnStratZero, Bool.false_eq_true, and_false, if_false]
  by_cases hst : stratum a.reply > maxStratum
  · simp only [if_pos hst]
  · simp only [if_neg hst]

/-- Reading a reply neither sets the clock nor sends anything. -/
theorem getResponse_keeps :
    (getResponse ar cfg a s).2.installed = s.installed ∧ (getResponse ar cfg a s).2.queries = s.queries := by
  unfold getResponse
  split
  · exact ⟨rfl, rfl⟩
  · exact ⟨rfl, rfl⟩
  · split
    · exact ⟨rfl, rfl⟩
    · dsimp only
      split_ifs <;> exact ⟨rfl, rfl⟩

/-! ## One attempt -/

theorem getResponse_not_ready (h : ¬ (a.select = .ready ∧ a.datagram.isSome ∧ 48 ≤ a.reply.length)) :
    (getResponse ar cfg a s).1 ≠ .GOOD_RESPONSE := by
  unfold getResponse
  split
  · simp
  · simp
  · rename_i hsel
    split
    · simp
    · rename_i bytes hdata
      have hshort : (bytes.take 1024).length < 48 := by
        by_contra hlen
        exact h ⟨hsel, by simp [hdata], by simpa [Answer.reply, hdata] using hlen⟩
      simp only [hshort, if_true]
      simp

theorem attempt_retry
    (h : (getResponse ar cfg a (sendQuery ar cfg a s)).1 = .GOOD_RESPONSE →
      load (getResponse ar cfg a (sendQuery ar cfg a s)).2.rx 24 8 ≠
        load (getResponse ar cfg a (sendQuery ar cfg a s)).2.tx 24 8) :
    attempt ar cfg a s = (.retry, getResponse ar cfg a (sendQuery ar cfg a s)) := by
  unfold attempt
  dsimp only
  by_cases hgood : (getResponse ar cfg a (sendQuery ar cfg a s)).1 = .GOOD_RESPONSE
  · rw [if_neg (not_not.mpr hgood), if_pos (h hgood)]
  · rw [if_pos hgood]

/-- A reply that is not accepted costs an attempt and nothing else. -/
theorem attempt_refused (h : a.accepted ar cfg = false) :
    ∃ result t, attempt ar cfg a s = (.retry, result, t) ∧ t.installed = s.installed := by
  refine ⟨_, _, attempt_retry ?_, getResponse_keeps.1⟩
  intro hgood
  by_cases hready : a.select = .ready ∧ a.datagram.isSome ∧ 48 ≤ a.reply.length
  · obtain ⟨hsel, hsome, hlen⟩ := hready
    obtain ⟨bytes, hdata⟩ := Option.isSome_iff_exists.mp hsome
    obtain ⟨rx, hrx, hget⟩ := @getResponse_ready ar cfg a (sendQuery ar cfg a s) bytes hsel hdata
      (by simpa [Answer.reply, hdata] using hlen)
    rw [hget] at hgood ⊢
    have hst : stratum a.reply ≤ maxStratum := by
      by_contra hgt
      simp [if_pos (Nat.lt_of_not_le hgt)] at hgood
    rw [hrx 24 8 (by omega), load_tx]
    intro he
    simp [Answer.accepted, hsel, hsome, hlen, he, hst] at h
  · exact absurd hgood (getResponse_not_ready hready)

theorem setRtcTime_eq (now : Int) (s : Sntp) :
    (setRtcTime now s).1 = (if rtcYear now then Ret.SYNC_OK else Ret.SYNC_ERROR) ∧
      (setRtcTime now s).2.installed = s.installed := by
  unfold setRtcTime rtcYear
  by_cases hy : (localtime now).year + 1900 < 2000 ∨ (localtime now).year + 1900 ≥ 2038
  · have hn : ¬ (2000 ≤ (localtime now).year + 1900 ∧ (localtime now).year + 1900 < 2038) := by omega
    simp only [if_pos hy, Bool.and_eq_true, decide_eq_true_eq, hn, if_false, and_self]
  · have hn : 2000 ≤ (localtime now).year + 1900 ∧ (localtime now).year + 1900 < 2038 := by omega
    simp only [if_neg hy, Bool.and_eq_true, decide_eq_true_eq, hn, and_self, if_true]

theorem setClock_eq (new : Timeval) (a : Answer) (s : Sntp) :
    (setClock new a s).1 = (a.setOk && rtcYear (wrap (new.sec + a.passed))) ∧
      (setClock new a s).2.installed = s.installed ++ if a.setOk then [new] else [] := by
  cases hset : a.setOk with
  | false => simp [setClock, hset]
  | true =>
      obtain ⟨h1, h2⟩ := setRtcTime_eq (wrap (new.sec + a.passed))
        { s with installed := s.installed ++ [new] }
      simp only [setClock, hset, if_true, h1, h2]
      cases rtcYear (wrap (new.sec + a.passed)) <;> simp

/-- An accepted reply ends the call, and its time goes into the clock before the year is looked at. -/
theorem attempt_accepted (h : a.accepted ar cfg = true) :
    ∃ result t, attempt ar cfg a s =
        (if a.setOk && rtcYear (a.clock ar cfg) then .synced else .failed, result, t) ∧
      t.installed = s.installed ++ if a.setOk then [a.time ar cfg] else [] := by
  simp only [Answer.accepted, Bool.and_eq_true, beq_iff_eq, decide_eq_true_eq] at h
  obtain ⟨⟨⟨⟨hsel, hsome⟩, hlen⟩, hst⟩, horig⟩ := h
  obtain ⟨bytes, hdata⟩ := Option.isSome_iff_exists.mp hsome
  obtain ⟨rx, hrx, hget⟩ := @getResponse_ready ar cfg a (sendQuery ar cfg a s) bytes hsel hdata
    (by simpa [Answer.reply, hdata] using hlen)
  simp only [if_neg (Nat.not_lt.mpr hst)] at hget
  have hnew := setClock_eq (a.time ar cfg) a
  simp only [attempt, hget, hrx 24 8 (by omega), load_tx, horig, ne_eq, not_true_eq_false, if_false]
  have htime : newTime ar cfg (sendQuery ar cfg a s).t1 (ntp2timeval ar (load a.reply 32 8))
      (ntp2timeval ar (load a.reply 40 8)) (cfg.utc a.received) a.now = a.time ar cfg := rfl
  rw [htime, (hnew _).1]
  exact ⟨_, _, rfl, (hnew _).2⟩

/-! ## The call -/

/-- The call ends with the first reply that it accepts. -/
theorem attempts_spec (as : List Answer) (result : Ret) (s : Sntp) :
    match as.find? (Answer.accepted ar cfg) with
    | none => (attempts ar cfg as result s).ret = .SYNC_ERROR ∧
        (attempts ar cfg as result s).st.installed = s.installed
    | some a =>
        ((attempts ar cfg as result s).ret = .SYNC_ERROR ↔ (a.setOk && rtcYear (a.clock ar cfg)) = false) ∧
          (attempts ar cfg as result s).st.installed = s.installed ++ if a.setOk then [a.time ar cfg]
            else [] := by
  induction as generalizing result s with
  | nil => exact ⟨rfl, rfl⟩
  | cons a as ih =>
      cases hacc : a.accepted ar cfg with
      | false =>
          obtain ⟨result', t, hatt, hkeep⟩ := @attempt_refused ar cfg a s hacc
          simp only [List.find?_cons, hacc, attempts, hatt, ← hkeep]
          exact ih result' t
      | true =>
          obtain ⟨result', t, hatt, hset⟩ := @attempt_accepted ar cfg a s hacc
          simp only [List.find?_cons, hacc, attempts, hatt]
          cases hok : a.setOk && rtcYear (a.clock ar cfg) <;> simp [giveUp, hset]

/-- The first of the three replies that the call accepts, if it gets so far. -/
def Call.reply (c : Call) (ar : Arith) (tzone : Fin 76) : Option Answer :=
  if c.host && c.socket then (List.ofFn c.answers).find? (Answer.accepted ar (c.config tzone)) else none

theorem ntpUpdate_spec (c : Call) (tzone : Fin 76) (s : Sntp) :
    match c.reply ar tzone with
    | none => (ntpUpdate ar c tzone s).ret = .SYNC_ERROR ∧ (ntpUpdate ar c tzone s).st.installed = s.installed
    | some a =>
        ((ntpUpdate ar c tzone s).ret = .SYNC_ERROR ↔
          (a.setOk && rtcYear (a.clock ar (c.config tzone))) = false) ∧
          (ntpUpdate ar c tzone s).st.installed =
            s.installed ++ if a.setOk then [a.time ar (c.config tzone)] else [] := by
  cases hhost : c.host with
  | false => simp [Call.reply, ntpUpdate, hhost]
  | true =>
      cases hsock : c.socket with
      | false => simp [Call.reply, ntpUpdate, hhost, hsock]
      | true =>
          have hlist : List.ofFn c.answers = [c.answers 0, c.answers 1, c.answers 2] := rfl
          simp only [Call.reply, ntpUpdate, hhost, hsock, hlist, Bool.and_self, if_true, Bool.not_true,
            Bool.false_eq_true, if_false]
          exact attempts_spec _ _ s

/-- A call that fails leaves the clock as it was, and a time outside the years that `SETRTCTIME` takes is not
installed, exactly if the year is right before `settimeofday` accepts the time. -/
theorem ntpUpdate_unchanged_iff (ar : Arith) (c : Call) (tzone : Fin 76) (s : Sntp) :
    (((ntpUpdate ar c tzone s).ret = .SYNC_ERROR → (ntpUpdate ar c tzone s).st.installed = s.installed) ∧
        ∀ a, c.reply ar tzone = some a → rtcYear (a.time ar (c.config tzone)).sec = false →
          (ntpUpdate ar c tzone s).st.installed = s.installed) ↔
      ∀ a, c.reply ar tzone = some a → a.setOk = true →
        rtcYear (a.time ar (c.config tzone)).sec = true ∧ rtcYear (a.clock ar (c.config tzone)) = true := by
  have hspec := @ntpUpdate_spec ar c tzone s
  cases hreply : c.reply ar tzone with
  | none =>
      simp only [hreply] at hspec
      simp [hspec.2]
  | some a =>
      simp only [hreply] at hspec
      obtain ⟨hret, hset⟩ := hspec
      rw [hret, hset]
      cases hok : a.setOk with
      | false => simp [hok]
      | true =>
          cases hy : rtcYear (a.time ar (c.config tzone)).sec <;>
            cases hc : rtcYear (a.clock ar (c.config tzone)) <;> simp [hok, hy, hc]

/-- A server whose clock stands at the beginning of 1990 answers the first query. -/
def call1990 : Call where
  zone := none
  daySaving := none
  port := none
  host := true
  socket := true
  answers _ :=
    { sent := ⟨1000000000, 0⟩, select := .ready, received := ⟨1000000001, 0⟩,
      datagram := some ([0x1c, 2] ++ List.replicate 22 0 ++ timeval2ntp .exact ⟨1000000000, 0⟩ ++
        timeval2ntp .exact ⟨631152000, 0⟩ ++ timeval2ntp .exact ⟨631152000, 0⟩),
      now := ⟨1000000001, 0⟩, setOk := true, passed := 0 }

theorem ntpUpdate_call1990 :
    (ntpUpdate .exact call1990 4 ⟨[], [], ⟨0, 0⟩, ⟨0, 0⟩, ⟨0, 0⟩, ⟨0, 0⟩, [], [], []⟩).ret = .SYNC_ERROR ∧
      (ntpUpdate .exact call1990 4 ⟨[], [], ⟨0, 0⟩, ⟨0, 0⟩, ⟨0, 0⟩, ⟨0, 0⟩, [], [], []⟩).st.installed =
        [⟨631152000, 0⟩] := by
  decide +kernel

/-! ## Queries and the clock -/

/-- The globals when the program starts. -/
def Sntp.init : Sntp := ⟨[], [], ⟨0, 0⟩, ⟨0, 0⟩, ⟨0, 0⟩, ⟨0, 0⟩, [], [], []⟩

/-- The query that is sent when the clock reads `a.sent`. -/
def Answer.query (ar : Arith) (cfg : Config) (a : Answer) : Int × List UInt8 :=
  (cfg.port, (sendQuery ar cfg a Sntp.init).tx)

theorem load_query : load (a.query ar cfg).2 24 8 = timeval2ntp ar (cfg.utc a.sent) :=
  load_tx (s := Sntp.init)

theorem setClock_queries (new : Timeval) : (setClock new a s).2.queries = s.queries := by
  unfold setClock setRtcTime
  dsimp only
  split_ifs <;> rfl

theorem attempt_queries : (attempt ar cfg a s).2.2.queries = s.queries ++ [a.query ar cfg] := by
  have hget : (getResponse ar cfg a (sendQuery ar cfg a s)).2.queries = s.queries ++ [a.query ar cfg] :=
    getResponse_keeps.2
  unfold attempt
  dsimp only
  split_ifs
  · exact hget
  · exact hget
  all_goals exact (setClock_queries _).trans hget

/-- A query for each attempt, and a new time only from the last of them. -/
theorem attempts_queries (as : List Answer) (result : Ret) (s : Sntp) :
    ∃ k, (attempts ar cfg as result s).st.queries = s.queries ++ (as.take k).map (Answer.query ar cfg) ∧
      ((attempts ar cfg as result s).st.installed = s.installed ∨
        ∃ a, (as.take k).getLast? = some a ∧ a.accepted ar cfg = true ∧
          (attempts ar cfg as result s).st.installed = s.installed ++ [a.time ar cfg]) := by
  induction as generalizing result s with
  | nil => exact ⟨0, (List.append_nil _).symm, Or.inl rfl⟩
  | cons a as ih =>
      have hq := @attempt_queries ar cfg a s
      cases hacc : a.accepted ar cfg with
      | false =>
          obtain ⟨result', t, hatt, hkeep⟩ := @attempt_refused ar cfg a s hacc
          obtain ⟨k, hqueries, hset⟩ := ih result' t
          rw [hatt] at hq
          refine ⟨k + 1, ?_, ?_⟩
          · simp only [attempts, hatt]
            rw [hqueries, hq, List.append_assoc]
            rfl
          · simp only [attempts, hatt, ← hkeep]
            refine hset.imp_right fun ⟨b, hlast, hb⟩ => ⟨b, ?_, hb⟩
            rw [List.take_succ_cons, List.getLast?_cons, hlast]
            rfl
      | true =>
          obtain ⟨result', t, hatt, hset⟩ := @attempt_accepted ar cfg a s hacc
          rw [hatt] at hq
          have hst : (attempts ar cfg (a :: as) result s).st = t := by
            simp only [attempts, hatt]
            cases a.setOk && rtcYear (a.clock ar cfg) <;> rfl
          rw [hst]
          refine ⟨1, hq, ?_⟩
          cases hok : a.setOk with
          | false => exact Or.inl (by simpa [hok] using hset)
          | true => exact Or.inr ⟨a, rfl, hacc, by simpa [hok] using hset⟩

/-- An accepted reply, by the bytes of its datagram. -/
theorem accepted_bytes (h : a.accepted ar cfg = true) :
    ∃ bytes, a.select = .ready ∧ a.datagram = some bytes ∧ 48 ≤ bytes.length ∧ stratum bytes ≤ 15 ∧
      load bytes 24 8 = load (a.query ar cfg).2 24 8 ∧
      a.time ar cfg = newTime ar cfg (cfg.utc a.sent) (ntp2timeval ar (load bytes 32 8))
        (ntp2timeval ar (load bytes 40 8)) (cfg.utc a.received) a.now := by
  simp only [Answer.accepted, Bool.and_eq_true, beq_iff_eq, decide_eq_true_eq] at h
  obtain ⟨⟨⟨⟨hsel, hsome⟩, hlen⟩, hst⟩, horig⟩ := h
  obtain ⟨bytes, hdata⟩ := Option.isSome_iff_exists.mp hsome
  have hreply : a.reply = bytes.take 1024 := by simp [Answer.reply, hdata]
  have hload : ∀ o n, o + n ≤ 48 → load a.reply o n = load bytes o n := by
    intro o n hon
    rw [hreply]
    exact load_congr (k := 1024) (by simp) (by omega)
  rw [stratum, hload 1 1 (by omega)] at hst
  rw [hload 24 8 (by omega)] at horig
  rw [hreply, List.length_take] at hlen
  refine ⟨bytes, hsel, hdata, by omega, hst, horig.trans load_query.symm, ?_⟩
  rw [Answer.time, hload 32 8 (by omega), hload 40 8 (by omega)]

/-- At most three queries are sent and at most one time goes into the clock. It comes from a datagram
that repeats the time of the last query, with the clock readings of that query and of that reception. -/
theorem ntpUpdate_sets_once (ar : Arith) (c : Call) (tzone : Fin 76) (s : Sntp) :
    ∃ k new,
      (ntpUpdate ar c tzone s).st.queries =
          s.queries ++ ((List.ofFn c.answers).take k).map (Answer.query ar (c.config tzone)) ∧
        k ≤ 3 ∧ (ntpUpdate ar c tzone s).st.installed = s.installed ++ new ∧ new.length ≤ 1 ∧
        ∀ t ∈ new, ∃ a bytes, ((List.ofFn c.answers).take k).getLast? = some a ∧
          a.select = .ready ∧ a.datagram = some bytes ∧ 48 ≤ bytes.length ∧ stratum bytes ≤ 15 ∧
          load bytes 24 8 = load (a.query ar (c.config tzone)).2 24 8 ∧
          t = newTime ar (c.config tzone) ((c.config tzone).utc a.sent) (ntp2timeval ar (load bytes 32 8))
            (ntp2timeval ar (load bytes 40 8)) ((c.config tzone).utc a.received) a.now := by
  by_cases hup : c.host = true ∧ c.socket = true
  · have hrun : ntpUpdate ar c tzone s = attempts ar (c.config tzone) (List.ofFn c.answers) .TIMEOUT s := by
      simp only [ntpUpdate, hup.1, hup.2]
      rfl
    obtain ⟨k, hqueries, hset⟩ := @attempts_queries ar (c.config tzone) (List.ofFn c.answers) .TIMEOUT s
    have hk : (List.ofFn c.answers).take k = (List.ofFn c.answers).take (min k 3) := by
      rw [List.take_eq_take_iff, List.length_ofFn]
      omega
    rw [hk] at hqueries hset
    rw [hrun]
    rcases hset with hset | ⟨a, hlast, hacc, hset⟩
    · exact ⟨min k 3, [], hqueries, by omega, by rw [hset, List.append_nil], by simp, nofun⟩
    · refine ⟨min k 3, [a.time ar (c.config tzone)], hqueries, by omega, hset, by simp, ?_⟩
      intro t ht
      obtain rfl := List.mem_singleton.mp ht
      obtain ⟨bytes, hsel, hdata, hlen, hst, horig, htime⟩ := accepted_bytes hacc
      exact ⟨a, bytes, hlast, hsel, hdata, hlen, hst, horig, htime⟩
  · have hst : (ntpUpdate ar c tzone s).st = s := by
      unfold ntpUpdate
      cases hhost : c.host with
      | false => rfl
      | true =>
          cases hsock : c.socket with
          | false => rfl
          | true => exact absurd ⟨hhost, hsock⟩ hup
    rw [hst]
    exact ⟨0, [], by simp, by omega, by simp, by simp, nofun⟩

/-! ## The chain of time values -/

/-- The offset of the clock is exact and normalised at each step, and so is the corrected clock. -/
structure ChainExact (t1 t2 t3 t4 now off : Timeval) : Prop where
  t2t1 : (tvSub t2 t1).Exact (t2.total - t1.total)
  t3t4 : (tvSub t3 t4).Exact (t3.total - t4.total)
  tx2 : (tvAdd (tvSub t2 t1) (tvSub t3 t4)).Exact ((t2.total - t1.total) + (t3.total - t4.total))
  new : (tvAdd now off).Exact (now.total + off.total)

theorem Config.summer_usec (cfg : Config) (t : Timeval) : (cfg.summer t).usec = t.usec := by
  unfold Config.summer
  split <;> rfl

theorem newTime_normal {t1 t2 t3 t4 now off : Timeval} {gross : Bool} (h3 : t3.Normal)
    (hnew : (tvAdd now off).Normal)
    (hoff : ar.half (tvAdd (tvSub t2 t1) (tvSub t3 t4)) = ⟨off, gross⟩) :
    (newTime ar cfg t1 t2 t3 t4 now).Normal := by
  simp only [newTime, hoff]
  cases gross with
  | true => simpa only [if_true, Timeval.Normal, Config.summer_usec] using h3
  | false => simpa only [Bool.false_eq_true, if_false, Timeval.Normal, Config.summer_usec] using hnew

/-- The chain is exact and normalised, and with it what `settimeofday` gets, exactly if no number of
seconds overflows and the microseconds of neither sum make up a full second. -/
theorem chainExact_iff {t1 t2 t3 t4 now off : Timeval} (h1 : t1.Normal) (h2 : t2.Normal) (h3 : t3.Normal)
    (h4 : t4.Normal) (hnow : now.Normal) (hoff : -1000000 < off.usec ∧ off.usec < 1000000) :
    (ChainExact t1 t2 t3 t4 now off ∧
        ∀ ar cfg gross, ar.half (tvAdd (tvSub t2 t1) (tvSub t3 t4)) = ⟨off, gross⟩ →
          (newTime ar cfg t1 t2 t3 t4 now).Normal) ↔
      Fits (t2.total - t1.total) ∧ Fits (t3.total - t4.total) ∧
        Fits ((t2.total - t1.total) + (t3.total - t4.total)) ∧
        (t2.usec - t1.usec) % 1000000 + (t3.usec - t4.usec) % 1000000 ≠ 1000000 ∧
        Fits (now.total + off.total) ∧ now.usec + off.usec ≠ 1000000 := by
  have hmod : ∀ x y : Timeval, (x.total - y.total) % 1000000 = (x.usec - y.usec) % 1000000 := by
    intro x y
    unfold Timeval.total
    omega
  -- the sum of the two differences, once they are known
  have hsum : ∀ hA : (tvSub t2 t1).Exact (t2.total - t1.total), ∀ hB :
      (tvSub t3 t4).Exact (t3.total - t4.total),
      (tvAdd (tvSub t2 t1) (tvSub t3 t4)).Exact ((t2.total - t1.total) + (t3.total - t4.total)) ↔
        Fits ((t2.total - t1.total) + (t3.total - t4.total)) ∧
          (t2.usec - t1.usec) % 1000000 + (t3.usec - t4.usec) % 1000000 ≠ 1000000 := by
    intro hA hB
    have hsmall : -1000000 < (tvSub t3 t4).usec ∧ (tvSub t3 t4).usec < 1000000 :=
      ⟨by have := hB.2.1; omega, hB.2.2⟩
    have hiff := tvAdd_exact_iff hA.2 hsmall
    rwa [hA.1, hB.1, hA.usec_eq, hB.usec_eq, hmod, hmod] at hiff
  have hA := tvSub_exact_iff h2 h1
  have hB := tvSub_exact_iff h3 h4
  have hN := tvAdd_exact_iff hnow hoff
  constructor
  · rintro ⟨⟨ha, hb, hab, hn⟩, -⟩
    obtain ⟨hfab, hab⟩ := (hsum ha hb).mp hab
    exact ⟨hA.mp ha, hB.mp hb, hfab, hab, hN.mp hn⟩
  · rintro ⟨ha, hb, hfab, hab, hn⟩
    have hnew := hN.mpr hn
    exact ⟨⟨hA.mpr ha, hB.mpr hb, (hsum (hA.mpr ha) (hB.mpr hb)).mpr ⟨hfab, hab⟩, hnew⟩,
      fun ar cfg gross h => newTime_normal h3 hnew.2 h⟩

theorem chainExact_quarter :
    ChainExact ⟨1000000000, 0⟩ ⟨1000000000, 250000⟩ ⟨1000000000, 250000⟩ ⟨1000000000, 0⟩ ⟨1000000001, 0⟩
      ⟨0, 250000⟩ :=
  ((chainExact_iff (by decide) (by decide) (by decide) (by decide) (by decide) (by decide)).mpr (by decide)).1

/-- The server's clock is half a second ahead, and the clock reads half a second when it is corrected. -/
theorem newTime_full_second :
    tvAdd (tvSub ⟨1000000000, 500000⟩ ⟨1000000000, 0⟩) (tvSub ⟨1000000000, 500000⟩ ⟨1000000000, 0⟩) =
      ⟨0, 1000000⟩ ∧
      newTime .exact ⟨0, 4, 0, 123⟩ ⟨1000000000, 0⟩ ⟨1000000000, 500000⟩ ⟨1000000000, 500000⟩ ⟨1000000000, 0⟩
        ⟨1000000001, 500000⟩ = ⟨1000000001, 1000000⟩ := by
  decide +kernel

end CameraFw.Ntp
