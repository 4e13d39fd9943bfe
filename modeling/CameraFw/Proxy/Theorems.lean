import CameraFw.Proxy.Lemmas.Placed

/-!
# What the web server gets

The client's bytes with the inserted line: that they stay whole, and that the line comes where it should.
-/

namespace CameraFw.Proxy

open CameraFw.Base

variable {c : Conn} {r : Round} {s : Cli} {u : Up} {k n : Nat}

/-! ## The stream stays whole -/

/-- Without the inserted line, what the web server has got is the beginning of what the client has sent. -/
def Intact (c : Conn) (u : Up) : Prop :=
  u.sent <+: u.received ∨
    ∃ i ≤ u.sent.length, header c <+: u.sent.drop i ∧
      u.sent.take i ++ u.sent.drop (i + (header c).length) <+: u.received

instance (c : Conn) (u : Up) : Decidable (Intact c u) := inferInstanceAs (Decidable (_ ∨ _))

theorem Sound.intact (h : Sound c u) : Intact c u := by
  obtain ⟨k, n, hheld, hsent | ⟨_, i, hi, hsent⟩⟩ := h
  · exact Or.inl (hsent ▸ List.take_prefix k u.received)
  · have htotal := hheld.total
    have hlen : (u.received.take i).length = i := by rw [List.length_take]; omega
    have hdrop : u.sent.drop i = header c ++ (u.received.take k).drop i := by
      rw [hsent, List.append_assoc, List.drop_append_of_le_length (by omega),
        List.drop_eq_nil_of_le (by omega), List.nil_append]
    refine Or.inr ⟨i, ?_, ?_, ?_⟩
    · rw [hsent, List.length_append, List.length_append]; omega
    · rw [hdrop]
      exact List.prefix_append _ _
    · rw [← List.drop_drop, hdrop, List.drop_left, hsent, List.append_assoc,
        List.take_append_of_le_length (by omega), List.take_of_length_le (by omega),
        show u.received.take i = (u.received.take k).take i by rw [List.take_take, Nat.min_eq_left hi],
        List.take_append_drop]
      exact List.take_prefix k u.received

/-- In a round that puts the line in, there are two bytes in the buffer and the writes meet `Whole`. -/
def LineWhole (c : Conn) (s : Cli) (r : Round) : Prop :=
  s.sockWr = true → (ready r s).sockWr = true → inserts c (mem c s.sockPtr s.up) (scanned c s).up = true →
    2 ≤ s.up.sslPtr ∧ Whole c r (mem c s.sockPtr s.up) s.up.sslPtr

instance (c : Conn) (s : Cli) (r : Round) : Decidable (LineWhole c s r) :=
  inferInstanceAs (Decidable (_ → _ → _ → _))

theorem writeUp_sound (hs : Sound c s.up)
    (hline : inserts c (mem c s.sockPtr s.up) (scanned c s).up = true →
      2 ≤ s.up.sslPtr ∧ Whole c r (mem c s.sockPtr s.up) s.up.sslPtr) :
    Kept (Sound c) (·.1.up) (writeUp c r s) := by
  obtain ⟨k, n, hheld, hpassed⟩ := hs
  have hscan := hheld.scanned (c := c)
  unfold writeUp
  dsimp only
  split
  · rename_i hins
    obtain ⟨h2, hwhole⟩ := hline hins
    have hn : 2 ≤ n := by rw [hheld.ptr] at h2; omega
    rw [← mem_scanned, inserts_iff hscan hn] at hins
    obtain ⟨_, hhdr, i, hi, hin⟩ := hins
    rw [mem_scanned] at hi
    have hsent : (scanned c s).up.sent = (scanned c s).up.received.take k := by
      rcases hpassed.scanned with h | h
      · exact h
      · rw [hhdr] at h; exact absurd h.1 (by decide)
    refine writeInserted_sound hscan mem_scanned.symm hsent hi hin ?_
    rw [hscan.ptr, ← hheld.ptr]
    exact hwhole
  · exact writePlain_sound hscan mem_scanned.symm hpassed.scanned

/-- In every run whose rounds put the line in with writes that meet `Whole`, the client's bytes go
through unchanged and the line is never sent in part. -/
theorem stream_intact (c : Conn) (rounds : List Round)
    (h : Along (transferStep c) (During (LineWhole c)) (.running Cli.start) rounds) :
    Always (transferStep c) (fun st => Intact c st.up) (.running Cli.start) rounds := by
  refine Always.imp (fun st hst => Sound.intact hst) (transfer_always ?_ ?_ ?_ rounds h)
  · exact ⟨0, 0, ⟨rfl, rfl, rfl, Nat.zero_le _⟩, Or.inl rfl⟩
  · intro u hu bytes hlt
    refine hu.append ?_
    rw [List.length_take]
    omega
  · intro s r hs h1 h2 hG cl
    exact writeUp_sound (s := { s with closing := cl }) hs (hG h1 h2)

/-! A client with the address 10.0.0.7, whose request comes in one piece. -/

def peer7 : Conn where
  ntop := ascii "10.0.0.7:4711"
  base := 2 ^ 28
  above := []
  colon := by decide
  short := by decide
  pos := by decide
  user := by decide
  room := by decide

def Round.quiet : Round where
  poll := 1
  sockRd := false
  sockWr := false
  sslRd := false
  sslWr := false
  wantSetup := ⟨false, false⟩
  wantNotify := ⟨false, false⟩
  wantWrite := ⟨false, false⟩
  wantRead := ⟨false, false⟩
  wantEnd := ⟨false, false⟩
  notify := 1
  write1 := .again
  header := .again
  write2 := .again
  sslWrite := .want
  read := .again
  pending := false
  sslRead := .want
  shutdown := false
  sslv2 := false

def getRequest : List UInt8 := ascii "GET / HTTP/1.0\r\nHost: a\r\n\r\n"

/-- The web server takes the request line, what `line` says of the inserted line, and the rest. -/
def getRounds (line : Wr) : List Round :=
  [{ Round.quiet with sslRd := true, sslRead := .got getRequest },
    { Round.quiet with sockWr := true, write1 := .took 100, header := line, write2 := .took 100 }]

theorem stream_intact_getRounds :
    Along (transferStep peer7) (During (LineWhole peer7)) (.running Cli.start) (getRounds (.took 100)) ∧
      Always (transferStep peer7) (fun st => Intact peer7 st.up) (.running Cli.start)
        (getRounds (.took 100)) :=
  ⟨by decide +kernel, stream_intact _ _ (by decide +kernel)⟩

theorem line_cut_short :
    ∃ st, run (transferStep peer7) (.running Cli.start) (getRounds (.took 5)) = some st ∧
      st.up.sent = ascii "GET / HTTP/1.0\r\nStunnHost: a\r\n\r\n" ∧ ¬ Intact peer7 st.up := by
  have h : (run (transferStep peer7) (.running Cli.start) (getRounds (.took 5))).any (fun st =>
      st.up.sent = ascii "GET / HTTP/1.0\r\nStunnHost: a\r\n\r\n" ∧ ¬ Intact peer7 st.up) = true := by
    decide +kernel
  simpa [Option.any_eq_true] using h

/-! ## The line stands where it should -/

/-- In every run whose rounds meet `Clean`, once everything has gone out the web server has got the
stream, with the line behind its first CRLF if and only if it is an HTTP request. So the chunks in which
it came make no difference. -/
theorem line_placed (c : Conn) (rounds : List Round)
    (h : Along (transferStep c) (During (Clean c)) (.running Cli.start) rounds) :
    Always (transferStep c) (fun st => Placed c st.up) (.running Cli.start) rounds := by
  refine Always.imp (fun st hst => Following.placed hst) (transfer_always ?_ ?_ ?_ rounds h)
  · exact ⟨0, 0, ⟨rfl, rfl, rfl, Nat.zero_le _⟩, .undecided rfl rfl rfl (by decide)⟩
  · intro u hu bytes hlt
    refine hu.append ?_
    rw [List.length_take]
    omega
  · intro s r hs h1 h2 hG cl
    exact writeUp_following (s := { s with closing := cl }) hs (hG h1 h2)

/-- The request comes in two pieces, and the web server takes each of them whole. -/
def splitRounds (cut : Nat) : List Round :=
  [{ Round.quiet with sslRd := true, sslRead := .got (getRequest.take cut) },
    { Round.quiet with sockWr := true, write1 := .took 100, header := .took 100, write2 := .took 100 },
    { Round.quiet with sslRd := true, sslRead := .got (getRequest.drop cut) },
    { Round.quiet with sockWr := true, write1 := .took 100, header := .took 100, write2 := .took 100 }]

/-- A cut inside the first word does no harm. -/
theorem line_placed_splitRounds :
    Along (transferStep peer7) (During (Clean peer7)) (.running Cli.start) (splitRounds 2) ∧
      Always (transferStep peer7) (fun st => Placed peer7 st.up) (.running Cli.start) (splitRounds 2) :=
  ⟨by decide +kernel, line_placed _ _ (by decide +kernel)⟩

/-- A cut inside the name of the protocol keeps the line out. -/
theorem line_missing :
    ∃ st, run (transferStep peer7) (.running Cli.start) (splitRounds 8) = some st ∧ st.up.sslPtr = 0 ∧
      st.up.received = getRequest ∧ st.up.sent = getRequest ∧ ¬ Placed peer7 st.up := by
  have h : (run (transferStep peer7) (.running Cli.start) (splitRounds 8)).any (fun st => st.up.sslPtr = 0 ∧
      st.up.received = getRequest ∧ st.up.sent = getRequest ∧ ¬ Placed peer7 st.up) = true := by
    decide +kernel
  simpa [Option.any_eq_true] using h

end CameraFw.Proxy
