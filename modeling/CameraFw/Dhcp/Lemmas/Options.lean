import CameraFw.Dhcp.Options

/-!
# Facts about the option table

The blocks of the table are as long as their options and a zero byte, or are four bytes that were put
there instead of an option. Each operation on the table keeps that and is an operation on the map of the
options.
-/

namespace CameraFw.Dhcp

open CameraFw.Base

namespace DhcpOptions

structure Ok (t : DhcpOptions) : Prop where
  empty : ∀ c, t.val c = none → t.len c = 0
  block : ∀ c b, t.val c = some b → t.len c ≠ 0 ∧ (t.len c).toNat ≤ b.length ∧
    (b.drop (t.len c).toNat = [0] ∨ t.len c = 4 ∧ b.length = 4)

theorem Ok.released : Ok released where
  empty := fun _ _ => rfl
  block := by intro c b h; cases h

section Table

variable {t : DhcpOptions} {c l : UInt8} {b : List UInt8} {more : Bool}

theorem view_eq_none : t.view c = none ↔ t.val c = none := by simp [view]

theorem view_install : (t.install c l b more).view = Function.update t.view c (some (b.take l.toNat)) := by
  funext x
  rcases eq_or_ne x c with rfl | hx
  · simp [view, install]
  · simp [view, install, hx]

theorem view_overwrite :
    (t.overwrite c b).view = Function.update t.view c (some (b.take (t.len c).toNat)) := by
  funext x
  rcases eq_or_ne x c with rfl | hx
  · simp [view, overwrite]
  · simp [view, overwrite, hx]

theorem Ok.install (h : t.Ok) (h0 : l ≠ 0) (hl : l.toNat ≤ b.length)
    (hb : b.drop l.toNat = [0] ∨ l = 4 ∧ b.length = 4) :
    (t.install c l b more).Ok where
  empty := by
    intro x hx
    rcases eq_or_ne x c with rfl | hne
    · simp [DhcpOptions.install] at hx
    · simpa [DhcpOptions.install, hne] using h.empty x (by simpa [DhcpOptions.install, hne] using hx)
  block := by
    intro x d hx
    rcases eq_or_ne x c with rfl | hne
    · simp only [DhcpOptions.install, Function.update_self, Option.some.injEq] at hx ⊢
      subst hx
      exact ⟨h0, hl, hb⟩
    · simp only [DhcpOptions.install, Function.update_of_ne hne] at hx ⊢
      exact h.block x d hx

theorem Ok.overwrite {d : List UInt8} (h : t.Ok) (hc : t.val c = some b) (hlen : d.length = b.length)
    (hdrop : d.drop (t.len c).toNat = b.drop (t.len c).toNat) : (t.overwrite c d).Ok where
  empty := by
    intro x hx
    rcases eq_or_ne x c with rfl | hne
    · simp [DhcpOptions.overwrite] at hx
    · exact h.empty x (by simpa [DhcpOptions.overwrite, hne] using hx)
  block := by
    intro x e hx
    rcases eq_or_ne x c with rfl | hne
    · simp only [DhcpOptions.overwrite, Function.update_self, Option.some.injEq] at hx ⊢
      subst hx
      rw [hdrop, hlen]
      exact h.block x b hc
    · simp only [DhcpOptions.overwrite, Function.update_of_ne hne] at hx ⊢
      exact h.block x e hx

end Table

/-! ## Operations -/

variable {t : DhcpOptions} {c : UInt8}

theorem Ok.receive (h : t.Ok) {data : List UInt8} (h0 : data ≠ []) (hlen : data.length < 256) :
    ∃ t', t.receive c data = some t' ∧ t'.Ok ∧ t'.view = t.view.assign ⟨c, data⟩ := by
  have hl : (UInt8.ofNat data.length).toNat = data.length := UInt8.toNat_ofNat_of_lt' hlen
  have hpos : 0 < data.length := List.length_pos_iff.mpr h0
  have hne : UInt8.ofNat data.length ≠ 0 := by
    intro h
    rw [h] at hl
    simp at hl
    omega
  rw [OptionMap.assign, if_neg h0]
  by_cases hc : t.len c = UInt8.ofNat data.length
  · cases hv : t.val c with
    | none => exact absurd (hc.symm.trans (h.empty c hv)) hne
    | some b =>
        obtain ⟨_, hfit, _⟩ := h.block c b hv
        rw [hc, hl] at hfit
        refine ⟨t.overwrite c (data ++ b.drop data.length), ?_, h.overwrite hv (by simp; omega) ?_, ?_⟩
        · simp [DhcpOptions.receive, hc, hv, hfit]
        · rw [hc, hl, List.drop_left]
        · rw [view_overwrite, hc, hl, List.take_left]
  · refine ⟨_, if_neg hc, h.install hne (by simp [hl]) (.inl ?_), ?_⟩
    · rw [hl, List.drop_left]
    · rw [view_install, hl, List.take_left]

/-- The first bytes of a block are those of its option, with a zero byte where there are only three. -/
theorem Ok.take_block (h : t.Ok) {b : List UInt8} (hb : t.val c = some b) :
    b.take 4 = t.view.word c ∧ (b.length < 4 ↔ t.view.Short c) := by
  have hview : t.view c = some (b.take (t.len c).toNat) := by simp [view, hb]
  obtain ⟨_, hfit, hzero | ⟨h4, hlen⟩⟩ := h.block c b hb
  · have hsplit : b = b.take (t.len c).toNat ++ [0] := by rw [← hzero, List.take_append_drop]
    have hlen : b.length = (t.len c).toNat + 1 := by
      have := congrArg List.length hsplit
      simp only [List.length_append, List.length_take, List.length_singleton] at this
      omega
    refine ⟨by rw [OptionMap.word, hview, Option.getD_some, ← hsplit], ?_⟩
    simp only [OptionMap.Short, hview, Option.some.injEq, exists_eq_left', List.length_take]
    omega
  · have h4' : (t.len c).toNat = 4 := by rw [h4]; rfl
    refine ⟨?_, ?_⟩
    · rw [OptionMap.word, hview, Option.getD_some, h4', List.take_append_of_le_length (by simp; omega),
        List.take_take]
      rfl
    · simp only [OptionMap.Short, hview, Option.some.injEq, exists_eq_left', List.length_take]
      omega

theorem Ok.first4 (h : t.Ok) (hc : t.view c ≠ none) (hs : ¬ t.view.Short c) :
    t.first4 c = some (t.view.word c) := by
  cases hv : t.val c with
  | none => exact absurd (view_eq_none.mpr hv) hc
  | some b =>
      obtain ⟨htake, hlen⟩ := h.take_block hv
      simp only [DhcpOptions.first4, hv, Option.bind_some, fetch, load, List.drop_zero, htake, Nat.zero_add]
      exact if_pos (Nat.le_of_not_lt fun hlt => hs (hlen.mp hlt))

theorem Ok.first4_short (h : t.Ok) (hs : t.view.Short c) : t.first4 c = none := by
  cases hv : t.val c with
  | none => simp [DhcpOptions.first4, hv]
  | some b =>
      have := (h.take_block hv).2.mpr hs
      simp only [DhcpOptions.first4, hv, Option.bind_some, fetch, Nat.zero_add]
      exact if_neg (by omega)

theorem Ok.ensure (h : t.Ok) {v : Option (List UInt8)} {w : List UInt8}
    (hv : t.view c = none → v = some w ∧ w.length = 4) :
    ∃ t', t.ensure c v = some t' ∧ t'.Ok ∧ t'.view = t.view.missing c w := by
  cases hc : t.val c with
  | none =>
      have hnone : t.view c = none := view_eq_none.mpr hc
      obtain ⟨rfl, hw⟩ := hv hnone
      refine ⟨t.install c 4 w true, ?_, h.install (by decide) (by rw [hw]; decide) (.inr ⟨rfl, hw⟩), ?_⟩
      · simp [DhcpOptions.ensure, hc]
      · rw [view_install, OptionMap.missing, if_pos hnone, show (4 : UInt8).toNat = 4 from rfl,
          List.take_of_length_le (by omega)]
  | some b =>
      have hsome : t.view c ≠ none := fun hn => by rw [view_eq_none.mp hn] at hc; cases hc
      exact ⟨t, by simp [DhcpOptions.ensure, hc], h, by rw [OptionMap.missing, if_neg hsome]⟩

theorem ensure_fault (hc : t.view c = none) : t.ensure c none = none := by
  simp [ensure, view_eq_none.mp hc]

theorem Ok.timed (h : t.Ok) {w : List UInt8} (hw : w.length = 4) :
    (t.timed c w).Ok ∧ (t.timed c w).view = t.view.time c w := by
  have h4 : (4 : UInt8).toNat = 4 := rfl
  have hinst : (t.install c 4 w true).Ok ∧ (t.install c 4 w true).view = Function.update t.view c (some w) :=
    ⟨h.install (by decide) (by rw [hw]; decide) (.inr ⟨rfl, hw⟩),
      by rw [view_install, h4, List.take_of_length_le (by omega)]⟩
  cases hc : t.val c with
  | none =>
      have hno : ¬ t.view.HasTime c := fun ⟨d, hd, _⟩ => by rw [view_eq_none.mpr hc] at hd; cases hd
      simpa [DhcpOptions.timed, hc, OptionMap.time, hno] using hinst
  | some b =>
      have hview : t.view c = some (b.take (t.len c).toNat) := by simp [view, hc]
      obtain ⟨_, hfit, _⟩ := h.block c b hc
      by_cases hl : t.len c = 4
      · rw [hl, h4] at hfit hview
        by_cases hz : b.take 4 = [0, 0, 0, 0]
        · have hno : ¬ t.view.HasTime c :=
            fun ⟨d, hd, _, hne⟩ => hne (by rw [hview] at hd; cases hd; exact hz)
          simp only [DhcpOptions.timed, hc, hl, hz, if_true, OptionMap.time, if_neg hno]
          refine ⟨h.overwrite hc (by simp [hw]; omega) ?_, ?_⟩
          · rw [hl, h4, List.drop_left' hw]
          · rw [view_overwrite, hl, h4, List.take_left' hw]
        · have hyes : t.view.HasTime c := ⟨_, hview, by simp; omega, hz⟩
          simp only [DhcpOptions.timed, hc, hl, if_true, if_neg hz, OptionMap.time, if_pos hyes]
          exact ⟨h, trivial⟩
      · have hno : ¬ t.view.HasTime c := by
          rintro ⟨d, hd, hlen, _⟩
          rw [hview] at hd
          cases hd
          simp only [List.length_take, Nat.min_eq_left hfit] at hlen
          exact hl (UInt8.toNat_inj.mp hlen)
        simp only [DhcpOptions.timed, hc, if_neg hl, OptionMap.time, if_neg hno]
        exact hinst

end DhcpOptions

/-! ## The map -/

namespace OptionMap

variable {m : OptionMap} {c x : UInt8} {v : List UInt8}

theorem missing_of_ne (h : x ≠ c) : m.missing c v x = m x := by
  rw [missing]
  split
  · exact Function.update_of_ne h _ _
  · rfl

theorem missing_self (m : OptionMap) (c : UInt8) (v : List UInt8) :
    m.missing c v c = some ((m c).getD v) := by
  rw [missing]
  split
  · rename_i h
    simp [h]
  · rename_i h
    obtain ⟨d, hd⟩ := Option.ne_none_iff_exists'.mp h
    simp [hd]

theorem short_missing_self (hv : 3 ≤ v.length) : (m.missing c v).Short c ↔ m.Short c := by
  simp only [Short, missing_self, Option.some.injEq, exists_eq_left']
  cases m c with
  | none => simp; omega
  | some d => simp

theorem short_congr {m m' : OptionMap} (h : m c = m' c) : m.Short c ↔ m'.Short c := by rw [Short, Short, h]

theorem time_self (m : OptionMap) (c : UInt8) (hv : v.length = 4) :
    ∃ d, m.time c v c = some d ∧ d.length = 4 := by
  rw [time]
  split
  · rename_i h
    obtain ⟨d, hd, hlen, _⟩ := h
    exact ⟨d, hd, hlen⟩
  · exact ⟨v, Function.update_self .., hv⟩

theorem time_apply (m : OptionMap) (c : UInt8) (v : List UInt8) :
    m.time c v c = if m.HasTime c then m c else some v := by
  rw [time]
  split
  · rfl
  · exact Function.update_self ..

theorem time_congr {m m' : OptionMap} (h : m c = m' c) : m.time c v c = m'.time c v c := by
  have hiff : m.HasTime c ↔ m'.HasTime c := by rw [HasTime, HasTime, h]
  by_cases hm : m.HasTime c
  · rw [time_apply, time_apply, if_pos hm, if_pos (hiff.mp hm), h]
  · rw [time_apply, time_apply, if_neg hm, if_neg (mt hiff.mpr hm)]

theorem time_of_ne (h : x ≠ c) : m.time c v x = m x := by
  rw [time]
  split
  · rfl
  · exact Function.update_of_ne h _ _

theorem missingFrom_of_ne {m : OptionMap} {c₀ : UInt8} {g : List UInt8 → List UInt8} (h₀ : x ≠ c₀)
    (h : x ≠ c) :
    m.missingFrom c₀ v c g x = m x := by
  rw [missingFrom, missing_of_ne h, missing_of_ne h₀]

theorem length_word (hc : m c ≠ none) (hs : ¬ m.Short c) : (m.word c).length = 4 := by
  obtain ⟨d, hd⟩ := Option.ne_none_iff_exists'.mp hc
  have : 3 ≤ d.length := Nat.le_of_not_lt fun h => hs ⟨d, hd, h⟩
  simp only [word, hd, Option.getD_some, List.length_take, List.length_append, List.length_singleton]
  omega

end OptionMap

@[simp] theorem length_htonl (v : Nat) : (htonl v).length = 4 := by simp [htonl]

theorem length_classMask (yi : List UInt8) : (classMask yi).length = 4 := by
  unfold classMask
  split
  · rfl
  · split <;> rfl

/-! ## Completing the table -/

section Completed

variable {t : DhcpOptions} {src yi nl v : List UInt8} {c₀ c x : UInt8} {g : List UInt8 → List UInt8}

theorem ensureFrom_spec (h : t.Ok) (hne : c ≠ c₀) (hv : v.length = 4)
    (hg : ∀ w, w.length = 4 → (g w).length = 4) :
    (t.view.FaultyFrom c₀ c → t.ensureFrom c₀ v c g = none) ∧
    (¬ t.view.FaultyFrom c₀ c →
      ∃ t', t.ensureFrom c₀ v c g = some t' ∧ t'.Ok ∧ t'.view = t.view.missingFrom c₀ v c g) := by
  obtain ⟨t₁, e₁, h₁, v₁⟩ := h.ensure (c := c₀) (w := v) fun _ => ⟨rfl, hv⟩
  have hsome : t₁.view c₀ ≠ none := by rw [v₁, OptionMap.missing_self]; simp
  have hc : t₁.view c = t.view c := by rw [v₁, OptionMap.missing_of_ne hne]
  have hshort : t₁.view.Short c₀ ↔ t.view.Short c₀ := by rw [v₁, OptionMap.short_missing_self (by omega)]
  have hfrom : t.ensureFrom c₀ v c g = t₁.ensure c ((t₁.first4 c₀).map g) := by
    simp only [DhcpOptions.ensureFrom, e₁, Option.bind_eq_bind, Option.bind_some]
  rw [hfrom]
  constructor
  · rintro ⟨hnone, hs⟩
    rw [h₁.first4_short (hshort.mpr hs), Option.map_none, DhcpOptions.ensure_fault (hc.trans hnone)]
  · intro hok
    have hlong : t₁.view c = none → ¬ t₁.view.Short c₀ := fun hd hs => hok ⟨hc.symm.trans hd, hshort.mp hs⟩
    obtain ⟨t₂, e₂, h₂, v₂⟩ := h₁.ensure (c := c) (v := (t₁.first4 c₀).map g)
      (w := g (t₁.view.word c₀)) fun hd =>
      ⟨by rw [h₁.first4 hsome (hlong hd), Option.map_some], hg _ (OptionMap.length_word hsome (hlong hd))⟩
    exact ⟨t₂, e₂, h₂, by rw [v₂, v₁, OptionMap.missingFrom]⟩

theorem completed_spec (h : t.Ok) (hsrc : src.length = 4) (hyi : yi.length = 4) (hnl : nl.length = 4) :
    (t.view.Faulty → completed src yi nl t = none) ∧
    (¬ t.view.Faulty → ∃ t', completed src yi nl t = some t' ∧ t'.Ok ∧
      t'.view = t.view.complete src yi nl) := by
  obtain ⟨hbad₁, hgood₁⟩ := ensureFrom_spec (g := id) h
    (show dns ≠ dhcpServerIdentifier by decide) hsrc fun w hw => hw
  by_cases hf₁ : t.view.FaultyFrom dhcpServerIdentifier dns
  · refine ⟨fun _ => ?_, fun hok => absurd (.inl hf₁) hok⟩
    simp only [completed, hbad₁ hf₁, Option.bind_eq_bind, Option.bind_none]
  obtain ⟨t₁, e₁, h₁, v₁⟩ := hgood₁ hf₁
  have hsame : t₁.view.FaultyFrom subnetMask broadcastAddr ↔ t.view.FaultyFrom subnetMask broadcastAddr := by
    rw [OptionMap.FaultyFrom, OptionMap.FaultyFrom, v₁, OptionMap.missingFrom_of_ne (by decide) (by decide),
      OptionMap.short_congr (OptionMap.missingFrom_of_ne (by decide) (by decide))]
  obtain ⟨hbad₂, hgood₂⟩ := ensureFrom_spec (g := broadcastOf yi) h₁
    (show broadcastAddr ≠ subnetMask by decide)
    (length_classMask yi) fun w hw => by simp [broadcastOf, hyi, hw]
  constructor
  · intro hf
    have := hbad₂ (hsame.mpr (hf.resolve_left hf₁))
    simp only [completed, e₁, Option.bind_eq_bind, Option.bind_some, this, Option.bind_none]
  · intro hf
    obtain ⟨t₂, e₂, h₂, v₂⟩ := hgood₂ fun h => hf (.inr (hsame.mp h))
    obtain ⟨h₃, v₃⟩ := h₂.timed (c := dhcpIPaddrLeaseTime) hnl
    obtain ⟨d, hd, hlen⟩ := OptionMap.time_self t₂.view dhcpIPaddrLeaseTime hnl
    rw [← v₃] at hd
    have hlease := h₃.first4 (c := dhcpIPaddrLeaseTime) (by rw [hd]; simp)
      fun ⟨e, he, hlt⟩ => by rw [hd] at he; cases he; omega
    obtain ⟨h₄, v₄⟩ := h₃.timed (c := dhcpT1value)
      (length_htonl (ntohl ((t₂.timed dhcpIPaddrLeaseTime nl).view.word dhcpIPaddrLeaseTime) / 2))
    obtain ⟨h₅, v₅⟩ := h₄.timed (c := dhcpT2value)
      (length_htonl (ntohl ((t₂.timed dhcpIPaddrLeaseTime nl).view.word dhcpIPaddrLeaseTime) * 7 / 8))
    refine ⟨_, ?_, h₅, ?_⟩
    · simp only [completed, e₁, Option.bind_eq_bind, Option.bind_some, e₂, hlease]
      rfl
    · rw [v₅, v₄, v₃, v₂, v₁]
      rfl

end Completed

/-! ## The loop -/

section Loop

variable {f : List UInt8} {last p : Nat}

theorem drop_eq_cons {c : UInt8} (h : f[p]? = some c) : f.drop p = c :: f.drop (p + 1) := by
  obtain ⟨hp, rfl⟩ := List.getElem?_eq_some_iff.mp h
  exact List.drop_eq_getElem_cons hp

/-- The loop reads the options that are encoded from `p` on, within the frame. -/
theorem whileLoop_optionPass (hf : last + 256 ≤ f.length) :
    ∀ (fuel i p : Nat) (t : DhcpOptions), t.Ok → last - p < fuel →
    ∃ t', whileLoop (fun (_ : Unit) => optionPass f last) (fun _ => ()) fuel i (p, t) = some (some t') ∧
      t'.Ok ∧
      t'.view = (Tlv.decode padOption endOption (last - p) (f.drop p)).foldl OptionMap.assign t.view := by
  intro fuel
  induction fuel with
  | zero => intro i p t _ h; omega
  | succ fuel ih =>
      intro i p t ht hfuel
      by_cases hp : p < last
      · obtain ⟨n, hn⟩ : ∃ n, last - p = n + 1 := ⟨last - p - 1, by omega⟩
        obtain ⟨c, hc⟩ : ∃ c, f[p]? = some c := ⟨f[p], List.getElem?_eq_getElem (by omega)⟩
        by_cases hend : c = endOption
        · refine ⟨t, ?_, ht, ?_⟩
          · simp [whileLoop, optionPass, hp, hc, hend]
          · rw [drop_eq_cons hc, hend, Tlv.decode_stop]
            rfl
        by_cases hpad : c = padOption
        · obtain ⟨t', e, h', v⟩ := ih (i + 1) (p + 1) t ht (by omega)
          refine ⟨t', ?_, h', ?_⟩
          · simpa [whileLoop, optionPass, hp, hc, hend, hpad, show ¬ padOption = endOption by decide] using e
          · rw [v, drop_eq_cons hc, hpad, hn, Tlv.decode_pad (by decide), show last - (p + 1) = n by omega]
        obtain ⟨l, hl⟩ : ∃ l, f[p + 1]? = some l := ⟨f[p + 1], List.getElem?_eq_getElem (by omega)⟩
        have hlt := l.toNat_lt
        have hlen : (load f (p + 2) l.toNat).length = l.toNat := length_load (by omega)
        -- the option as it is encoded, and the rest
        have hdecode : Tlv.decode padOption endOption (last - p) (f.drop p) = ⟨c, load f (p + 2) l.toNat⟩ ::
            Tlv.decode padOption endOption (last - (p + l.toNat + 2)) (f.drop (p + l.toNat + 2)) := by
          have hrest : load f (p + 2) l.toNat ++ f.drop (p + l.toNat + 2) = f.drop (p + 2) := by
            have := List.take_append_drop l.toNat (f.drop (p + 2))
            rwa [List.drop_drop, show p + 2 + l.toNat = p + l.toNat + 2 by omega] at this
          have hbytes : f.drop p = (Tlv.Item.opt ⟨c, load f (p + 2) l.toNat⟩).bytes padOption ++
              f.drop (p + l.toNat + 2) := by
            rw [drop_eq_cons hc, drop_eq_cons hl, Tlv.Item.bytes, hlen, UInt8.ofNat_toNat,
              List.cons_append, List.cons_append, hrest]
          rw [hbytes, hn, Tlv.decode_opt ⟨hpad, hend, by simp only [hlen]; omega⟩, hlen]
          congr 2
          omega
        rw [hdecode, List.foldl_cons]
        by_cases hzero : l = 0
        · obtain ⟨t', e, h', v⟩ := ih (i + 1) (p + 2) t ht (by omega)
          have hnil : load f (p + 2) l.toNat = [] := List.length_eq_zero_iff.mp (by rw [hlen, hzero]; rfl)
          refine ⟨t', ?_, h', ?_⟩
          · simpa [whileLoop, optionPass, hp, hc, hend, hpad, hl, hzero] using e
          · rw [v, OptionMap.assign, if_pos hnil, hzero]
            rfl
        · have hne : load f (p + 2) l.toNat ≠ [] := by
            intro h
            rw [h] at hlen
            exact hzero (UInt8.toNat_inj.mp hlen.symm)
          obtain ⟨t₁, e₁, h₁, v₁⟩ := ht.receive (c := c) hne (by omega)
          obtain ⟨t', e, h', v⟩ := ih (i + 1) (p + l.toNat + 2) t₁ h₁ (by omega)
          refine ⟨t', ?_, h', by rw [v, v₁]⟩
          have hfetch : fetch f (p + 2) l.toNat = some (load f (p + 2) l.toNat) := if_pos (by omega)
          simpa [whileLoop, optionPass, hp, hc, hend, hpad, hl, hzero, hfetch, e₁] using e
      · refine ⟨t, ?_, ht, ?_⟩
        · simp [whileLoop, optionPass, hp]
        · rw [show last - p = 0 by omega, Tlv.decode]
          rfl

theorem parseOptions_spec {d : Nat} {t : DhcpOptions} (hf : d + 804 ≤ f.length) (ht : t.Ok) :
    ∃ t', parseOptions f d t = some t' ∧ t'.Ok ∧
      t'.view = (Tlv.decode padOption endOption 308 (f.drop (d + 240))).foldl OptionMap.assign t.view := by
  obtain ⟨t', e, h, v⟩ := whileLoop_optionPass (show d + 548 + 256 ≤ f.length by omega) 309 0
    (d + 240) t ht (by omega)
  exact ⟨t', by rw [parseOptions, e]; rfl, h, by rw [v, show d + 548 - (d + 240) = 308 by omega]⟩

end Loop

/-! ## Encoded options -/

def optsBytes (os : List Tlv.Opt) : List UInt8 := Tlv.encode padOption (os.map .opt)

theorem optsBytes_append (os ps : List Tlv.Opt) : optsBytes (os ++ ps) = optsBytes os ++ optsBytes ps := by
  simp [optsBytes, Tlv.encode_append]

theorem optsBytes_cons (o : Tlv.Opt) (os : List Tlv.Opt) :
    optsBytes (o :: os) = o.code :: UInt8.ofNat o.data.length :: (o.data ++ optsBytes os) := rfl

theorem optsBytes_nil : optsBytes [] = [] := rfl

/-- Options that can be encoded, in at most `n` bytes. -/
structure Fits (os : List Tlv.Opt) (n : Nat) : Prop where
  valid : ∀ o ∈ os, (Tlv.Item.opt o).Valid padOption endOption
  size : (optsBytes os).length ≤ n

theorem Fits.append {os ps : List Tlv.Opt} {n m : Nat} (ho : Fits os n) (hp : Fits ps m) :
    Fits (os ++ ps) (n + m) where
  valid := fun o h => (List.mem_append.mp h).elim (ho.valid o) (hp.valid o)
  size := by
    have := ho.size
    have := hp.size
    rw [optsBytes_append, List.length_append]
    omega

theorem decode_optsBytes {os : List Tlv.Opt} {n : Nat} (h : Fits os n) (hn : n ≤ 308) (rest : List UInt8) :
    Tlv.decode padOption endOption 308 (optsBytes os ++ endOption :: rest) = os := by
  have hvalid : ∀ i ∈ os.map Tlv.Item.opt, i.Valid padOption endOption := by
    intro i hi
    obtain ⟨o, ho, rfl⟩ := List.mem_map.mp hi
    exact h.valid o ho
  rw [optsBytes, Tlv.decode_encode (by decide) rest _ 308 hvalid (h.size.trans hn)]
  simp [List.filterMap_map, Function.comp_def, Tlv.Item.toOpt]

theorem Fits.nil (n : Nat) : Fits [] n := ⟨by simp, by simp [optsBytes_nil]⟩

theorem Fits.one {c : UInt8} {data : List UInt8} {n : Nat} (hp : c ≠ padOption) (he : c ≠ endOption)
    (hn : data.length ≤ n) (hlt : n < 256) : Fits [⟨c, data⟩] (n + 2) where
  valid := by
    intro o ho
    cases List.mem_singleton.mp ho
    exact ⟨hp, he, by simp only; omega⟩
  size := by
    simp only [optsBytes_cons, optsBytes_nil, List.append_nil, List.length_cons]
    omega

theorem Fits.mono {os : List Tlv.Opt} {n m : Nat} (h : Fits os n) (hnm : n ≤ m) : Fits os m :=
  ⟨h.valid, h.size.trans hnm⟩

/-! ## The reply -/

/-- A frame as it is received, with an IP header of at most 15 words. -/
structure Reply.Ok (r : Reply) : Prop where
  frame : r.frame.length = FRAME_SIZE
  hl : r.hl ≤ 60
  ciaddr : r.ciaddr.length = 4

section Reply

variable {r : Reply} {t : DhcpOptions} {nl : List UInt8}

theorem messageType_spec (h : t.Ok) : messageType t = some (((t.view dhcpMessageType).getD []).headD 0) := by
  cases hv : t.val dhcpMessageType with
  | none => simp [messageType, DhcpOptions.view, hv]
  | some b =>
      obtain ⟨h0, hfit, _⟩ := h.block _ b hv
      have hpos : 0 < (t.len dhcpMessageType).toNat := by
        rcases Nat.eq_zero_or_pos (t.len dhcpMessageType).toNat with h | h
        · exact absurd (UInt8.toNat_inj.mp h) h0
        · exact h
      cases b with
      | nil => simp at hfit; omega
      | cons x b =>
          obtain ⟨k, hk⟩ : ∃ k, (t.len dhcpMessageType).toNat = k + 1 :=
            ⟨_, (Nat.succ_pred_eq_of_pos hpos).symm⟩
          simp [messageType, DhcpOptions.view, hv, hk]

/-- Setting `yiaddr` does not change the sender. -/
theorem Reply.Ok.patched (h : r.Ok) :
    load r.patched (ETH_HLEN + 12) 4 = r.src ∧ yiaddr r.patched r.hl = r.address := by
  have hhl := h.hl
  have hlen : r.frame.length = 1514 := h.frame
  have hd : msgRecv r.hl = r.hl + 22 := by simp only [msgRecv, ETH_HLEN]; omega
  rw [Reply.patched]
  split
  · rename_i h0
    constructor
    · exact load_store_below (by omega) (by simp only [hd, ETH_HLEN]; omega)
    · rw [Reply.address, if_pos h0, yiaddr, load_store_same (by omega) h.ciaddr.symm]
  · rename_i h0
    exact ⟨rfl, by rw [Reply.address, if_neg h0]⟩

theorem Reply.Ok.length_address (h : r.Ok) : r.address.length = 4 := by
  have hhl := h.hl
  have hlen : r.frame.length = 1514 := h.frame
  rw [Reply.address]
  split
  · exact h.ciaddr
  · exact length_load (by simp only [msgRecv, ETH_HLEN]; omega)

theorem Reply.Ok.length_src (h : r.Ok) : r.src.length = 4 :=
  length_load (by rw [h.frame]; decide)

/-- The function in terms of the map. -/
theorem parseDhcpMsgRecv_spec (hr : r.Ok) (hnl : nl.length = 4) (ht : t.Ok) :
    ((r.received t.view).Faulty → parseDhcpMsgRecv nl r t = none) ∧
    (¬ (r.received t.view).Faulty → ∃ p, parseDhcpMsgRecv nl r t = some p ∧ p.options.Ok ∧
      p.options.view = r.learned nl t.view ∧
        p.type = ((p.options.view dhcpMessageType).getD []).headD 0) := by
  have hhl := hr.hl
  have hlen : r.frame.length = 1514 := hr.frame
  obtain ⟨t₁, e₁, h₁, v₁⟩ := parseOptions_spec (f := r.frame) (d := msgRecv r.hl)
    (by simp only [msgRecv, ETH_HLEN]; omega) ht
  obtain ⟨hsrc, haddr⟩ := hr.patched
  obtain ⟨hbad, hgood⟩ := completed_spec h₁ hr.length_src hr.length_address hnl
  rw [show r.received t.view = t₁.view from v₁.symm]
  constructor
  · intro hf
    simp only [parseDhcpMsgRecv, e₁, Option.bind_eq_bind, Option.bind_some, hsrc, haddr, hbad hf,
      Option.bind_none]
  · intro hf
    obtain ⟨t₂, e₂, h₂, v₂⟩ := hgood hf
    refine ⟨⟨r.patched, t₂, ((t₂.view dhcpMessageType).getD []).headD 0⟩, ?_, h₂, by rw [v₂, v₁]; rfl, rfl⟩
    simp only [parseDhcpMsgRecv, e₁, Option.bind_eq_bind, Option.bind_some, hsrc, haddr, e₂,
      messageType_spec h₂]
    rfl

end Reply

end CameraFw.Dhcp
