import Mathlib

/-!
# Loops and runs

`whileLoop` is a loop whose rounds read what the outside world answers in that round, and may leave the
loop with a result. `run` is a system that takes one labelled step after another. For both, the rules
here turn a fact about one round or one step into a fact about all of them.
-/

namespace CameraFw.Base

/-! ## Loops over an environment -/

inductive Pass (σ ε : Type) where
  | leave (e : ε)
  | again (s : σ)

section Loop

variable {σ ι ε : Type} (pass : ι → σ → Pass σ ε) (env : Nat → ι)

/-- Run rounds `i`, `i + 1`, … of the loop; `none` if `fuel` rounds do not leave it. -/
def whileLoop : Nat → Nat → σ → Option ε
  | 0, _, _ => none
  | fuel + 1, i, s =>
      match pass (env i) s with
      | .leave e => some e
      | .again t => whileLoop fuel (i + 1) t

/-- The state at the head of round `n`, if the loop started in `s` gets there. -/
def head (s : σ) : Nat → Option σ
  | 0 => some s
  | n + 1 =>
      match head s n with
      | none => none
      | some t =>
          match pass (env n) t with
          | .leave _ => none
          | .again u => some u

variable {pass env}

theorem head_succ {s : σ} {n u} :
    head pass env s (n + 1) = some u ↔ ∃ t, head pass env s n = some t ∧ pass (env n) t = .again u := by
  constructor
  · intro h
    simp only [head] at h
    split at h
    · cases h
    · rename_i t ht
      split at h
      · cases h
      · rename_i u' hu
        cases h
        exact ⟨t, ht, hu⟩
  · rintro ⟨t, ht, hu⟩
    simp [head, ht, hu]

theorem head_inv {s : σ} (I : Nat → σ → Prop) (h0 : I 0 s)
    (hstep : ∀ n t u, I n t → pass (env n) t = .again u → I (n + 1) u) :
    ∀ n t, head pass env s n = some t → I n t := by
  intro n
  induction n with
  | zero => intro t ht; cases ht; exact h0
  | succ n ih =>
      intro u hu
      obtain ⟨t, ht, hp⟩ := head_succ.mp hu
      exact hstep n t u (ih t ht) hp

theorem head_of_le {s t : σ} {m n} (h : head pass env s n = some t) (hm : m ≤ n) :
    ∃ u, head pass env s m = some u := by
  induction n generalizing t with
  | zero => exact ⟨t, Nat.le_zero.mp hm ▸ h⟩
  | succ n ih =>
      obtain ⟨u, hu, _⟩ := head_succ.mp h
      rcases Nat.lt_or_eq_of_le hm with hlt | rfl
      · exact ih hu (by omega)
      · exact ⟨t, h⟩

private theorem whileLoop_from {s : σ} {e : ε} (fuel : Nat) :
    ∀ i t, head pass env s i = some t →
      (whileLoop pass env fuel i t = some e ↔
        ∃ n u, i ≤ n ∧ n < i + fuel ∧ head pass env s n = some u ∧ pass (env n) u = .leave e) := by
  induction fuel with
  | zero =>
      intro i t _
      constructor
      · intro h; cases h
      · rintro ⟨n, _, h1, h2, _⟩; omega
  | succ fuel ih =>
      intro i t ht
      simp only [whileLoop]
      split
      · rename_i e' he
        constructor
        · intro h; cases h; exact ⟨i, t, by omega, by omega, ht, he⟩
        · rintro ⟨n, u, h1, h2, hu, hl⟩
          -- the loop is left in round `i`, so no later round has a head
          rcases Nat.lt_or_eq_of_le h1 with hlt | rfl
          · obtain ⟨v, hv⟩ := head_of_le hu (show i + 1 ≤ n by omega)
            obtain ⟨t', ht', hp⟩ := head_succ.mp hv
            rw [ht] at ht'; cases ht'
            rw [he] at hp; cases hp
          · rw [ht] at hu; cases hu
            rw [he] at hl; cases hl; rfl
      · rename_i t' hp
        rw [ih (i + 1) t' (head_succ.mpr ⟨t, ht, hp⟩)]
        constructor
        · rintro ⟨n, u, h1, h2, hu, hl⟩; exact ⟨n, u, by omega, by omega, hu, hl⟩
        · rintro ⟨n, u, h1, h2, hu, hl⟩
          refine ⟨n, u, ?_, by omega, hu, hl⟩
          rcases Nat.lt_or_eq_of_le h1 with hlt | rfl
          · omega
          · rw [ht] at hu; cases hu
            rw [hp] at hl; cases hl

theorem whileLoop_eq_some {s : σ} {e : ε} {fuel} :
    whileLoop pass env fuel 0 s = some e ↔
      ∃ n u, n < fuel ∧ head pass env s n = some u ∧ pass (env n) u = .leave e := by
  rw [whileLoop_from fuel 0 s rfl]
  simp

theorem whileLoop_isSome (μ : σ → Nat) (hμ : ∀ x s t, pass x s = .again t → μ t < μ s) :
    ∀ fuel i s, μ s < fuel → (whileLoop pass env fuel i s).isSome := by
  intro fuel
  induction fuel with
  | zero => intro i s h; omega
  | succ fuel ih =>
      intro i s h
      simp only [whileLoop]
      split
      · rfl
      · rename_i t ht
        have := hμ _ _ _ ht
        exact ih _ _ (by omega)

end Loop

def Pass.map {σ τ ε δ : Type} (f : σ → τ) (g : ε → δ) : Pass σ ε → Pass τ δ
  | .leave e => .leave (g e)
  | .again s => .again (f s)

/-- A loop whose rounds are, under an invariant, the rounds of another loop through `f` ends as that one
does. -/
theorem whileLoop_sim {ι σ τ ε δ : Type} {env : Nat → ι} {p : ι → σ → Pass σ ε} {q : ι → τ → Pass τ δ}
    (f : σ → τ) (g : ε → δ) (I : Nat → σ → Prop)
    (hpass : ∀ n s, I n s → q (env n) (f s) = (p (env n) s).map f g)
    (hinv : ∀ n s t, I n s → p (env n) s = .again t → I (n + 1) t) :
    ∀ fuel i s, I i s → whileLoop q env fuel i (f s) = (whileLoop p env fuel i s).map g := by
  intro fuel
  induction fuel with
  | zero => intro i s _; rfl
  | succ fuel ih =>
      intro i s hI
      simp only [whileLoop, hpass i s hI]
      cases hp : p (env i) s with
      | leave e => rfl
      | again t => exact ih (i + 1) t (hinv i s t hI hp)

/-! ## Runs of a labelled system -/

section Run

variable {σ α : Type} (step : σ → α → Option σ)

def run : σ → List α → Option σ
  | s, [] => some s
  | s, a :: as =>
      match step s a with
      | none => none
      | some t => run t as

/-- `P` holds in every state the run goes through, the first and the last included. -/
def Always (P : σ → Prop) : σ → List α → Prop
  | s, [] => P s
  | s, a :: as => P s ∧ ∀ t, step s a = some t → Always P t as

/-- Every step of the run is taken in a state and with a label that meet `G`. -/
def Along (G : σ → α → Prop) : σ → List α → Prop
  | _, [] => True
  | s, a :: as => G s a ∧ ∀ t, step s a = some t → Along G t as

instance decidableForallSome (o : Option σ) (P : σ → Prop) [∀ t, Decidable (P t)] :
    Decidable (∀ t, o = some t → P t) :=
  match o with
  | none => isTrue nofun
  | some t => decidable_of_iff (P t) ⟨fun h _ he => Option.some.inj he ▸ h, fun h => h t rfl⟩

instance Along.decidable (G : σ → α → Prop) [∀ s a, Decidable (G s a)] : ∀ s as, Decidable (Along step G s as)
  | _, [] => isTrue trivial
  | s, a :: as =>
      have := fun t => Along.decidable G t as
      inferInstanceAs (Decidable (G s a ∧ ∀ t, step s a = some t → Along step G t as))

variable {step}

theorem Always.first {P : σ → Prop} : ∀ {as s}, Always step P s as → P s
  | [], _, h => h
  | _ :: _, _, h => h.1

theorem always_of_along {I : σ → Prop} {G : σ → α → Prop}
    (hstep : ∀ s a t, I s → G s a → step s a = some t → I t) :
    ∀ as s, I s → Along step G s as → Always step I s as := by
  intro as
  induction as with
  | nil => intro s hs _; exact hs
  | cons a as ih =>
      intro s hs hG
      exact ⟨hs, fun t ht => ih t (hstep s a t hs hG.1 ht) (hG.2 t ht)⟩

theorem always_of_step {I : σ → Prop} (hstep : ∀ s a t, I s → step s a = some t → I t) :
    ∀ as s, I s → Always step I s as := by
  intro as
  induction as with
  | nil => intro s hs; exact hs
  | cons a as ih => intro s hs; exact ⟨hs, fun t ht => ih t (hstep s a t hs ht)⟩

theorem Always.along {P : σ → Prop} {G : σ → α → Prop} (hG : ∀ s a, P s → G s a) :
    ∀ {as s}, Always step P s as → Along step G s as
  | [], _, _ => trivial
  | _ :: _, _, h => ⟨hG _ _ h.1, fun t ht => Always.along hG (h.2 t ht)⟩

/-- A condition on the labels alone. -/
theorem along_of_mem {G : α → Prop} : ∀ {as s}, (∀ a ∈ as, G a) → Along step (fun _ => G) s as
  | [], _, _ => trivial
  | _ :: _, _, h =>
      ⟨h _ List.mem_cons_self, fun _ _ => along_of_mem fun a ha => h a (List.mem_cons_of_mem _ ha)⟩

theorem along_of_along {I : σ → Prop} {G H : σ → α → Prop} (hGH : ∀ s a, I s → G s a → H s a)
    (hstep : ∀ s a t, I s → G s a → step s a = some t → I t) :
    ∀ as s, I s → Along step G s as → Along step H s as := by
  intro as
  induction as with
  | nil => intro s _ _; trivial
  | cons a as ih =>
      intro s hs hG
      exact ⟨hGH s a hs hG.1, fun t ht => ih t (hstep s a t hs hG.1 ht) (hG.2 t ht)⟩

/-- Two conditions that agree where an invariant holds, and keep it, hold along the same runs. -/
theorem along_iff {I : σ → Prop} {G H : σ → α → Prop} (hiff : ∀ s a, I s → (G s a ↔ H s a))
    (hstep : ∀ s a t, I s → G s a → step s a = some t → I t) {as s} (hs : I s) :
    Along step G s as ↔ Along step H s as :=
  ⟨along_of_along (fun s a h => (hiff s a h).mp) hstep as s hs,
    along_of_along (fun s a h => (hiff s a h).mpr)
      (fun s a t h hH => hstep s a t h ((hiff s a h).mpr hH)) as s hs⟩

/-- Where an invariant holds and each step keeps `P` exactly if it meets `G`, runs keep `P` exactly if
their steps meet `G`. -/
theorem always_iff_along {I P : σ → Prop} {G : σ → α → Prop}
    (hinv : ∀ s a t, I s → step s a = some t → I t)
    (hstep : ∀ s a t, I s → P s → step s a = some t → (P t ↔ G s a))
    (hnone : ∀ s a, step s a = none → G s a) :
    ∀ as s, I s → P s → (Always step P s as ↔ Along step G s as) := by
  intro as
  induction as with
  | nil => intro s _ hP; exact ⟨fun _ => trivial, fun _ => hP⟩
  | cons a as ih =>
      intro s hI hP
      cases hs : step s a with
      | none =>
          simp only [Always, Along, hs, reduceCtorEq, false_implies, implies_true, and_true]
          exact ⟨fun _ => hnone s a hs, fun _ => hP⟩
      | some t =>
          have hiff := hstep s a t hI hP hs
          have hI' := hinv s a t hI hs
          simp only [Always, Along, hs, Option.some.injEq, forall_eq']
          constructor
          · rintro ⟨_, h⟩
            have hPt : P t := h.first
            exact ⟨hiff.mp hPt, (ih t hI' hPt).mp h⟩
          · rintro ⟨hG, h⟩
            exact ⟨hP, (ih t hI' (hiff.mpr hG)).mpr h⟩

theorem along_always_iff {Q : σ → Prop} {G : σ → α → Prop} : ∀ as s, Q s →
    (Along step (fun s a => (∀ t, step s a = some t → Q t) ∧ G s a) s as ↔
      Always step Q s as ∧ Along step G s as)
  | [], _, hQ => ⟨fun _ => ⟨hQ, trivial⟩, fun _ => trivial⟩
  | a :: as, s, hQ => by
      constructor
      · rintro ⟨⟨hQ', hG⟩, h⟩
        have hrest := fun t ht => (along_always_iff as t (hQ' t ht)).mp (h t ht)
        exact ⟨⟨hQ, fun t ht => (hrest t ht).1⟩, hG, fun t ht => (hrest t ht).2⟩
      · rintro ⟨⟨-, hA⟩, hG, h⟩
        have hQ' : ∀ t, step s a = some t → Q t := fun t ht => (hA t ht).first
        exact ⟨⟨hQ', hG⟩, fun t ht => (along_always_iff as t (hQ' t ht)).mpr ⟨hA t ht, h t ht⟩⟩

/-- The same for a `P` that comes down to `Q` in the state that is reached and `G` of the step. -/
theorem always_iff_always_along {I P Q : σ → Prop} {G : σ → α → Prop}
    (hinv : ∀ s a t, I s → step s a = some t → I t)
    (hstep : ∀ s a t, I s → P s → step s a = some t → (P t ↔ Q t ∧ G s a))
    (hnone : ∀ s a, step s a = none → G s a) {as s} (hI : I s) (hP : P s) (hQ : Q s) :
    Always step P s as ↔ Always step Q s as ∧ Along step G s as := by
  rw [← along_always_iff as s hQ]
  refine always_iff_along hinv (fun s a t hI hP hs => (hstep s a t hI hP hs).trans ?_)
    (fun s a hs => ⟨?_, hnone s a hs⟩) as s hI hP
  · simp only [hs, Option.some.injEq, forall_eq']
  · intro t ht
    rw [hs] at ht
    cases ht

theorem Always.last {P : σ → Prop} : ∀ {as s t}, Always step P s as → run step s as = some t → P t
  | [], _, _, h, hrun => Option.some.inj hrun ▸ h
  | a :: _, s, _, h, hrun => by
      simp only [run] at hrun
      split at hrun
      · cases hrun
      · exact Always.last (h.2 _ ‹_›) hrun

theorem Always.imp {P Q : σ → Prop} (hPQ : ∀ s, P s → Q s) :
    ∀ {as s}, Always step P s as → Always step Q s as
  | [], _, h => hPQ _ h
  | _ :: _, _, h => ⟨hPQ _ h.1, fun t ht => Always.imp hPQ (h.2 t ht)⟩

theorem run_append : ∀ as bs s, run step s (as ++ bs) = (run step s as).bind fun t => run step t bs
  | [], _, _ => rfl
  | a :: as, bs, s => by
      simp only [List.cons_append, run]
      cases step s a with
      | none => rfl
      | some t => exact run_append as bs t

end Run

/-! ## One system as part of another -/

section Relabel

variable {σ τ α β : Type} {step : σ → α → Option σ} {step' : τ → β → Option τ}

/-- The labels of another system that the steps of a run are made of. -/
def relabel (step : σ → α → Option σ) (labels : σ → α → List β) : σ → List α → List β
  | _, [] => []
  | s, a :: as =>
      labels s a ++
        match step s a with
        | none => []
        | some t => relabel step labels t as

/-- If each step is a run of the other system, so is every run. -/
theorem run_relabel {labels : σ → α → List β} (f : σ → τ)
    (hstep : ∀ s a t, step s a = some t → run step' (f s) (labels s a) = some (f t)) :
    ∀ as s t, run step s as = some t → run step' (f s) (relabel step labels s as) = some (f t) := by
  intro as
  induction as with
  | nil => intro s t h; cases h; rfl
  | cons a as ih =>
      intro s t h
      simp only [run] at h
      cases hs : step s a with
      | none => rw [hs] at h; cases h
      | some u =>
          rw [hs] at h
          simp only [relabel, hs, run_append, hstep s a u hs, Option.bind_some]
          exact ih u t h

end Relabel

end CameraFw.Base
