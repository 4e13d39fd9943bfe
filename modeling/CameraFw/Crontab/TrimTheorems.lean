import CameraFw.Crontab.Lemmas.Environ
import CameraFw.Crontab.Trim

/-!
# Blanks in front of nothing

The loops that go backwards stop at a character that is no blank. A line of blanks has none, and neither
has the empty name of a line that begins with `=`.
-/

namespace CameraFw.Crontab

open CameraFw.Base

variable {below line : List UInt8}

/-! ## Trimmed texts -/

theorem trimEnd_append_cons {a r : List UInt8} {c : UInt8} (hc : ¬isspace c) :
    trimEnd (a ++ c :: r) = a ++ c :: trimEnd r := by
  simp only [trimEnd, List.rdropWhile, List.reverse_append, List.reverse_cons, List.append_assoc,
    List.singleton_append]
  rw [List.dropWhile_append, List.dropWhile_cons_of_neg hc]
  split
  · rename_i h
    rw [List.isEmpty_iff.mp h]
    simp
  · simp

/-- A line that is not blank: what stands in front of its text is. -/
theorem line_eq_of_ne_nil (h : trimStart line ≠ []) :
    ∃ c r, line = line.takeWhile isspace ++ c :: r ∧ ¬isspace c ∧ trimStart line = c :: r := by
  obtain ⟨c, r, hcr⟩ := List.exists_cons_of_ne_nil h
  refine ⟨c, r, ?_, ?_, hcr⟩
  · conv_lhs => rw [← List.takeWhile_append_dropWhile (p := isspace) (l := line)]
    exact congrArg (_ ++ ·) hcr
  · exact trimStart_head line c (by rw [hcr]; rfl)

theorem blank_of_trimStart_eq_nil (h : trimStart line = []) : ∀ c ∈ line, isspace c :=
  List.dropWhile_eq_nil_iff.mp h

theorem trimStart_blanks_append {a s : List UInt8} (h : ∀ c ∈ a, isspace c) :
    trimStart (a ++ s) = trimStart s := by
  rw [trimStart, List.dropWhile_append, List.dropWhile_eq_nil_iff.mpr h]
  rfl

/-! ## The positions of one loop -/

theorem trailingTouches_blank {p : Int} {a b : List UInt8} (h : ∀ c ∈ a, isspace c) :
    p - a.length ∈ trailingTouches p (a ++ b) := by
  induction a generalizing p with
  | nil =>
      cases b <;> simp only [trailingTouches, List.nil_append, List.length_nil, Int.natCast_zero,
        Int.sub_zero] <;>
      [simp; (split <;> simp)]
  | cons c a ih =>
      rw [List.cons_append, trailingTouches, if_pos (h c (by simp)), List.length_cons]
      have := ih (p := p - 1) fun d hd => h d (by simp [hd])
      rw [show p - ((a.length + 1 : Nat) : Int) = p - 1 - a.length by omega]
      exact List.mem_cons_of_mem _ this

/-- The loop stops at a character that is no blank. -/
theorem trailingTouches_bounds {p x : Int} {a b : List UInt8} {c : UInt8} (hc : ¬isspace c)
    (hx : x ∈ trailingTouches p (a ++ c :: b)) : p - a.length ≤ x ∧ x ≤ p := by
  induction a generalizing p with
  | nil =>
      rw [List.nil_append, trailingTouches, if_neg hc, List.mem_singleton] at hx
      simp [hx]
  | cons d a ih =>
      rw [List.cons_append, trailingTouches] at hx
      rw [List.length_cons]
      split at hx
      · rcases List.mem_cons.mp hx with rfl | hx
        · omega
        · have := ih hx
          omega
      · rw [List.mem_singleton.mp hx]
        omega

/-- How far it goes when the blanks in front of that character are all that is behind it. -/
theorem trailingTouches_length {p : Int} {a b : List UInt8} {c : UInt8} (ha : ∀ d ∈ a, isspace d)
    (hc : ¬isspace c) :
    (trailingTouches p (a ++ c :: b)).length = a.length + 1 := by
  induction a generalizing p with
  | nil => simp [trailingTouches, hc]
  | cons d a ih =>
      rw [List.cons_append, trailingTouches, if_pos (ha d (by simp)), List.length_cons,
        ih fun e he => ha e (by simp [he]), List.length_cons]

theorem leadingTouches_bounds {p x : Int} {s : List UInt8} (hx : x ∈ leadingTouches p s) :
    p ≤ x ∧ x ≤ p + s.length := by
  induction s generalizing p with
  | nil =>
      rw [leadingTouches, List.mem_singleton] at hx
      simp [hx]
  | cons c s ih =>
      rw [leadingTouches] at hx
      rw [List.length_cons]
      split at hx
      · rcases List.mem_cons.mp hx with rfl | hx
        · omega
        · have := ih hx
          omega
      · rw [List.mem_singleton.mp hx]
        omega

theorem nameTouches_self (p r : Int) (cells : List UInt8) : r ∈ nameTouches p r cells := by
  cases cells with
  | nil => exact List.mem_singleton_self r
  | cons c cells =>
      rw [nameTouches]
      split <;> simp

theorem nameTouches_bounds {p r x : Int} {a b : List UInt8} {c : UInt8} (hc : ¬isspace c)
    (hx : x ∈ nameTouches p r (a ++ c :: b)) : r - a.length ≤ x ∧ x ≤ r := by
  induction a generalizing r with
  | nil =>
      rw [List.nil_append, nameTouches, if_neg fun h => hc h.1, List.mem_singleton] at hx
      simp [hx]
  | cons d a ih =>
      rw [List.cons_append, nameTouches] at hx
      rw [List.length_cons]
      split at hx
      · rcases List.mem_cons.mp hx with rfl | hx
        · omega
        · have := ih hx
          omega
      · rw [List.mem_singleton.mp hx]
        omega

/-! ## One line -/

theorem trailingTouches_length_ge {p : Int} {a b : List UInt8} (h : ∀ c ∈ a, isspace c) :
    a.length + 1 ≤ (trailingTouches p (a ++ b)).length := by
  induction a generalizing p with
  | nil =>
      exact List.length_pos_of_mem (trailingTouches_blank (p := p) (b := b) (a := []) (by simp))
  | cons c a ih =>
      rw [List.cons_append, trailingTouches, if_pos (h c (by simp)), List.length_cons, List.length_cons]
      exact Nat.succ_le_succ (ih fun d hd => h d (by simp [hd]))

/-- However far the loop goes, the text that it leaves is the line without the blanks at its end. -/
theorem afterTrailing_eq (below line : List UInt8) : afterTrailing below line = trimEnd line := by
  have hline : line = (line.reverse.dropWhile isspace).reverse ++
      (line.reverse.takeWhile isspace).reverse := by
    rw [← List.reverse_append, List.takeWhile_append_dropWhile, List.reverse_reverse]
  have hblank : ∀ c ∈ 10 :: line.reverse.takeWhile isspace, isspace c := by
    intro c hc
    rcases List.mem_cons.mp hc with rfl | hc
    · rfl
    · exact List.mem_takeWhile_imp hc
  have hlen : line.length =
      (line.reverse.dropWhile isspace).length + (line.reverse.takeWhile isspace).length := by
    conv_lhs => rw [hline]
    simp
  have hcells : 10 :: (line.reverse ++ below) =
      (10 :: line.reverse.takeWhile isspace) ++ (line.reverse.dropWhile isspace ++ below) := by
    rw [List.cons_append, ← List.append_assoc, List.takeWhile_append_dropWhile]
  have htrim : trimEnd line = (line.reverse.dropWhile isspace).reverse := rfl
  rw [afterTrailing, trailing, hcells, htrim]
  cases hrest : line.reverse.dropWhile isspace with
  | nil =>
      have hge := trailingTouches_length_ge (p := line.length) (b := [] ++ below) hblank
      rw [hrest, List.length_nil] at hlen
      rw [List.length_cons] at hge
      rw [show line.length + 1 - ((trailingTouches line.length _).length - 1) = 0 by omega]
      rfl
  | cons c t =>
      have hc : ¬isspace c := by
        have := List.head?_dropWhile_not isspace line.reverse
        rw [hrest] at this
        simpa using this
      rw [show c :: t ++ below = c :: (t ++ below) from rfl, trailingTouches_length hblank hc,
        List.length_cons]
      rw [hrest, List.length_cons] at hlen
      rw [hrest] at hline
      have htake : line.length + 1 - ((line.reverse.takeWhile isspace).length + 1 + 1 - 1) =
          (c :: t).reverse.length := by
        simp only [List.length_reverse, List.length_cons]
        omega
      rw [htake]
      conv_lhs => rw [hline]
      rw [List.take_left]

theorem trimStart_trimEnd {c : UInt8} {r : List UInt8}
    (hline : line = line.takeWhile isspace ++ c :: r) (hc : ¬isspace c) :
    trimStart (trimEnd line) = c :: trimEnd r := by
  rw [hline, trimEnd_append_cons hc, trimStart_blanks_append fun d hd => List.mem_takeWhile_imp hd, trimStart,
    List.dropWhile_cons_of_neg hc]

/-- The text of a setting in its line. -/
theorem nameOf_some {c : UInt8} {r name val : List UInt8} (hline : line = line.takeWhile isspace ++ c :: r)
    (hc : ¬isspace c) (h : nameOf line = some (name, val)) :
    name = (c :: trimEnd r).takeWhile (· ≠ 61) ∧
      textStart line + name.length + 1 + val.length ≤ line.length := by
  unfold nameOf at h
  split at h
  · rename_i p hp
    have hsome := lineKind_setting hp
    rw [trimStart_trimEnd hline hc] at hsome
    subst hsome
    split at h
    · rename_i hmem
      cases h
      refine ⟨rfl, ?_⟩
      have hsplit := congrArg List.length
        (List.takeWhile_append_dropWhile (p := fun x : UInt8 => decide (x ≠ 61)) (l := c :: trimEnd r))
      have hne : (c :: trimEnd r).dropWhile (· ≠ 61) ≠ [] := by
        intro hnil
        simpa using List.dropWhile_eq_nil_iff.mp hnil 61 hmem
      have hpos := List.length_pos_of_ne_nil hne
      have hend : (trimEnd r).length ≤ r.length := (List.rdropWhile_prefix isspace r).length_le
      have htotal := congrArg List.length hline
      simp only [List.length_append, List.length_cons, textStart, List.length_tail] at hsplit htotal hpos ⊢
      omega
    · cases h
  · cases h

theorem lineKind_equals {r : List UInt8} (h : trimStart (trimEnd line) = 61 :: r) :
    lineKind line = .setting (61 :: r) := by
  unfold lineKind
  rw [h]
  rfl

/-- On a blank line the trailing loop goes below the buffer. -/
theorem TrimsInside.not_blank (h : TrimsInside below line) : trimStart line ≠ [] := by
  intro hblank
  have hall : ∀ c ∈ 10 :: line.reverse, isspace c := by
    intro c hc
    rcases List.mem_cons.mp hc with rfl | hc
    · rfl
    · exact blank_of_trimStart_eq_nil hblank c (List.mem_reverse.mp hc)
  have hmem := trailingTouches_blank (p := line.length) (b := below) hall
  have := (h.trailing _ hmem).1
  simp only [List.length_cons, List.length_reverse] at this
  omega

/-- In front of an empty name the name loop starts outside. -/
theorem TrimsInside.not_equals (h : TrimsInside below line) : (trimStart line).head? ≠ some 61 := by
  intro heq
  obtain ⟨c, r, hline, hc, hcr⟩ := line_eq_of_ne_nil h.not_blank
  rw [hcr] at heq
  obtain rfl : c = 61 := Option.some.inj heq
  have hname : nameOf line = some ([], trimEnd r) := by
    rw [nameOf, lineKind_equals (trimStart_trimEnd hline hc)]
    rfl
  have hmem : (textStart line + ([] : List UInt8).length - 1 : Int) ∈ nameTrimming below line := by
    rw [nameTrimming, hname]
    exact nameTouches_self _ _ _
  have := (h.name _ hmem).1
  simp only [List.length_nil, Int.natCast_zero] at this
  omega

section Text

variable {c : UInt8} {r : List UInt8} {x : Int} (hline : line = line.takeWhile isspace ++ c :: r)
    (hc : ¬isspace c)

include hline hc

/-- The first byte of the text stops the trailing loop. -/
theorem trailing_inside (hx : x ∈ trailing below line) : 0 ≤ x ∧ x ≤ line.length := by
  have hcells : 10 :: (line.reverse ++ below) = (10 :: r.reverse) ++
      c :: ((line.takeWhile isspace).reverse ++ below) := by
    conv_lhs => rw [hline]
    simp
  rw [trailing, hcells] at hx
  have hb := trailingTouches_bounds hc hx
  have hlen := congrArg List.length hline
  simp only [List.length_append, List.length_cons, List.length_reverse] at hb hlen
  omega

/-- It stops the name loop too, if it belongs to the name. -/
theorem nameTrimming_inside (hc61 : c ≠ 61) (hx : x ∈ nameTrimming below line) :
    (textStart line : Int) ≤ x ∧ x ≤ line.length := by
  unfold nameTrimming at hx
  split at hx
  · rename_i name val hname
    obtain ⟨rfl, hlen⟩ := nameOf_some hline hc hname
    rw [List.takeWhile_cons_of_pos (by simpa using hc61)] at hx hlen
    rw [List.reverse_cons, List.append_assoc, List.append_assoc] at hx
    have hb := nameTouches_bounds hc hx
    simp only [List.length_cons, List.length_reverse] at hb hlen
    omega
  · cases hx

theorem valueTrimming_inside (hx : x ∈ valueTrimming line) : 0 ≤ x ∧ x ≤ line.length := by
  unfold valueTrimming at hx
  split at hx
  · rename_i name val hname
    have hlen := (nameOf_some hline hc hname).2
    have hb := leadingTouches_bounds hx
    omega
  · cases hx

end Text

theorem leading_inside {x : Int} (hx : x ∈ leading below line) : 0 ≤ x ∧ x ≤ line.length := by
  have hb := leadingTouches_bounds hx
  have : (afterTrailing below line).length ≤ line.length := List.length_take_le' _ _
  omega

/-- The trimming of a line stays inside it exactly if the line is not blank and its text does not begin
with `=`. -/
theorem trimsInside_iff :
    TrimsInside below line ↔ trimStart line ≠ [] ∧ (trimStart line).head? ≠ some 61 := by
  constructor
  · intro h
    exact ⟨h.not_blank, h.not_equals⟩
  · rintro ⟨hne, hhead⟩
    obtain ⟨c, r, hline, hc, hcr⟩ := line_eq_of_ne_nil hne
    have hc61 : c ≠ 61 := by
      rintro rfl
      exact hhead (by rw [hcr]; rfl)
    exact ⟨fun _ hx => trailing_inside hline hc hx, fun _ hx => leading_inside hx,
      fun _ hx => nameTrimming_inside hline hc hc61 hx, fun _ hx => valueTrimming_inside hline hc hx⟩

/-! ## The whole file -/

/-- Whatever lies in front of the buffer in each round: trimming stays inside the lines exactly if no
line that is looked at is blank or begins with `=`. -/
theorem load_trimsInside_iff (db : Passwd) (bufsiz : Nat) (content : List UInt8) (mtime : Int)
    (below : Nat → List UInt8) :
    (∀ n line, IsLine db bufsiz content mtime n line → TrimsInside (below n) line) ↔
      ∀ n line, IsLine db bufsiz content mtime n line →
        trimStart line ≠ [] ∧ (trimStart line).head? ≠ some 61 := by
  simp only [trimsInside_iff]

/-- An empty crontab is read as one empty line, and the position in front of the buffer is touched. So
is, at the end, every crontab whose last line has its newline. A line that begins with `=` leaves the
name at its front. -/
theorem trims_outside :
    IsLine ⟨fun _ => none, fun _ => none⟩ 1024 [] 1 0 [] ∧ (-1 : Int) ∈ trailing [65] [] ∧
      IsLine ⟨fun _ => none, fun _ => none⟩ 1024 (ascii "A=b\n") 1 1 [] ∧
      IsLine ⟨fun _ => none, fun _ => none⟩ 1024 (ascii " =b") 1 0 (ascii " =b") ∧
      nameTrimming [65] (ascii " =b") = [0, -1] := by
  refine ⟨⟨_, rfl, rfl⟩, by decide, ⟨_, rfl, rfl⟩, ⟨_, rfl, rfl⟩, by decide⟩

end CameraFw.Crontab
