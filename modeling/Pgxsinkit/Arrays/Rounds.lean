/-
Rounds of the array parser.

The loop ends on every text, and its cursor is no further back than it was.  A run of rounds is followed
by where it leads: whatever the loop returns from there, it returns from here.
-/
import Pgxsinkit.Arrays.Parser

namespace Arrays

open Copy

variable {α : Type} {x : Text} {parser : Text → α} {typarray : ℕ} {s s' s'' : ArrayParserState}
  {xs xs' xs'' : List (Nested α)} {r : List (Nested α) × ArrayParserState}

/-! ### The loop ends -/

/-- No round moves the cursor back. -/
theorem round_moves (x : Text) (parser : Text → α) (typarray : ℕ) (char : UInt16) (s : ArrayParserState)
    (xs : List (Nested α)) :
    match arrayParserRound x parser typarray char s xs with
    | .again s' _ => s.i ≤ s'.i
    | .nested s' => s'.i = s.i + 1
    | .ended s' _ => s'.i = s.i := by
  unfold arrayParserRound
  dsimp only
  split_ifs
  all_goals first | exact Nat.le_succ _ | exact le_rfl | rfl

theorem loop_mono {fuel fuel' : ℕ} (h : arrayParserLoop x parser typarray fuel s xs = some r)
    (hle : fuel ≤ fuel') : arrayParserLoop x parser typarray fuel' s xs = some r := by
  induction fuel generalizing fuel' s xs r with
  | zero => cases h
  | succ fuel ih =>
    obtain ⟨fuel', rfl⟩ : ∃ n, fuel' = n + 1 := ⟨fuel' - 1, by omega⟩
    have hle' : fuel ≤ fuel' := by omega
    rw [arrayParserLoop] at h ⊢
    cases hchar : x[s.i]? with
    | none =>
      rw [hchar] at h
      exact h
    | some char =>
      rw [hchar] at h
      dsimp only at h ⊢
      cases hround : arrayParserRound x parser typarray char s xs with
      | again s' xs' =>
        rw [hround] at h
        exact ih h hle'
      | nested s' =>
        rw [hround] at h
        obtain ⟨inner, hinner, houter⟩ := Option.bind_eq_some_iff.mp h
        exact Option.bind_eq_some_iff.mpr ⟨inner, ih hinner hle', ih houter hle'⟩
      | ended s' xs' =>
        rw [hround] at h
        exact h

/-- As many rounds as there are characters left, and one, are enough. -/
theorem loop_ends {fuel : ℕ} (s : ArrayParserState) (xs : List (Nested α)) (hfuel : 0 < fuel)
    (h : x.length < fuel + s.i) :
    ∃ r, arrayParserLoop x parser typarray fuel s xs = some r ∧ s.i ≤ r.2.i := by
  induction fuel generalizing s xs with
  | zero => omega
  | succ fuel ih =>
    rw [arrayParserLoop]
    cases hchar : x[s.i]? with
    | none => exact ⟨_, rfl, le_rfl⟩
    | some char =>
      have hlt : s.i < x.length := (List.getElem?_eq_some_iff.mp hchar).1
      have hmoves := round_moves x parser typarray char s xs
      dsimp only
      cases hround : arrayParserRound x parser typarray char s xs with
      | again s' xs' =>
        rw [hround] at hmoves
        have hadvance : s'.advance.i = s'.i + 1 := rfl
        obtain ⟨r, hr, hle⟩ := ih s'.advance xs' (by omega) (by omega)
        exact ⟨r, hr, by omega⟩
      | nested s' =>
        rw [hround] at hmoves
        obtain ⟨inner, hinner, hle⟩ := ih s' [] (by omega) (by omega)
        have hadvance : inner.2.advance.i = inner.2.i + 1 := rfl
        obtain ⟨r, hr, hle'⟩ := ih inner.2.advance (xs ++ [.node inner.1]) (by omega) (by omega)
        exact ⟨r, Option.bind_eq_some_iff.mpr ⟨inner, hinner, hr⟩, by omega⟩
      | ended s' xs' =>
        rw [hround] at hmoves
        exact ⟨_, rfl, hmoves.ge⟩

variable (x parser typarray)

/-- What the loop returns. -/
def Returns (s : ArrayParserState) (xs : List (Nested α))
    (r : List (Nested α) × ArrayParserState) : Prop :=
  ∃ fuel, arrayParserLoop x parser typarray fuel s xs = some r

/-- The loop comes from one state to another. -/
def Leads (s : ArrayParserState) (xs : List (Nested α)) (s' : ArrayParserState)
    (xs' : List (Nested α)) : Prop :=
  ∀ r, Returns x parser typarray s' xs' r → Returns x parser typarray s xs r

variable {x parser typarray}

/-- The parser's own number of rounds is enough. -/
theorem Returns.arrayParser_eq (h : Returns x parser typarray {} [] r) :
    arrayParser x parser typarray = r.1.head? := by
  obtain ⟨fuel, hfuel⟩ := h
  obtain ⟨r', hr', -⟩ : ∃ r', arrayParserLoop x parser typarray (x.length + 1) {} [] = some r' ∧ 0 ≤ r'.2.i :=
    loop_ends {} [] (Nat.succ_pos _) (Nat.lt_succ_self _)
  have heq : r' = r := by
    have h₁ := loop_mono hr' (Nat.le_add_right _ fuel)
    have h₂ := loop_mono hfuel (Nat.le_add_left fuel (x.length + 1))
    exact Option.some.inj (h₁.symm.trans h₂)
  rw [arrayParser, hr', heq]
  rfl

theorem Leads.trans (h : Leads x parser typarray s xs s' xs')
    (h' : Leads x parser typarray s' xs' s'' xs'') : Leads x parser typarray s xs s'' xs'' :=
  fun r hr => h r (h' r hr)

theorem Leads.cast (h : Leads x parser typarray s xs s' xs') (hs : s' = s'') :
    Leads x parser typarray s xs s'' xs' :=
  hs ▸ h

/-! ### One round -/

section

variable {char : UInt16} (hchar : x[s.i]? = some char)

include hchar

theorem leads_again (hround : arrayParserRound x parser typarray char s xs = .again s' xs') :
    Leads x parser typarray s xs s'.advance xs' := by
  rintro r ⟨fuel, hfuel⟩
  refine ⟨fuel + 1, ?_⟩
  rw [arrayParserLoop, hchar]
  dsimp only
  rw [hround]
  exact hfuel

theorem leads_nested {items : List (Nested α)}
    (hround : arrayParserRound x parser typarray char s xs = .nested s')
    (hitems : Returns x parser typarray s' [] (items, s'')) :
    Leads x parser typarray s xs s''.advance (xs ++ [.node items]) := by
  rintro r ⟨fuel, hfuel⟩
  obtain ⟨fuel', hfuel'⟩ := hitems
  -- both calls may use the larger of the two numbers
  refine ⟨max fuel fuel' + 1, ?_⟩
  rw [arrayParserLoop, hchar]
  dsimp only
  rw [hround]
  exact Option.bind_eq_some_iff.mpr
    ⟨_, loop_mono hfuel' (le_max_right _ _), loop_mono hfuel (le_max_left _ _)⟩

theorem returns_ended (hround : arrayParserRound x parser typarray char s xs = .ended s' xs') :
    Returns x parser typarray s xs (afterLoop x parser s' xs') := by
  refine ⟨1, ?_⟩
  rw [arrayParserLoop, hchar]
  dsimp only
  rw [hround]

end

theorem returns_over (h : x[s.i]? = none) :
    Returns x parser typarray s xs (afterLoop x parser s xs) := by
  refine ⟨1, ?_⟩
  rw [arrayParserLoop, h]

/-! ### Characters -/

/-- A character that is no mark of the syntax. -/
def Plain (typarray : ℕ) (unit : UInt16) : Prop :=
  unit ≠ 0x22 ∧ unit ≠ 0x7b ∧ unit ≠ 0x7d ∧ unit ≠ delimiterOf typarray

theorem unit_at {before after : Text} {char : UInt16} (hx : x = before ++ char :: after)
    (hi : s.i = before.length) : x[s.i]? = some char := by
  rw [hx, hi, List.getElem?_append_right le_rfl, Nat.sub_self]
  rfl

theorem sliceText_between (before units after : Text) :
    sliceText (before ++ (units ++ after)) before.length (before.length + units.length) = units := by
  rw [sliceText, List.take_length_add_append, List.drop_left, List.take_left]

theorem round_plain {unit : UInt16} (hplain : Plain typarray unit) (hquoted : s.quoted = false) :
    arrayParserRound x parser typarray unit s xs = .again { s with char := some unit } xs := by
  obtain ⟨hquote, hopen, hclose, hdelimiter⟩ := hplain
  have hno : ¬ (unit = delimiterOf typarray ∧ s.p ≠ some 0x7d ∧ s.p ≠ some 0x22) :=
    fun h => hdelimiter h.1
  rw [arrayParserRound]
  dsimp only
  rw [if_neg (by rw [hquoted]; exact Bool.false_ne_true), if_neg hquote, if_neg hopen, if_neg hclose,
    if_neg hno]

/-- Characters without a meaning of their own. -/
theorem leads_plain {units before after : Text} (hne : units ≠ [])
    (hplain : ∀ unit ∈ units, Plain typarray unit) (hx : x = before ++ (units ++ after))
    (hi : s.i = before.length) (hquoted : s.quoted = false) :
    ∃ unit, Plain typarray unit ∧ Leads x parser typarray s xs
      { s with i := s.i + units.length, char := some unit, p := some unit } xs := by
  induction units generalizing before s with
  | nil => exact absurd rfl hne
  | cons unit units ih =>
    have hunit := hplain unit List.mem_cons_self
    have hfirst : Leads x parser typarray s xs
        { s with i := s.i + 1, char := some unit, p := some unit } xs :=
      leads_again (unit_at hx hi) (round_plain hunit hquoted)
    cases units with
    | nil => exact ⟨unit, hunit, hfirst⟩
    | cons next units =>
      have hx' : x = (before ++ [unit]) ++ ((next :: units) ++ after) := by
        rw [hx, List.append_assoc]
        rfl
      obtain ⟨last, hlast, hrest⟩ :=
        ih (s := { s with i := s.i + 1, char := some unit, p := some unit }) (List.cons_ne_nil _ _)
          (fun unit' hin => hplain unit' (List.mem_cons_of_mem _ hin)) hx' (by simp [hi]) hquoted
      refine ⟨last, hlast, (hfirst.trans hrest).cast ?_⟩
      simp only [List.length_cons, ArrayParserState.mk.injEq, and_true, and_self]
      omega

theorem round_escape {unit : UInt16} (hquoted : s.quoted = true) (hnext : x[s.i + 1]? = some unit) :
    arrayParserRound x parser typarray 0x5c s xs =
      .again { s with char := some 0x5c, i := s.i + 1, str := s.str ++ [unit] } xs := by
  rw [arrayParserRound]
  dsimp only
  rw [if_pos hquoted, if_pos rfl, hnext]
  rfl

theorem round_inside {unit : UInt16} (hquoted : s.quoted = true) (hslash : unit ≠ 0x5c)
    (hquote : unit ≠ 0x22) :
    arrayParserRound x parser typarray unit s xs =
      .again { s with char := some unit, str := s.str ++ [unit] } xs := by
  rw [arrayParserRound]
  dsimp only
  rw [if_pos hquoted, if_neg hslash, if_neg hquote]

/-- The text between quotes. -/
theorem leads_inside {element before after : Text}
    (hx : x = before ++ (element.flatMap escapeElementUnit ++ after)) (hi : s.i = before.length)
    (hquoted : s.quoted = true) :
    ∃ char p, Leads x parser typarray s xs
      { s with i := s.i + (element.flatMap escapeElementUnit).length, str := s.str ++ element, char, p }
      xs := by
  induction element generalizing before s with
  | nil =>
    refine ⟨s.char, s.p, fun r hr => ?_⟩
    rwa [List.append_nil] at hr
  | cons unit element ih =>
    rw [List.flatMap_cons, List.append_assoc] at hx
    by_cases hmark : unit = 0x22 ∨ unit = 0x5c
    · -- a quote or a backslash, after a backslash
      rw [escapeElementUnit, if_pos hmark] at hx
      have hnext : x[s.i + 1]? = some unit := by
        have hx' : x = (before ++ [0x5c]) ++ unit :: (element.flatMap escapeElementUnit ++ after) := by
          rw [hx, List.append_assoc]
          rfl
        exact unit_at (s := { s with i := s.i + 1 }) hx' (by simp [hi])
      have hx' : x = (before ++ [0x5c, unit]) ++ (element.flatMap escapeElementUnit ++ after) := by
        rw [hx, List.append_assoc]
      have hfirst : Leads x parser typarray s xs { s with
          i := s.i + 2, str := s.str ++ [unit], char := some 0x5c, p := some 0x5c } xs :=
        leads_again (unit_at hx hi) (round_escape hquoted hnext)
      obtain ⟨char, p, hrest⟩ :=
        ih (s := { s with i := s.i + 2, str := s.str ++ [unit], char := some 0x5c, p := some 0x5c })
          hx' (by simp [hi]) hquoted
      refine ⟨char, p, (hfirst.trans hrest).cast ?_⟩
      simp only [List.flatMap_cons, escapeElementUnit, if_pos hmark, List.length_append, List.length_cons,
        List.length_nil, List.append_assoc, List.singleton_append, ArrayParserState.mk.injEq, and_true, and_self]
      omega
    · have hplain := not_or.mp hmark
      rw [escapeElementUnit, if_neg hmark] at hx
      have hx' : x = (before ++ [unit]) ++ (element.flatMap escapeElementUnit ++ after) := by
        rw [hx, List.append_assoc]
      have hfirst : Leads x parser typarray s xs { s with
          i := s.i + 1, str := s.str ++ [unit], char := some unit, p := some unit } xs :=
        leads_again (unit_at hx hi) (round_inside hquoted hplain.2 hplain.1)
      obtain ⟨char, p, hrest⟩ :=
        ih (s := { s with i := s.i + 1, str := s.str ++ [unit], char := some unit, p := some unit })
          hx' (by simp [hi]) hquoted
      refine ⟨char, p, (hfirst.trans hrest).cast ?_⟩
      simp only [List.flatMap_cons, escapeElementUnit, if_neg hmark, List.length_cons, List.append_assoc,
        List.singleton_append, ArrayParserState.mk.injEq, and_true, and_self]
      omega

end Arrays
