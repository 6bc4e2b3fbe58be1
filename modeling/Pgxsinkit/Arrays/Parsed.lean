/-
Array texts that are read back by the parser.

An element without quotes is pushed by what ends it; an element in quotes and a nested array are
pushed before, and what ends them is passed over.  The items of one level are of one depth, so the
boundary that the next item needs is where it has to be.
-/
import Pgxsinkit.Arrays.Rounds

namespace Arrays

open Copy

variable {α : Type} {x : Text} {parser : Text → α} {typarray : ℕ} {s s' s'' : ArrayParserState}
  {xs xs' xs'' : List (Nested α)} {r : List (Nested α) × ArrayParserState}

/-! ### Trees -/

mutual

/-- The JavaScript array of a tree. -/
def parsedTree (parser : Text → α) : ArrayTree → Nested α
  | .leaf none => .leaf none
  | .leaf (some element) => parsedElement parser element
  | .node items => .node (parsedTrees parser items)

def parsedTrees (parser : Text → α) : List ArrayTree → List (Nested α)
  | [] => []
  | item :: items => parsedTree parser item :: parsedTrees parser items

end

/-- A tree whose leaves are all at one depth, and whose arrays have items. -/
def Level : ℕ → ArrayTree → Prop
  | 0, .leaf _ => True
  | depth + 1, .node items => items ≠ [] ∧ ∀ item ∈ items, Level depth item
  | _, _ => False

theorem sameDims_iff {dims : List ℕ} {items : List ArrayTree} :
    sameDims dims items = true ↔ ∀ item ∈ items, item.dims = some dims := by
  induction items with
  | nil => simp [sameDims]
  | cons item items ih => rw [sameDims, Bool.and_eq_true, decide_eq_true_eq, ih, List.forall_mem_cons]

theorem level_of_dims {dims : List ℕ} {tree : ArrayTree} (h : tree.dims = some dims) (hpos : 0 ∉ dims) :
    Level dims.length tree := by
  induction dims generalizing tree with
  | nil =>
    cases tree with
    | leaf => exact trivial
    | node items =>
      cases items with
      | nil => cases h
      | cons item items =>
        obtain ⟨dims', -, h⟩ := Option.bind_eq_some_iff.mp (ArrayTree.dims.eq_3 item items ▸ h)
        split at h <;> cases h
  | cons dim dims ih =>
    cases tree with
    | leaf => cases h
    | node items =>
      cases items with
      | nil =>
        obtain ⟨rfl, -⟩ := List.cons.inj (Option.some.inj h)
        exact absurd List.mem_cons_self hpos
      | cons item items =>
        obtain ⟨dims', hitem, h⟩ := Option.bind_eq_some_iff.mp (ArrayTree.dims.eq_3 item items ▸ h)
        split at h
        · rename_i hsame
          obtain ⟨-, rfl⟩ := List.cons.inj (Option.some.inj h)
          have hpos' : 0 ∉ dims' := fun hin => hpos (List.mem_cons_of_mem _ hin)
          have hall : ∀ other ∈ item :: items, other.dims = some dims' :=
            List.forall_mem_cons.mpr ⟨hitem, sameDims_iff.mp hsame⟩
          exact ⟨List.cons_ne_nil _ _, fun other hother => ih (hall other hother) hpos'⟩
        · cases h

/-! ### Elements -/

/-- Before an item: the boundary is here, unless a nested array is to come. -/
structure Ready (depth : ℕ) (s : ArrayParserState) : Prop where
  quoted : s.quoted = false
  str : s.str = []
  last : depth = 0 → s.last = s.i

/-- After an item, at what ends it: the item is still to be pushed, or has been. -/
inductive Past (x : Text) (parser : Text → α) (xs : List (Nested α)) (item : Nested α) :
    ℕ → ArrayParserState → List (Nested α) → Prop
  | bare {s : ArrayParserState} (hbrace : s.p ≠ some 0x7d) (hquote : s.p ≠ some 0x22)
      (hlast : s.last < s.i) (hitem : bareElement parser x s = item) : Past x parser xs item 0 s xs
  | quoted {s : ArrayParserState} (hquote : s.p = some 0x22) (hlast : s.last = s.i + 1) :
      Past x parser xs item 0 s (xs ++ [item])
  | node {depth : ℕ} {s : ArrayParserState} (hbrace : s.p = some 0x7d) (hlast : s.last = s.i) :
      Past x parser xs item (depth + 1) s (xs ++ [item])

/-- A text that is read as an item, wherever it stands. -/
def Item (typarray : ℕ) (parser : Text → α) (depth : ℕ) (units : Text) (item : Nested α) : Prop :=
  ∀ (before after : Text) (closer : UInt16) (s : ArrayParserState) (xs : List (Nested α)),
    closer = delimiterOf typarray ∨ closer = 0x7d →
    s.i = before.length → Ready depth s →
      let x := before ++ (units ++ closer :: after)
      ∃ s' xs', s'.i = before.length + units.length ∧ s'.quoted = false ∧ s'.str = [] ∧
        Past x parser xs item depth s' xs' ∧ Leads x parser typarray s xs s' xs'

/-- An element without quotes, which may be the word for a null. -/
theorem item_bare {units : Text} (hne : units ≠ []) (hplain : ∀ unit ∈ units, Plain typarray unit) :
    Item typarray parser 0 units
      (if units = text "NULL" then .leaf none else parsedElement parser units) := by
  intro before after closer s xs hcloser hi hready x
  obtain ⟨unit, hunit, hleads⟩ : ∃ unit, Plain typarray unit ∧ Leads x parser typarray s xs
      { s with i := s.i + units.length, char := some unit, p := some unit } xs :=
    leads_plain hne hplain rfl hi hready.quoted
  refine ⟨{ s with i := s.i + units.length, char := some unit, p := some unit }, xs,
    congrArg (· + units.length) hi, hready.quoted, hready.str, .bare ?_ ?_ ?_ ?_, hleads⟩
  · exact fun h => hunit.2.2.1 (Option.some.inj h)
  · exact fun h => hunit.1 (Option.some.inj h)
  · have hlength : 0 < units.length := List.length_pos_of_ne_nil hne
    show s.last < s.i + units.length
    rw [hready.last rfl]
    omega
  · have hslice : sliceText x s.last (s.i + units.length) = units := by
      rw [hready.last rfl, hi]
      exact sliceText_between before units _
    rw [bareElement]
    dsimp only
    rw [hslice, hready.quoted]
    simp only [and_true]

theorem round_open (hquoted : s.quoted = false) :
    arrayParserRound x parser typarray 0x22 s xs =
      .again { s with char := some 0x22, quoted := true } xs := by
  rw [arrayParserRound]
  dsimp only
  rw [if_neg (by rw [hquoted]; exact Bool.false_ne_true), if_pos rfl]

theorem round_close (hquoted : s.quoted = true) {next : UInt16} (hnext : x[s.i + 1]? = some next)
    (hne : next ≠ 0x22) :
    arrayParserRound x parser typarray 0x22 s xs =
      .again { s with char := some 0x22, str := [], quoted := false, last := s.i + 2 }
        (xs ++ [parsedElement parser s.str]) := by
  have hmore : decide (x[s.i + 1]? = some 0x22) = false := by
    rw [hnext]
    exact decide_eq_false fun h => hne (Option.some.inj h)
  rw [arrayParserRound]
  dsimp only
  rw [if_pos hquoted, if_neg (by decide), if_pos rfl, hmore]

theorem item_quoted (element : Text) :
    Item typarray parser 0 (inQuotes element) (parsedElement parser element) := by
  intro before after closer s xs hcloser hi hready x
  have hne : closer ≠ 0x22 := by
    rcases hcloser with rfl | rfl
    · exact (delimiterOf_ne typarray).1
    · decide
  have hopen : Leads x parser typarray s xs
      { s with i := s.i + 1, quoted := true, char := some 0x22, p := some 0x22 } xs :=
    leads_again (unit_at rfl hi) (round_open hready.quoted)
  have hx : x = (before ++ [0x22]) ++
      (element.flatMap escapeElementUnit ++ 0x22 :: closer :: after) := by
    simp [x, inQuotes]
  obtain ⟨char, p, hinside⟩ : ∃ char p, Leads x parser typarray
      { s with i := s.i + 1, quoted := true, char := some 0x22, p := some 0x22 } xs
      { s with i := s.i + 1 + (element.flatMap escapeElementUnit).length, str := s.str ++ element, quoted := true,
               char, p } xs :=
    leads_inside hx (by simp [hi]) rfl
  -- the rest of the text, from the closing quote on
  have hlength : (inQuotes element).length = (element.flatMap escapeElementUnit).length + 2 := by
    simp [inQuotes]
  have hquote : x = (before ++ 0x22 :: element.flatMap escapeElementUnit) ++ 0x22 :: closer :: after := by
    simp [x, inQuotes]
  have hcloser' : x = (before ++ inQuotes element) ++ closer :: after := by
    simp [x]
  have hi' : s.i + 1 + (element.flatMap escapeElementUnit).length =
      (before ++ 0x22 :: element.flatMap escapeElementUnit).length := by
    simp only [List.length_append, List.length_cons]
    omega
  have hnext : x[s.i + 1 + (element.flatMap escapeElementUnit).length + 1]? = some closer :=
    unit_at (s := { s with i := s.i + 1 + (element.flatMap escapeElementUnit).length + 1 }) hcloser'
      (by simp only [List.length_append, hlength]; omega)
  have hclose : Leads x parser typarray
      { s with i := s.i + 1 + (element.flatMap escapeElementUnit).length, str := s.str ++ element, quoted := true,
               char, p } xs _ _ :=
    leads_again (unit_at hquote hi') (round_close rfl hnext hne)
  rw [hready.str] at hopen hinside
  rw [hready.str, List.nil_append] at hclose
  rw [List.nil_append] at hinside
  refine ⟨_, _, ?_, ?_, ?_, .quoted ?_ ?_, hopen.trans (hinside.trans hclose)⟩
  · show s.i + 1 + (element.flatMap escapeElementUnit).length + 1 = _
    omega
  · rfl
  · rfl
  · rfl
  · rfl

theorem plain_of_outNeedsQuote {unit : UInt16}
    (h : outNeedsQuote (delimiterOf typarray) unit = false) : Plain typarray unit := by
  rw [outNeedsQuote, Bool.or_eq_false_iff, decide_eq_false_iff_not] at h
  simp only [List.mem_cons, not_or] at h
  exact ⟨h.1.1, h.1.2.2.1, h.1.2.2.2.1, h.1.2.2.2.2.1⟩

theorem plain_null : ∀ unit ∈ text "NULL", Plain typarray unit := by
  have hunits : text "NULL" = [0x4e, 0x55, 0x4c, 0x4c] := by decide
  rw [hunits]
  rcases delimiterOf_cases typarray with h | h <;> simp [Plain, h]

/-- An element of `array_out`. -/
theorem item_out (value : Option Text) :
    Item typarray parser 0 (outElement (delimiterOf typarray) value) (parsedTree parser (.leaf value)) := by
  cases value with
  | none =>
    have hne : text "NULL" ≠ [] := by decide
    exact item_bare hne plain_null
  | some element =>
    rw [outElement]
    split
    · exact item_quoted element
    · rename_i hplain
      push Not at hplain
      obtain ⟨hne, hnull, hany⟩ := hplain
      have hword : element ≠ text "NULL" := by
        rintro rfl
        exact hnull (by decide)
      have hunits : ∀ unit ∈ element, Plain typarray unit := fun unit hin =>
        plain_of_outNeedsQuote (Bool.eq_false_iff.mpr fun hmark => hany (List.any_eq_true.mpr ⟨unit, hin, hmark⟩))
      have hitem : Item typarray parser 0 element _ := item_bare hne hunits
      rw [if_neg hword] at hitem
      exact hitem

/-! ### What ends an item -/

theorem round_delimiter (hquoted : s.quoted = false) :
    arrayParserRound x parser typarray (delimiterOf typarray) s xs =
      if s.p ≠ some 0x7d ∧ s.p ≠ some 0x22 then
        .again { s with char := some (delimiterOf typarray), last := s.i + 1 } (xs ++ [bareElement parser x s])
      else .again { s with char := some (delimiterOf typarray) } xs := by
  obtain ⟨hquote, -, hopen, hclose, -⟩ := delimiterOf_ne typarray
  rw [arrayParserRound]
  dsimp only
  rw [if_neg (by rw [hquoted]; exact Bool.false_ne_true), if_neg hquote, if_neg hopen, if_neg hclose]
  simp only [true_and]
  rfl

theorem round_brace (hquoted : s.quoted = false) :
    arrayParserRound x parser typarray 0x7d s xs =
      .ended { s with char := some 0x7d, quoted := false, last := s.i + 1 }
        (if s.last < s.i then xs ++ [bareElement parser x s] else xs) := by
  rw [arrayParserRound]
  dsimp only
  rw [if_neg (by rw [hquoted]; exact Bool.false_ne_true), if_neg (by decide), if_neg (by decide), if_pos rfl]
  rfl

/-- After the delimiter an item of the same depth may come. -/
theorem Past.delimiter {item : Nested α} {depth : ℕ} (hpast : Past x parser xs item depth s xs')
    (hquoted : s.quoted = false) (hstr : s.str = []) (hchar : x[s.i]? = some (delimiterOf typarray)) :
    ∃ s', s'.i = s.i + 1 ∧ Ready depth s' ∧ Leads x parser typarray s xs' s' (xs ++ [item]) := by
  have hround : arrayParserRound x parser typarray (delimiterOf typarray) s xs' = _ := round_delimiter hquoted
  cases hpast with
  | bare hbrace hquote hlast hitem =>
    rw [if_pos ⟨hbrace, hquote⟩, hitem] at hround
    refine ⟨_, rfl, ?_, leads_again hchar hround⟩
    exact ⟨hquoted, hstr, fun _ => rfl⟩
  | quoted hquote hlast =>
    rw [if_neg fun h => h.2 hquote] at hround
    refine ⟨_, rfl, ?_, leads_again hchar hround⟩
    exact ⟨hquoted, hstr, fun _ => hlast⟩
  | node hbrace hlast =>
    rw [if_neg fun h => h.1 hbrace] at hround
    refine ⟨_, rfl, ?_, leads_again hchar hround⟩
    exact ⟨hquoted, hstr, fun h => absurd h (Nat.succ_ne_zero _)⟩

/-- The items of a nested array are read, and the cursor is at its closing brace. -/
structure Closed (s : ArrayParserState) (i : ℕ) : Prop where
  at_brace : s.i = i
  char : s.char = some 0x7d
  quoted : s.quoted = false
  str : s.str = []
  last : s.last = i + 1

theorem Past.brace {item : Nested α} {depth : ℕ} (hpast : Past x parser xs item depth s xs')
    (hquoted : s.quoted = false) (hstr : s.str = []) (hchar : x[s.i]? = some 0x7d) :
    ∃ s', Closed s' s.i ∧ Returns x parser typarray s xs' (xs ++ [item], s') := by
  have hround : arrayParserRound x parser typarray 0x7d s xs' = _ := round_brace hquoted
  have hitems : (if s.last < s.i then xs' ++ [bareElement parser x s] else xs') = xs ++ [item] := by
    cases hpast with
    | bare hbrace hquote hlast hitem => rw [if_pos hlast, hitem]
    | quoted hquote hlast => exact if_neg (by omega)
    | node hbrace hlast => exact if_neg (by omega)
  rw [hitems] at hround
  have hreturns := returns_ended hchar hround
  rw [afterLoop, if_neg (Nat.not_lt.mpr (Nat.le_succ _))] at hreturns
  refine ⟨_, ?_, hreturns⟩
  exact ⟨rfl, rfl, rfl, hstr, rfl⟩

/-! ### Nested arrays -/

/-- The texts of items, each of which is read, between a brace before them and one after. -/
theorem returns_items {depth : ℕ} {items : List (Text × Nested α)} (hne : items ≠ [])
    (hitems : ∀ item ∈ items, Item typarray parser depth item.1 item.2) {before after : Text}
    (hx : x = before ++ ([delimiterOf typarray].intercalate (items.map Prod.fst) ++ 0x7d :: after))
    (hi : s.i = before.length) (hready : Ready depth s) :
    ∃ s', Closed s' (before.length + ([delimiterOf typarray].intercalate (items.map Prod.fst)).length) ∧
      Returns x parser typarray s xs (xs ++ items.map Prod.snd, s') := by
  induction items generalizing before s xs with
  | nil => exact absurd rfl hne
  | cons item items ih =>
    have hitem := hitems item List.mem_cons_self
    cases items with
    | nil =>
      simp only [List.map_cons, List.map_nil, List.intercalate_singleton] at hx ⊢
      obtain ⟨s₁, xs₁, hi₁, hquoted₁, hstr₁, hpast, hleads⟩ :=
        hitem before after 0x7d s xs (.inr rfl) hi hready
      rw [← hx] at hpast hleads
      have hchar : x[s₁.i]? = some 0x7d :=
        unit_at (show x = (before ++ item.1) ++ _ by rw [hx, List.append_assoc]) (by rw [hi₁, List.length_append])
      obtain ⟨s₂, hclosed, hreturns⟩ : ∃ s₂, Closed s₂ s₁.i ∧
          Returns x parser typarray s₁ xs₁ (xs ++ [item.2], s₂) := hpast.brace hquoted₁ hstr₁ hchar
      exact ⟨s₂, hi₁ ▸ hclosed, hleads _ hreturns⟩
    | cons next items =>
      have hcut : [delimiterOf typarray].intercalate ((item :: next :: items).map Prod.fst) =
          item.1 ++ delimiterOf typarray ::
            [delimiterOf typarray].intercalate ((next :: items).map Prod.fst) := by
        rw [List.map_cons, List.map_cons, List.intercalate_cons_cons, List.append_assoc]
        rfl
      rw [hcut, List.append_assoc, List.cons_append] at hx
      obtain ⟨s₁, xs₁, hi₁, hquoted₁, hstr₁, hpast, hleads⟩ :=
        hitem before ([delimiterOf typarray].intercalate ((next :: items).map Prod.fst) ++ 0x7d :: after)
          (delimiterOf typarray) s xs (.inl rfl) hi hready
      rw [← hx] at hpast hleads
      have hchar : x[s₁.i]? = some (delimiterOf typarray) :=
        unit_at (show x = (before ++ item.1) ++ _ by rw [hx, List.append_assoc]) (by rw [hi₁, List.length_append])
      obtain ⟨s₂, hi₂, hready₂, hleads₂⟩ := hpast.delimiter hquoted₁ hstr₁ hchar
      have hx' : x = (before ++ (item.1 ++ [delimiterOf typarray])) ++
          ([delimiterOf typarray].intercalate ((next :: items).map Prod.fst) ++ 0x7d :: after) := by
        rw [hx]
        simp only [List.append_assoc, List.singleton_append]
      have hlength : (before ++ (item.1 ++ [delimiterOf typarray])).length = before.length + item.1.length + 1 := by
        simp only [List.length_append, List.length_singleton]
        omega
      obtain ⟨s₃, hclosed, hreturns⟩ : ∃ s₃, Closed s₃ _ ∧
          Returns x parser typarray s₂ (xs ++ [item.2]) (xs ++ [item.2] ++ (next :: items).map Prod.snd, s₃) :=
        ih (List.cons_ne_nil _ _) (fun other hother => hitems other (List.mem_cons_of_mem _ hother)) hx'
          (by rw [hi₂, hi₁, hlength]) hready₂
      refine ⟨s₃, ?_, ?_⟩
      · rw [hcut]
        convert hclosed using 1
        rw [hlength, List.length_append, List.length_cons]
        omega
      · rw [List.append_assoc] at hreturns
        exact hleads _ (hleads₂ _ hreturns)

theorem treeTexts_eq (delimiter : UInt16) (element : Option Text → Text) (items : List ArrayTree) :
    treeTexts delimiter element items = items.map (treeText delimiter element) := by
  induction items with
  | nil => rfl
  | cons item items ih => rw [treeTexts, ih, List.map_cons]

theorem parsedTrees_eq (items : List ArrayTree) :
    parsedTrees parser items = items.map (parsedTree parser) := by
  induction items with
  | nil => rfl
  | cons item items ih => rw [parsedTrees, ih, List.map_cons]

theorem round_nested (hquoted : s.quoted = false) :
    arrayParserRound x parser typarray 0x7b s xs =
      .nested { s with char := some 0x7b, i := s.i + 1, last := s.i + 1 } := by
  rw [arrayParserRound]
  dsimp only
  rw [if_neg (by rw [hquoted]; exact Bool.false_ne_true), if_neg (by decide), if_pos rfl]

/-- The text of a tree, as `array_out` writes it. -/
def outText (typarray : ℕ) (tree : ArrayTree) : Text :=
  treeText (delimiterOf typarray) (outElement (delimiterOf typarray)) tree

/-- A nested array whose items are read. -/
theorem leads_node {depth : ℕ} {items : List ArrayTree} (hne : items ≠ [])
    (hitems : ∀ item ∈ items, Item typarray parser depth (outText typarray item) (parsedTree parser item))
    {before after : Text} (hx : x = before ++ (outText typarray (.node items) ++ after))
    (hi : s.i = before.length) (hquoted : s.quoted = false) (hstr : s.str = []) :
    ∃ s', s'.i = before.length + (outText typarray (.node items)).length ∧ s'.quoted = false ∧ s'.str = [] ∧
      s'.p = some 0x7d ∧ s'.last = s'.i ∧
      Leads x parser typarray s xs s' (xs ++ [parsedTree parser (.node items)]) := by
  have hbody : outText typarray (.node items) = 0x7b ::
      ([delimiterOf typarray].intercalate (items.map (outText typarray)) ++ [0x7d]) := by
    rw [outText, treeText, treeTexts_eq]
    rfl
  rw [hbody] at hx ⊢
  have hchar : x[s.i]? = some 0x7b := unit_at hx hi
  have hpairs : ∀ item ∈ items.map fun tree => (outText typarray tree, parsedTree parser tree),
      Item typarray parser depth item.1 item.2 := by
    intro item hin
    obtain ⟨tree, htree, rfl⟩ := List.mem_map.mp hin
    exact hitems tree htree
  have hmaps : (items.map fun tree => (outText typarray tree, parsedTree parser tree)).map Prod.fst =
      items.map (outText typarray) ∧
      (items.map fun tree => (outText typarray tree, parsedTree parser tree)).map Prod.snd =
        parsedTrees parser items := by
    rw [List.map_map, List.map_map, parsedTrees_eq]
    exact ⟨rfl, rfl⟩
  have hx' : x = (before ++ [0x7b]) ++
      ([delimiterOf typarray].intercalate (items.map (outText typarray)) ++ 0x7d :: after) := by
    rw [hx]
    simp only [List.append_assoc, List.cons_append, List.nil_append]
  rw [← hmaps.1] at hx' ⊢
  obtain ⟨s₁, hclosed, hreturns⟩ : ∃ s₁, Closed s₁ _ ∧ Returns x parser typarray
      { s with char := some 0x7b, i := s.i + 1, last := s.i + 1 } [] ([] ++ _, s₁) :=
    returns_items (by rwa [ne_eq, List.map_eq_nil_iff]) hpairs hx' (by simp [hi]) ⟨hquoted, hstr, fun _ => rfl⟩
  rw [hmaps.2, List.nil_append] at hreturns
  refine ⟨s₁.advance, ?_, hclosed.quoted, hclosed.str, hclosed.char, ?_,
    leads_nested hchar (round_nested hquoted) hreturns⟩
  · show s₁.i + 1 = _
    rw [hclosed.at_brace]
    simp only [List.length_append, List.length_cons, List.length_nil]
    omega
  · show s₁.last = s₁.i + 1
    rw [hclosed.last, hclosed.at_brace]

/-- Every tree of one depth is read, by induction on the depth. -/
theorem item_tree {depth : ℕ} {tree : ArrayTree} (h : Level depth tree) :
    Item typarray parser depth (outText typarray tree) (parsedTree parser tree) := by
  induction depth generalizing tree with
  | zero =>
    cases tree with
    | leaf value => exact item_out value
    | node => exact absurd h id
  | succ depth ih =>
    cases tree with
    | leaf => exact absurd h id
    | node items =>
      intro before after closer s xs _ hi hready x
      obtain ⟨s', hi', hquoted, hstr, hp, hlast, hleads⟩ := leads_node h.1
        (fun item hin => ih (h.2 item hin)) (show x = before ++ _ from rfl) hi hready.quoted hready.str
      exact ⟨s', _, hi', hquoted, hstr, .node hp hlast, hleads⟩

/-! ### Bounds -/

/-- A digit, a sign, or a mark of the bounds. -/
theorem plain_of_lt {unit : UInt16} (h : unit = 0x2d ∨ unit = 0x5b ∨ unit = 0x3a ∨ unit = 0x5d ∨ unit = 0x3d ∨
    0x30 ≤ unit.toNat ∧ unit.toNat ≤ 0x39) : Plain typarray unit := by
  have hne : ∀ mark : UInt16, mark.toNat ≠ unit.toNat → unit ≠ mark := by
    rintro mark hmark rfl
    exact hmark rfl
  rcases h with rfl | rfl | rfl | rfl | rfl | h
  case inr.inr.inr.inr.inr =>
    refine ⟨hne _ ?_, hne _ ?_, hne _ ?_, hne _ ?_⟩
    · show 34 ≠ _
      omega
    · show 123 ≠ _
      omega
    · show 125 ≠ _
      omega
    · rcases delimiterOf_cases typarray with hd | hd <;> rw [hd]
      · show 59 ≠ _
        omega
      · show 44 ≠ _
        omega
  all_goals rcases delimiterOf_cases typarray with hd | hd <;> simp [Plain, hd]

theorem plain_bigintText {value : ℤ} {unit : UInt16} (h : unit ∈ bigintText value) : Plain typarray unit := by
  have hdigit : ∀ n : ℕ, unit ∈ decimal n → Plain typarray unit := by
    intro n hin
    obtain ⟨c, hc, rfl⟩ := List.mem_map.mp hin
    have hdigit : c.isDigit = true := Nat.isDigit_of_mem_toDigits (by decide) (by decide) hc
    rw [Char.isDigit, Bool.and_eq_true, decide_eq_true_eq, decide_eq_true_eq] at hdigit
    have hlow : 48 ≤ c.toNat := hdigit.1
    have hhigh : c.toNat ≤ 57 := hdigit.2
    have hunit : (UInt16.ofNat c.toNat).toNat = c.toNat := Unicode.toNat_ofNat_of_lt (by omega)
    exact plain_of_lt (.inr (.inr (.inr (.inr (.inr ⟨by omega, by omega⟩)))))
  rw [bigintText] at h
  split at h
  · rcases List.mem_cons.mp h with rfl | h
    · exact plain_of_lt (.inl rfl)
    · exact hdigit _ h
  · exact hdigit _ h

theorem plain_outBound {lower : ℤ} {length : ℕ} {unit : UInt16} (h : unit ∈ outBound lower length) :
    Plain typarray unit := by
  rw [outBound, List.mem_cons, List.mem_append, List.mem_cons, List.mem_append, List.mem_singleton] at h
  rcases h with rfl | h | rfl | h | rfl
  · exact plain_of_lt (.inr (.inl rfl))
  · exact plain_bigintText h
  · exact plain_of_lt (.inr (.inr (.inl rfl)))
  · exact plain_bigintText h
  · exact plain_of_lt (.inr (.inr (.inr (.inl rfl))))

theorem plain_outBounds {lowers : List ℤ} {dims : List ℕ} {unit : UInt16}
    (h : unit ∈ outBounds lowers dims) : Plain typarray unit := by
  rw [outBounds] at h
  split at h
  · rcases List.mem_append.mp h with h | h
    · obtain ⟨bound, hbound, hunit⟩ := List.mem_flatten.mp h
      rw [← List.map_uncurry_zip_eq_zipWith] at hbound
      obtain ⟨pair, -, rfl⟩ := List.mem_map.mp hbound
      exact plain_outBound hunit
    · rw [List.mem_singleton] at h
      exact plain_of_lt (.inr (.inr (.inr (.inr (.inl h)))))
  · cases h

/-- The parser reads what `array_out` writes, at every depth. -/
theorem arrayParser_arrayOut (lowers : List ℤ) {tree : ArrayTree} {dims : List ℕ}
    (hdims : tree.dims = some dims) (hne : dims ≠ []) (hpos : 0 ∉ dims) :
    arrayParser (arrayOut typarray lowers tree) parser typarray = some (parsedTree parser tree) := by
  have hlevel := level_of_dims hdims hpos
  cases dims with
  | nil => exact absurd rfl hne
  | cons dim dims =>
    cases tree with
    | leaf => exact absurd hlevel id
    | node items =>
      -- the bounds are passed over, whatever they are
      have hstart : ∃ s, s.i = (outBounds lowers (dim :: dims)).length ∧ s.quoted = false ∧ s.str = [] ∧
          Leads (arrayOut typarray lowers (.node items)) parser typarray {} [] s [] := by
        by_cases hbounds : outBounds lowers (dim :: dims) = []
        · exact ⟨{}, by rw [hbounds]; rfl, rfl, rfl, fun r hr => hr⟩
        · have hwhole : arrayOut typarray lowers (.node items) =
              [] ++ (outBounds lowers (dim :: dims) ++ outText typarray (.node items)) := by
            rw [arrayOut, hdims]
            rfl
          obtain ⟨unit, -, hleads⟩ : ∃ unit, Plain typarray unit ∧
              Leads (arrayOut typarray lowers (.node items)) parser typarray {} []
                { i := 0 + (outBounds lowers (dim :: dims)).length, char := some unit, p := some unit } [] :=
            leads_plain hbounds (fun unit hin => plain_outBounds hin) hwhole rfl rfl
          exact ⟨_, Nat.zero_add _, rfl, rfl, hleads⟩
      obtain ⟨s, hi, hquoted, hstr, hleads⟩ := hstart
      have hx : arrayOut typarray lowers (.node items) =
          outBounds lowers (dim :: dims) ++ (outText typarray (.node items) ++ []) := by
        rw [arrayOut, hdims, List.append_nil]
        rfl
      obtain ⟨s', hi', -, -, -, hlast, hleads'⟩ := leads_node hlevel.1
        (fun item hin => item_tree (hlevel.2 item hin)) hx hi hquoted hstr
      have hover : (arrayOut typarray lowers (.node items))[s'.i]? = none := by
        rw [List.getElem?_eq_none_iff, hx, hi', List.length_append, List.append_nil]
      have hreturns := hleads _ (hleads' _ (returns_over hover))
      rw [afterLoop, if_neg (by omega)] at hreturns
      rw [hreturns.arrayParser_eq]
      rfl

end Arrays
