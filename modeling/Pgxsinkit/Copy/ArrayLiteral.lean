/-
Array literals.

The literal of a tree is cut into the tokens of the tree, and the tokens build the tree: an element
that has a character of the syntax in it, or that could be read for a null, stands in quotes.
-/
import Pgxsinkit.Copy.Reader

namespace Copy

/-! ### The literal and the tokens of a tree -/

mutual

def ArrayTree.literal : ArrayTree → Text
  | .leaf none => text "NULL"
  | .leaf (some element) => quoteArrayElement element
  | .node items => braced (literals items)

def literals : List ArrayTree → List Text
  | [] => []
  | item :: items => item.literal :: literals items

end

mutual

def ArrayTree.tokens : ArrayTree → List ArrayToken
  | .leaf none => [.elementNull]
  | .leaf (some element) => [.element element]
  | .node items => .levelStart :: (itemTokens items ++ [.levelEnd])

/-- The tokens of items between braces. -/
def itemTokens : List ArrayTree → List ArrayToken
  | [] => []
  | [item] => item.tokens
  | item :: next :: items => item.tokens ++ .delimiter :: itemTokens (next :: items)

end

/-! ### Elements -/

/-- What ends an element without quotes. -/
def Closes (rest : Text) : Prop := ∃ rest', rest = 0x2c :: rest' ∨ rest = 0x7d :: rest'

theorem arrayTokens_closes {element rest : Text} (h : Closes rest) :
    arrayTokens (.bare element) rest =
      (arrayTokens .between rest).map (bareToken element :: ·) := by
  obtain ⟨rest', rfl | rfl⟩ := h
  · show (arrayTokens .between rest').map (bareToken element :: .delimiter :: ·) =
      ((arrayTokens .between rest').map (.delimiter :: ·)).map (bareToken element :: ·)
    rw [Option.map_map]
    rfl
  · show (arrayTokens .between rest').map (bareToken element :: .levelEnd :: ·) =
      ((arrayTokens .between rest').map (.levelEnd :: ·)).map (bareToken element :: ·)
    rw [Option.map_map]
    rfl

/-- A character that stands in an element without quotes. -/
theorem not_needsQuote {unit : UInt16} (h : needsQuote unit = false) :
    unit ≠ 0x7b ∧ unit ≠ 0x7d ∧ unit ≠ 0x22 ∧ unit ≠ 0x2c ∧ unit ≠ 0x5c ∧ isArraySpace unit = false := by
  simp only [needsQuote, isArraySpace, decide_eq_false_iff_not, List.mem_cons, not_or] at h ⊢
  tauto

theorem arrayTokens_bare {units : Text} (h : ∀ unit ∈ units, needsQuote unit = false) (element : Text)
    {rest : Text} (hrest : Closes rest) : arrayTokens (.bare element) (units ++ rest) =
      (arrayTokens .between rest).map (bareToken (element ++ units) :: ·) := by
  induction units generalizing element with
  | nil => rw [List.nil_append, List.append_nil, arrayTokens_closes hrest]
  | cons unit units ih =>
    obtain ⟨hopen, hclose, hquote, hcomma, hslash, -⟩ := not_needsQuote (h unit List.mem_cons_self)
    have hplain : ¬ (unit = 0x7b ∨ unit = 0x22 ∨ unit = 0x5c) := by tauto
    rw [List.cons_append, arrayTokens, if_neg hcomma, if_neg hclose, if_neg hplain,
      ih fun unit' hin => h unit' (List.mem_cons_of_mem _ hin)]
    rw [List.append_assoc]
    rfl

/-- An element without quotes, from its first character. -/
theorem arrayTokens_plain {units rest : Text} (hne : units ≠ [])
    (h : ∀ unit ∈ units, needsQuote unit = false) (hrest : Closes rest) :
    arrayTokens .between (units ++ rest) =
      (arrayTokens .between rest).map
        ((if isNullWord units then .elementNull else .element units) :: ·) := by
  obtain ⟨unit, units, rfl⟩ := List.exists_cons_of_ne_nil hne
  obtain ⟨hopen, hclose, hquote, hcomma, hslash, hspace⟩ := not_needsQuote (h unit List.mem_cons_self)
  have htoken : bareToken (unit :: units) =
      if isNullWord (unit :: units) then .elementNull else .element (unit :: units) := by
    have htrim : (unit :: units).rdropWhile isArraySpace = unit :: units := by
      rw [List.rdropWhile_eq_self_iff]
      intro hcons
      rw [(not_needsQuote (h _ (List.getLast_mem hcons))).2.2.2.2.2]
      exact Bool.false_ne_true
    rw [bareToken, htrim]
  rw [List.cons_append, arrayTokens, if_neg (by rw [hspace]; exact Bool.false_ne_true), if_neg hopen,
    if_neg hclose, if_neg hcomma, if_neg hquote, if_neg hslash,
    arrayTokens_bare (fun unit' hin => h unit' (List.mem_cons_of_mem _ hin)) [unit] hrest]
  show _ = (arrayTokens .between rest).map (_ :: ·)
  rw [← htoken]
  rfl

theorem arrayTokens_quoted (value element rest : Text) :
    arrayTokens (.quoted element) (value.flatMap escapeElementUnit ++ 0x22 :: rest) =
      (arrayTokens .between rest).map (.element (element ++ value) :: ·) := by
  induction value generalizing element with
  | nil =>
    rw [List.append_nil]
    rfl
  | cons unit value ih =>
    rw [List.flatMap_cons, List.append_assoc, escapeElementUnit]
    split
    · show arrayTokens (.quoted (element ++ [unit]))
        (value.flatMap escapeElementUnit ++ 0x22 :: rest) = _
      rw [ih, List.append_assoc]
      rfl
    · rename_i hplain
      rw [not_or] at hplain
      rw [List.singleton_append, arrayTokens, if_neg hplain.1, if_neg hplain.2, ih, List.append_assoc]
      rfl

/-- An element is read, up to what ends it. -/
theorem arrayTokens_element (element : Text) {rest : Text} (hrest : Closes rest) :
    arrayTokens .between (quoteArrayElement element ++ rest) =
      (arrayTokens .between rest).map (.element element :: ·) := by
  rw [quoteArrayElement]
  split
  · rw [List.cons_append, List.append_assoc]
    exact arrayTokens_quoted element [] rest
  · rename_i hplain
    push Not at hplain
    obtain ⟨hne, hnull, hany⟩ := hplain
    rw [arrayTokens_plain hne (fun unit hin => ?_) hrest, if_neg hnull]
    exact Bool.eq_false_iff.mpr fun hmark => hany (List.any_eq_true.mpr ⟨unit, hin, hmark⟩)

theorem arrayTokens_null {rest : Text} (hrest : Closes rest) :
    arrayTokens .between (text "NULL" ++ rest) = (arrayTokens .between rest).map (.elementNull :: ·) := by
  have hunits : text "NULL" = [0x4e, 0x55, 0x4c, 0x4c] := by decide
  have hplain : ∀ unit ∈ text "NULL", needsQuote unit = false := by
    rw [hunits]
    simp [needsQuote]
  rw [arrayTokens_plain (by rw [hunits]; exact List.cons_ne_nil _ _) hplain hrest, if_pos (by decide)]

/-! ### Trees -/

theorem closes_comma (rest : Text) : Closes (0x2c :: rest) := ⟨rest, .inl rfl⟩

theorem closes_brace (rest : Text) : Closes (0x7d :: rest) := ⟨rest, .inr rfl⟩

theorem text_comma : text "," = [0x2c] := by decide

theorem node_literal (items : List ArrayTree) (rest : Text) :
    (ArrayTree.node items).literal ++ rest =
      0x7b :: ((text ",").intercalate (literals items) ++ 0x7d :: rest) := by
  rw [ArrayTree.literal, braced, List.cons_append, List.append_assoc]
  rfl

/-- Braces around items that are read. -/
theorem arrayTokens_node {items : List ArrayTree} {rest : Text}
    (h : arrayTokens .between ((text ",").intercalate (literals items) ++ 0x7d :: rest) =
      (arrayTokens .between (0x7d :: rest)).map (itemTokens items ++ ·)) :
    arrayTokens .between ((ArrayTree.node items).literal ++ rest) =
      (arrayTokens .between rest).map ((ArrayTree.node items).tokens ++ ·) := by
  rw [node_literal]
  show (arrayTokens .between _).map (ArrayToken.levelStart :: ·) = _
  rw [h]
  show (((arrayTokens .between rest).map (ArrayToken.levelEnd :: ·)).map _).map _ = _
  rw [Option.map_map, Option.map_map]
  congr 1
  funext tokens
  show .levelStart :: (itemTokens items ++ .levelEnd :: tokens) = _
  rw [ArrayTree.tokens, List.cons_append, List.append_assoc]
  rfl

mutual

/-- The tokens of the literal are the tokens of the tree. -/
theorem arrayTokens_literal : ∀ (tree : ArrayTree) {rest : Text}, Closes rest →
    arrayTokens .between (tree.literal ++ rest) = (arrayTokens .between rest).map (tree.tokens ++ ·)
  | .leaf none, _, hrest => arrayTokens_null hrest
  | .leaf (some element), _, hrest => arrayTokens_element element hrest
  | .node items, rest, _ => arrayTokens_node (arrayTokens_items items rest)

theorem arrayTokens_items : ∀ (items : List ArrayTree) (rest : Text),
    arrayTokens .between ((text ",").intercalate (literals items) ++ 0x7d :: rest) =
      (arrayTokens .between (0x7d :: rest)).map (itemTokens items ++ ·)
  | [], rest => by
    show _ = (arrayTokens .between (0x7d :: rest)).map id
    rw [Option.map_id]
    rfl
  | [item], rest => by
    rw [literals, literals, List.intercalate_singleton, arrayTokens_literal item (closes_brace rest)]
    rfl
  | item :: next :: items, rest => by
    have hcut : (text ",").intercalate (literals (item :: next :: items)) ++ 0x7d :: rest =
        item.literal ++
          (0x2c :: ((text ",").intercalate (literals (next :: items)) ++ 0x7d :: rest)) := by
      rw [literals, literals, List.intercalate_cons_cons, ← literals, List.append_assoc,
        List.append_assoc, text_comma]
      rfl
    rw [hcut, arrayTokens_literal item (closes_comma _)]
    show ((arrayTokens .between _).map (ArrayToken.delimiter :: ·)).map _ = _
    rw [arrayTokens_items (next :: items) rest, Option.map_map, Option.map_map]
    congr 1
    funext tokens
    show item.tokens ++ .delimiter :: (itemTokens (next :: items) ++ tokens) = _
    rw [itemTokens, List.append_assoc]
    rfl

end

/-- What may come after items. -/
def expectedAfter (expected : Expected) : List ArrayTree → Expected
  | [] => expected
  | _ :: _ => .delimiterOrEnd

theorem expectedAfter_ne (items : List ArrayTree) : expectedAfter .itemOrEnd items ≠ .item := by
  cases items with
  | nil => exact (by decide : Expected.itemOrEnd ≠ .item)
  | cons => exact (by decide : Expected.delimiterOrEnd ≠ .item)

mutual

/-- The tokens of a tree add the tree to the items that are open. -/
theorem buildArray_tree : ∀ (tree : ArrayTree) (rest : List ArrayToken) (items : List ArrayTree)
    (outer : List (List ArrayTree)) {expected : Expected}, expected ≠ .delimiterOrEnd →
    buildArray (tree.tokens ++ rest) (items :: outer) expected =
      buildArray rest ((items ++ [tree]) :: outer) .delimiterOrEnd
  | .leaf none, rest, items, outer, expected, h => if_neg h
  | .leaf (some element), rest, items, outer, expected, h => if_neg h
  | .node children, rest, items, outer, expected, h => by
    rw [ArrayTree.tokens, List.cons_append, List.append_assoc, buildArray, if_neg h,
      buildArray_items children _ [] (items :: outer) (by decide : Expected.itemOrEnd ≠ .delimiterOrEnd)]
    exact if_neg (expectedAfter_ne children)

theorem buildArray_items : ∀ (items : List ArrayTree) (rest : List ArrayToken)
    (before : List ArrayTree) (outer : List (List ArrayTree)) {expected : Expected},
    expected ≠ .delimiterOrEnd →
      buildArray (itemTokens items ++ rest) (before :: outer) expected =
        buildArray rest ((before ++ items) :: outer) (expectedAfter expected items)
  | [], rest, before, outer, expected, _ => by
    rw [List.append_nil]
    rfl
  | [item], rest, before, outer, expected, h => buildArray_tree item rest before outer h
  | item :: next :: items, rest, before, outer, expected, h => by
    rw [itemTokens, List.append_assoc, buildArray_tree item _ before outer h]
    show buildArray (itemTokens (next :: items) ++ rest) ((before ++ [item]) :: outer) .item = _
    rw [buildArray_items (next :: items) rest (before ++ [item]) outer
      (by decide : Expected.item ≠ .delimiterOrEnd), List.append_assoc]
    rfl

end

end Copy
