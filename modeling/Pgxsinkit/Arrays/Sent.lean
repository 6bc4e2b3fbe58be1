/-
Array texts that are sent.

The serializer puts every element that is not null in quotes.  `array_in` cuts its text into the tokens
of the tree, and reads the tree back unless it is too deep.
-/
import Pgxsinkit.Arrays.Parsed

namespace Arrays

open Copy

variable {α : Type} {typarray : ℕ}

/-! ### The text of the serializer -/

def sentElement : Option Text → Text
  | none => text "null"
  | some element => inQuotes element

/-- The text of a tree, as `arraySerializer` writes it. -/
def sentText (typarray : ℕ) (tree : ArrayTree) : Text := treeText (delimiterOf typarray) sentElement tree

/-- `serializer ? serializer(x) : toText(x)`, of a value that is no array. -/
def sentValue (textOf : α → Text) (serializer : Option (Nested α → Text)) (value : α) : Text :=
  match serializer with
  | some serializer => serializer (.leaf (some value))
  | none => textOf value

section

variable {textOf : α → Text} {serializer : Option (Nested α → Text)} {parser : Text → α}
  (hsent : ∀ element, sentValue textOf serializer (parser element) = element)

include hsent

theorem serializedElement_leaf (value : Option Text) :
    serializedElement textOf serializer (parsedTree parser (.leaf value)) = some (sentElement value) := by
  cases value with
  | none => rfl
  | some element =>
    have hvalue := hsent element
    cases serializer with
    | none =>
      show some (0x22 :: (arrayEscape (textOf (parser element)) ++ [0x22])) = _
      rw [show textOf (parser element) = element from hvalue]
      rfl
    | some serializer =>
      show some (0x22 :: (arrayEscape (serializer (.leaf (some (parser element)))) ++ [0x22])) = _
      rw [show serializer (.leaf (some (parser element))) = element from hvalue]
      rfl

theorem serializedElements_leaves {items : List ArrayTree} (h : ∀ item ∈ items, Level 0 item) :
    (parsedTrees parser items).mapM (serializedElement textOf serializer) =
      some (treeTexts (delimiterOf typarray) sentElement items) := by
  induction items with
  | nil => rfl
  | cons item items ih =>
    have hitem := h item List.mem_cons_self
    rw [parsedTrees, List.mapM_cons, ih fun other hin => h other (List.mem_cons_of_mem _ hin)]
    cases item with
    | leaf value =>
      rw [serializedElement_leaf hsent]
      rfl
    | node => exact absurd hitem id

omit hsent in
theorem serializedItems_eq {items : List ArrayTree}
    (h : ∀ item ∈ items, arraySerializer textOf serializer typarray (parsedTree parser item) =
      some (sentText typarray item)) :
    serializedItems textOf serializer typarray (parsedTrees parser items) =
      some (treeTexts (delimiterOf typarray) sentElement items) := by
  induction items with
  | nil => rfl
  | cons item items ih =>
    rw [parsedTrees, serializedItems, h item List.mem_cons_self,
      ih fun other hin => h other (List.mem_cons_of_mem _ hin)]
    rfl

/-- The serializer goes by the first element of each level, and the others are like it. -/
theorem arraySerializer_eq {depth : ℕ} {tree : ArrayTree} (h : Level (depth + 1) tree) :
    arraySerializer textOf serializer typarray (parsedTree parser tree) = some (sentText typarray tree) := by
  induction depth generalizing tree with
  | zero =>
    cases tree with
    | leaf => exact absurd h id
    | node items =>
      obtain ⟨hne, hitems⟩ := h
      have hall : (parsedTrees parser items).mapM (serializedElement textOf serializer) =
          some (treeTexts (delimiterOf typarray) sentElement items) := serializedElements_leaves hsent hitems
      cases items with
      | nil => exact absurd rfl hne
      | cons first rest =>
        cases first with
        | node => exact absurd (hitems _ List.mem_cons_self) id
        | leaf value =>
          have hfirst : ∃ value', parsedTree parser (.leaf value) = .leaf value' := by
            cases value with
            | none => exact ⟨none, rfl⟩
            | some element => exact ⟨some (parser element), rfl⟩
          obtain ⟨value', hvalue⟩ := hfirst
          rw [parsedTree, parsedTrees, hvalue, arraySerializer]
          rw [parsedTrees, hvalue] at hall
          rw [hall]
          rfl
  | succ depth ih =>
    cases tree with
    | leaf => exact absurd h id
    | node items =>
      obtain ⟨hne, hitems⟩ := h
      have hall := serializedItems_eq (fun item hin => ih (hitems item hin))
      cases items with
      | nil => exact absurd rfl hne
      | cons first rest =>
        cases first with
        | leaf => exact absurd (hitems _ List.mem_cons_self) id
        | node children =>
          rw [parsedTree, parsedTrees, parsedTree, arraySerializer]
          rw [parsedTrees, parsedTree] at hall
          rw [hall]
          rfl

end

/-! ### What `array_in` reads -/

/-- What ends an element without quotes. -/
def Ends (typarray : ℕ) (rest : Text) : Prop :=
  ∃ rest', rest = delimiterOf typarray :: rest' ∨ rest = 0x7d :: rest'

theorem arrayTokens_delimiter (rest : Text) :
    arrayTokens (delimiterOf typarray) .between (delimiterOf typarray :: rest) =
      (arrayTokens (delimiterOf typarray) .between rest).map (.delimiter :: ·) := by
  obtain ⟨-, -, hopen, hclose, hspace⟩ := delimiterOf_ne typarray
  rw [arrayTokens, if_neg (by rw [hspace]; exact Bool.false_ne_true), if_neg hopen, if_neg hclose, if_pos rfl]

theorem arrayTokens_close (delimiter : UInt16) (rest : Text) :
    arrayTokens delimiter .between (0x7d :: rest) =
      (arrayTokens delimiter .between rest).map (.levelEnd :: ·) := by
  rw [arrayTokens, if_neg (by decide), if_neg (by decide), if_pos rfl]

theorem arrayTokens_ends {element rest : Text} (h : Ends typarray rest) :
    arrayTokens (delimiterOf typarray) (.bare element) rest =
      (arrayTokens (delimiterOf typarray) .between rest).map (bareToken element :: ·) := by
  obtain ⟨rest', rfl | rfl⟩ := h
  · rw [arrayTokens_delimiter, arrayTokens, if_pos rfl, Option.map_map]
    rfl
  · have hclose : (0x7d : UInt16) ≠ delimiterOf typarray := (delimiterOf_ne typarray).2.2.2.1.symm
    rw [arrayTokens_close, arrayTokens, if_neg hclose, if_pos rfl, Option.map_map]
    rfl

/-- The word for a null. -/
theorem arrayTokens_null {rest : Text} (h : Ends typarray rest) :
    arrayTokens (delimiterOf typarray) .between (text "null" ++ rest) =
      (arrayTokens (delimiterOf typarray) .between rest).map (.elementNull :: ·) := by
  have hword : text "null" = [0x6e, 0x75, 0x6c, 0x6c] := by decide
  have hends : arrayTokens (delimiterOf typarray) (.bare (text "null")) rest = _ := arrayTokens_ends h
  have htoken : bareToken (text "null") = .elementNull := by decide
  rw [htoken] at hends
  rw [← hends, hword]
  -- four characters, none of them a mark
  rcases delimiterOf_cases typarray with hd | hd <;> rw [hd] <;> rfl

theorem arrayTokens_quoted (delimiter : UInt16) (value element rest : Text) :
    arrayTokens delimiter (.quoted element) (value.flatMap escapeElementUnit ++ 0x22 :: rest) =
      (arrayTokens delimiter .between rest).map (.element (element ++ value) :: ·) := by
  induction value generalizing element with
  | nil =>
    rw [List.append_nil]
    rfl
  | cons unit value ih =>
    rw [List.flatMap_cons, List.append_assoc, escapeElementUnit]
    split
    · show arrayTokens delimiter (.quoted (element ++ [unit]))
        (value.flatMap escapeElementUnit ++ 0x22 :: rest) = _
      rw [ih, List.append_assoc]
      rfl
    · rename_i hplain
      rw [not_or] at hplain
      rw [List.singleton_append, arrayTokens, if_neg hplain.1, if_neg hplain.2, ih, List.append_assoc]
      rfl

theorem arrayTokens_leaf (value : Option Text) {rest : Text} (h : Ends typarray rest) :
    arrayTokens (delimiterOf typarray) .between (sentElement value ++ rest) =
      (arrayTokens (delimiterOf typarray) .between rest).map ((ArrayTree.leaf value).tokens ++ ·) := by
  cases value with
  | none => exact arrayTokens_null h
  | some element =>
    have hquote : (0x22 : UInt16) ≠ delimiterOf typarray := (delimiterOf_ne typarray).1.symm
    rw [sentElement, inQuotes, List.cons_append, List.append_assoc, arrayTokens, if_neg (by decide),
      if_neg (by decide), if_neg (by decide), if_neg hquote, if_pos rfl]
    exact arrayTokens_quoted _ element [] rest

/-- Braces around items that are read. -/
theorem arrayTokens_node {items : List ArrayTree} {rest : Text}
    (h : arrayTokens (delimiterOf typarray) .between
        ([delimiterOf typarray].intercalate (items.map (sentText typarray)) ++ 0x7d :: rest) =
      (arrayTokens (delimiterOf typarray) .between (0x7d :: rest)).map (itemTokens items ++ ·)) :
    arrayTokens (delimiterOf typarray) .between (sentText typarray (.node items) ++ rest) =
      (arrayTokens (delimiterOf typarray) .between rest).map ((ArrayTree.node items).tokens ++ ·) := by
  have hbody : sentText typarray (.node items) ++ rest = 0x7b ::
      ([delimiterOf typarray].intercalate (items.map (sentText typarray)) ++ 0x7d :: rest) := by
    rw [sentText, treeText, treeTexts_eq, inBraces, List.cons_append, List.append_assoc]
    rfl
  rw [hbody, arrayTokens, if_neg (by decide), if_pos rfl, h, arrayTokens_close, Option.map_map, Option.map_map]
  congr 1
  funext tokens
  show .levelStart :: (itemTokens items ++ .levelEnd :: tokens) = _
  rw [ArrayTree.tokens, List.cons_append, List.append_assoc]
  rfl

mutual

/-- The tokens of the text are the tokens of the tree. -/
theorem arrayTokens_sent : ∀ (tree : ArrayTree) {rest : Text}, Ends typarray rest →
    arrayTokens (delimiterOf typarray) .between (sentText typarray tree ++ rest) =
      (arrayTokens (delimiterOf typarray) .between rest).map (tree.tokens ++ ·)
  | .leaf value, _, hrest => arrayTokens_leaf value hrest
  | .node items, rest, _ => arrayTokens_node (arrayTokens_items items rest)

theorem arrayTokens_items : ∀ (items : List ArrayTree) (rest : Text),
    arrayTokens (delimiterOf typarray) .between
        ([delimiterOf typarray].intercalate (items.map (sentText typarray)) ++ 0x7d :: rest) =
      (arrayTokens (delimiterOf typarray) .between (0x7d :: rest)).map (itemTokens items ++ ·)
  | [], rest => by
    show _ = (arrayTokens _ .between (0x7d :: rest)).map id
    rw [Option.map_id]
    rfl
  | [item], rest => by
    rw [List.map_cons, List.map_nil, List.intercalate_singleton, arrayTokens_sent item ⟨rest, .inr rfl⟩]
    rfl
  | item :: next :: items, rest => by
    have hcut : [delimiterOf typarray].intercalate ((item :: next :: items).map (sentText typarray)) ++
        0x7d :: rest = sentText typarray item ++ (delimiterOf typarray ::
          ([delimiterOf typarray].intercalate ((next :: items).map (sentText typarray)) ++ 0x7d :: rest)) := by
      rw [List.map_cons, List.map_cons, List.intercalate_cons_cons, List.append_assoc, List.append_assoc]
      rfl
    rw [hcut, arrayTokens_sent item ⟨_, .inl rfl⟩, arrayTokens_delimiter, arrayTokens_items (next :: items) rest,
      Option.map_map, Option.map_map]
    congr 1
    funext tokens
    show item.tokens ++ .delimiter :: (itemTokens (next :: items) ++ tokens) = _
    rw [itemTokens, List.append_assoc]
    rfl

end

/-- `array_in` reads the tree, when an array may be so deep. -/
theorem arrayIn_sent (items : List ArrayTree) :
    arrayIn typarray (sentText typarray (.node items)) =
      if (ArrayTree.node items).isArray then some (.node items) else none := by
  have htokens : arrayTokens (delimiterOf typarray) .between (sentText typarray (.node items) ++ []) = _ :=
    arrayTokens_node (arrayTokens_items items [])
  rw [List.append_nil] at htokens
  have hbuild : buildArray ((ArrayTree.node items).tokens ++ []) [] .itemOrEnd = some (.node items) := by
    rw [List.append_nil, ArrayTree.tokens, buildArray, if_neg (by decide),
      buildArray_items items _ [] [] (by decide : Expected.itemOrEnd ≠ .delimiterOrEnd)]
    exact (if_neg (expectedAfter_ne items)).trans (if_pos rfl)
  rw [arrayIn, htokens]
  show (buildArray ((ArrayTree.node items).tokens ++ []) [] .itemOrEnd).bind _ = _
  rw [hbuild]
  rfl

/-! ### Sent and read back -/

/-- An array of the database is read back as it was, at every depth; the text that is sent is read by
`array_in` as the array it was, unless the array has more than six dimensions, and then it is refused. -/
theorem arrays_read_back (typarray : ℕ) (lowers : List ℤ) (textOf : α → Text)
    (serializer : Option (Nested α → Text)) (parser : Text → α)
    (hsent : ∀ element, sentValue textOf serializer (parser element) = element) {tree : ArrayTree}
    {dims : List ℕ} (hdims : tree.dims = some dims) (hne : dims ≠ []) (hpos : 0 ∉ dims) :
    arrayParser (arrayOut typarray lowers tree) parser typarray = some (parsedTree parser tree) ∧
      ∃ literal, arraySerializer textOf serializer typarray (parsedTree parser tree) = some literal ∧
        arrayIn typarray literal = (if dims.length ≤ MAXDIM then some tree else none) ∧
        ∀ stored, arrayIn typarray literal = some stored →
          arrayParser (arrayOut typarray lowers stored) parser typarray = some (parsedTree parser tree) := by
  have hlevel := level_of_dims hdims hpos
  have hparsed : arrayParser (arrayOut typarray lowers tree) parser typarray = some (parsedTree parser tree) :=
    arrayParser_arrayOut lowers hdims hne hpos
  obtain ⟨dim, dims, rfl⟩ := List.exists_cons_of_ne_nil hne
  cases tree with
  | leaf => exact absurd hlevel id
  | node items =>
    have hread : arrayIn typarray (sentText typarray (.node items)) =
        if (dim :: dims).length ≤ MAXDIM then some (.node items) else none := by
      rw [arrayIn_sent, ArrayTree.isArray, hdims]
      simp
    refine ⟨hparsed, _, arraySerializer_eq hsent hlevel, hread, ?_⟩
    intro stored hstored
    rw [hread] at hstored
    split at hstored
    · obtain rfl := Option.some.inj hstored
      exact hparsed
    · cases hstored

/-- `[0:1]={"a,b",NULL}` is read, and `{"a,b",null}` is stored. -/
theorem arrays_read_back_pair :
    (ArrayTree.node [.leaf (some (text "a,b")), .leaf none]).dims = some [2] ∧
      arrayParser (arrayOut 1009 [0] (.node [.leaf (some (text "a,b")), .leaf none])) id 1009 =
        some (.node [.leaf (some (text "a,b")), .leaf none]) ∧
      ∃ literal, arraySerializer id none 1009 (.node [.leaf (some (text "a,b")), .leaf none]) = some literal ∧
        arrayIn 1009 literal = some (.node [.leaf (some (text "a,b")), .leaf none]) := by
  have hdims : (ArrayTree.node [.leaf (some (text "a,b")), .leaf none]).dims = some [2] := rfl
  obtain ⟨hparsed, literal, hliteral, hread, -⟩ :=
    arrays_read_back 1009 [0] id none id (fun _ => rfl) hdims (by decide) (by decide)
  exact ⟨rfl, hparsed, literal, hliteral, hread⟩

/-- An array of seven dimensions. -/
def sevenDims : ArrayTree :=
  .node [.node [.node [.node [.node [.node [.node [.leaf (some (text "a"))]]]]]]]

/-- `array_in` refuses it, though the parser would read it. -/
theorem arrayIn_refuses_sevenDims :
    ¬ ∀ (typarray : ℕ) (tree : ArrayTree) (dims : List ℕ), tree.dims = some dims → dims ≠ [] → 0 ∉ dims →
      ∃ literal, arraySerializer id none typarray (parsedTree id tree) = some literal ∧
        arrayIn typarray literal = some tree := by
  intro h
  obtain ⟨literal, hliteral, hread⟩ := h 1009 sevenDims [1, 1, 1, 1, 1, 1, 1] rfl (by decide) (by decide)
  have hsent : arraySerializer id none 1009 (parsedTree id sevenDims) = some (sentText 1009 sevenDims) := rfl
  have hnone : arrayIn 1009 (sentText 1009 sevenDims) = none := rfl
  rw [hsent] at hliteral
  obtain rfl := Option.some.inj hliteral
  rw [hnone] at hread
  cases hread

end Arrays
