/-
Reading the text of a JSON value.

The reader takes text without white space, as `JSON.stringify` writes it.  A number stands as its
digits, and its text ends where no character of a number follows.
-/
import Pgxsinkit.Lib.JsonText

namespace Json

/-! ### Numbers -/

/-- A character of a number. -/
def isNumeric (unit : UInt16) : Bool :=
  (0x30 ≤ unit && unit ≤ 0x39) || unit ∈ [0x2b, 0x2d, 0x2e, 0x45, 0x65]

def isNumber (digits : Text) : Bool := digits ≠ [] && digits.all isNumeric

mutual

/-- The numbers of a value are texts of numbers. -/
def numeric : Json → Bool
  | null | bool _ | str _ => true
  | num digits => isNumber digits
  | arr items => numericItems items
  | obj fields => numericFields fields

def numericItems : List Json → Bool
  | [] => true
  | item :: rest => item.numeric && numericItems rest

def numericFields : List (Text × Json) → Bool
  | [] => true
  | (_, value) :: rest => value.numeric && numericFields rest

end

/-! ### The reader -/

mutual

/-- A value, and what follows it. -/
def readValue : ℕ → Text → Option (Json × Text)
  | 0, _ | _, [] => none
  | n + 1, unit :: rest =>
    if unit = 0x22 then (unquote rest).map fun p => (str p.1, p.2)
    else if unit = 0x5b then
      if rest.head? = some 0x5d then some (arr [], rest.tail)
      else (readItems n rest).map fun p => (arr p.1, p.2)
    else if unit = 0x7b then
      if rest.head? = some 0x7d then some (obj [], rest.tail)
      else (readFields n rest).map fun p => (obj p.1, p.2)
    else if isNumeric unit then
      some (num ((unit :: rest).takeWhile isNumeric), (unit :: rest).dropWhile isNumeric)
    else if text "null" <+: unit :: rest then some (null, rest.drop 3)
    else if text "true" <+: unit :: rest then some (bool true, rest.drop 3)
    else if text "false" <+: unit :: rest then some (bool false, rest.drop 4)
    else none

/-- Items up to the closing bracket. -/
def readItems : ℕ → Text → Option (List Json × Text)
  | 0, _ => none
  | n + 1, units =>
    match readValue n units with
    | some (item, 0x2c :: rest) => (readItems n rest).map fun p => (item :: p.1, p.2)
    | some (item, 0x5d :: rest) => some ([item], rest)
    | _ => none

/-- Fields up to the closing brace. -/
def readFields : ℕ → Text → Option (List (Text × Json) × Text)
  | n + 1, 0x22 :: units =>
    match unquote units with
    | some (key, 0x3a :: rest) =>
      match readValue n rest with
      | some (value, 0x2c :: rest) => (readFields n rest).map fun p => ((key, value) :: p.1, p.2)
      | some (value, 0x7d :: rest) => some ([(key, value)], rest)
      | _ => none
    | _ => none
  | _, _ => none

end

/-- A whole text. -/
def read (units : Text) : Option Json :=
  match readValue (2 * units.length) units with
  | some (value, []) => some value
  | _ => none

/-! ### What is printed is read -/

/-- A text that does not go on with a number. -/
def Ends (rest : Text) : Prop := ∀ unit ∈ rest.head?, isNumeric unit = false

theorem ends_nil : Ends [] := nofun

theorem ends_cons {unit : UInt16} (h : isNumeric unit = false) (rest : Text) : Ends (unit :: rest) := by
  intro unit' hunit
  obtain rfl := Option.some.inj hunit
  exact h

theorem takeWhile_number {digits rest : Text} (h : digits.all isNumeric = true) (hrest : Ends rest) :
    (digits ++ rest).takeWhile isNumeric = digits ∧
      (digits ++ rest).dropWhile isNumeric = rest := by
  have hall := List.all_eq_true.mp h
  have hstop : rest.takeWhile isNumeric = [] ∧ rest.dropWhile isNumeric = rest := by
    cases rest with
    | nil => exact ⟨rfl, rfl⟩
    | cons unit rest =>
      have hunit := hrest unit rfl
      exact ⟨List.takeWhile_cons_of_neg (by simp [hunit]), List.dropWhile_cons_of_neg (by simp [hunit])⟩
  constructor
  · rw [List.takeWhile_append_of_pos hall, hstop.1, List.append_nil]
  · rw [List.dropWhile_append_of_pos hall, hstop.2]

/-- The text of a value opens with a character that closes nothing. -/
theorem print_head {value : Json} (h : value.numeric = true) :
    ∃ unit rest, value.print = unit :: rest ∧ unit ≠ 0x5d := by
  cases value with
  | null => exact ⟨_, _, rfl, by decide⟩
  | bool value => cases value <;> exact ⟨_, _, rfl, by decide⟩
  | num digits =>
    rw [numeric, isNumber, Bool.and_eq_true, decide_eq_true_eq] at h
    obtain ⟨unit, rest, rfl⟩ := List.exists_cons_of_ne_nil h.1
    refine ⟨unit, rest, rfl, ?_⟩
    rintro rfl
    exact absurd (List.all_eq_true.mp h.2 _ List.mem_cons_self) (by decide)
  | str units =>
    rw [print, ← List.append_nil (quote units), quote_append]
    exact ⟨_, _, rfl, by decide⟩
  | arr items =>
    obtain ⟨rest, hrest⟩ := @print_cons (arr []) rfl
    exact ⟨_, _, rfl, by decide⟩
  | obj fields => exact ⟨_, _, rfl, by decide⟩

theorem arr_append (items : List Json) (rest : Text) :
    (arr items).print ++ rest = 0x5b :: (printItems items ++ 0x5d :: rest) := by
  rw [print, text_closeBracket, List.append_assoc, List.append_assoc]
  rfl

theorem obj_append (fields : List (Text × Json)) (rest : Text) :
    (obj fields).print ++ rest = 0x7b :: (printFields fields ++ 0x7d :: rest) := by
  rw [print, text_closeBrace, List.append_assoc, List.append_assoc]
  rfl

theorem ends_moreItems (items : List Json) (rest : Text) : Ends (moreItems items ++ 0x5d :: rest) := by
  cases items with
  | nil => exact ends_cons (by decide) rest
  | cons item items => exact ends_cons (by decide) _

theorem ends_moreFields (fields : List (Text × Json)) (rest : Text) :
    Ends (moreFields fields ++ 0x7d :: rest) := by
  cases fields with
  | nil => exact ends_cons (by decide) rest
  | cons field fields => exact ends_cons (by decide) _

mutual

theorem readValue_print : ∀ {value : Json} {rest : Text} {n : ℕ}, value.numeric = true → Ends rest →
    2 * value.print.length ≤ n → readValue n (value.print ++ rest) = some (value, rest)
  | value, rest, 0, hnumeric, _, hn => by
    obtain ⟨_, _, hprint, -⟩ := print_head hnumeric
    rw [hprint, List.length_cons] at hn
    omega
  | null, rest, n + 1, _, _, _ => rfl
  | bool value, rest, n + 1, _, _, _ => by cases value <;> rfl
  | num digits, rest, n + 1, hnumeric, hrest, _ => by
    rw [numeric, isNumber, Bool.and_eq_true, decide_eq_true_eq] at hnumeric
    obtain ⟨hne, hall⟩ := hnumeric
    obtain ⟨htake, hdrop⟩ := takeWhile_number hall hrest
    obtain ⟨unit, digits, rfl⟩ := List.exists_cons_of_ne_nil hne
    have hunit := List.all_eq_true.mp hall unit List.mem_cons_self
    have hmark : ∀ mark : UInt16, isNumeric mark = false → unit ≠ mark := by
      rintro mark hmark rfl
      rw [hunit] at hmark
      cases hmark
    rw [List.cons_append] at htake hdrop
    rw [print, List.cons_append, readValue, if_neg (hmark _ (by decide)),
      if_neg (hmark _ (by decide)), if_neg (hmark _ (by decide)), if_pos hunit, htake, hdrop]
  | str units, rest, n + 1, _, _, _ => by
    rw [print, quote_append, readValue, if_pos rfl, unquote_quoteUnits]
    rfl
  | arr [], rest, n + 1, _, _, _ => rfl
  | arr (item :: items), rest, n + 1, hnumeric, _, hn => by
    have hlen := congrArg List.length (arr_append (item :: items) [])
    rw [List.append_nil, List.length_cons, List.length_append, List.length_singleton] at hlen
    have hread := @readItems_print item items rest n hnumeric (by omega)
    rw [arr_append, readValue, if_neg (by decide), if_pos rfl, hread, if_neg]
    · rfl
    · -- an item opens with something else than a bracket
      obtain ⟨unit, _, hprint, hunit⟩ := print_head (Bool.and_eq_true_iff.mp hnumeric).1
      rw [printItems_cons, hprint]
      exact fun h => hunit (Option.some.inj h)
  | obj [], rest, n + 1, _, _, _ => rfl
  | obj ((key, value) :: fields), rest, n + 1, hnumeric, _, hn => by
    have hlen := congrArg List.length (obj_append ((key, value) :: fields) [])
    rw [List.append_nil, List.length_cons, List.length_append, List.length_singleton] at hlen
    have hread := @readFields_print key value fields rest n hnumeric (by omega)
    rw [obj_append, readValue, if_neg (by decide), if_neg (by decide), if_pos rfl, hread, if_neg]
    · rfl
    · rw [printFields_cons, List.append_assoc, quote_append]
      exact (by decide : ¬ some (0x22 : UInt16) = some 0x7d)

theorem readItems_print : ∀ {item : Json} {items : List Json} {rest : Text} {n : ℕ},
    numericItems (item :: items) = true → 2 * (printItems (item :: items)).length + 1 ≤ n →
    readItems n (printItems (item :: items) ++ 0x5d :: rest) = some (item :: items, rest)
  | item, items, rest, 0, _, hn => by omega
  | item, items, rest, n + 1, hnumeric, hn => by
    obtain ⟨hitem, hitems⟩ := Bool.and_eq_true_iff.mp hnumeric
    rw [printItems_cons, List.length_append] at hn
    have hread := @readValue_print item (moreItems items ++ 0x5d :: rest) n hitem
      (ends_moreItems items rest) (by omega)
    rw [printItems_cons, List.append_assoc, readItems, hread]
    cases items with
    | nil => rfl
    | cons next items =>
      rw [moreItems, List.length_cons] at hn
      show (readItems n (printItems (next :: items) ++ 0x5d :: rest)).map _ = _
      rw [readItems_print hitems (by omega)]
      rfl

theorem readFields_print : ∀ {key : Text} {value : Json} {fields : List (Text × Json)} {rest : Text}
    {n : ℕ}, numericFields ((key, value) :: fields) = true →
    2 * (printFields ((key, value) :: fields)).length + 1 ≤ n →
    readFields n (printFields ((key, value) :: fields) ++ 0x7d :: rest) =
      some ((key, value) :: fields, rest)
  | key, value, fields, rest, 0, _, hn => by omega
  | key, value, fields, rest, n + 1, hnumeric, hn => by
    obtain ⟨hvalue, hfields⟩ := Bool.and_eq_true_iff.mp hnumeric
    rw [printFields_cons, List.length_append, List.length_cons, List.length_append] at hn
    have hread := @readValue_print value (moreFields fields ++ 0x7d :: rest) n hvalue
      (ends_moreFields fields rest) (by omega)
    rw [printFields_cons, List.append_assoc, quote_append, readFields, List.cons_append,
      List.append_assoc, unquote_quoteUnits]
    show (match readValue n (value.print ++ (moreFields fields ++ 0x7d :: rest)) with
      | some (value, 0x2c :: rest) =>
        (readFields n rest).map fun p : List (Text × Json) × Text => ((key, value) :: p.1, p.2)
      | some (value, 0x7d :: rest) => some ([(key, value)], rest)
      | _ => none) = some ((key, value) :: fields, rest)
    rw [hread]
    cases fields with
    | nil => rfl
    | cons next fields =>
      obtain ⟨key', value'⟩ := next
      rw [moreFields, List.length_cons] at hn
      show (readFields n (printFields ((key', value') :: fields) ++ 0x7d :: rest)).map _ = _
      rw [readFields_print hfields (by omega)]
      rfl

end

/-- Text that is printed is read back. -/
theorem read_print {value : Json} (h : value.numeric = true) : read value.print = some value := by
  have hread := @readValue_print value [] (2 * value.print.length) h ends_nil (le_refl _)
  rw [List.append_nil] at hread
  rw [read, hread]

end Json
