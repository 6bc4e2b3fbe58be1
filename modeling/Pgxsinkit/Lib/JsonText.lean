/-
`JSON.stringify` tells values apart.

A reader of quoted text undoes `quote`, and the text of a value says where the value ends; so two
values without numbers that have one text are equal.  A number stands as its digits, whose end only
the next character shows, and is left out.
-/
import Pgxsinkit.Lib.Json

namespace Json

/-! ### Quoted text -/

def unhexDigit (unit : UInt16) : ℕ :=
  if unit.toNat < 0x3a then unit.toNat - 0x30 else unit.toNat - 0x57

/-- The code unit a two-character escape stands for. -/
def unescape (unit : UInt16) : UInt16 :=
  if unit = 0x62 then 0x08 else if unit = 0x74 then 0x09 else if unit = 0x6e then 0x0a
  else if unit = 0x66 then 0x0c else if unit = 0x72 then 0x0d else unit

/-- The string before the closing quote, and what follows it. -/
def unquote : Text → Option (Text × Text)
  | [] => none
  | [unit] => if unit = 0x22 then some ([], []) else none
  | unit :: next :: rest =>
    if unit = 0x22 then some ([], next :: rest)
    else if unit ≠ 0x5c then (unquote (next :: rest)).map fun p => (unit :: p.1, p.2)
    else if next ≠ 0x75 then (unquote rest).map fun p => (unescape next :: p.1, p.2)
    else
      match rest with
      | a :: b :: c :: d :: rest =>
        (unquote rest).map fun p => (UInt16.ofNat (unhexDigit a * 0x1000 + unhexDigit b * 0x100 +
          unhexDigit c * 0x10 + unhexDigit d) :: p.1, p.2)
      | _ => none

theorem unquote_cons (unit next : UInt16) (rest : Text) : unquote (unit :: next :: rest) =
    if unit = 0x22 then some ([], next :: rest)
    else if unit ≠ 0x5c then (unquote (next :: rest)).map fun p => (unit :: p.1, p.2)
    else if next ≠ 0x75 then (unquote rest).map fun p => (unescape next :: p.1, p.2)
    else
      match rest with
      | a :: b :: c :: d :: rest =>
        (unquote rest).map fun p => (UInt16.ofNat (unhexDigit a * 0x1000 + unhexDigit b * 0x100 +
          unhexDigit c * 0x10 + unhexDigit d) :: p.1, p.2)
      | _ => none := by
  rw [unquote.eq_def]
  rfl

theorem unhexDigit_hexDigit : ∀ n < 16, unhexDigit (hexDigit n) = n := by decide

theorem unquote_plain {unit : UInt16} (hquote : unit ≠ 0x22) (hslash : unit ≠ 0x5c) {rest : Text}
    (hrest : rest ≠ []) : unquote (unit :: rest) = (unquote rest).map fun p => (unit :: p.1, p.2) := by
  obtain ⟨next, rest, rfl⟩ := List.exists_cons_of_ne_nil hrest
  rw [unquote_cons, if_neg hquote, if_pos hslash]

theorem unquote_escape (unit : UInt16) (rest : Text) :
    unquote (escape unit ++ rest) = (unquote rest).map fun p => (unit :: p.1, p.2) := by
  have htext : escape unit ++ rest = 0x5c :: 0x75 :: hexDigit (unit.toNat / 0x1000) ::
      hexDigit (unit.toNat / 0x100 % 0x10) :: hexDigit (unit.toNat / 0x10 % 0x10) ::
      hexDigit (unit.toNat % 0x10) :: rest := rfl
  have hlt : unit.toNat < 65536 := unit.toNat_lt
  have hvalue : unit.toNat / 0x1000 * 0x1000 + unit.toNat / 0x100 % 0x10 * 0x100 +
      unit.toNat / 0x10 % 0x10 * 0x10 + unit.toNat % 0x10 = unit.toNat := by omega
  rw [htext, unquote_cons, if_neg (by decide), if_neg (by decide), if_neg (by decide)]
  dsimp only
  rw [unhexDigit_hexDigit _ (by omega), unhexDigit_hexDigit _ (by omega),
    unhexDigit_hexDigit _ (by omega), unhexDigit_hexDigit _ (by omega), hvalue,
    UInt16.ofNat_toNat]

theorem unquote_quoteUnit (unit : UInt16) {rest : Text} (hrest : rest ≠ []) :
    unquote (quoteUnit unit ++ rest) = (unquote rest).map fun p => (unit :: p.1, p.2) := by
  have hshort : ∀ {c : UInt16}, c ≠ 0x75 →
      unquote (0x5c :: c :: rest) = (unquote rest).map fun p => (unescape c :: p.1, p.2) := by
    intro c hc
    rw [unquote_cons, if_neg (by decide), if_neg (by decide), if_pos hc]
  unfold quoteUnit
  split
  case isTrue h => exact h ▸ hshort (c := 0x62) (by decide)
  split
  case isTrue h => exact h ▸ hshort (c := 0x74) (by decide)
  split
  case isTrue h => exact h ▸ hshort (c := 0x6e) (by decide)
  split
  case isTrue h => exact h ▸ hshort (c := 0x66) (by decide)
  split
  case isTrue h => exact h ▸ hshort (c := 0x72) (by decide)
  split
  case isTrue h => exact h ▸ hshort (c := 0x22) (by decide)
  split
  case isTrue h => exact h ▸ hshort (c := 0x5c) (by decide)
  case isFalse hquote hslash =>
    split
    · exact unquote_escape unit rest
    · exact unquote_plain hquote hslash hrest

theorem unquote_quoteUnits (units rest : Text) :
    unquote (quoteUnits units ++ 0x22 :: rest) = some (units, rest) := by
  have hclose : ∀ units : Text, quoteUnits units ++ 0x22 :: rest ≠ [] := by simp
  have hstop : unquote (0x22 :: rest) = some ([], rest) := by
    cases rest with
    | nil => rfl
    | cons unit rest => rw [unquote_cons, if_pos rfl]
  fun_induction quoteUnits units with
  | case1 => exact hstop
  | case2 unit => rw [unquote_quoteUnit unit (by simp), hstop]; rfl
  | case3 high low units hpair ih =>
    -- neither half of a pair is a quote or a backslash
    have hplain : ∀ unit : UInt16, (Unicode.isHigh unit || Unicode.isLow unit) = true →
        unit ≠ 0x22 ∧ unit ≠ 0x5c := by
      intro unit hunit
      constructor
      · rintro rfl
        exact absurd hunit (by decide)
      · rintro rfl
        exact absurd hunit (by decide)
    obtain ⟨hhigh, hlow⟩ := Bool.and_eq_true_iff.1 hpair
    obtain ⟨h1, h2⟩ := hplain high (by simp [hhigh])
    obtain ⟨h3, h4⟩ := hplain low (by simp [hlow])
    rw [List.cons_append, List.cons_append, unquote_plain h1 h2 (by simp),
      unquote_plain h3 h4 (hclose units), ih]
    rfl
  | case4 high low units hpair ih =>
    rw [List.append_assoc, unquote_quoteUnit high (hclose _), ih]
    rfl

theorem quote_append (units rest : Text) :
    quote units ++ rest = 0x22 :: (quoteUnits units ++ 0x22 :: rest) := by
  have hmark : text "\"" = [0x22] := by decide
  rw [quote, hmark, List.append_assoc, List.append_assoc]
  rfl

theorem quote_append_inj {units units' rest rest' : Text}
    (h : quote units ++ rest = quote units' ++ rest') : units = units' ∧ rest = rest' := by
  rw [quote_append, quote_append] at h
  have hread := congrArg unquote (List.cons.inj h).2
  rw [unquote_quoteUnits, unquote_quoteUnits] at hread
  exact Prod.mk.inj (Option.some.inj hread)

/-! ### Values -/

mutual

/-- No number in the value. -/
def numberFree : Json → Bool
  | null | bool _ | str _ => true
  | num _ => false
  | arr items => numberFreeItems items
  | obj fields => numberFreeFields fields

def numberFreeItems : List Json → Bool
  | [] => true
  | item :: rest => item.numberFree && numberFreeItems rest

def numberFreeFields : List (Text × Json) → Bool
  | [] => true
  | (_, value) :: rest => value.numberFree && numberFreeFields rest

end

/-- The first character of a value's text. -/
def opening : Json → UInt16
  | null => 0x6e
  | bool value => if value then 0x74 else 0x66
  | num digits => digits.headD 0
  | str _ => 0x22
  | arr _ => 0x5b
  | obj _ => 0x7b

theorem print_cons {value : Json} (h : value.numberFree = true) :
    ∃ rest, value.print = value.opening :: rest := by
  cases value with
  | null => exact ⟨text "ull", by decide⟩
  | bool value =>
    cases value with
    | false => exact ⟨text "alse", by decide⟩
    | true => exact ⟨text "rue", by decide⟩
  | num digits => cases h
  | str units =>
    have hmark : text "\"" = [0x22] := by decide
    exact ⟨quoteUnits units ++ text "\"", by rw [print, quote, hmark]; rfl⟩
  | arr items =>
    have hmark : text "[" = [0x5b] := by decide
    exact ⟨printItems items ++ text "]", by rw [print, hmark]; rfl⟩
  | obj fields =>
    have hmark : text "\x7b" = [0x7b] := by decide
    exact ⟨printFields fields ++ text "\x7d", by rw [print, hmark]; rfl⟩

theorem opening_ne_close {value : Json} (h : value.numberFree = true) : value.opening ≠ 0x5d := by
  cases value with
  | null => decide
  | bool value => cases value <;> decide
  | num digits => cases h
  | str units => exact (by decide : (0x22 : UInt16) ≠ 0x5d)
  | arr items => exact (by decide : (0x5b : UInt16) ≠ 0x5d)
  | obj fields => exact (by decide : (0x7b : UInt16) ≠ 0x5d)

theorem text_comma : text "," = [0x2c] := by decide

theorem text_colon : text ":" = [0x3a] := by decide

theorem text_closeBracket : text "]" = [0x5d] := by decide

theorem text_closeBrace : text "\x7d" = [0x7d] := by decide

/-- The constructor of a value. -/
def kind : Json → ℕ
  | null => 0
  | bool _ => 1
  | num _ => 2
  | str _ => 3
  | arr _ => 4
  | obj _ => 5

theorem kind_of_text {a b : Json} {rest rest' : Text} (ha : a.numberFree = true)
    (hb : b.numberFree = true) (h : a.print ++ rest = b.print ++ rest') :
    a.opening = b.opening ∧ a.kind = b.kind := by
  have hopen : a.opening = b.opening := by
    obtain ⟨_, hpa⟩ := print_cons ha
    obtain ⟨_, hpb⟩ := print_cons hb
    rw [hpa, hpb] at h
    exact (List.cons.inj h).1
  have hkind : ∀ {c : Json}, c.numberFree = true → c.kind =
      if c.opening = 0x6e then 0 else if c.opening = 0x22 then 3 else if c.opening = 0x5b then 4
      else if c.opening = 0x7b then 5 else 1 := by
    intro c hc
    cases c with
    | bool value => cases value <;> rfl
    | num digits => cases hc
    | _ => rfl
  exact ⟨hopen, by rw [hkind ha, hkind hb, hopen]⟩

/-- What follows the first item up to the end of the list. -/
def moreItems : List Json → Text
  | [] => []
  | item :: rest => 0x2c :: printItems (item :: rest)

theorem printItems_cons (item : Json) (rest : List Json) :
    printItems (item :: rest) = item.print ++ moreItems rest := by
  cases rest with
  | nil => rw [printItems, moreItems, List.append_nil]
  | cons next rest => rw [printItems, moreItems, text_comma, List.append_assoc]; rfl

def moreFields : List (Text × Json) → Text
  | [] => []
  | field :: rest => 0x2c :: printFields (field :: rest)

theorem printFields_cons (key : Text) (value : Json) (rest : List (Text × Json)) :
    printFields ((key, value) :: rest) =
      quote key ++ (0x3a :: (value.print ++ moreFields rest)) := by
  cases rest with
  | nil =>
    rw [printFields, moreFields, text_colon, List.append_nil, List.append_assoc]
    rfl
  | cons next rest =>
    rw [printFields, moreFields, text_colon, text_comma]
    simp only [List.append_assoc]
    rfl

mutual

/-- The text of a value says where the value ends. -/
theorem print_append_inj : ∀ (a : Json) {b : Json} {rest rest' : Text}, a.numberFree = true →
    b.numberFree = true → a.print ++ rest = b.print ++ rest' → a = b ∧ rest = rest'
  | null, b, _, _, ha, hb, h => by
    have hkind := (kind_of_text ha hb h).2
    cases b with
    | null => exact ⟨rfl, List.append_cancel_left h⟩
    | _ => cases hkind
  | bool value, b, _, _, ha, hb, h => by
    obtain ⟨hopen, hkind⟩ := kind_of_text ha hb h
    cases b with
    | bool value' =>
      obtain rfl : value = value' := by
        cases value <;> cases value' <;> simp [opening] at hopen ⊢
      exact ⟨rfl, List.append_cancel_left h⟩
    | _ => cases hkind
  | num _, _, _, _, ha, _, _ => nomatch ha
  | str units, b, _, _, ha, hb, h => by
    have hkind := (kind_of_text ha hb h).2
    cases b with
    | str units' =>
      obtain ⟨rfl, hrest⟩ := quote_append_inj h
      exact ⟨rfl, hrest⟩
    | _ => cases hkind
  | arr items, b, rest, rest', ha, hb, h => by
    have hkind := (kind_of_text ha hb h).2
    cases b with
    | arr items' =>
      rw [print, print, List.append_assoc, List.append_assoc, List.append_assoc, List.append_assoc,
        text_closeBracket] at h
      obtain ⟨rfl, hrest⟩ := printItems_append_inj items ha hb (List.append_cancel_left h)
      exact ⟨rfl, hrest⟩
    | _ => cases hkind
  | obj fields, b, rest, rest', ha, hb, h => by
    have hkind := (kind_of_text ha hb h).2
    cases b with
    | obj fields' =>
      rw [print, print, List.append_assoc, List.append_assoc, List.append_assoc, List.append_assoc,
        text_closeBrace] at h
      obtain ⟨rfl, hrest⟩ := printFields_append_inj fields ha hb (List.append_cancel_left h)
      exact ⟨rfl, hrest⟩
    | _ => cases hkind

theorem printItems_append_inj : ∀ (items : List Json) {items' : List Json} {rest rest' : Text},
    numberFreeItems items = true → numberFreeItems items' = true →
    printItems items ++ 0x5d :: rest = printItems items' ++ 0x5d :: rest' →
      items = items' ∧ rest = rest'
  | [], [], _, _, _, _, h => ⟨rfl, (List.cons.inj h).2⟩
  | [], item' :: items', _, _, _, hb, h => by
    have hitem := (Bool.and_eq_true_iff.1 hb).1
    obtain ⟨_, hprint⟩ := print_cons hitem
    rw [printItems_cons, hprint] at h
    exact absurd (List.cons.inj h).1.symm (opening_ne_close hitem)
  | item :: items, [], _, _, ha, _, h => by
    have hitem := (Bool.and_eq_true_iff.1 ha).1
    obtain ⟨_, hprint⟩ := print_cons hitem
    rw [printItems_cons, hprint] at h
    exact absurd (List.cons.inj h).1 (opening_ne_close hitem)
  | item :: items, item' :: items', rest, rest', ha, hb, h => by
    obtain ⟨hitem, hitems⟩ := Bool.and_eq_true_iff.1 ha
    obtain ⟨hitem', hitems'⟩ := Bool.and_eq_true_iff.1 hb
    rw [printItems_cons, printItems_cons, List.append_assoc, List.append_assoc] at h
    obtain ⟨heq, hmore⟩ := print_append_inj item hitem hitem' h
    subst heq
    clear h ha hb
    match items, items', hitems, hitems', hmore with
    | [], [], _, _, hmore => exact ⟨rfl, (List.cons.inj hmore).2⟩
    | [], _ :: _, _, _, hmore => exact absurd (List.cons.inj hmore).1 (by decide)
    | _ :: _, [], _, _, hmore => exact absurd (List.cons.inj hmore).1 (by decide)
    | next :: items, next' :: items', hitems, hitems', hmore =>
      obtain ⟨heq, hrest⟩ :=
        printItems_append_inj (next :: items) hitems hitems' (List.cons.inj hmore).2
      exact ⟨by rw [heq], hrest⟩

theorem printFields_append_inj : ∀ (fields : List (Text × Json)) {fields' : List (Text × Json)}
    {rest rest' : Text}, numberFreeFields fields = true → numberFreeFields fields' = true →
    printFields fields ++ 0x7d :: rest = printFields fields' ++ 0x7d :: rest' →
      fields = fields' ∧ rest = rest'
  | [], [], _, _, _, _, h => ⟨rfl, (List.cons.inj h).2⟩
  | [], (key', value') :: fields', _, _, _, _, h => by
    rw [printFields_cons, List.append_assoc, quote_append] at h
    exact absurd (List.cons.inj h).1 (by decide)
  | (key, value) :: fields, [], _, _, _, _, h => by
    rw [printFields_cons, List.append_assoc, quote_append] at h
    exact absurd (List.cons.inj h).1 (by decide)
  | (key, value) :: fields, (key', value') :: fields', rest, rest', ha, hb, h => by
    obtain ⟨hvalue, hfields⟩ := Bool.and_eq_true_iff.1 ha
    obtain ⟨hvalue', hfields'⟩ := Bool.and_eq_true_iff.1 hb
    rw [printFields_cons, printFields_cons, List.append_assoc, List.append_assoc] at h
    obtain ⟨hkey, hafter⟩ := quote_append_inj h
    have htext : value.print ++ (moreFields fields ++ 0x7d :: rest) =
        value'.print ++ (moreFields fields' ++ 0x7d :: rest') := by
      have hafter := (List.cons.inj hafter).2
      rwa [← List.append_assoc, ← List.append_assoc]
    obtain ⟨heq, hmore⟩ := print_append_inj value hvalue hvalue' htext
    subst hkey heq
    clear h hafter htext ha hb
    match fields, fields', hfields, hfields', hmore with
    | [], [], _, _, hmore => exact ⟨rfl, (List.cons.inj hmore).2⟩
    | [], _ :: _, _, _, hmore => exact absurd (List.cons.inj hmore).1 (by decide)
    | _ :: _, [], _, _, hmore => exact absurd (List.cons.inj hmore).1 (by decide)
    | next :: fields, next' :: fields', hfields, hfields', hmore =>
      obtain ⟨heq, hrest⟩ :=
        printFields_append_inj (next :: fields) hfields hfields' (List.cons.inj hmore).2
      exact ⟨by rw [heq], hrest⟩

end

/-! ### Records and their texts -/

/-- Values without numbers that have one text are one value. -/
theorem print_inj {a b : Json} (ha : a.numberFree = true) (hb : b.numberFree = true) :
    a.print = b.print ↔ a = b := by
  refine ⟨fun h => ?_, fun h => by rw [h]⟩
  exact (print_append_inj a ha hb (congrArg (· ++ []) h)).1

/-- Records told apart by the text of the value that stands for them. -/
structure Faithful {α : Type} (toJson : α → Json) : Prop where
  numberFree : ∀ value, (toJson value).numberFree = true
  injective : Function.Injective toJson

theorem Faithful.print_inj {α : Type} {toJson : α → Json} (h : Faithful toJson) {a b : α} :
    (toJson a).print = (toJson b).print ↔ a = b :=
  (Json.print_inj (h.numberFree a) (h.numberFree b)).trans h.injective.eq_iff

theorem faithful_str : Faithful str := ⟨fun _ => rfl, fun _ _ h => str.inj h⟩

theorem numberFreeItems_iff {items : List Json} :
    numberFreeItems items = true ↔ ∀ item ∈ items, item.numberFree = true := by
  induction items with
  | nil => simp [numberFreeItems]
  | cons item items ih => simp [numberFreeItems, ih]

theorem Faithful.arr {α : Type} {toJson : α → Json} (h : Faithful toJson) :
    Faithful fun values : List α => Json.arr (values.map toJson) := by
  refine ⟨fun values => numberFreeItems_iff.2 fun item hitem => ?_, fun values values' heq => ?_⟩
  · obtain ⟨value, _, rfl⟩ := List.mem_map.1 hitem
    exact h.numberFree value
  · exact List.map_injective_iff.2 h.injective (Json.arr.inj heq)

/-- `null` for what is absent. -/
theorem Faithful.orNull {α : Type} {toJson : α → Json} (h : Faithful toJson)
    (hnull : ∀ value, toJson value ≠ .null) :
    Faithful fun value : Option α => value.elim .null toJson := by
  refine ⟨fun value => ?_, fun value value' heq => ?_⟩
  · cases value with
    | none => rfl
    | some value => exact h.numberFree value
  · cases value with
    | none =>
      cases value' with
      | none => rfl
      | some value' => exact absurd heq.symm (hnull value')
    | some value =>
      cases value' with
      | none => exact absurd heq (hnull value)
      | some value' => exact congrArg some (h.injective heq)

end Json
