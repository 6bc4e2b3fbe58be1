/-
The stream key and the local primary key.

The engine writes the server key of a row as one string: a single column as it is, several columns
each escaped and joined by U+001F.  `primaryKeyFromStreamKey` takes it apart again and keeps the
columns of the local key.  It is right about every key exactly when no column of the local key has
a name the row object answers to by itself (`readsKeys_iff`).
-/
import Pgxsinkit.Lib.Checked
import Pgxsinkit.Lib.JsNumber
import Pgxsinkit.Events.Ingest

namespace Circuits

open Checked Events

/-! ### The rendering of the engine -/

def PK_SEPARATOR : UInt16 := 0x1f

def backslash : UInt16 := 0x5c

/-- `escape_key_component` -/
def escapeKeyUnit (unit : UInt16) : Text :=
  if unit = backslash then [backslash, backslash]
  else if unit = PK_SEPARATOR then [backslash, 0x78, 0x31, 0x66]
  else [unit]

def escapeKeyComponent (component : Text) : Text := component.flatMap escapeKeyUnit

/-- `key_string`, for the key texts in the order of the server key. -/
def keyString : List Text → Text
  | [component] => component
  | components => [PK_SEPARATOR].intercalate (components.map escapeKeyComponent)

/-! ### The code -/

inductive StreamKeyError
  | unknownEscape (part : Text)
  | partCount (key : Text) (parts : ℕ) (serverKey : List Text)
  | notInServerKey (column : Text) (serverKey : List Text)

namespace StreamKeyError

def columnList (columns : List Text) : Text := (text ", ").intercalate columns

def message : StreamKeyError → Text
  | unknownEscape part => text "[pgxsinkit] stream key component " ++ Json.quote part ++
      text " carries an unknown escape sequence"
  | partCount key parts serverKey => text "[pgxsinkit] stream key \"" ++ key ++
      text "\" splits into " ++ text (toString parts) ++
      text " part(s) but the server identity is a " ++ text (toString serverKey.length) ++
      text "-column primary key (" ++ columnList serverKey ++ text ")"
  | notInServerKey column serverKey => text "[pgxsinkit] local primary-key column \"" ++ column ++
      text "\" is not part of the server key (" ++ columnList serverKey ++
      text ") — the stream key cannot address the local row"

end StreamKeyError

/-- The loop over the component, which is left alone when it has no backslash in it. -/
def unescapeUnits : Text → Option Text
  | [] => some []
  | 0x5c :: 0x5c :: rest => (unescapeUnits rest).map (backslash :: ·)
  | 0x5c :: 0x78 :: 0x31 :: 0x66 :: rest => (unescapeUnits rest).map (PK_SEPARATOR :: ·)
  | unit :: rest => if unit = backslash then none else (unescapeUnits rest).map (unit :: ·)

def unescapeKeyComponent (part : Text) : Except StreamKeyError Text :=
  if backslash ∉ part then .ok part else orThrow (unescapeUnits part) (.unknownEscape part)

inductive StreamValue
  | number (value : JsNumber)
  | boolean (value : Bool)
  | string (value : Text)
  deriving DecidableEq

structure ColumnType where
  name : Text
  sqlType : Text

/-- What `primaryKeyFromStreamKey` reads of an `ApplyTarget`.  The server key is a primary key of
one or more columns. -/
structure KeyTarget where
  primaryKey : List Text
  serverPrimaryKey : List Text
  columnTypes : List ColumnType
  serverKey_ne_nil : serverPrimaryKey ≠ []
  serverKey_nodup : serverPrimaryKey.Nodup

def coercePrimaryKeyValue (sqlType raw : Text) : StreamValue :=
  if sqlType ∈ ["integer", "smallint", "serial", "smallserial"].map text then
    .number (JsNumber.ofText raw)
  else if sqlType = text "boolean" then .boolean (raw = text "true")
  else .string raw

/-- The own properties of a row object. -/
abbrev KeyRow := OrdMap Text StreamValue

/-- `row[name] = value`: the accessor `__proto__` drops a value that is no object. -/
def setProperty (row : KeyRow) (name : Text) (value : StreamValue) : KeyRow :=
  if name = text "__proto__" then row else row.set name value

/-- `name in row` -/
def hasProperty (row : KeyRow) (name : Text) : Prop := row.has name = true ∨ name ∈ objectPrototype

instance (row : KeyRow) (name : Text) : Decidable (hasProperty row name) :=
  inferInstanceAs (Decidable (_ ∨ _))

namespace KeyTarget

variable (target : KeyTarget)

def sqlType (column : Text) : Text :=
  ((target.columnTypes.find? (·.name = column)).map ColumnType.sqlType).getD (text "text")

def keepPart (row : KeyRow) (part : Text × Text) : KeyRow :=
  if part.1 ∈ target.primaryKey then
    setProperty row part.1 (coercePrimaryKeyValue (target.sqlType part.1) part.2)
  else row

def splitKey (key : Text) : Except StreamKeyError (List Text) :=
  if target.serverPrimaryKey.length = 1 then .ok [key]
  else (key.splitOn PK_SEPARATOR).mapM unescapeKeyComponent

def primaryKeyFromStreamKey (key : Text) : Except StreamKeyError KeyRow := do
  let parts ← target.splitKey key
  throwIf (parts.length ≠ target.serverPrimaryKey.length)
    (.partCount key parts.length target.serverPrimaryKey)
  let row := (target.serverPrimaryKey.zip parts).foldl target.keepPart .empty
  forEach (fun column => throwIf (¬ hasProperty row column)
    (.notInServerKey column target.serverPrimaryKey)) target.primaryKey
  return row

end KeyTarget

/-! ### Escaping -/

theorem unescapeUnits_plain {unit : UInt16} (h : unit ≠ backslash) (rest : Text) :
    unescapeUnits (unit :: rest) = (unescapeUnits rest).map (unit :: ·) := by
  rw [unescapeUnits, if_neg h]
  · rintro rest' rfl
    exact absurd rfl h
  · rintro rest' rfl
    exact absurd rfl h

theorem unescapeUnits_escape (unit : UInt16) (rest : Text) :
    unescapeUnits (escapeKeyUnit unit ++ rest) = (unescapeUnits rest).map (unit :: ·) := by
  unfold escapeKeyUnit
  split
  case isTrue h => rw [h]; rfl
  case isFalse h =>
    split
    case isTrue h' => rw [h']; rfl
    case isFalse => rw [List.singleton_append, unescapeUnits_plain h]

theorem unescapeUnits_escapeKeyComponent (component : Text) :
    unescapeUnits (escapeKeyComponent component) = some component := by
  induction component with
  | nil => rfl
  | cons unit component ih =>
    rw [escapeKeyComponent, List.flatMap_cons, unescapeUnits_escape, ← escapeKeyComponent, ih,
      Option.map_some]

theorem unescapeUnits_of_no_backslash {part : Text} (h : backslash ∉ part) :
    unescapeUnits part = some part := by
  induction part with
  | nil => rfl
  | cons unit part ih =>
    rw [List.mem_cons, not_or] at h
    rw [unescapeUnits_plain (Ne.symm h.1), ih h.2, Option.map_some]

theorem unescapeKeyComponent_eq_ok {part component : Text} :
    unescapeKeyComponent part = .ok component ↔ unescapeUnits part = some component := by
  unfold unescapeKeyComponent
  split
  case isTrue h => rw [unescapeUnits_of_no_backslash h, Except.ok.injEq, Option.some.injEq]
  case isFalse => exact orThrow_eq_ok

theorem separator_not_mem_escape (component : Text) :
    PK_SEPARATOR ∉ escapeKeyComponent component := by
  intro hmem
  obtain ⟨unit, -, hmem⟩ := List.mem_flatMap.1 hmem
  revert hmem
  unfold escapeKeyUnit
  split
  · decide
  · split
    · decide
    · rw [List.mem_singleton]
      exact fun h => absurd h.symm ‹_›

/-- Without a separator in it, what can be unescaped is the escaped form of what comes out. -/
theorem escapeKeyComponent_of_unescapeUnits (part : Text) :
    ∀ {component : Text}, PK_SEPARATOR ∉ part → unescapeUnits part = some component →
      escapeKeyComponent component = part := by
  induction part using unescapeUnits.induct with
  | case1 =>
    rintro component - h
    obtain rfl := Option.some.inj h
    rfl
  | case2 rest ih =>
    intro component hsep h
    rw [unescapeUnits, Option.map_eq_some_iff] at h
    obtain ⟨component, h, rfl⟩ := h
    rw [List.mem_cons, List.mem_cons, not_or, not_or] at hsep
    rw [escapeKeyComponent, List.flatMap_cons, ← escapeKeyComponent, ih hsep.2.2 h]
    rfl
  | case3 rest ih =>
    intro component hsep h
    rw [unescapeUnits, Option.map_eq_some_iff] at h
    obtain ⟨component, h, rfl⟩ := h
    simp only [List.mem_cons, not_or] at hsep
    rw [escapeKeyComponent, List.flatMap_cons, ← escapeKeyComponent, ih hsep.2.2.2.2 h]
    rfl
  | case4 rest h5c hx1f =>
    intro component hsep h
    rw [unescapeUnits, if_pos rfl] at h
    · cases h
    · exact h5c
    · exact hx1f
  | case5 unit rest h5c hx1f hunit ih =>
    intro component hsep h
    rw [unescapeUnits_plain hunit, Option.map_eq_some_iff] at h
    obtain ⟨component, h, rfl⟩ := h
    rw [List.mem_cons, not_or] at hsep
    rw [escapeKeyComponent, List.flatMap_cons, ← escapeKeyComponent, ih hsep.2 h, escapeKeyUnit,
      if_neg hunit, if_neg (Ne.symm hsep.1), List.singleton_append]

/-! ### Splitting -/

theorem mapM_unescape_eq_ok {parts components : List Text} :
    parts.mapM unescapeKeyComponent = .ok components ↔
      List.Forall₂ (fun part component => unescapeUnits part = some component) parts components := by
  induction parts generalizing components with
  | nil =>
    rw [List.mapM_nil, pure_eq_ok, List.forall₂_nil_left_iff, eq_comm]
  | cons part parts ih =>
    simp only [List.mapM_cons, bind_eq_ok, unescapeKeyComponent_eq_ok, pure_eq_ok, ih,
      List.forall₂_cons_left_iff]
    constructor
    · rintro ⟨component, hpart, rest, hrest, rfl⟩
      exact ⟨component, rest, hpart, hrest, rfl⟩
    · rintro ⟨component, rest, hpart, hrest, rfl⟩
      exact ⟨component, hpart, rest, hrest, rfl⟩

theorem not_mem_of_mem_splitOn {separator : UInt16} :
    ∀ {key part : Text}, part ∈ key.splitOn separator → separator ∉ part := by
  intro key
  induction key with
  | nil =>
    intro part hpart
    obtain rfl := List.mem_singleton.1 hpart
    exact List.not_mem_nil
  | cons unit key ih =>
    intro part hpart
    rw [List.splitOn_cons_eq_if_modifyHead] at hpart
    split at hpart
    case isTrue =>
      obtain rfl | hpart := List.mem_cons.1 hpart
      · exact List.not_mem_nil
      · exact ih hpart
    case isFalse hunit =>
      obtain ⟨first, parts, hsplit⟩ := List.exists_cons_of_ne_nil (List.splitOn_ne_nil separator key)
      rw [hsplit, List.modifyHead_cons] at hpart
      obtain rfl | hpart := List.mem_cons.1 hpart
      · rw [List.mem_cons, not_or]
        exact ⟨fun h => hunit (beq_iff_eq.2 h.symm), ih (by rw [hsplit]; exact List.mem_cons_self)⟩
      · exact ih (by rw [hsplit]; exact List.mem_cons_of_mem _ hpart)

theorem map_escape_of_unescape {parts components : List Text}
    (h : List.Forall₂ (fun part component => unescapeUnits part = some component) parts components)
    (hfree : ∀ part ∈ parts, PK_SEPARATOR ∉ part) :
    components.map escapeKeyComponent = parts := by
  induction h with
  | nil => rfl
  | cons hpart _ ih =>
    rw [List.map_cons, ih fun part hmem => hfree part (List.mem_cons_of_mem _ hmem),
      escapeKeyComponent_of_unescapeUnits _ (hfree _ List.mem_cons_self) hpart]

theorem keyString_of_length_ne {texts : List Text} (h : texts.length ≠ 1) :
    keyString texts = [PK_SEPARATOR].intercalate (texts.map escapeKeyComponent) := by
  match texts with
  | [] => rfl
  | [_] => exact absurd rfl h
  | _ :: _ :: _ => rfl

namespace KeyTarget

variable {target : KeyTarget} {texts : List Text} {key : Text} {row : KeyRow}

theorem serverKey_length_pos : 0 < target.serverPrimaryKey.length :=
  List.length_pos_iff.2 target.serverKey_ne_nil

/-- A key splits into the texts it renders. -/
theorem splitKey_keyString (h : texts.length = target.serverPrimaryKey.length) :
    target.splitKey (keyString texts) = .ok texts := by
  have hpos := target.serverKey_length_pos
  unfold splitKey
  split
  case isTrue hone =>
    obtain ⟨component, rfl⟩ := List.length_eq_one_iff.1 (h.trans hone)
    rfl
  case isFalse hone =>
    have hne : texts.map escapeKeyComponent ≠ [] := by
      rw [Ne, List.map_eq_nil_iff]
      rintro rfl
      exact absurd h (by simpa using hpos.ne)
    have hfree : ∀ part ∈ texts.map escapeKeyComponent, PK_SEPARATOR ∉ part := by
      intro part hpart
      obtain ⟨component, -, rfl⟩ := List.mem_map.1 hpart
      exact separator_not_mem_escape component
    rw [keyString_of_length_ne (by omega), List.splitOn_intercalate _ hfree hne,
      mapM_unescape_eq_ok, List.forall₂_map_left_iff]
    exact List.forall₂_same.2 fun component _ => unescapeUnits_escapeKeyComponent component

/-- What splits renders the texts it splits into. -/
theorem keyString_of_splitKey (h : target.splitKey key = .ok texts)
    (hlength : texts.length = target.serverPrimaryKey.length) : keyString texts = key := by
  unfold splitKey at h
  split at h
  case isTrue =>
    obtain rfl := Except.ok.inj h
    rfl
  case isFalse hone =>
    have hmap : texts.map escapeKeyComponent = key.splitOn PK_SEPARATOR := by
      exact map_escape_of_unescape (mapM_unescape_eq_ok.1 h) fun part => not_mem_of_mem_splitOn
    rw [keyString_of_length_ne (by omega), hmap, List.intercalate_splitOn]

/-- Only the tuple a key renders is read out of it. -/
theorem keyString_injective {texts' : List Text}
    (h : texts.length = target.serverPrimaryKey.length)
    (h' : texts'.length = target.serverPrimaryKey.length) (heq : keyString texts = keyString texts') :
    texts = texts' := by
  have hsplit := target.splitKey_keyString h
  rw [heq, target.splitKey_keyString h'] at hsplit
  exact (Except.ok.inj hsplit).symm

/-! ### The row -/

/-- The value of a column of the server key, `none` for any other column. -/
def keyValue (target : KeyTarget) (texts : List Text) (column : Text) : Option StreamValue :=
  ((target.serverPrimaryKey.zip texts).find? (·.1 = column)).map fun part =>
    coercePrimaryKeyValue (target.sqlType column) part.2

/-- The row has the columns of the local key, with the values of the tuple, and no others. -/
def IsLocalKey (target : KeyTarget) (texts : List Text) (row : KeyRow) : Prop :=
  ∀ column, row.get? column =
    if column ∈ target.primaryKey then target.keyValue texts column else none

theorem get?_keepParts (parts : List (Text × Text)) (hnodup : (parts.map Prod.fst).Nodup)
    (row : KeyRow) (column : Text) : (parts.foldl target.keepPart row).get? column =
      if column ∈ target.primaryKey ∧ column ≠ text "__proto__" then
        ((parts.find? (·.1 = column)).map fun part =>
          coercePrimaryKeyValue (target.sqlType column) part.2).or (row.get? column)
      else row.get? column := by
  induction parts generalizing row with
  | nil => simp
  | cons part parts ih =>
    obtain ⟨name, raw⟩ := part
    rw [List.map_cons, List.nodup_cons] at hnodup
    rw [List.foldl_cons, ih hnodup.2, List.find?_cons]
    have hrow : (target.keepPart row (name, raw)).get? column =
        if column = name ∧ column ∈ target.primaryKey ∧ column ≠ text "__proto__" then
          some (coercePrimaryKeyValue (target.sqlType column) raw)
        else row.get? column := by
      unfold keepPart setProperty
      by_cases hname : column = name
      · subst hname
        by_cases hmem : column ∈ target.primaryKey <;>
          by_cases hproto : column = text "__proto__" <;> simp [hmem, hproto]
      · have hother : ¬ (column = name ∧ column ∈ target.primaryKey ∧ column ≠ text "__proto__") :=
          fun h => hname h.1
        rw [if_neg hother]
        split
        · split
          · rfl
          · exact OrdMap.get?_set_ne _ _ hname
        · rfl
    rw [hrow]
    by_cases hkept : column ∈ target.primaryKey ∧ column ≠ text "__proto__"
    · by_cases hname : column = name
      · subst hname
        have hnone : parts.find? (·.1 = column) = none :=
          List.find?_eq_none.2 fun e he h =>
            hnodup.1 (List.mem_map.2 ⟨e, he, of_decide_eq_true h⟩)
        simp [hkept, hnone]
      · simp [hkept, hname, Ne.symm hname]
    · simp [hkept]

theorem primaryKeyFromStreamKey_eq_ok : target.primaryKeyFromStreamKey key = .ok row ↔
    ∃ texts, texts.length = target.serverPrimaryKey.length ∧ key = keyString texts ∧
      row = (target.serverPrimaryKey.zip texts).foldl target.keepPart .empty ∧
      ∀ column ∈ target.primaryKey, hasProperty row column := by
  unfold primaryKeyFromStreamKey
  simp only [bind_eq_ok, throwIf_eq_ok, forEach_eq_ok, not_not, pure_eq_ok, exists_const]
  constructor
  · rintro ⟨texts, hsplit, hlength, hhas, rfl⟩
    exact ⟨texts, hlength, (keyString_of_splitKey hsplit hlength).symm, rfl, hhas⟩
  · rintro ⟨texts, hlength, rfl, rfl, hhas⟩
    exact ⟨texts, splitKey_keyString hlength, hlength, hhas, rfl⟩

/-! ### Which local keys are read -/

/-- What a reading of stream keys owes: every key of the engine gives the tuple it renders, cut
down to the local key; what is not refused renders the tuple it gives, with every column of the
local key; and two keys address one row only when they agree on the local key. -/
structure ReadsKeys (target : KeyTarget) : Prop where
  recovers : target.primaryKey ⊆ target.serverPrimaryKey → ∀ texts,
    texts.length = target.serverPrimaryKey.length →
      ∃ row, target.primaryKeyFromStreamKey (keyString texts) = .ok row ∧
        target.IsLocalKey texts row
  renders : ∀ key row, target.primaryKeyFromStreamKey key = .ok row → ∃ texts,
    texts.length = target.serverPrimaryKey.length ∧ key = keyString texts ∧
      target.IsLocalKey texts row ∧ ∀ column ∈ target.primaryKey, row.has column = true
  separates : ∀ texts texts' row row',
    target.primaryKeyFromStreamKey (keyString texts) = .ok row →
    target.primaryKeyFromStreamKey (keyString texts') = .ok row' →
    (∀ column, row.get? column = row'.get? column) →
    texts.length = target.serverPrimaryKey.length → texts'.length = target.serverPrimaryKey.length →
      ∀ column ∈ target.primaryKey, target.keyValue texts column = target.keyValue texts' column

/-- A column of the local key that no object answers to and the server key lacks. -/
def Refused (target : KeyTarget) : Prop :=
  ∃ column ∈ target.primaryKey, column ∉ target.serverPrimaryKey ∧ column ∉ objectPrototype

/-- The local key is made of columns of the server key, none of them named `__proto__`. -/
def Addressable (target : KeyTarget) : Prop :=
  ∀ column ∈ target.primaryKey,
    column ∈ target.serverPrimaryKey ∧ column ≠ text "__proto__"

theorem find?_zip {columns : List Text} {column : Text}
    (h : texts.length = columns.length) :
    ((columns.zip texts).find? (·.1 = column)).isSome ↔ column ∈ columns := by
  rw [List.find?_isSome]
  constructor
  · rintro ⟨part, hpart, heq⟩
    exact of_decide_eq_true heq ▸ (List.of_mem_zip hpart).1
  · intro hmem
    obtain ⟨i, hi, rfl⟩ := List.getElem_of_mem hmem
    exact ⟨(columns[i], texts[i]), List.mem_iff_getElem.2 ⟨i, by simp [hi, h], by simp⟩, by simp⟩

theorem keyValue_isSome {column : Text} (h : texts.length = target.serverPrimaryKey.length) :
    (target.keyValue texts column).isSome ↔ column ∈ target.serverPrimaryKey := by
  rw [keyValue, Option.isSome_map, find?_zip h]

theorem get?_row (h : texts.length = target.serverPrimaryKey.length) (column : Text) :
    ((target.serverPrimaryKey.zip texts).foldl target.keepPart .empty).get? column =
      if column ∈ target.primaryKey ∧ column ≠ text "__proto__" then target.keyValue texts column
      else none := by
  rw [get?_keepParts _ (by rw [List.map_fst_zip h.ge]; exact target.serverKey_nodup)]
  simp [keyValue]

theorem Refused.ne_ok (h : target.Refused) : target.primaryKeyFromStreamKey key ≠ .ok row := by
  obtain ⟨column, hlocal, hserver, hinherited⟩ := h
  intro hok
  obtain ⟨texts, hlength, -, rfl, hhas⟩ := primaryKeyFromStreamKey_eq_ok.1 hok
  obtain hhas | hhas := hhas column hlocal
  · rw [OrdMap.has, get?_row hlength] at hhas
    split at hhas
    · exact hserver ((keyValue_isSome hlength).1 hhas)
    · cases hhas
  · exact hinherited hhas

/-- On an addressable target the row of a tuple is its local key. -/
theorem Addressable.isLocalKey (h : target.Addressable)
    (hlength : texts.length = target.serverPrimaryKey.length) : target.IsLocalKey texts
      ((target.serverPrimaryKey.zip texts).foldl target.keepPart .empty) := by
  intro column
  rw [get?_row hlength]
  by_cases hmem : column ∈ target.primaryKey
  · rw [if_pos ⟨hmem, (h column hmem).2⟩, if_pos hmem]
  · rw [if_neg fun h => hmem h.1, if_neg hmem]

theorem IsLocalKey.has (h : target.IsLocalKey texts row)
    (hlength : texts.length = target.serverPrimaryKey.length) {column : Text}
    (hlocal : column ∈ target.primaryKey) (hserver : column ∈ target.serverPrimaryKey) :
    row.has column = true := by
  rw [OrdMap.has, h column, if_pos hlocal]
  exact (keyValue_isSome hlength).2 hserver

theorem Addressable.readsKeys (h : target.Addressable) : target.ReadsKeys where
  recovers _ texts hlength := by
    have hrow := h.isLocalKey hlength
    refine ⟨_, primaryKeyFromStreamKey_eq_ok.2 ⟨texts, hlength, rfl, rfl, ?_⟩, hrow⟩
    exact fun column hmem => Or.inl (hrow.has hlength hmem (h column hmem).1)
  renders key row hok := by
    obtain ⟨texts, hlength, hkey, rfl, -⟩ := primaryKeyFromStreamKey_eq_ok.1 hok
    have hrow := h.isLocalKey hlength
    exact ⟨texts, hlength, hkey, hrow, fun column hmem => hrow.has hlength hmem (h column hmem).1⟩
  separates texts texts' row row' hok hok' hsame hlength hlength' column hmem := by
    obtain ⟨ts, hts, heq, rfl, -⟩ := primaryKeyFromStreamKey_eq_ok.1 hok
    obtain ⟨ts', hts', heq', rfl, -⟩ := primaryKeyFromStreamKey_eq_ok.1 hok'
    obtain rfl := keyString_injective hlength hts heq
    obtain rfl := keyString_injective hlength' hts' heq'
    have h1 := h.isLocalKey hlength column
    rw [if_pos hmem] at h1
    have h2 := h.isLocalKey hlength' column
    rw [if_pos hmem] at h2
    rw [← h1, ← h2, hsame]

/-- The stream keys are read as they should be exactly when the local key is made of columns of the
server key, none of them named `__proto__`, or is refused for a column that is not one. -/
theorem readsKeys_iff (target : KeyTarget) :
    target.ReadsKeys ↔ target.Addressable ∨ target.Refused := by
  constructor
  · intro h
    by_contra hnot
    rw [not_or] at hnot
    obtain ⟨haddressable, hrefused⟩ := hnot
    -- nothing is refused, so any tuple gives a row, and the row misses a column
    set texts : List Text := target.serverPrimaryKey.map fun _ => [] with htexts
    have hlength : texts.length = target.serverPrimaryKey.length := by rw [htexts, List.length_map]
    have hall : ∀ column ∈ target.primaryKey,
        column ∈ target.serverPrimaryKey ∨ column ∈ objectPrototype := by
      intro column hmem
      by_contra hno
      rw [not_or] at hno
      exact hrefused ⟨column, hmem, hno⟩
    have hok : target.primaryKeyFromStreamKey (keyString texts) =
        .ok ((target.serverPrimaryKey.zip texts).foldl target.keepPart .empty) := by
      refine primaryKeyFromStreamKey_eq_ok.2 ⟨texts, hlength, rfl, rfl, fun column hmem => ?_⟩
      by_cases hinherited : column ∈ objectPrototype
      · exact Or.inr hinherited
      · have hserver := (hall column hmem).resolve_right hinherited
        have hkept : column ≠ text "__proto__" := by
          rintro rfl
          exact hinherited (by decide)
        refine Or.inl ?_
        rw [OrdMap.has, get?_row hlength, if_pos ⟨hmem, hkept⟩]
        exact (keyValue_isSome hlength).2 hserver
    obtain ⟨_, _, _, _, hhas⟩ := h.renders _ _ hok
    refine haddressable fun column hmem => ?_
    have hcolumn := hhas column hmem
    rw [OrdMap.has, get?_row hlength] at hcolumn
    split at hcolumn
    case isTrue hkept => exact ⟨(keyValue_isSome hlength).1 hcolumn, hkept.2⟩
    case isFalse => cases hcolumn
  · rintro (h | h)
    · exact h.readsKeys
    · obtain ⟨column, hmem, hserver, -⟩ := id h
      exact ⟨fun hsub => absurd (hsub hmem) hserver, fun _ _ hok => absurd hok h.ne_ok,
        fun _ _ _ _ hok => absurd hok h.ne_ok⟩

/-- A table whose primary key is the columns `tenant` and `__proto__`. -/
def accessorKey : KeyTarget :=
  ⟨[text "tenant", text "__proto__"], [text "tenant", text "__proto__"], [], by decide, by decide⟩

/-- A key of it gives a row without the second column. -/
theorem accessorKey_loses_column :
    accessorKey.primaryKeyFromStreamKey [0x61, PK_SEPARATOR, 0x62] =
      .ok (OrdMap.empty.set (text "tenant") (.string [0x61])) ∧ ¬ accessorKey.ReadsKeys := by
  have hok : accessorKey.primaryKeyFromStreamKey [0x61, PK_SEPARATOR, 0x62] =
      .ok (OrdMap.empty.set (text "tenant") (.string [0x61])) := by rfl
  refine ⟨hok, fun h => ?_⟩
  obtain ⟨_, _, _, _, hhas⟩ := h.renders _ _ hok
  exact absurd (hhas (text "__proto__") (by decide)) (by decide)

end KeyTarget

end Circuits
