/-
Path names (`core/path.ts`).

A JavaScript string is the list of its UTF-16 code units.  `utf8Units` is the
scan of `utf8Length`: it counts the bytes of the UTF-8 encoding and stops at a
surrogate that is not part of a pair.
-/
import Pgxsinkit.Opfs.Limits
import Mathlib

namespace Opfs

open Checked

/-- A JavaScript string: its UTF-16 code units. -/
abbrev JsString := List UInt16

def slash : UInt16 := 0x2f
def dot : UInt16 := 0x2e

def isHighSurrogate (u : UInt16) : Bool := 0xd800 ≤ u && u ≤ 0xdbff
def isLowSurrogate (u : UInt16) : Bool := 0xdc00 ≤ u && u ≤ 0xdfff

/-- The byte count of the UTF-8 encoding, `none` at an unpaired surrogate. -/
def utf8Units : JsString → Option Nat
  | [] => some 0
  | codeUnit :: rest =>
    if codeUnit ≤ 0x7f then (utf8Units rest).map (· + 1)
    else if codeUnit ≤ 0x7ff then (utf8Units rest).map (· + 2)
    else if isHighSurrogate codeUnit then
      match rest with
      | [] => none
      | next :: rest' => if isLowSurrogate next then (utf8Units rest').map (· + 4) else none
    else if isLowSurrogate codeUnit then none
    else (utf8Units rest).map (· + 3)

def utf8Length (value : JsString) (label : String) : Except StoreError Nat :=
  orThrow (utf8Units value)
    (.fsError .EINVAL s!"{label} is not canonically representable as UTF-8")

def encodedUtf8Length (value : JsString) : Except StoreError Nat := utf8Length value "string"

/-- The byte length of a string that is known to be representable. -/
def utf8Bytes (value : JsString) : Nat := (utf8Units value).getD 0

def validatePathComponent (component : JsString) : Except StoreError Nat := do
  throwIf (component.length = 0 ∨ component = [dot] ∨ component = [dot, dot])
    (.fsError .EINVAL "path contains an empty or reserved component")
  throwIf (slash ∈ component ∨ (0 : UInt16) ∈ component)
    (.fsError .EINVAL "path component contains a forbidden character")
  let bytes ← utf8Length component "path component"
  throwIf (bytes > maxComponentBytes)
    (.fsError .EINVAL s!"path component exceeds {maxComponentBytes} UTF-8 bytes")
  return bytes

/-- Does the string contain the substring `//`? -/
def hasDoubleSlash : JsString → Bool
  | a :: b :: rest => (a == slash && b == slash) || hasDoubleSlash (b :: rest)
  | _ => false

def parsePath (path : JsString) : Except StoreError (List JsString) :=
  if path = [slash] then .ok []
  else do
    throwIf (path.head? ≠ some slash ∨ path.getLast? = some slash ∨ hasDoubleSlash path = true)
      (.fsError .EINVAL "path must be absolute and canonical")
    let bytes ← utf8Length path "path"
    throwIf (bytes > maxPathBytes)
      (.fsError .EINVAL s!"path exceeds {maxPathBytes} UTF-8 bytes")
    let components := path.tail.splitOn slash
    throwIf (components.length > maxPathDepth)
      (.fsError .EINVAL s!"path exceeds {maxPathDepth} components")
    forEach validatePathComponent components
    return components

/-- A symbolic link's target: an absolute path of at most `maxPathBytes` bytes. -/
def validateSymlinkTarget (target : JsString) : Except StoreError Nat := do
  let bytes ← utf8Length target "symlink target"
  throwIf (bytes = 0 ∨ bytes > maxPathBytes)
    (.fsError .EINVAL s!"symlink target must be 1 to {maxPathBytes} UTF-8 bytes")
  let _ ← parsePath target
  return bytes

/-! ### What the validators admit -/

/-- A name that a directory entry may carry. -/
structure ValidComponent (component : JsString) : Prop where
  ne_nil : component ≠ []
  not_reserved : component ≠ [dot] ∧ component ≠ [dot, dot]
  no_slash : slash ∉ component
  no_nul : (0 : UInt16) ∉ component
  units : utf8Units component = some (utf8Bytes component)
  bound : utf8Bytes component ≤ maxComponentBytes

theorem utf8Units_eq_some {value : JsString} {n : Nat} :
    utf8Units value = some n ↔ utf8Units value = some (utf8Bytes value) ∧ utf8Bytes value = n := by
  unfold utf8Bytes
  cases h : utf8Units value <;> simp

@[simp] theorem utf8Length_eq_ok {value : JsString} {label : String} {n : Nat} :
    utf8Length value label = .ok n ↔
      utf8Units value = some (utf8Bytes value) ∧ utf8Bytes value = n := by
  rw [utf8Length, orThrow_eq_ok, utf8Units_eq_some]

theorem encodedUtf8Length_of_units {value : JsString}
    (h : utf8Units value = some (utf8Bytes value)) :
    encodedUtf8Length value = .ok (utf8Bytes value) := by
  rw [encodedUtf8Length, utf8Length_eq_ok]
  exact ⟨h, rfl⟩

@[simp] theorem validatePathComponent_eq_ok {component : JsString} {n : Nat} :
    validatePathComponent component = .ok n ↔
      ValidComponent component ∧ utf8Bytes component = n := by
  simp only [validatePathComponent, bind_eq_ok, throwIf_eq_ok, utf8Length_eq_ok, pure_eq_ok,
    not_or, List.length_eq_zero_iff, exists_const]
  constructor
  · rintro ⟨⟨h1, h2, h3⟩, ⟨h4, h5⟩, _, ⟨h6, rfl⟩, h7, rfl⟩
    exact ⟨⟨h1, ⟨h2, h3⟩, h4, h5, h6, by omega⟩, rfl⟩
  · rintro ⟨⟨h1, ⟨h2, h3⟩, h4, h5, h6, h7⟩, rfl⟩
    exact ⟨⟨h1, h2, h3⟩, ⟨h4, h5⟩, _, ⟨h6, rfl⟩, by omega, rfl⟩

/-- The bytes of the path that spells the components: the root is one byte, every
component costs one separator. -/
def pathBytes (components : List JsString) : Nat :=
  max 1 ((components.map fun c => 1 + utf8Bytes c).sum)

theorem pathBytes_eq (components : List JsString) :
    pathBytes components =
      1 + (components.map utf8Bytes).sum + (components.length - 1) := by
  have hsum : (components.map fun c => 1 + utf8Bytes c).sum =
      components.length + (components.map utf8Bytes).sum := by
    induction components with
    | nil => rfl
    | cons c cs ih =>
      rw [List.map_cons, List.sum_cons, ih, List.map_cons, List.sum_cons, List.length_cons]
      omega
  rw [pathBytes, hsum]
  cases components with
  | nil => rfl
  | cons c cs =>
    rw [List.length_cons]
    omega

/-- The limits every inode path obeys. -/
def WithinPathLimits (components : List JsString) : Prop :=
  components.length ≤ maxPathDepth ∧ pathBytes components ≤ maxPathBytes

instance (components : List JsString) : Decidable (WithinPathLimits components) := by
  unfold WithinPathLimits; infer_instance

/-! ### The scan, one code point at a time -/

theorem utf8Units_one {u : UInt16} (rest : JsString) (h : u ≤ 0x7f) :
    utf8Units (u :: rest) = (utf8Units rest).map (· + 1) := by
  cases rest <;> simp [utf8Units, h]

theorem utf8Units_two {u : UInt16} (rest : JsString) (h1 : ¬ u ≤ 0x7f) (h2 : u ≤ 0x7ff) :
    utf8Units (u :: rest) = (utf8Units rest).map (· + 2) := by
  cases rest <;> simp [utf8Units, h1, h2]

theorem utf8Units_pair {u v : UInt16} (rest : JsString) (h1 : ¬ u ≤ 0x7f) (h2 : ¬ u ≤ 0x7ff)
    (hu : isHighSurrogate u = true) (hv : isLowSurrogate v = true) :
    utf8Units (u :: v :: rest) = (utf8Units rest).map (· + 4) := by
  rw [utf8Units, if_neg h1, if_neg h2, if_pos hu, if_pos hv]

theorem utf8Units_three {u : UInt16} (rest : JsString) (h1 : ¬ u ≤ 0x7f) (h2 : ¬ u ≤ 0x7ff)
    (hu : ¬ isHighSurrogate u = true) (hl : ¬ isLowSurrogate u = true) :
    utf8Units (u :: rest) = (utf8Units rest).map (· + 3) := by
  cases rest <;> simp [utf8Units, h1, h2, hu, hl]

theorem map_add_add (o : Option Nat) (m k : Nat) :
    (o.map (m + ·)).map (· + k) = o.map (m + k + ·) := by
  cases o <;> simp; omega

theorem utf8Units_append {left right : JsString} {n : Nat}
    (h : utf8Units left = some n) :
    utf8Units (left ++ right) = (utf8Units right).map (n + ·) := by
  induction left using utf8Units.induct generalizing n with
  | case1 =>
    cases h
    rw [List.nil_append]
    cases utf8Units right <;> simp
  | case2 u rest hu ih =>
    rw [utf8Units_one _ hu, Option.map_eq_some_iff] at h
    obtain ⟨m, hm, rfl⟩ := h
    rw [List.cons_append, utf8Units_one _ hu, ih hm, map_add_add]
  | case3 u rest h1 h2 ih =>
    rw [utf8Units_two _ h1 h2, Option.map_eq_some_iff] at h
    obtain ⟨m, hm, rfl⟩ := h
    rw [List.cons_append, utf8Units_two _ h1 h2, ih hm, map_add_add]
  | case4 u h1 h2 h3 => simp [utf8Units, h1, h2, h3] at h
  | case5 u h1 h2 h3 next rest hn ih =>
    rw [utf8Units_pair _ h1 h2 h3 hn, Option.map_eq_some_iff] at h
    obtain ⟨m, hm, rfl⟩ := h
    rw [List.cons_append, List.cons_append, utf8Units_pair _ h1 h2 h3 hn, ih hm, map_add_add]
  | case6 u h1 h2 h3 next rest hn => simp [utf8Units, h1, h2, h3, hn] at h
  | case7 u rest h1 h2 h3 h4 => cases rest <;> simp [utf8Units, h1, h2, h3, h4] at h
  | case8 u rest h1 h2 h3 h4 ih =>
    rw [utf8Units_three _ h1 h2 h3 h4, Option.map_eq_some_iff] at h
    obtain ⟨m, hm, rfl⟩ := h
    rw [List.cons_append, utf8Units_three _ h1 h2 h3 h4, ih hm, map_add_add]

/-! ### Paths -/

/-- The path that spells a list of components. -/
def spell : List JsString → JsString
  | [] => []
  | c :: cs => slash :: (c ++ spell cs)

theorem utf8Units_slash (rest : JsString) :
    utf8Units (slash :: rest) = (utf8Units rest).map (· + 1) :=
  utf8Units_one rest (by decide)

theorem utf8Units_spell {components : List JsString} (h : ∀ c ∈ components, ValidComponent c) :
    utf8Units (spell components) = some ((components.map fun c => 1 + utf8Bytes c).sum) := by
  induction components with
  | nil => simp [spell, utf8Units]
  | cons c cs ih =>
    rw [List.forall_mem_cons] at h
    rw [spell, utf8Units_slash, utf8Units_append h.1.units, ih h.2]
    simp only [Option.map_some, List.map_cons, List.sum_cons, Option.some.injEq]
    omega

theorem spell_eq_intercalate {components : List JsString} (h : components ≠ []) :
    spell components = slash :: List.intercalate [slash] components := by
  induction components with
  | nil => exact absurd rfl h
  | cons c cs ih =>
    cases cs with
    | nil => simp [spell]
    | cons c' cs =>
      rw [spell, ih (by simp)]
      simp

/-- A parsed path spells its components back, and they are within the limits. -/
theorem parsePath_eq_ok {path : JsString} {components : List JsString}
    (h : parsePath path = .ok components) :
    (∀ c ∈ components, ValidComponent c) ∧ WithinPathLimits components ∧
      (components = [] ∧ path = [slash] ∨ components ≠ [] ∧ path = spell components) := by
  unfold parsePath at h
  by_cases hroot : path = [slash]
  · rw [if_pos hroot] at h
    cases h
    exact ⟨by simp, by decide, .inl ⟨rfl, hroot⟩⟩
  · rw [if_neg hroot] at h
    simp only [bind_eq_ok, throwIf_eq_ok, utf8Length_eq_ok, pure_eq_ok, not_or,
      forEach_eq_ok, validatePathComponent_eq_ok, exists_const, not_not] at h
    obtain ⟨⟨hhead, -, -⟩, bytes, ⟨hunits, hbytes⟩, hle, hdepth, hcheck, rfl⟩ := h
    obtain ⟨rest, rfl⟩ : ∃ rest, path = slash :: rest := by
      cases path with
      | nil => simp at hhead
      | cons a rest => exact ⟨rest, by simpa using hhead⟩
    rw [List.tail_cons] at hcheck hdepth ⊢
    have hvalid : ∀ c ∈ rest.splitOn slash, ValidComponent c := fun c hc => by
      obtain ⟨_, h, _⟩ := hcheck c hc
      exact h
    have hne : rest.splitOn slash ≠ [] := List.splitOn_ne_nil _ _
    have hspell : spell (rest.splitOn slash) = slash :: rest := by
      rw [spell_eq_intercalate hne, List.intercalate_splitOn]
    refine ⟨hvalid, ⟨by omega, ?_⟩, .inr ⟨hne, hspell.symm⟩⟩
    have hsum := utf8Units_spell hvalid
    rw [hspell, hunits, hbytes] at hsum
    rw [pathBytes, ← Option.some.inj hsum]
    unfold maxPathBytes at hle ⊢
    omega

end Opfs
