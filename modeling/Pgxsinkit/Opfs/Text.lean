/-
The scan of `utf8Length` is the encoder's: a name that the scan accepts is the UTF-16 of
its scalar values and the scan counts the bytes `TextEncoder` writes for it.

The decoder reads every such name back, but for one that begins with U+FEFF: `TextDecoder`
takes that for a byte order mark and drops it.  `NoMark` is the absence of such a start.
-/
import Pgxsinkit.Lib.Unicode
import Pgxsinkit.Opfs.Path

namespace Opfs

open Unicode

/-- The string does not begin with U+FEFF. -/
def NoMark (value : JsString) : Prop := value.head? ≠ some 0xfeff

instance (value : JsString) : Decidable (NoMark value) := by
  unfold NoMark; infer_instance

theorem length_utf8EncodeChar (c : Char) :
    (String.utf8EncodeChar c).length =
      if c.toNat ≤ 0x7f then 1 else if c.toNat ≤ 0x7ff then 2
      else if c.toNat ≤ 0xffff then 3 else 4 := by
  rw [String.length_utf8EncodeChar]
  simp only [Char.utf8Size, UInt32.le_iff_toNat_le]
  rfl

theorem utf8Units_units (c : Char) :
    utf8Units (units c) = some (String.utf8EncodeChar c).length := by
  obtain ⟨hmax, hs⟩ := char_bounds c
  rw [length_utf8EncodeChar, units]
  by_cases hlt : c.toNat < 0x10000
  · have hn := toNat_ofNat_of_lt hlt
    have hhigh : ¬ isHighSurrogate (UInt16.ofNat c.toNat) = true := by
      intro h
      have := isHigh_iff.mp h
      omega
    have hlow : ¬ isLowSurrogate (UInt16.ofNat c.toNat) = true := by
      intro h
      have := isLow_iff.mp h
      omega
    have h7 : UInt16.ofNat c.toNat ≤ 0x7f ↔ c.toNat ≤ 0x7f := by
      rw [UInt16.le_iff_toNat_le, hn]
      rfl
    have h11 : UInt16.ofNat c.toNat ≤ 0x7ff ↔ c.toNat ≤ 0x7ff := by
      rw [UInt16.le_iff_toNat_le, hn]
      rfl
    rw [if_pos hlt]
    by_cases h1 : c.toNat ≤ 0x7f
    · rw [utf8Units_one _ (h7.mpr h1), if_pos h1]
      rfl
    · by_cases h2 : c.toNat ≤ 0x7ff
      · rw [utf8Units_two _ (mt h7.mp h1) (h11.mpr h2), if_neg h1, if_pos h2]
        rfl
      · rw [utf8Units_three _ (mt h7.mp h1) (mt h11.mp h2) hhigh hlow, if_neg h1, if_neg h2,
          if_pos (by omega)]
        rfl
  · have hu : (UInt16.ofNat (0xd800 + (c.toNat - 0x10000) / 0x400)).toNat =
        0xd800 + (c.toNat - 0x10000) / 0x400 := toNat_ofNat_of_lt (by omega)
    have hv : (UInt16.ofNat (0xdc00 + (c.toNat - 0x10000) % 0x400)).toNat =
        0xdc00 + (c.toNat - 0x10000) % 0x400 := toNat_ofNat_of_lt (by omega)
    have hhigh : isHighSurrogate (UInt16.ofNat (0xd800 + (c.toNat - 0x10000) / 0x400)) = true := by
      refine isHigh_iff.mpr ?_
      omega
    have hlow : isLowSurrogate (UInt16.ofNat (0xdc00 + (c.toNat - 0x10000) % 0x400)) = true := by
      refine isLow_iff.mpr ?_
      omega
    have hbig : ∀ bound : UInt16, bound.toNat ≤ 0x7ff →
        ¬ UInt16.ofNat (0xd800 + (c.toNat - 0x10000) / 0x400) ≤ bound := by
      intro bound hbound
      rw [UInt16.le_iff_toNat_le, hu]
      omega
    rw [if_neg hlt, utf8Units_pair _ (hbig 0x7f (by decide)) (hbig 0x7ff (by decide)) hhigh hlow,
      if_neg (by omega), if_neg (by omega), if_neg (by omega)]
    rfl

theorem utf8Units_ofChars (cs : List Char) : utf8Units (ofChars cs) = some (utf8 cs).length := by
  induction cs with
  | nil => simp [ofChars, utf8, utf8Units]
  | cons c cs ih =>
    show utf8Units (units c ++ ofChars cs) = _
    rw [utf8Units_append (utf8Units_units c), ih, Option.map_some, utf8_cons, List.length_append]

theorem not_surrogate {u : UInt16} (h : u ≤ 0x7ff) : isHigh u = false ∧ isLow u = false := by
  rw [UInt16.le_iff_toNat_le] at h
  have hbound : (0x7ff : UInt16).toNat = 0x7ff := by decide
  simp only [Bool.eq_false_iff, Ne, isHigh_iff, isLow_iff]
  omega

theorem ofChars_toChars_one {u : UInt16} {rest : JsString} (hhigh : isHigh u = false)
    (hlow : isLow u = false) (h : ofChars (toChars rest) = rest) :
    ofChars (toChars (u :: rest)) = u :: rest := by
  rw [toChars_one hhigh hlow]
  show units _ ++ ofChars _ = _
  rw [units_one hhigh hlow, h]
  rfl

/-- What the scan accepts is the UTF-16 of its scalar values. -/
theorem ofChars_toChars {value : JsString} {n : Nat} (h : utf8Units value = some n) :
    ofChars (toChars value) = value := by
  induction value using utf8Units.induct generalizing n with
  | case1 => rfl
  | case2 u rest hu ih =>
    rw [utf8Units_one _ hu, Option.map_eq_some_iff] at h
    obtain ⟨m, hm, -⟩ := h
    obtain ⟨hhigh, hlow⟩ := not_surrogate (UInt16.le_trans hu (by decide))
    exact ofChars_toChars_one hhigh hlow (ih hm)
  | case3 u rest h1 h2 ih =>
    rw [utf8Units_two _ h1 h2, Option.map_eq_some_iff] at h
    obtain ⟨m, hm, -⟩ := h
    obtain ⟨hhigh, hlow⟩ := not_surrogate h2
    exact ofChars_toChars_one hhigh hlow (ih hm)
  | case4 u h1 h2 h3 => simp [utf8Units, h1, h2, h3] at h
  | case5 u h1 h2 h3 next rest hn ih =>
    rw [utf8Units_pair _ h1 h2 h3 hn, Option.map_eq_some_iff] at h
    obtain ⟨m, hm, -⟩ := h
    rw [toChars_pair h3 hn]
    show units _ ++ ofChars _ = _
    rw [units_pair h3 hn, ih hm]
    rfl
  | case6 u h1 h2 h3 next rest hn => simp [utf8Units, h1, h2, h3, hn] at h
  | case7 u rest h1 h2 h3 h4 => cases rest <;> simp [utf8Units, h1, h2, h3, h4] at h
  | case8 u rest h1 h2 h3 h4 ih =>
    rw [utf8Units_three _ h1 h2 h3 h4, Option.map_eq_some_iff] at h
    obtain ⟨m, hm, -⟩ := h
    exact ofChars_toChars_one (Bool.eq_false_iff.mpr h3) (Bool.eq_false_iff.mpr h4) (ih hm)

/-- The scan counts the bytes of the encoder. -/
theorem length_textEncode {value : JsString} {n : Nat} (h : utf8Units value = some n) :
    (textEncode value).length = n := by
  have hscan := utf8Units_ofChars (toChars value)
  rw [ofChars_toChars h, h] at hscan
  rw [textEncode, Option.some.inj hscan]

theorem utf8Units_pos {value : JsString} {n : Nat} (h : utf8Units value = some n)
    (hne : value ≠ []) : 0 < n := by
  obtain _ | ⟨u, rest⟩ := value
  · exact absurd rfl hne
  · by_contra hzero
    have hnil : textEncode (u :: rest) = [] := by
      rw [← List.length_eq_zero_iff, length_textEncode h]
      omega
    have hchars : toChars (u :: rest) = [] := by
      exact utf8_injective hnil
    have hback := ofChars_toChars h
    rw [hchars] at hback
    cases hback

theorem head?_units_eq_mark {c : Char} {rest : List UInt16} :
    (units c ++ rest).head? = some 0xfeff ↔ c = bom := by
  have hbom : bom.toNat = 0xfeff := by decide
  have hmark : (0xfeff : UInt16).toNat = 0xfeff := by decide
  obtain ⟨hmax, hs⟩ := char_bounds c
  unfold units
  split
  · rename_i hlt
    rw [List.singleton_append, List.head?_cons, Option.some.injEq, ← UInt16.toNat_inj,
      toNat_ofNat_of_lt hlt, hmark, ← hbom, Char.toNat_inj]
  · rename_i hge
    rw [List.cons_append, List.head?_cons, Option.some.injEq, ← UInt16.toNat_inj,
      toNat_ofNat_of_lt (by omega), hmark, ← Char.toNat_inj, hbom]
    omega

theorem noMark_ofChars {cs : List Char} : NoMark (ofChars cs) ↔ cs.head? ≠ some bom := by
  cases cs with
  | nil => simp [NoMark, ofChars]
  | cons c cs =>
    show (units c ++ ofChars cs).head? ≠ some 0xfeff ↔ _
    rw [Ne, head?_units_eq_mark, List.head?_cons, Ne, Option.some.injEq]

/-- The byte strings that decode to a string of the same encoded length. -/
theorem textDecode_eq_some {bytes : List UInt8} {value : JsString} :
    textDecode bytes = some value ∧ (textEncode value).length = bytes.length ↔
      (utf8Units value).isSome = true ∧ NoMark value ∧ bytes = textEncode value := by
  rw [textDecode_exact]
  constructor
  · rintro ⟨cs, hbom, rfl, rfl⟩
    rw [utf8Units_ofChars, textEncode_ofChars]
    exact ⟨rfl, noMark_ofChars.mpr hbom, rfl⟩
  · rintro ⟨hsome, hmark, rfl⟩
    obtain ⟨n, hn⟩ := Option.isSome_iff_exists.mp hsome
    rw [← ofChars_toChars hn] at hmark
    exact ⟨toChars value, noMark_ofChars.mp hmark, (ofChars_toChars hn).symm, rfl⟩

end Opfs
