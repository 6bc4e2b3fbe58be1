/-
Which names an archive keeps, and when an archive reads back.

A name of at most 99 bytes stands in its field whole.  A longer one is cut at the first slash that
leaves at most 99 bytes behind it.
-/
import Pgxsinkit.Tar.RoundTrip

namespace Tar

open Bytes Checked Unicode

/-! ### Cuts -/

theorem toChars_slash (before rest : Text) :
    toChars (before ++ slash :: rest) = toChars before ++ '/' :: toChars rest := by
  have hslash : ∀ rest : Text, toChars (slash :: rest) = '/' :: toChars rest := fun rest =>
    toChars_one (by decide) (by decide) rest
  induction before using toChars.induct with
  | case1 => rw [List.nil_append, hslash]; rfl
  | case2 u hhigh =>
    -- the slash is no second half
    rw [List.cons_append, List.nil_append, toChars, if_pos hhigh, toChars, if_pos hhigh]
    simp only [show isLow slash = false by decide, Bool.false_eq_true, if_false, hslash]
    rfl
  | case3 u hhigh v rest' hlow ih =>
    rw [List.cons_append, List.cons_append, toChars_pair hhigh hlow, toChars_pair hhigh hlow, ih,
      List.cons_append]
  | case4 u hhigh v rest' hlow ih =>
    rw [List.cons_append, List.cons_append, toChars, if_pos hhigh, if_neg hlow, toChars,
      if_pos hhigh, if_neg hlow, ← List.cons_append, ih, List.cons_append]
  | case5 u rest' hhigh hlow ih =>
    rw [List.cons_append, toChars.eq_def]
    simp only [hhigh, hlow, Bool.false_eq_true, if_false, if_true, ih]
    rw [toChars.eq_def (u :: rest')]
    simp only [hhigh, hlow, Bool.false_eq_true, if_false, if_true, List.cons_append]
  | case6 u rest' hhigh hlow ih =>
    rw [Bool.not_eq_true] at hhigh hlow
    rw [List.cons_append, toChars_one hhigh hlow, toChars_one hhigh hlow, ih, List.cons_append]

theorem toChars_eq_nil {value : Text} (h : toChars value = []) : value = [] := by
  revert h
  fun_cases toChars value with
  | case1 => exact fun _ => rfl
  | _ => exact fun h => absurd h (List.cons_ne_nil _ _)

theorem mem_cuts {name before rest : Text} (h : (before, rest) ∈ cuts name) :
    name = before ++ slash :: rest := by
  induction name generalizing before with
  | nil => cases h
  | cons unit name ih =>
    have hlater : (before, rest) ∈ (cuts name).map (fun cut => (unit :: cut.1, cut.2)) →
        unit :: name = before ++ slash :: rest := by
      intro hmem
      obtain ⟨⟨before', rest'⟩, hin, heq⟩ := List.mem_map.mp hmem
      rw [Prod.mk.injEq] at heq
      obtain ⟨rfl, rfl⟩ := heq
      rw [ih hin, List.cons_append]
    rw [cuts] at h
    split at h
    · rename_i hunit
      rcases List.mem_cons.mp h with heq | hmem
      · rw [Prod.mk.injEq] at heq
        rw [heq.1, heq.2, hunit, List.nil_append]
      · exact hlater hmem
    · exact hlater h

/-- A later cut comes behind a further slash. -/
theorem cuts_pairwise (name : Text) :
    (cuts name).Pairwise fun cut later => ∃ between, later.1 = cut.1 ++ slash :: between := by
  induction name with
  | nil => exact List.Pairwise.nil
  | cons unit name ih =>
    have hlater : ((cuts name).map fun cut => (unit :: cut.1, cut.2)).Pairwise
        fun cut later => ∃ between, later.1 = cut.1 ++ slash :: between := by
      rw [List.pairwise_map]
      refine ih.imp ?_
      rintro cut later ⟨between, h⟩
      exact ⟨between, congrArg (unit :: ·) h⟩
    rw [cuts]
    split
    · rename_i hunit
      refine List.pairwise_cons.mpr ⟨?_, hlater⟩
      intro later hmem
      obtain ⟨cut, -, rfl⟩ := List.mem_map.mp hmem
      exact ⟨cut.1, by rw [hunit]; rfl⟩
    · exact hlater

/-- Where a long name is cut: the first slash with at most 99 bytes behind it. -/
def cut? (name : Text) : Option (Text × Text) :=
  if (textEncode name).length < NAME_LENGTH then none
  else (cuts name).find? fun (_, rest) => (textEncode rest).length < NAME_LENGTH

theorem length_textEncode_slash (before rest : Text) :
    (textEncode (before ++ slash :: rest)).length =
      (textEncode before).length + (1 + (textEncode rest).length) := by
  rw [textEncode, toChars_slash, utf8_append, List.length_append, utf8_cons, List.length_append]
  rfl

/-- A name is stored whole or cut. -/
theorem splitName_eq_ok {name before rest : Text} (h : splitName name = .ok (before, rest)) :
    ((textEncode name).length < NAME_LENGTH ∧ before = [] ∧ rest = name) ∨
      cut? name = some (before, rest) := by
  unfold splitName at h
  split at h
  · rename_i hshort
    cases h
    exact .inl ⟨hshort, rfl, rfl⟩
  · rename_i hlong
    rw [orThrow_eq_ok, List.find?_eq_some_iff_append] at h
    obtain ⟨hfits, as, bs, hcuts, hfirst⟩ := h
    have hfits := of_decide_eq_true hfits
    refine .inr ?_
    rw [cut?, if_neg hlong, List.find?_eq_some_iff_append]
    refine ⟨decide_eq_true hfits.2, as, bs, hcuts, ?_⟩
    rintro ⟨before', rest'⟩ hmem
    -- what is before an earlier slash is shorter, and so fits as well
    have hpairwise := cuts_pairwise name
    rw [hcuts, List.pairwise_append] at hpairwise
    obtain ⟨between, hbetween⟩ := hpairwise.2.2 _ hmem _ List.mem_cons_self
    have hshorter := length_textEncode_slash before' between
    rw [← show before = before' ++ slash :: between from hbetween] at hshorter
    have hno := hfirst _ hmem
    rw [Bool.not_eq_true', decide_eq_false_iff_not] at hno ⊢
    intro hrest
    exact hno ⟨by omega, hrest⟩

/-! ### Names that are kept -/

/-- A name that is read as it was written: without NUL and without a byte order mark in front; and
where it is cut, with something before the slash and no byte order mark right behind it. -/
structure Kept (name : Text) : Prop where
  noNul : nul ∉ toChars name
  noMark : (toChars name).head? ≠ some bom
  cut : ∀ before rest, cut? name = some (before, rest) →
    before ≠ [] ∧ (toChars rest).head? ≠ some bom

theorem dropBom_sublist (cs : List Char) : (dropBom cs).Sublist cs := by
  cases cs with
  | nil => exact List.Sublist.refl []
  | cons c cs =>
    rw [dropBom]
    split
    · exact List.sublist_cons_self c cs
    · exact List.Sublist.refl _

/-- The characters that are read of a string field. -/
def keptChars (cs : List Char) : List Char := dropBom (cs.takeWhile (· ≠ nul))

theorem keptChars_sublist (cs : List Char) : (keptChars cs).Sublist cs :=
  (dropBom_sublist _).trans (List.takeWhile_sublist _)

theorem keptChars_eq_self {cs : List Char} :
    keptChars cs = cs ↔ nul ∉ cs ∧ cs.head? ≠ some bom := by
  constructor
  · intro h
    have hall : cs.takeWhile (· ≠ nul) = cs :=
      (List.takeWhile_sublist _).eq_of_length_le (by
        rw [← congrArg List.length h]
        exact (dropBom_sublist _).length_le)
    refine ⟨fun hmem => ?_, fun hhead => ?_⟩
    · rw [List.takeWhile_eq_self_iff] at hall
      exact of_decide_eq_true (hall nul hmem) rfl
    · rw [keptChars, hall] at h
      cases cs with
      | nil => cases hhead
      | cons c cs =>
        rw [dropBom, if_pos (Option.some.inj hhead)] at h
        exact absurd (congrArg List.length h) (by rw [List.length_cons]; omega)
  · rintro ⟨hnul, hhead⟩
    have hall : cs.takeWhile (· ≠ nul) = cs := by
      rw [List.takeWhile_eq_self_iff]
      exact fun c hc => decide_eq_true fun heq => hnul (heq ▸ hc)
    rw [keptChars, hall]
    cases cs with
    | nil => rfl
    | cons c cs => rw [dropBom, if_neg fun hc => hhead (congrArg some hc)]

/-- What is read of a name in two parts. -/
def joined (before rest : Text) : Text :=
  if cString (toChars before) = [] then cString (toChars rest)
  else cString (toChars before) ++ slash :: cString (toChars rest)

theorem ofChars_eq_nil {cs : List Char} : ofChars cs = [] ↔ cs = [] := by
  constructor
  · intro h
    exact ofChars_injective (h.trans (show [] = ofChars [] from rfl))
  · rintro rfl
    rfl

theorem toChars_joined (before rest : Text) : toChars (joined before rest) =
    if keptChars (toChars before) = [] then keptChars (toChars rest)
    else keptChars (toChars before) ++ '/' :: keptChars (toChars rest) := by
  have hkept : ∀ part, cString (toChars part) = ofChars (keptChars (toChars part)) := fun _ => rfl
  rw [joined, hkept, hkept, if_congr ofChars_eq_nil rfl rfl]
  split
  · exact toChars_ofChars _
  · rw [toChars_slash, toChars_ofChars, toChars_ofChars]

/-- The two parts of a cut name come together again when both are kept and the first is not
empty. -/
theorem joined_eq_iff {before rest : Text} :
    toChars (joined before rest) = toChars before ++ '/' :: toChars rest ↔
      before ≠ [] ∧ keptChars (toChars before) = toChars before ∧
        keptChars (toChars rest) = toChars rest := by
  have hbefore := keptChars_sublist (toChars before)
  have hrest := keptChars_sublist (toChars rest)
  rw [toChars_joined]
  constructor
  · intro h
    have hlen := congrArg List.length h
    split at hlen
    · rw [List.length_append, List.length_cons] at hlen
      have := hrest.length_le
      omega
    · rename_i hne
      rw [if_neg hne] at h
      rw [List.length_append, List.length_append, List.length_cons, List.length_cons] at hlen
      have hle := hbefore.length_le
      have hle' := hrest.length_le
      have hb := hbefore.eq_of_length (by omega)
      refine ⟨?_, hb, hrest.eq_of_length (by omega)⟩
      rintro rfl
      exact hne rfl
  · rintro ⟨hne, hb, hr⟩
    rw [hb, hr, if_neg fun hnil => hne (toChars_eq_nil hnil)]

theorem textEncode_eq_iff {value value' : Text} :
    textEncode value = textEncode value' ↔ toChars value = toChars value' :=
  ⟨fun h => utf8_injective h, fun h => congrArg utf8 h⟩

/-- A stored name is read as it was written iff it is kept. -/
theorem joined_kept_iff {name before rest : Text} (h : splitName name = .ok (before, rest)) :
    textEncode (joined before rest) = textEncode name ↔ Kept name := by
  rw [textEncode_eq_iff]
  rcases splitName_eq_ok h with ⟨hshort, rfl, rfl⟩ | hcut
  · have hwhole : toChars (joined [] rest) = keptChars (toChars rest) := by
      rw [toChars_joined]
      exact if_pos rfl
    have hnone : cut? rest = none := if_pos hshort
    rw [hwhole, keptChars_eq_self]
    constructor
    · rintro ⟨hnul, hmark⟩
      refine ⟨hnul, hmark, fun before rest' hsome => ?_⟩
      rw [hnone] at hsome
      cases hsome
    · exact fun hkept => ⟨hkept.noNul, hkept.noMark⟩
  · have hname : name = before ++ slash :: rest := by
      unfold cut? at hcut
      split at hcut
      · cases hcut
      · exact mem_cuts (List.mem_of_find?_eq_some hcut)
    have hchars : toChars name = toChars before ++ '/' :: toChars rest := by
      rw [hname, toChars_slash]
    have hhead : before ≠ [] → (toChars name).head? = (toChars before).head? := by
      intro hne
      rw [hchars, List.head?_append_of_ne_nil]
      exact fun hnil => hne (toChars_eq_nil hnil)
    have hmem : nul ∈ toChars name ↔ nul ∈ toChars before ∨ nul ∈ toChars rest := by
      have hslash : nul ≠ '/' := by decide
      rw [hchars, List.mem_append, List.mem_cons, or_iff_right hslash]
    rw [hchars, joined_eq_iff, keptChars_eq_self, keptChars_eq_self]
    constructor
    · rintro ⟨hne, ⟨hnul, hmark⟩, hnul', hmark'⟩
      refine ⟨?_, ?_, ?_⟩
      · rw [hmem, not_or]
        exact ⟨hnul, hnul'⟩
      · rwa [hhead hne]
      · intro before' rest' hcut'
        rw [hcut, Option.some.injEq, Prod.mk.injEq] at hcut'
        obtain ⟨rfl, rfl⟩ := hcut'
        exact ⟨hne, hmark'⟩
    · intro hkept
      obtain ⟨hne, hmark'⟩ := hkept.cut before rest hcut
      have hnul := hkept.noNul
      have hmark := hkept.noMark
      rw [hmem, not_or] at hnul
      rw [hhead hne] at hmark
      exact ⟨hne, ⟨hnul.1, hmark⟩, hnul.2, hmark'⟩

/-! ### Archives that read back -/

/-- The same member: the name byte for byte, the mode's permission bits, the time as stored, and
a file's bytes. -/
structure SameMember (entry back : TarEntry) : Prop where
  name : textEncode back.name = textEncode entry.name
  type : back.type = entry.type
  mode : back.mode = .ofNat (permissionBits entry.mode)
  mtimeSeconds : back.mtimeSeconds = storedTime entry.mtimeSeconds
  data : back.data = entry.payload

/-- An archive is read as its entries, and none of its strict prefixes is read. -/
structure ReadsBack (entries : List TarEntry) (archive : List UInt8) : Prop where
  whole : ∃ back, readTar archive = .ok back ∧ List.Forall₂ SameMember entries back
  short : ∀ n < archive.length, ∃ e, readTar (archive.take n) = .error e

theorem storedTime_eq {mtimeSeconds : JsNumber} {n : ℕ}
    (h : (storedTime mtimeSeconds).safeInteger? = some (n : ℤ)) :
    storedTime mtimeSeconds = .ofNat n := by
  have hwhole : ∀ q : ℚ, (JsNumber.finite false q).safeInteger? = some (n : ℤ) →
      JsNumber.finite false q = .ofNat n := by
    intro q hq
    rw [JsNumber.safeInteger?] at hq
    simp only [Bool.false_eq_true, if_false, Option.ite_none_right_eq_some, Option.some.injEq] at hq
    obtain ⟨⟨hden, -⟩, hnum⟩ := hq
    rw [JsNumber.ofNat, ← Rat.num_div_den q, hden, hnum, Int.cast_natCast, Nat.cast_one, div_one]
  rw [storedTime] at h ⊢
  generalize mtimeSeconds.floor = value at h ⊢
  rcases value with _ | ⟨_ | _⟩ | ⟨_ | _, q⟩
  · cases h
  · cases h
  · exact hwhole 0 h
  · exact hwhole q h
  · exact hwhole 0 h

theorem sameMember_iff {entry : TarEntry} {stored : Stored}
    (h : IsStored entry entry.payload.length stored) :
    SameMember entry (readBack stored entry) ↔ Kept entry.name := by
  rw [← joined_kept_iff h.name]
  constructor
  · exact fun hsame => hsame.name
  · intro hname
    exact ⟨hname, rfl, by rw [← h.mode]; rfl, (storedTime_eq h.mtime.1).symm, rfl⟩

theorem forall₂_sameMember_iff {entries : List TarEntry} {stored : List Stored}
    (h : AllStored entries stored) :
    List.Forall₂ SameMember entries (List.zipWith readBack stored entries) ↔
      ∀ entry ∈ entries, Kept entry.name := by
  induction h with
  | nil => exact ⟨fun _ _ h => (nomatch h), fun _ => .nil⟩
  | cons hs _ ih =>
    rw [List.zipWith_cons_cons, List.forall₂_cons, sameMember_iff hs, ih, List.forall_mem_cons]

/-- An archive reads back exactly when every name in it is kept. -/
theorem readsBack_iff {entries : List TarEntry} {archive : List UInt8}
    (h : writeTar entries = .ok archive) :
    ReadsBack entries archive ↔ ∀ entry ∈ entries, Kept entry.name := by
  obtain ⟨stored, hstored, rfl⟩ := writeTar_eq_ok.mp h
  rw [← forall₂_sameMember_iff hstored]
  constructor
  · rintro ⟨⟨back, hback, hsame⟩, -⟩
    rw [readTar_written hstored, Except.ok.injEq] at hback
    rwa [hback]
  · intro hsame
    exact ⟨⟨_, readTar_written hstored, hsame⟩, fun n hn => readTar_truncated h hn⟩

/-- A file whose name is a slash and 99 bytes behind it. -/
def leadingSlash : TarEntry where
  name := slash :: List.replicate 99 0x61
  type := .file
  mode := .ofNat 0o644
  mtimeSeconds := .ofNat 0
  data := []

/-- A whole number of seconds is stored as it is. -/
theorem storedTime_ofNat (n : ℕ) : storedTime (.ofNat n) = .ofNat n := by
  show JsNumber.finite false ((⌊(n : ℚ)⌋ : ℤ) : ℚ) = JsNumber.finite false n
  rw [Int.floor_natCast, Int.cast_natCast]

/-- A name of a hundred bytes that begins with a slash is cut there. -/
theorem splitName_leadingSlash {rest : Text} (h : (textEncode rest).length = 99) :
    splitName (slash :: rest) = .ok ([], rest) := by
  have hlen := length_textEncode_slash [] rest
  rw [List.nil_append, h] at hlen
  have hlong : ¬ (textEncode (slash :: rest)).length < NAME_LENGTH := by
    rw [hlen]
    decide
  have hfits : (textEncode []).length < PREFIX_LENGTH ∧ (textEncode rest).length < NAME_LENGTH := by
    rw [h]
    decide
  rw [splitName, if_neg hlong, cuts, if_pos rfl]
  simp only [List.find?_cons, hfits, and_self, decide_true]
  rfl

theorem leadingSlash_stored : IsStored leadingSlash leadingSlash.payload.length
    { before := [], rest := List.replicate 99 0x61, mode := permissionBits leadingSlash.mode
      size := 0, mtime := 0, type := .file } where
  name := splitName_leadingSlash (by decide +kernel)
  mode := rfl
  size := ⟨rfl, by decide⟩
  mtime := by
    show (storedTime (.ofNat 0)).safeInteger? = some ((0 : ℕ) : ℤ) ∧ 0 < 8 ^ 11
    rw [storedTime_ofNat, JsNumber.safeInteger?_ofNat]
    decide
  type := rfl

/-- The slash in front of such a name is lost. -/
theorem leadingSlash_lost :
    ∃ archive, writeTar [leadingSlash] = .ok archive ∧ ¬ ReadsBack [leadingSlash] archive := by
  have hall : AllStored [leadingSlash] _ := .cons leadingSlash_stored .nil
  refine ⟨_, writeTar_eq_ok.mpr ⟨_, hall, rfl⟩, ?_⟩
  rintro ⟨⟨back, hback, hsame⟩, -⟩
  rw [readTar_written hall, Except.ok.injEq] at hback
  rw [← hback] at hsame
  have hname := (List.forall₂_cons.mp hsame).1.name
  have hread : textEncode (joined [] (List.replicate 99 0x61)) = textEncode leadingSlash.name := hname
  exact absurd hread (by decide +kernel)

/-- A directory of the data directory. -/
def baseDirectory : TarEntry where
  name := text "/base"
  type := .directory
  mode := .ofNat 0o700
  mtimeSeconds := .ofNat 1700000000
  data := []

theorem baseDirectory_stored : IsStored baseDirectory baseDirectory.payload.length
    { before := [], rest := text "/base", mode := permissionBits baseDirectory.mode
      size := 0, mtime := 1700000000, type := .directory } where
  name := if_pos (by decide)
  mode := rfl
  size := ⟨rfl, by decide⟩
  mtime := by
    show (storedTime (.ofNat 1700000000)).safeInteger? = some ((1700000000 : ℕ) : ℤ) ∧
      1700000000 < 8 ^ 11
    rw [storedTime_ofNat, JsNumber.safeInteger?_ofNat]
    decide
  type := rfl

theorem baseDirectory_readsBack : ∃ archive, writeTar [baseDirectory] = .ok archive ∧
    (ReadsBack [baseDirectory] archive ↔ ∀ entry ∈ [baseDirectory], Kept entry.name) :=
  have hwritten := writeTar_eq_ok.mpr ⟨_, .cons baseDirectory_stored .nil, rfl⟩
  ⟨_, hwritten, readsBack_iff hwritten⟩

end Tar
