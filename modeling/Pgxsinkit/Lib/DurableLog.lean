/-
A log of framed records at the end of a file whose writes may be lost.

A session begins with the log that it has read, and whatever stands behind it; it appends frames, and a crash
may cut them anywhere (`Session`).  `Session.reopen`: what a reader finds after a crash is the log that the
session began with and the first of the records that it appended, so the state that it comes to is one that
the session went through.
-/
import Pgxsinkit.Lib.DurableFile
import Pgxsinkit.Lib.FramedLog

namespace DurableLog

open DurableFile FramedLog

variable {A R S : Type*} (format : Format A R) (apply : S → R → Option S) (blank : A) (base : List A) (start : Place)
  (first : S)

/-- A file in a session: behind the base stands the log `kept` that the session began with, and `garbage` until it
is cut off or overwritten; then the frames of `added`, which a crash may cut.  The property is that of the states
that the session went through. -/
structure Session (file : File A) (passed : S → Prop) (kept : List R) (mid : S) (garbage : List A) (added : List R)
    (final : S) : Prop where
  settled : Longest format apply start first (frames format start.number kept ++ garbage) kept mid garbage
  appended : Reads format apply (start.after format kept) mid (frames format (start.number + kept.length) added)
    added final []
  through : ∀ whole torn state, added = whole ++ torn → whole.foldlM apply mid = some state → passed state
  survivors : ∀ image, file.Survives blank image → image = base ++ (frames format start.number kept ++ garbage) ∨
    ∃ n, image = base ++ (frames format start.number kept ++
      (frames format (start.number + kept.length) added).take n)

variable {format apply blank base start first}
variable {file : File A} {passed passed' : S → Prop} {kept added : List R} {mid final target : S} {garbage image : List A}
  {record : R}

namespace Session

theorem mono (h : Session format apply blank base start first file passed kept mid garbage added final)
    (hpassed : ∀ state, passed state → passed' state) :
    Session format apply blank base start first file passed' kept mid garbage added final :=
  { h with through := fun whole torn state hadded hstate => hpassed _ (h.through whole torn state hadded hstate) }

/-- What was appended goes on where the log ended. -/
theorem whole (h : Session format apply blank base start first file passed kept mid garbage added final) :
    Reads format apply start first (frames format start.number (kept ++ added)) (kept ++ added) final [] := by
  have hkept := h.settled.reads.1.change_rest (frames format (start.number + kept.length) added)
  rw [frames_append]
  exact hkept.append h.appended

theorem passed_final (h : Session format apply blank base start first file passed kept mid garbage added final) :
    passed final :=
  h.through added [] final (List.append_nil _).symm h.appended.foldlM

theorem passed_mid (h : Session format apply blank base start first file passed kept mid garbage added final) :
    passed mid :=
  h.through [] added mid rfl rfl

/-- A session begins with what is read. -/
theorem opened (blank : A) (base : List A)
    (hread : Longest format apply start first (frames format start.number kept ++ garbage) kept mid garbage)
    (hpassed : passed mid) : Session format apply blank base start first
      ⟨base ++ (frames format start.number kept ++ garbage), []⟩ passed kept mid garbage [] mid where
  settled := hread
  appended := .nil _ _ []
  through := by
    intro whole torn state hadded hstate
    obtain ⟨rfl, rfl⟩ := List.append_eq_nil_iff.mp hadded.symm
    obtain rfl := Option.some.inj hstate
    exact hpassed
  survivors image hsurvives := .inl (survives_flushed.mp hsurvives)

/-- The bytes behind the log are cut off before anything is appended. -/
theorem discard (h : Session format apply blank base start first
      ⟨base ++ (frames format start.number kept ++ garbage), []⟩ passed kept mid garbage [] mid) :
    Session format apply blank base start first ((⟨base ++ (frames format start.number kept ++ garbage), []⟩ : File A).add
      (.truncate (base.length + (frames format start.number kept).length))) passed kept mid garbage [] mid := by
  refine { h with survivors := fun image hsurvives => ?_ }
  have hcut : truncateTo blank (base ++ (frames format start.number kept ++ garbage))
      (base.length + (frames format start.number kept).length) = base ++ frames format start.number kept := by
    rw [truncateTo_of_le (by simp only [List.length_append]; omega), ← List.append_assoc,
      List.take_left' (List.length_append)]
  rcases survives_add hsurvives with hbefore | hwhole | ⟨length, htorn⟩
  · exact h.survivors image hbefore
  · refine .inr ⟨0, ?_⟩
    rw [List.take_zero, List.append_nil, ← hcut]
    exact hwhole
  · -- a truncation is not cut
    refine .inr ⟨0, ?_⟩
    rw [List.take_zero, List.append_nil, ← hcut]
    exact htorn

/-- A write at the end of the log, whole or cut short. -/
theorem write (h : Session format apply blank base start first file passed kept mid garbage added final)
    (hcontent : file.content blank = base ++ frames format start.number (kept ++ added))
    (hfits : format.Fits (start.after format (kept ++ added)) record) (happly : apply final record = some target)
    (htarget : passed target) (length : ℕ) :
    Session format apply blank base start first
      (file.add (.write (file.content blank).length
        ((format.frame (start.after format (kept ++ added)).number record).take length)))
      passed kept mid garbage (added ++ [record]) target := by
  have hnumber : (start.after format (kept ++ added)).number = start.number + kept.length + added.length := by
    rw [number_after, List.length_append]
    omega
  have hframes : frames format (start.number + kept.length) (added ++ [record]) =
      frames format (start.number + kept.length) added ++
        format.frame (start.number + kept.length + added.length) record := by
    rw [frames_append, frames, frames, List.append_nil]
  have hplace : (start.after format kept).number = start.number + kept.length := number_after _ _
  refine { settled := h.settled, appended := ?_, through := ?_, survivors := ?_ }
  · have hread := h.appended.concat (by rw [← after_append]; exact hfits) happly
    rwa [hplace] at hread
  · -- the states are those from before, and the target
    intro whole torn state hadded hstate
    rcases torn.eq_nil_or_concat with rfl | ⟨before, last, rfl⟩
    · rw [List.append_nil] at hadded
      rw [← hadded, List.foldlM_append, h.appended.foldlM] at hstate
      simp only [List.foldlM_cons, List.foldlM_nil, Option.bind_eq_bind, Option.bind_some, happly] at hstate
      exact Option.some.inj hstate ▸ htarget
    · rw [List.concat_eq_append, ← List.append_assoc] at hadded
      exact h.through whole before state (List.append_inj_left' hadded rfl) hstate
  · intro image hsurvives
    have htorn : ∀ n, writeAt blank (file.content blank) (file.content blank).length
        ((format.frame (start.after format (kept ++ added)).number record).take n) =
          base ++ (frames format start.number kept ++ (frames format (start.number + kept.length) (added ++ [record])).take
            ((frames format (start.number + kept.length) added).length + n)) := by
      intro n
      rw [writeAt_end, hcontent, hnumber, hframes, List.take_length_add_append, frames_append]
      simp only [List.append_assoc]
    rcases survives_add hsurvives with hbefore | hwhole | ⟨n, hcut⟩
    · rcases h.survivors image hbefore with hgarbage | ⟨n, rfl⟩
      · exact .inl hgarbage
      · refine .inr ⟨min n (frames format (start.number + kept.length) added).length, ?_⟩
        rw [hframes, List.take_append_of_le_length (Nat.min_le_right _ _), ← List.take_take, List.take_length]
    · exact .inr ⟨_, hwhole.trans (htorn length)⟩
    · have hcut' := htorn (min n length)
      rw [← List.take_take] at hcut'
      exact .inr ⟨_, hcut.trans hcut'⟩

theorem write_whole (h : Session format apply blank base start first file passed kept mid garbage added final)
    (hcontent : file.content blank = base ++ frames format start.number (kept ++ added))
    (hfits : format.Fits (start.after format (kept ++ added)) record) (happly : apply final record = some target)
    (htarget : passed target) :
    Session format apply blank base start first
      (file.add (.write (file.content blank).length (format.frame (start.after format (kept ++ added)).number record)))
      passed kept mid garbage (added ++ [record]) target := by
  have hwrite := h.write hcontent hfits happly htarget
    (format.frame (start.after format (kept ++ added)).number record).length
  rwa [List.take_length] at hwrite

/-- A flush settles what was appended. -/
theorem flush (h : Session format apply blank base start first file passed kept mid garbage added final)
    (hcontent : file.content blank = base ++ frames format start.number (kept ++ added)) (hpassed : passed' final)
    (hne : ∀ number record, format.frame number record ≠ []) :
    Session format apply blank base start first (file.flush blank) passed' (kept ++ added) final [] [] final := by
  have hsettled : Longest format apply start first (frames format start.number (kept ++ added) ++ []) (kept ++ added)
      final [] := by
    rw [List.append_nil, longest_iff]
    exact ⟨h.whole, stops_nil (hne _)⟩
  have hopened := opened blank base hsettled hpassed
  rw [List.append_nil, ← hcontent] at hopened
  exact hopened

/-- What is read after a crash. -/
theorem reopen (h : Session format apply blank base start first file passed kept mid garbage added final)
    (hne : ∀ number record, format.frame number record ≠ []) (hsurvives : file.Survives blank image) :
    ∃ kept' mid' garbage', image = base ++ (frames format start.number kept' ++ garbage') ∧
      Longest format apply start first (frames format start.number kept' ++ garbage') kept' mid' garbage' ∧ passed mid' ∧
      (frames format start.number kept' ++ garbage').length ≤
        max (frames format start.number kept ++ garbage).length (frames format start.number (kept ++ added)).length := by
  rcases h.survivors image hsurvives with rfl | ⟨n, rfl⟩
  · exact ⟨kept, mid, garbage, rfl, h.settled, h.passed_mid, le_max_left _ _⟩
  · obtain ⟨whole, torn, mid', rest, hadded, hlongest, -⟩ := h.appended.cut hne n
    have hread := (h.settled.reads.1.change_rest _).longest hlongest
    have hbytes := hread.reads.1.bytes_eq
    refine ⟨kept ++ whole, mid', rest, ?_, ?_, ?_, ?_⟩
    · rw [hbytes]
    · rw [← hbytes]
      exact hread
    · exact h.through whole torn mid' hadded hlongest.reads.1.foldlM
    · refine le_max_of_le_right ?_
      have htake := (List.take_prefix n (frames format (start.number + kept.length) added)).length_le
      rw [← hbytes, frames_append, List.length_append, List.length_append]
      omega

end Session

end DurableLog
