/-
The invariant of a store path.

What the record, the marker, the sentinel and the two backends may say together, and every write,
deletion and opening that keeps it, with what each of them asks for.
-/
import Pgxsinkit.Stores.Boot

namespace Stores

open Crash

/-- No other store than the exposed one, and none that was destroyed. -/
def Opening.Proper (o : Opening) : Prop :=
  o.store ∉ o.destroyed ∧ ∀ exposed, o.exposed = some exposed → exposed = (o.backend, o.store)

structure Coherent (s : Disk) : Prop where
  exposed_opfs : ∀ n, s.exposed = some (.opfsRepacked, n) →
    s.record = some .opfsCommitted ∧ s.storeDirectory = some (some n)
  exposed_idb : ∀ n, s.exposed = some (.idbfs, n) →
    (s.record = none ∨ s.record = some .idbAuthoritative) ∧ s.idbDatabase = some n
  committed : s.record = some .opfsCommitted →
    s.opfsDeletionPending = false ∧ ∃ n, s.storeDirectory = some (some n) ∧ n ∉ s.destroyed
  candidate : s.record = some .opfsCandidate →
    s.opfsDeletionPending = false ∧ ∀ n, s.storeDirectory = some (some n) → n ∉ s.destroyed
  recordless : s.record = none → s.opfsDeletionPending = false →
    s.sentinel = false ∧ s.storeDirectory.join = none
  database : ∀ n, s.idbDatabase = some n → n ∈ s.destroyed → s.record = some .deleting
  minted_opfs : ∀ n, s.storeDirectory = some (some n) → n < s.minted
  minted_idb : ∀ n, s.idbDatabase = some n → n < s.minted
  minted_destroyed : ∀ n ∈ s.destroyed, n < s.minted
  openings : ∀ o ∈ s.openings, o.Proper

namespace Coherent

variable {s : Disk}

theorem virgin : Coherent Disk.virgin where
  exposed_opfs _ h := nomatch h
  exposed_idb _ h := nomatch h
  committed h := nomatch h
  candidate h := nomatch h
  recordless _ _ := ⟨rfl, rfl⟩
  database _ h := nomatch h
  minted_opfs _ h := nomatch h
  minted_idb _ h := nomatch h
  minted_destroyed _ h := nomatch h
  openings _ h := nomatch h

/-- While the record is at `deleting` or at `opfs-candidate`, no store is exposed. -/
theorem unexposed (h : Coherent s)
    (hrecord : s.record = some .deleting ∨ s.record = some .opfsCandidate) :
    s.exposed = none := by
  cases hexposed : s.exposed with
  | none => rfl
  | some exposed =>
    obtain ⟨backend, n⟩ := exposed
    cases backend with
    | opfsRepacked =>
      have hcommitted := (h.exposed_opfs n hexposed).1
      rw [hcommitted] at hrecord
      exact absurd hrecord (by decide)
    | idbfs =>
      obtain hnone | hauthority := (h.exposed_idb n hexposed).1
      · rw [hnone] at hrecord
        exact absurd hrecord (by decide)
      · rw [hauthority] at hrecord
        exact absurd hrecord (by decide)

/-! ### One write or deletion more -/

theorem withoutSentinel (h : Coherent s) : Coherent { s with sentinel := false } :=
  { h with recordless := fun hrecord hpending => ⟨rfl, (h.recordless hrecord hpending).2⟩ }

theorem withoutDirectory (h : Coherent s) (hrecord : s.record ≠ some .opfsCommitted) :
    Coherent { s with storeDirectory := none } :=
  { h with
    exposed_opfs := fun n hexposed => absurd (h.exposed_opfs n hexposed).1 hrecord
    committed := fun hcommitted => absurd hcommitted hrecord
    candidate := fun hcandidate => ⟨(h.candidate hcandidate).1, fun _ hdir => nomatch hdir⟩
    recordless := fun hnone hpending => ⟨(h.recordless hnone hpending).1, rfl⟩
    minted_opfs := fun _ hdir => nomatch hdir }

theorem settled (h : Coherent s)
    (hopfs : s.record = none → s.sentinel = false ∧ s.storeDirectory.join = none) :
    Coherent { s with opfsDeletionPending := false } :=
  { h with
    committed := fun hrecord => ⟨rfl, (h.committed hrecord).2⟩
    candidate := fun hrecord => ⟨rfl, (h.candidate hrecord).2⟩
    recordless := fun hrecord _ => hopfs hrecord }

theorem pending (h : Coherent s) (hrecord : s.record = some .deleting) :
    Coherent { s with opfsDeletionPending := true } :=
  { h with
    committed := fun hcommitted => nomatch hrecord.symm.trans hcommitted
    candidate := fun hcandidate => nomatch hrecord.symm.trans hcandidate
    recordless := fun hnone => nomatch hrecord.symm.trans hnone }

theorem withoutDatabase (h : Coherent s) (hrecord : s.record = some .deleting) :
    Coherent { s with idbDatabase := none } :=
  { h with
    exposed_idb := fun _ hexposed =>
      nomatch (h.unexposed (.inl hrecord)).symm.trans hexposed
    database := fun _ hdb => nomatch hdb
    minted_idb := fun _ hdb => nomatch hdb }

theorem withoutRecord (h : Coherent s) (hrecord : s.record ≠ some .opfsCommitted)
    (hopfs : s.opfsDeletionPending = false → s.sentinel = false ∧ s.storeDirectory.join = none)
    (hdb : ∀ n, s.idbDatabase = some n → n ∉ s.destroyed) :
    Coherent { s with record := none } :=
  { h with
    exposed_opfs := fun n hexposed => absurd (h.exposed_opfs n hexposed).1 hrecord
    exposed_idb := fun n hexposed => ⟨.inl rfl, (h.exposed_idb n hexposed).2⟩
    committed := fun hcommitted => nomatch hcommitted
    candidate := fun hcandidate => nomatch hcandidate
    recordless := fun _ => hopfs
    database := fun n hmem hdestroyed => absurd hdestroyed (hdb n hmem) }

theorem idbAuthoritative (h : Coherent s) (hrecord : s.record ≠ some .opfsCommitted)
    (hdb : ∀ n, s.idbDatabase = some n → n ∉ s.destroyed) :
    Coherent { s with record := some .idbAuthoritative } :=
  { h with
    exposed_opfs := fun n hexposed => absurd (h.exposed_opfs n hexposed).1 hrecord
    exposed_idb := fun n hexposed => ⟨.inr rfl, (h.exposed_idb n hexposed).2⟩
    committed := fun hcommitted => nomatch hcommitted
    candidate := fun hcandidate => nomatch hcandidate
    recordless := fun hnone => nomatch hnone
    database := fun n hmem hdestroyed => absurd hdestroyed (hdb n hmem) }

/-- Nothing at all is stored under the path, so nothing is exposed. -/
theorem opfsCandidate (h : Coherent s) (hrecord : s.record = none)
    (hpending : s.opfsDeletionPending = false) (hdb : s.idbDatabase = none) :
    Coherent { s with record := some .opfsCandidate } :=
  { h with
    exposed_opfs := fun n hexposed => nomatch hrecord.symm.trans (h.exposed_opfs n hexposed).1
    exposed_idb := fun n hexposed => nomatch hdb.symm.trans (h.exposed_idb n hexposed).2
    committed := fun hcommitted => nomatch hcommitted
    candidate := fun _ => ⟨hpending, fun _ hdir =>
      nomatch (h.recordless hrecord hpending).2.symm.trans (Option.join_eq_some_iff.2 hdir)⟩
    recordless := fun hnone => nomatch hnone
    database := fun _ hmem => nomatch hdb.symm.trans hmem }

theorem withDirectory (h : Coherent s) (hrecord : s.record = some .opfsCandidate) :
    Coherent { s with storeDirectory := some s.storeDirectory.join } := by
  have hcontents : ∀ n, some s.storeDirectory.join = some (some n) →
      s.storeDirectory = some (some n) :=
    fun n heq => Option.join_eq_some_iff.1 (Option.some.inj heq)
  exact { h with
    exposed_opfs := fun n hexposed =>
      nomatch hrecord.symm.trans (h.exposed_opfs n hexposed).1
    committed := fun hcommitted => nomatch hrecord.symm.trans hcommitted
    candidate := fun _ => ⟨(h.candidate hrecord).1, fun n hdir =>
      (h.candidate hrecord).2 n (hcontents n hdir)⟩
    recordless := fun hnone => nomatch hrecord.symm.trans hnone
    minted_opfs := fun n hdir => h.minted_opfs n (hcontents n hdir) }

theorem withSentinel (h : Coherent s) (hrecord : s.record = some .opfsCandidate) :
    Coherent { s with sentinel := true } :=
  { h with recordless := fun hnone => nomatch hrecord.symm.trans hnone }

theorem opfsCommitted (h : Coherent s) (hrecord : s.record = some .opfsCandidate) {n : ℕ}
    (hdir : s.storeDirectory = some (some n)) :
    Coherent { s with record := some .opfsCommitted } :=
  { h with
    exposed_opfs := fun _ hexposed =>
      nomatch (h.unexposed (.inr hrecord)).symm.trans hexposed
    exposed_idb := fun _ hexposed =>
      nomatch (h.unexposed (.inr hrecord)).symm.trans hexposed
    committed := fun _ =>
      ⟨(h.candidate hrecord).1, n, hdir, (h.candidate hrecord).2 n hdir⟩
    candidate := fun hcandidate => nomatch hcandidate
    recordless := fun hnone => nomatch hnone
    database := fun n hmem hdestroyed =>
      nomatch hrecord.symm.trans (h.database n hmem hdestroyed) }

/-! ### Openings -/

theorem lt_max_of_lt {n minted store : ℕ} (h : n < minted) : n < max minted (store + 1) :=
  h.trans_le (le_max_left _ _)

/-- What is in the directory, or a number that nothing has yet, was not destroyed. -/
theorem getD_notMem {content : Option ℕ} (h : Coherent s)
    (hcontent : ∀ n, content = some n → n ∉ s.destroyed) :
    content.getD s.minted ∉ s.destroyed := by
  cases content with
  | none => exact fun hmem => absurd (h.minted_destroyed _ hmem) (lt_irrefl _)
  | some n => exact hcontent n rfl

theorem openedOpfs (h : Coherent s)
    (hrecord : s.record = some .opfsCandidate ∨ s.record = some .opfsCommitted) :
    Coherent ({ s with
      storeDirectory := some (some (s.storeDirectory.join.getD s.minted)) }.opened .opfsRepacked
        (s.storeDirectory.join.getD s.minted)) := by
  have hclean : s.storeDirectory.join.getD s.minted ∉ s.destroyed := by
    refine h.getD_notMem fun n hjoin => ?_
    have hdir := Option.join_eq_some_iff.1 hjoin
    obtain hrecord | hrecord := hrecord
    · exact (h.candidate hrecord).2 n hdir
    · obtain ⟨m, hm, hmem⟩ := (h.committed hrecord).2
      obtain rfl : n = m := Option.some.inj (Option.some.inj (hdir.symm.trans hm))
      exact hmem
  have hsame : ∀ n, s.exposed = some (.opfsRepacked, n) →
      s.storeDirectory.join.getD s.minted = n := by
    intro n hexposed
    rw [(h.exposed_opfs n hexposed).2]
    rfl
  refine { h with
    exposed_opfs := fun n hexposed =>
      ⟨(h.exposed_opfs n hexposed).1, congrArg (fun m => some (some m)) (hsame n hexposed)⟩
    committed := fun hcommitted => ⟨(h.committed hcommitted).1, _, rfl, hclean⟩
    candidate := fun hcandidate => ⟨(h.candidate hcandidate).1, fun n hdir => ?_⟩
    recordless := fun hnone => ?_
    minted_opfs := fun n hdir => ?_
    minted_idb := fun n hdb => lt_max_of_lt (h.minted_idb n hdb)
    minted_destroyed := fun n hmem => lt_max_of_lt (h.minted_destroyed n hmem)
    openings := fun o ho => ?_ }
  · obtain rfl := Option.some.inj (Option.some.inj hdir)
    exact hclean
  · change s.record = none at hnone
    rw [hnone] at hrecord
    exact absurd hrecord (by decide)
  · obtain rfl := Option.some.inj (Option.some.inj hdir)
    exact (Nat.lt_succ_self _).trans_le (le_max_right _ _)
  · obtain rfl | ho := List.mem_cons.1 ho
    · refine ⟨hclean, fun exposed hexposed => ?_⟩
      obtain ⟨backend, n⟩ := exposed
      cases backend with
      | opfsRepacked => exact congrArg _ (hsame n hexposed).symm
      | idbfs =>
        obtain hidb | hidb := (h.exposed_idb n hexposed).1 <;> rw [hidb] at hrecord <;>
          exact absurd hrecord (by decide)
    · exact h.openings o ho

theorem openedIdb (h : Coherent s)
    (hrecord : s.record = none ∨ s.record = some .idbAuthoritative) :
    Coherent ({ s with idbDatabase := some (s.idbDatabase.getD s.minted) }.opened .idbfs
      (s.idbDatabase.getD s.minted)) := by
  have hclean : s.idbDatabase.getD s.minted ∉ s.destroyed := by
    refine h.getD_notMem fun n hdb hmem => ?_
    rw [h.database n hdb hmem] at hrecord
    exact absurd hrecord (by decide)
  have hsame : ∀ n, s.exposed = some (.idbfs, n) → s.idbDatabase.getD s.minted = n := by
    intro n hexposed
    rw [(h.exposed_idb n hexposed).2]
    rfl
  refine { h with
    exposed_idb := fun n hexposed =>
      ⟨(h.exposed_idb n hexposed).1, congrArg _ (hsame n hexposed)⟩
    database := fun n hdb hmem => ?_
    minted_opfs := fun n hdir => lt_max_of_lt (h.minted_opfs n hdir)
    minted_idb := fun n hdb => ?_
    minted_destroyed := fun n hmem => lt_max_of_lt (h.minted_destroyed n hmem)
    openings := fun o ho => ?_ }
  · obtain rfl := Option.some.inj hdb
    exact absurd hmem hclean
  · obtain rfl := Option.some.inj hdb
    exact (Nat.lt_succ_self _).trans_le (le_max_right _ _)
  · obtain rfl | ho := List.mem_cons.1 ho
    · refine ⟨hclean, fun exposed hexposed => ?_⟩
      obtain ⟨backend, n⟩ := exposed
      cases backend with
      | idbfs => exact congrArg _ (hsame n hexposed).symm
      | opfsRepacked =>
        rw [(h.exposed_opfs n hexposed).1] at hrecord
        exact absurd hrecord (by decide)
    · exact h.openings o ho

theorem exposedOpfs (h : Coherent s) (hrecord : s.record = some .opfsCommitted) {n : ℕ}
    (hdir : s.storeDirectory = some (some n)) :
    Coherent { s with exposed := some (.opfsRepacked, n) } :=
  { h with
    exposed_opfs := fun m hexposed => by
      obtain rfl : n = m := (Prod.mk.inj (Option.some.inj hexposed)).2
      exact ⟨hrecord, hdir⟩
    exposed_idb := fun m hexposed => nomatch (Prod.mk.inj (Option.some.inj hexposed)).1 }

theorem exposedIdb (h : Coherent s)
    (hrecord : s.record = none ∨ s.record = some .idbAuthoritative) {n : ℕ}
    (hdb : s.idbDatabase = some n) : Coherent { s with exposed := some (.idbfs, n) } :=
  { h with
    exposed_opfs := fun m hexposed => nomatch (Prod.mk.inj (Option.some.inj hexposed)).1
    exposed_idb := fun m hexposed => by
      obtain rfl : n = m := (Prod.mk.inj (Option.some.inj hexposed)).2
      exact ⟨hrecord, hdb⟩ }

theorem authorized (h : Coherent s) : Coherent { s with record := some .deleting }.authorize :=
  { h with
    exposed_opfs := fun _ hexposed => nomatch hexposed
    exposed_idb := fun _ hexposed => nomatch hexposed
    committed := fun hcommitted => nomatch hcommitted
    candidate := fun hcandidate => nomatch hcandidate
    recordless := fun hnone => nomatch hnone
    database := fun _ _ _ => rfl
    minted_destroyed := fun n hmem => by
      obtain hmem | hmem := List.mem_append.1 hmem
      · obtain hmem | hmem := List.mem_append.1 hmem
        · exact h.minted_opfs n (Option.join_eq_some_iff.1 (Option.mem_toList.1 hmem))
        · exact h.minted_idb n (Option.mem_toList.1 hmem)
      · exact h.minted_destroyed n hmem }

end Coherent

end Stores
