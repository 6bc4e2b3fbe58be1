/-
Lists of keyed rows, their differences, and the other side that follows them.

A list is compared with the rows before it, by key, and what is new, changed or gone is sent with the
order of the keys.  The other side puts its list together from that.  A row that is `equal` to the one
before it is not sent, so the other side still has the one it was first sent.
-/
import Pgxsinkit.Lib.OrdMap

namespace KeyedDiff

variable {K R : Type} [DecidableEq K]

structure Diff (K R : Type) where
  order : List K
  added : List (K × R)
  changed : List (K × R)
  removed : List K

/-- What a loop over the list has gathered. -/
structure Scan (K R : Type) where
  order : List K
  added : List (K × R)
  changed : List (K × R)
  next : OrdMap K R

section

variable (equal : R → R → Bool) (previous : OrdMap K R)

/-- The next row; only the first of a key counts. -/
def Scan.visit (scan : Scan K R) (entry : K × R) : Scan K R :=
  if scan.next.has entry.1 then scan
  else
    let scan := { scan with next := scan.next.set entry.1 entry.2, order := scan.order ++ [entry.1] }
    match previous.get? entry.1 with
    | none => { scan with added := scan.added ++ [entry] }
    | some prior =>
      if equal prior entry.2 then scan else { scan with changed := scan.changed ++ [entry] }

/-- The differences to the rows before, and the rows to compare with next time. -/
def diff (entries : List (K × R)) : Diff K R × OrdMap K R :=
  let scan := entries.foldl (Scan.visit equal previous) ⟨[], [], [], OrdMap.empty⟩
  let removed := previous.keys.filter fun key => !scan.next.has key
  (⟨scan.order, scan.added, scan.changed, removed⟩, scan.next)

end

/-- A first list, whose last row of a key counts. -/
def seed (entries : List (K × R)) : OrdMap K R :=
  entries.foldl (fun byKey e => byKey.set e.1 e.2) OrdMap.empty

/-- The other side, with the list it shows. -/
def fold (byKey : OrdMap K R) (diff : Diff K R) : OrdMap K R × List R :=
  let byKey := diff.removed.foldl OrdMap.delete byKey
  let byKey := diff.added.foldl (fun byKey e => byKey.set e.1 e.2) byKey
  let byKey := diff.changed.foldl (fun byKey e => byKey.set e.1 e.2) byKey
  (byKey, diff.order.filterMap byKey.get?)

/-! ### The differences of a list without a key twice -/

section

variable {equal : R → R → Bool} {previous : OrdMap K R}

def isNew (previous : OrdMap K R) (e : K × R) : Bool := (previous.get? e.1).isNone

def isChanged (equal : R → R → Bool) (previous : OrdMap K R) (e : K × R) : Bool :=
  (previous.get? e.1).any fun prior => !equal prior e.2

theorem visit_new {scan : Scan K R} {e : K × R} (h : scan.next.get? e.1 = none) :
    scan.visit equal previous e =
      { order := scan.order ++ [e.1]
        added := scan.added ++ [e].filter (isNew previous)
        changed := scan.changed ++ [e].filter (isChanged equal previous)
        next := scan.next.set e.1 e.2 } := by
  rw [Scan.visit, if_neg (by simp [OrdMap.has, h])]
  cases hprior : previous.get? e.1 with
  | none => simp [isNew, isChanged, hprior]
  | some prior => cases hequal : equal prior e.2 <;> simp [isNew, isChanged, hprior, hequal]

/-- The loop, from wherever it is; no key is met twice. -/
theorem foldl_visit (equal : R → R → Bool) (previous : OrdMap K R) {entries : List (K × R)} (scan : Scan K R)
    (h : ((scan.next.entries ++ entries).map Prod.fst).Nodup) :
    let result := entries.foldl (Scan.visit equal previous) scan
    result.order = scan.order ++ entries.map Prod.fst ∧
      result.added = scan.added ++ entries.filter (isNew previous) ∧
      result.changed = scan.changed ++ entries.filter (isChanged equal previous) ∧
      result.next.entries = scan.next.entries ++ entries := by
  induction entries generalizing scan with
  | nil => simp
  | cons e entries ih =>
    have hnew : scan.next.get? e.1 = none := by
      rw [OrdMap.get?_eq_none_iff]
      rw [List.map_append, List.map_cons] at h
      exact fun hmem => (List.nodup_append.mp h).2.2 _ hmem _ List.mem_cons_self rfl
    have hentries := OrdMap.entries_set_of_none hnew e.2
    have hrest := ih (scan.visit equal previous e) (by
      rw [visit_new hnew, hentries, List.append_assoc]
      exact h)
    rw [visit_new hnew] at hrest
    dsimp only at hrest
    rw [hentries] at hrest
    obtain ⟨horder, hadded, hchanged, hnext⟩ := hrest
    have hcons : e :: entries = [e] ++ entries := rfl
    rw [List.foldl_cons, visit_new hnew, hcons, List.filter_append, List.filter_append]
    refine ⟨horder.trans ?_, hadded.trans ?_, hchanged.trans ?_, hnext.trans ?_⟩ <;>
      simp only [List.map_append, List.map_cons, List.map_nil, List.append_assoc]

theorem diff_eq (equal : R → R → Bool) (previous : OrdMap K R) {entries : List (K × R)}
    (h : (entries.map Prod.fst).Nodup) :
    ∃ next : OrdMap K R, next.entries = entries ∧ diff equal previous entries =
      ({ order := entries.map Prod.fst
         added := entries.filter (isNew previous)
         changed := entries.filter (isChanged equal previous)
         removed := previous.keys.filter fun key => !next.has key }, next) := by
  have hvisit := foldl_visit equal previous ⟨[], [], [], OrdMap.empty⟩ h
  unfold diff
  generalize entries.foldl (Scan.visit equal previous) _ = scan at hvisit
  obtain ⟨horder, hadded, hchanged, hnext⟩ := hvisit
  refine ⟨scan.next, hnext, ?_⟩
  dsimp only
  rw [horder, hadded, hchanged]
  rfl

theorem diff_next (equal : R → R → Bool) (previous : OrdMap K R) {entries : List (K × R)}
    (h : (entries.map Prod.fst).Nodup) :
    (diff equal previous entries).2.entries = entries := by
  obtain ⟨next, hnext, hdiff⟩ := diff_eq equal previous h
  rw [hdiff]
  exact hnext

end

/-! ### The other side -/

/-- The other side has a row for each key, and it is the `Same`. -/
def Follows (Same : R → R → Prop) (byKey previous : OrdMap K R) : Prop :=
  ∀ key, Option.Rel Same (byKey.get? key) (previous.get? key)

section

variable {equal : R → R → Bool} {Same : R → R → Prop} {byKey previous : OrdMap K R}
  {entries : List (K × R)}

/-- The row of a key, after the differences. -/
theorem get?_fold (h : (entries.map Prod.fst).Nodup) {e : K × R} (he : e ∈ entries) :
    (fold byKey (diff equal previous entries).1).1.get? e.1 =
      if isNew previous e || isChanged equal previous e then some e.2 else byKey.get? e.1 := by
  obtain ⟨next, hnext, hdiff⟩ := diff_eq equal previous h
  have hlookup : next.get? e.1 = some e.2 := OrdMap.get?_eq_some_iff.mpr (hnext ▸ he)
  have hnodup : ∀ p : K × R → Bool, ((entries.filter p).map Prod.fst).Nodup :=
    fun p => (List.filter_sublist.map _).nodup h
  have hkept : e.1 ∉ previous.keys.filter fun key => !next.has key := by
    rw [List.mem_filter]
    exact fun hmem => absurd hmem.2 (by simp [OrdMap.has, hlookup])
  rw [hdiff]
  show OrdMap.get? (List.foldl _ (List.foldl _ (List.foldl _ _ _) _) _) _ = _
  rw [OrdMap.get?_foldl_set (hnodup _), OrdMap.get?_foldl_set (hnodup _), OrdMap.get?_foldl_delete,
    ← hnext, OrdMap.lookup_filter, OrdMap.lookup_filter, hlookup, if_neg hkept, Option.filter_some,
    Option.filter_some]
  cases isChanged equal previous (e.1, e.2) <;> cases isNew previous (e.1, e.2) <;> rfl

/-- A key that is gone. -/
theorem get?_fold_gone (hfollows : Follows Same byKey previous) (h : (entries.map Prod.fst).Nodup) {key : K}
    (hgone : key ∉ entries.map Prod.fst) :
    (fold byKey (diff equal previous entries).1).1.get? key = none := by
  obtain ⟨next, hnext, hdiff⟩ := diff_eq equal previous h
  have hlookup : next.get? key = none := by
    rw [OrdMap.get?_eq_none_iff, OrdMap.keys, hnext]
    exact hgone
  have hnodup : ∀ p : K × R → Bool, ((entries.filter p).map Prod.fst).Nodup :=
    fun p => (List.filter_sublist.map _).nodup h
  rw [hdiff]
  show OrdMap.get? (List.foldl _ (List.foldl _ (List.foldl _ _ _) _) _) _ = _
  rw [OrdMap.get?_foldl_set (hnodup _), OrdMap.get?_foldl_set (hnodup _), OrdMap.get?_foldl_delete,
    ← hnext, OrdMap.lookup_filter, OrdMap.lookup_filter, hlookup]
  show (if _ then none else byKey.get? key) = none
  cases hprior : previous.get? key with
  | some prior =>
    have hremoved : key ∈ previous.keys.filter fun key => !next.has key := by
      rw [List.mem_filter]
      exact ⟨OrdMap.mem_keys_iff.mpr ⟨prior, hprior⟩, by simp [OrdMap.has, hlookup]⟩
    exact if_pos hremoved
  | none =>
    have hrel := hfollows key
    rw [hprior] at hrel
    cases hmine : byKey.get? key with
    | none => exact ite_self none
    | some mine =>
      rw [hmine] at hrel
      cases hrel

/-- What the other side has of the rows, in their order. -/
def shown (byKey : OrdMap K R) (entries : List (K × R)) : List R :=
  (entries.map Prod.fst).filterMap byKey.get?

theorem fold_shown (h : (entries.map Prod.fst).Nodup) :
    (fold byKey (diff equal previous entries).1).2 =
      shown (fold byKey (diff equal previous entries).1).1 entries := by
  obtain ⟨next, -, hdiff⟩ := diff_eq equal previous h
  rw [hdiff]
  rfl

theorem Follows.has {e : K × R} (h : Follows Same byKey previous) (he : previous.get? e.1 = some e.2) :
    ∃ row, byKey.get? e.1 = some row ∧ Same row e.2 := by
  have hrel := h e.1
  rw [he] at hrel
  cases hmine : byKey.get? e.1 with
  | none =>
    rw [hmine] at hrel
    cases hrel
  | some row =>
    rw [hmine] at hrel
    cases hrel with
    | some hsame => exact ⟨row, rfl, hsame⟩

variable (hrefl : ∀ row, Same row row) (htrans : ∀ a b c, Same a b → Same b c → Same a c)
  (hequal : ∀ a b, equal a b = true → Same a b)

include hrefl in
theorem seed_follows (byKey : OrdMap K R) : Follows Same byKey byKey := by
  intro key
  cases byKey.get? key with
  | none => exact Option.Rel.none
  | some row => exact Option.Rel.some (hrefl row)

include hrefl htrans hequal in
/-- One step of both sides. -/
theorem Follows.step (hfollows : Follows Same byKey previous) (h : (entries.map Prod.fst).Nodup) :
    Follows Same (fold byKey (diff equal previous entries).1).1 (diff equal previous entries).2 := by
  obtain ⟨next, hnext, hdiff⟩ := diff_eq equal previous h
  have hsecond : (diff equal previous entries).2 = next := by rw [hdiff]
  rw [hsecond]
  intro key
  by_cases hkey : key ∈ entries.map Prod.fst
  · obtain ⟨e, he, rfl⟩ := List.mem_map.mp hkey
    rw [get?_fold h he, OrdMap.get?_eq_some_iff.mpr (hnext ▸ he : (e.1, e.2) ∈ next.entries)]
    split
    · exact Option.Rel.some (hrefl e.2)
    · rename_i hold
      -- neither new nor changed: the row before is equal, and the other side has it
      rw [Bool.or_eq_true, not_or, isNew, isChanged] at hold
      obtain ⟨hnew, hchanged⟩ := hold
      cases hprior : previous.get? e.1 with
      | none =>
        rw [hprior] at hnew
        exact absurd rfl hnew
      | some prior =>
        rw [hprior, Option.any_some, Bool.not_eq_true', Bool.not_eq_false] at hchanged
        obtain ⟨row, hrow, hsame⟩ := hfollows.has (e := (e.1, prior)) hprior
        rw [hrow]
        exact Option.Rel.some (htrans _ _ _ hsame (hequal _ _ hchanged))
  · have hnone : next.get? key = none := by
      rw [OrdMap.get?_eq_none_iff, OrdMap.keys, hnext]
      exact hkey
    rw [get?_fold_gone hfollows h hkey, hnone]
    exact Option.Rel.none

/-- The list that is shown is the list, row by row. -/
theorem Follows.shown_same (hfollows : Follows Same byKey previous) (hentries : previous.entries = entries) :
    List.Forall₂ Same (shown byKey entries) (entries.map Prod.snd) := by
  have hhas : ∀ e ∈ entries, ∃ row, byKey.get? e.1 = some row ∧ Same row e.2 :=
    fun e he => hfollows.has (OrdMap.get?_eq_some_iff.mpr (hentries ▸ he))
  clear hentries
  induction entries with
  | nil => exact List.Forall₂.nil
  | cons e entries ih =>
    obtain ⟨row, hrow, hsame⟩ := hhas e List.mem_cons_self
    rw [shown, List.map_cons, List.filterMap_cons_some hrow, List.map_cons]
    exact List.Forall₂.cons hsame (ih fun e' he' => hhas e' (List.mem_cons_of_mem _ he'))

theorem get?_of_mem_zip_shown (h : ∀ e ∈ entries, ∃ row, byKey.get? e.1 = some row) {e : K × R} {row : R}
    (hmem : (e, row) ∈ entries.zip (shown byKey entries)) : byKey.get? e.1 = some row := by
  induction entries with
  | nil => cases hmem
  | cons first entries ih =>
    obtain ⟨row', hrow'⟩ := h first List.mem_cons_self
    rw [shown, List.map_cons, List.filterMap_cons_some hrow', List.zip_cons_cons, List.mem_cons] at hmem
    rcases hmem with heq | hmem
    · obtain ⟨rfl, rfl⟩ := Prod.mk.inj heq
      exact hrow'
    · exact ih (fun e' he' => h e' (List.mem_cons_of_mem _ he')) hmem

include hrefl htrans hequal in
/-- A row that is equal to the one before it is shown as that one was. -/
theorem Follows.kept {before : List (K × R)} (hfollows : Follows Same byKey previous)
    (hbefore : previous.entries = before) (h : (entries.map Prod.fst).Nodup) {e e' : K × R} {row row' : R}
    (he : (e, row) ∈ before.zip (shown byKey before))
    (he' : (e', row') ∈ entries.zip (shown (fold byKey (diff equal previous entries).1).1 entries))
    (hkey : e.1 = e'.1) (hrow : equal e.2 e'.2 = true) : row' = row := by
  have hprior : previous.get? e.1 = some e.2 :=
    OrdMap.get?_eq_some_iff.mpr (hbefore ▸ (List.of_mem_zip he).1)
  have hmine : byKey.get? e.1 = some row := get?_of_mem_zip_shown
    (fun e hin => (hfollows.has (OrdMap.get?_eq_some_iff.mpr (hbefore ▸ hin))).imp fun _ h => h.1) he
  have hmem : e' ∈ entries := (List.of_mem_zip he').1
  have hold : (isNew previous e' || isChanged equal previous e') = false := by
    rw [isNew, isChanged, ← hkey, hprior, Option.any_some, hrow]
    rfl
  have hnow : (fold byKey (diff equal previous entries).1).1.get? _ = _ := get?_fold h hmem
  rw [hold, if_neg Bool.false_ne_true, ← hkey, hmine] at hnow
  have hstep := hfollows.step hrefl htrans hequal h
  have hshown := get?_of_mem_zip_shown (fun e hin =>
    (hstep.has (OrdMap.get?_eq_some_iff.mpr ((diff_next _ _ h).symm ▸ hin))).imp fun _ h => h.1) he'
  rw [← hkey, hnow] at hshown
  exact (Option.some.inj hshown).symm

end

end KeyedDiff
