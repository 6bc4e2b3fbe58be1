/-
Fingerprints of shape requests, and the re-mint of a private grant.

A compiled request is sent with the claim it is created under; its fingerprint is of the request alone.
Requests whose values have no holes have one fingerprint exactly when their bodies are one JSON value.
-/
import Pgxsinkit.ControlPlane.CanonicalTexts
import Pgxsinkit.Copy.Values

namespace ControlPlane.Canonical

open Json

/-- A compiled request; the engine is sent what is there. -/
structure CreateShapeRequest where
  table : Text
  where_ : Option JsData
  columns : Option (List Text)
  legal : ∀ predicate ∈ where_, predicate.legal = true

namespace CreateShapeRequest

def columnData (columns : List Text) : JsData := .arr (columns.map fun column => some (.str column))

/-- The members of the object that `compileShapeRequest` returns. -/
def members (request : CreateShapeRequest) : List (Text × JsData) :=
  (text "table", .str request.table) ::
    ((request.where_.map fun predicate => (text "where", predicate)).toList ++
      (request.columns.map fun columns => (text "columns", columnData columns)).toList)

/-- `{ ...request, subscription }` -/
def body (request : CreateShapeRequest) (subscription : Text) : JsData :=
  .obj (request.members ++ [(text "subscription", .str subscription)])

/-- What `fingerprintShapeRequest` hands to `canonicalJson`; no compiled request has `changesOnly`. -/
def fingerprinted (request : CreateShapeRequest) : JsData :=
  .obj [(text "table", .str request.table), (text "where", request.where_.getD .undefined),
    (text "columns", (request.columns.map columnData).getD .undefined), (text "changesOnly", .undefined)]

/-- The holes in the predicate. -/
def holes (request : CreateShapeRequest) : ℕ := (request.where_.map JsData.holes).getD 0

end CreateShapeRequest

/-- `fingerprintShapeRequest`, in lowercase hex. -/
def fingerprintShapeRequest (sha256 : List UInt8 → List UInt8) (request : CreateShapeRequest) : Text :=
  (sha256 (Unicode.textEncode (canonicalJson request.fingerprinted))).flatMap Copy.hexByte

/-- Whether `refreshStreamToken` renews a private grant, which was signed with a fingerprint, for what the
claims compile to now. -/
def reauthorize (sha256 : List UInt8 → List UInt8) (compiled : CreateShapeRequest) (fp : Option Text) :
    Except String Unit :=
  match fp with
  | none => .error "private grant carries no fingerprint and cannot be re-authorized"
  | some fp =>
    if fingerprintShapeRequest sha256 compiled ≠ fp then .error "shape predicate changed for this subject"
    else .ok ()

/-- The two requests have one body, but for the claim. -/
def SameBody (r s : CreateShapeRequest) : Prop :=
  ∀ subscription, (stringify (r.body subscription)).Same (stringify (s.body subscription))

/-! ### Bodies -/

theorem legal_columnData (columns : List Text) : (CreateShapeRequest.columnData columns).legal = true := by
  rw [CreateShapeRequest.columnData, JsData.legal]
  induction columns with
  | nil => rfl
  | cons column columns ih =>
    rw [List.map_cons, legalItems, ih]
    rfl

theorem holes_columnData (columns : List Text) : (CreateShapeRequest.columnData columns).holes = 0 := by
  rw [CreateShapeRequest.columnData, JsData.holes]
  induction columns with
  | nil => rfl
  | cons column columns ih =>
    rw [List.map_cons, holesOfItems, ih]
    rfl

theorem legal_fingerprinted (r : CreateShapeRequest) : r.fingerprinted.legal = true := by
  obtain ⟨table, where_, columns, hlegal⟩ := r
  have hwhere : (where_.getD .undefined).legal = true := by
    cases where_ with
    | none => rfl
    | some predicate => exact hlegal predicate rfl
  have hcolumns : ((columns.map CreateShapeRequest.columnData).getD .undefined).legal = true := by
    cases columns with
    | none => rfl
    | some columns => exact legal_columnData columns
  have hkeys : [text "table", text "where", text "columns", text "changesOnly"].Nodup := by decide
  rw [CreateShapeRequest.fingerprinted, JsData.legal]
  simp only [List.map_cons, List.map_nil, legalFields, hwhere, hcolumns, decide_eq_true hkeys]
  rfl

theorem holes_fingerprinted (r : CreateShapeRequest) : r.fingerprinted.holes = r.holes := by
  obtain ⟨table, where_, columns, hlegal⟩ := r
  have hcolumns : ((columns.map CreateShapeRequest.columnData).getD .undefined).holes = 0 := by
    cases columns with
    | none => rfl
    | some columns => exact holes_columnData columns
  rw [CreateShapeRequest.fingerprinted, JsData.holes]
  simp only [holesOfFields, hcolumns]
  cases where_ with
  | none => rfl
  | some predicate => exact Nat.zero_add _

theorem stringifyFields_append (fields fields' : List (Text × JsData)) :
    stringifyFields (fields ++ fields') = stringifyFields fields ++ stringifyFields fields' := by
  induction fields with
  | nil => rfl
  | cons field fields ih =>
    obtain ⟨key, value⟩ := field
    rw [List.cons_append, stringifyFields, stringifyFields, ih]
    split <;> rfl

/-- A member that is left out, and one whose value is `undefined`. -/
theorem stringifyFields_optional (key : Text) (value : Option JsData) :
    stringifyFields (value.map fun value => (key, value)).toList =
      stringifyFields [(key, value.getD .undefined)] := by
  cases value <;> rfl

/-- The body has the members of what is fingerprinted, and the claim. -/
theorem stringify_body (r : CreateShapeRequest) (subscription : Text) : ∃ fields,
    stringify r.fingerprinted = .obj fields ∧
      stringify (r.body subscription) = .obj (fields ++ [(text "subscription", .str subscription)]) ∧
      ((fields ++ [(text "subscription", Json.str subscription)]).map Prod.fst).Nodup := by
  have hmembers : stringifyFields r.members = stringifyFields
      [(text "table", .str r.table), (text "where", r.where_.getD .undefined),
        (text "columns", (r.columns.map CreateShapeRequest.columnData).getD .undefined),
        (text "changesOnly", .undefined)] := by
    have hcolumns : (r.columns.map fun columns => (text "columns", CreateShapeRequest.columnData columns)) =
        (r.columns.map CreateShapeRequest.columnData).map fun value => (text "columns", value) := by
      rw [Option.map_map]
      rfl
    rw [CreateShapeRequest.members, hcolumns, ← List.singleton_append, stringifyFields_append,
      stringifyFields_append, stringifyFields_optional, stringifyFields_optional, ← stringifyFields_append,
      ← stringifyFields_append]
    rfl
  have hkeys : [text "table", text "where", text "columns", text "changesOnly", text "subscription"].Nodup := by
    decide
  refine ⟨stringifyFields r.members, ?_, ?_, ?_⟩
  · rw [hmembers]
    rfl
  · rw [CreateShapeRequest.body, stringify, stringifyFields_append]
    rfl
  · rw [hmembers, List.map_append]
    refine List.Nodup.sublist ?_ hkeys
    exact (keys_stringifyFields _).append (List.Sublist.refl [text "subscription"])

/-- The claim in the bodies makes no difference. -/
theorem sameBody_iff (r s : CreateShapeRequest) (subscription : Text) :
    (stringify (r.body subscription)).Same (stringify (s.body subscription)) ↔
      (stringify r.fingerprinted).Same (stringify s.fingerprinted) := by
  have hr := distinct_stringify _ (legal_fingerprinted r)
  have hs := distinct_stringify _ (legal_fingerprinted s)
  obtain ⟨fields, hfields, hbody, hnodup⟩ := stringify_body r subscription
  obtain ⟨fields', hfields', hbody', hnodup'⟩ := stringify_body s subscription
  rw [hfields] at hr ⊢
  rw [hfields'] at hs ⊢
  have hclaim : ∀ {fields : List (Text × Json)}, DistinctFields fields →
      DistinctFields (fields ++ [(text "subscription", .str subscription)]) := by
    intro fields h
    induction fields with
    | nil => exact ⟨trivial, trivial⟩
    | cons field fields ih => exact ⟨h.1, ih h.2⟩
  have happend : ∀ fields : List (Text × Json), sortedFields (fields ++ [(text "subscription", .str subscription)]) =
      sortedFields fields ++ [(text "subscription", .str subscription)] := by
    intro fields
    rw [sortedFields_eq, sortedFields_eq, List.map_append]
    rfl
  have hbr : (obj (fields ++ [(text "subscription", .str subscription)])).Distinct := ⟨hnodup, hclaim hr.2⟩
  have hbs : (obj (fields' ++ [(text "subscription", .str subscription)])).Distinct := ⟨hnodup', hclaim hs.2⟩
  rw [hbody, hbody', ← sorted_eq_iff _ hbr hbs, ← sorted_eq_iff _ hr hs]
  rw [sorted, sorted, sorted, sorted, obj.injEq, obj.injEq,
    sortBy_fields_eq_iff (by rw [keys_sortedFields]; exact hnodup),
    sortBy_fields_eq_iff (by rw [keys_sortedFields]; exact hr.1), happend, happend, List.perm_append_right_iff]

/-! ### Fingerprints -/

theorem hexBytes_injective {bytes bytes' : List UInt8} (h : bytes.flatMap Copy.hexByte = bytes'.flatMap Copy.hexByte) :
    bytes = bytes' := by
  have hread := congrArg Copy.hexBytes h
  rw [Copy.hexBytes_hexByte, Copy.hexBytes_hexByte] at hread
  exact Option.some.inj hread

/-- One fingerprint is one canonical text, for a digest without collisions. -/
theorem fingerprint_eq_iff {sha256 : List UInt8 → List UInt8} (hsha : Function.Injective sha256)
    (r s : CreateShapeRequest) : fingerprintShapeRequest sha256 r = fingerprintShapeRequest sha256 s ↔
      canonicalJson r.fingerprinted = canonicalJson s.fingerprinted := by
  have hr := spelled_canonicalJson _ (legal_fingerprinted r)
  have hs := spelled_canonicalJson _ (legal_fingerprinted s)
  refine ⟨fun h => ?_, fun h => by rw [fingerprintShapeRequest, h]; rfl⟩
  exact (hr.textEncode_inj hs).mp (hsha (hexBytes_injective h))

theorem reauthorize_iff {sha256 : List UInt8 → List UInt8} (r s : CreateShapeRequest) :
    reauthorize sha256 r (some (fingerprintShapeRequest sha256 s)) = .ok () ↔
      fingerprintShapeRequest sha256 r = fingerprintShapeRequest sha256 s := by
  rw [reauthorize]
  split
  · rename_i hne
    exact ⟨fun h => (by cases h), fun h => absurd h hne⟩
  · rename_i heq
    exact ⟨fun _ => not_not.mp heq, fun _ => rfl⟩

/-- The request with `null` for each hole of its predicate. -/
def CreateShapeRequest.fill (r : CreateShapeRequest) : CreateShapeRequest where
  table := r.table
  where_ := r.where_.map JsData.fill
  columns := r.columns
  legal predicate h := by
    obtain ⟨predicate', hpredicate, rfl⟩ := Option.map_eq_some_iff.mp h
    rw [legal_fill]
    exact r.legal predicate' hpredicate

theorem fingerprinted_fill (r : CreateShapeRequest) : r.fill.fingerprinted = r.fingerprinted.fill := by
  obtain ⟨table, where_, columns, hlegal⟩ := r
  have hcolumns : ((columns.map CreateShapeRequest.columnData).getD .undefined).fill =
      (columns.map CreateShapeRequest.columnData).getD .undefined := by
    refine fill_of_holes _ ?_
    cases columns with
    | none => rfl
    | some columns => exact holes_columnData columns
  simp only [CreateShapeRequest.fingerprinted, CreateShapeRequest.fill, JsData.fill, fillFields, hcolumns]
  cases where_ <;> rfl

theorem holes_request_fill (r : CreateShapeRequest) : r.fill.holes = 0 := by
  rw [← holes_fingerprinted, fingerprinted_fill, holes_fill]

/-- The canonical texts and the fingerprints of a request and of one without holes are equal, and a grant of the
one is renewed for the other, exactly when their bodies are one JSON value: for the requests without holes, and
for no other. -/
theorem fingerprint_iff_body (sha256 : List UInt8 → List UInt8) (hsha : Function.Injective sha256)
    (r : CreateShapeRequest) :
    (∀ s : CreateShapeRequest, s.holes = 0 →
      (canonicalJson r.fingerprinted = canonicalJson s.fingerprinted ↔ SameBody r s) ∧
        (fingerprintShapeRequest sha256 r = fingerprintShapeRequest sha256 s ↔ SameBody r s) ∧
        (reauthorize sha256 r (some (fingerprintShapeRequest sha256 s)) = .ok () ↔ SameBody r s)) ↔
      r.holes = 0 := by
  have hsame : ∀ s : CreateShapeRequest,
      SameBody r s ↔ (stringify r.fingerprinted).Same (stringify s.fingerprinted) := fun s =>
    ⟨fun h => (sameBody_iff r s []).mp (h []), fun h subscription => (sameBody_iff r s subscription).mpr h⟩
  constructor
  · intro h
    -- the request with its holes filled has the same body, and a longer text
    by_contra hholes
    have hfill := (h r.fill (holes_request_fill r)).1
    have hbody : SameBody r r.fill := by
      rw [hsame, fingerprinted_fill, stringify_fill, ← sorted_eq_iff _ (distinct_stringify _ (legal_fingerprinted r))
        (distinct_stringify _ (legal_fingerprinted r))]
    have hlength := congrArg List.length (hfill.mpr hbody)
    rw [fingerprinted_fill, length_fill, holes_fingerprinted] at hlength
    omega
  · intro hholes s hs
    have htexts : canonicalJson r.fingerprinted = canonicalJson s.fingerprinted ↔ SameBody r s := by
      rw [hsame]
      exact canonicalJson_iff (legal_fingerprinted r) (legal_fingerprinted s)
        (by rw [holes_fingerprinted, hholes]) (by rw [holes_fingerprinted, hs])
    exact ⟨htexts, (fingerprint_eq_iff hsha r s).trans htexts,
      (reauthorize_iff r s).trans ((fingerprint_eq_iff hsha r s).trans htexts)⟩

def notes : CreateShapeRequest := ⟨text "notes", none, none, nofun⟩

/-- A digest without collisions that is SHA-256 on the canonical text of `notes`. -/
def notesDigest (bytes : List UInt8) : List UInt8 :=
  if bytes = Unicode.textEncode (canonicalJson notes.fingerprinted) then
    [0x1f, 0xee, 0xd7, 0xf3, 0x65, 0x1e, 0x40, 0xcf, 0x19, 0xd6, 0xa2,
      0x44, 0xd4, 0xe5, 0xf0, 0xea, 0x07, 0x4c, 0x1c, 0xbd, 0x48, 0x26,
      0xc3, 0xfb, 0xd5, 0x5d, 0x54, 0x7c, 0xcd, 0x01, 0xe6, 0xa7]
  else List.replicate 33 0 ++ bytes

theorem notesDigest_injective : Function.Injective notesDigest := by
  intro bytes bytes' h
  have hlong : ∀ digest rest : List UInt8, digest.length = 32 → digest ≠ List.replicate 33 0 ++ rest := by
    rintro _ rest hlength rfl
    rw [List.length_append, List.length_replicate] at hlength
    omega
  rw [notesDigest, notesDigest] at h
  split at h <;> rename_i hbytes <;> split at h <;> rename_i hbytes'
  · rw [hbytes, hbytes']
  · exact absurd h (hlong _ bytes' rfl)
  · exact absurd h.symm (hlong _ bytes rfl)
  · exact List.append_cancel_left h

theorem fingerprint_iff_body_notes :
    fingerprintShapeRequest notesDigest notes =
        text "1feed7f3651e40cf19d6a244d4e5f0ea074c1cbd4826c3fbd55d547ccd01e6a7" ∧
      (reauthorize notesDigest notes (some (fingerprintShapeRequest notesDigest notes)) = .ok () ↔
        SameBody notes notes) := by
  constructor
  · rw [fingerprintShapeRequest, notesDigest, if_pos rfl]
    decide
  · exact ((fingerprint_iff_body notesDigest notesDigest_injective notes).mpr rfl notes rfl).2.2

/-! ### Holes -/

/-- A request with the predicate `{ and: operands }`. -/
def conjunction (operands : List (Option JsData)) (h : legalItems operands = true) : CreateShapeRequest where
  table := text "notes"
  where_ := some (.obj [(text "and", .arr operands)])
  columns := none
  legal predicate hpredicate := by
    obtain rfl := Option.some.inj hpredicate
    rw [JsData.legal, legalFields, JsData.legal, h]
    rfl

/-- One hole is written as no operand at all, which is another predicate, and not as the `null` that the engine
is sent. -/
theorem hole_confuses :
    (canonicalJson (conjunction [none] rfl).fingerprinted = canonicalJson (conjunction [] rfl).fingerprinted ∧
        ¬ SameBody (conjunction [none] rfl) (conjunction [] rfl)) ∧
      SameBody (conjunction [none] rfl) (conjunction [some .null] rfl) ∧
        canonicalJson (conjunction [none] rfl).fingerprinted ≠
          canonicalJson (conjunction [some .null] rfl).fingerprinted := by
  have hsame : ∀ r s : CreateShapeRequest, SameBody r s ↔
      (stringify r.fingerprinted).sorted = (stringify s.fingerprinted).sorted := by
    intro r s
    rw [sorted_eq_iff _ (distinct_stringify _ (legal_fingerprinted r)) (distinct_stringify _ (legal_fingerprinted s))]
    exact ⟨fun h => (sameBody_iff r s []).mp (h []), fun h subscription => (sameBody_iff r s subscription).mpr h⟩
  refine ⟨⟨by decide, fun h => ?_⟩, (hsame _ _).mpr rfl, by decide⟩
  exact absurd (congrArg print ((hsame _ _).mp h)) (by decide)

end ControlPlane.Canonical
