/-
Lines and fields of COPY text.

No newline, tab or carriage return of a value stands in its field as it is, and no backslash before
a full stop (`Escaped`).  So the reader finds the fields and the lines that were joined, except an
empty last line, which it takes for the end of the data.
-/
import Pgxsinkit.Copy.Reader

namespace Copy

/-! ### Escaped text -/

/-- Text in which some characters, and the end marker, do not stand as they are. -/
inductive Escaped (stops : List UInt16) : Text → Prop
  | nil : Escaped stops []
  | plain {unit : UInt16} {rest : Text} (slash : unit ≠ 0x5c) (stop : unit ∉ stops)
      (rest_escaped : Escaped stops rest) : Escaped stops (unit :: rest)
  | pair {unit : UInt16} {rest : Text} (dot : unit ≠ 0x2e) (rest_escaped : Escaped stops rest) :
      Escaped stops (0x5c :: unit :: rest)

variable {stops : List UInt16}

theorem Escaped.append {units rest : Text} (h : Escaped stops units) (hrest : Escaped stops rest) :
    Escaped stops (units ++ rest) := by
  induction h with
  | nil => exact hrest
  | plain slash stop _ ih => exact .plain slash stop ih
  | pair dot _ ih => exact .pair dot ih

theorem Escaped.mono {stops' : List UInt16} {units : Text} (h : Escaped stops units)
    (hsub : stops' ⊆ stops) : Escaped stops' units := by
  induction h with
  | nil => exact .nil
  | plain slash stop _ ih => exact .plain slash (fun hin => stop (hsub hin)) ih
  | pair dot _ ih => exact .pair dot ih

end Copy
