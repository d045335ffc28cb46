import Mathlib.Data.List.Basic

/-! # Database layer

Dialects, bind parameters and the values of the standard library and of chrono that pass through the
database (`djangors-db`). -/

namespace Djangors

/-- The exponent bits are all set and the fraction is not zero. -/
def isNanBits (bits : UInt64) : Bool :=
  bits &&& 0x7ff0000000000000 == 0x7ff0000000000000 && bits &&& 0x000fffffffffffff != 0

/-- An `f64` by its bits. All NaNs are one value: they print alike, and the servers tell none apart. -/
inductive F64 where
  | num (bits : UInt64) (h : isNanBits bits = false)
  | nan
deriving DecidableEq, Repr

/-- A `chrono::DateTime<Utc>`, in nanoseconds since the epoch. -/
structure DateTime where
  nanos : Int
deriving DecidableEq, Repr

/-- How the standard library and chrono print an `f64` and a `DateTime<Utc>` (`Display` and `Debug`),
    and which characters the `Debug` of a string prints as they are. -/
class Fmt where
  f64Display : F64 → String
  f64Debug : F64 → String
  dateTimeDisplay : DateTime → String
  dateTimeDebug : DateTime → String
  printable : Char → Bool

/-- The `Debug` texts determine the value, and hold neither a closing parenthesis nor a NUL. -/
class LawfulFmt [Fmt] : Prop where
  f64Debug_inj : ∀ x y, Fmt.f64Debug x = Fmt.f64Debug y → x = y
  dateTimeDebug_inj : ∀ x y, Fmt.dateTimeDebug x = Fmt.dateTimeDebug y → x = y
  f64Debug_plain : ∀ x, ')' ∉ (Fmt.f64Debug x).toList ∧ '\x00' ∉ (Fmt.f64Debug x).toList
  dateTimeDebug_plain : ∀ x, ')' ∉ (Fmt.dateTimeDebug x).toList ∧ '\x00' ∉ (Fmt.dateTimeDebug x).toList

def F64.decimal : F64 → String
  | .num bits _ => toString bits.toNat
  | .nan => "NaN"

/-- A printer in plain decimal: an `f64` as its bits, a time as its nanoseconds. -/
@[reducible] def Fmt.decimal : Fmt where
  f64Display := F64.decimal
  f64Debug := F64.decimal
  dateTimeDisplay t := toString t.nanos
  dateTimeDebug t := toString t.nanos
  printable c := 0x20 ≤ c.toNat && c.toNat < 0x7f

namespace Db

/-- Supported SQL dialects. -/
inductive Dialect where
  | postgres
  | sqlite
deriving DecidableEq, Repr

/-- The parameter placeholder: `$1`, `$2`, … for Postgres, `?` for SQLite. -/
def Dialect.placeholder (d : Dialect) (index : Nat) : String :=
  match d with
  | .postgres => "$" ++ toString index
  | .sqlite => "?"

/-- Double-quotes an identifier. -/
def Dialect.quoteIdent (_ : Dialect) (name : String) : String := "\"" ++ name ++ "\""

/-- The SQL type a NULL parameter is bound as. -/
inductive NullKind where
  | i64
  | f64
  | text
  | bool
  | dateTime
  | bytes
deriving DecidableEq, Repr

/-- A value bound to a query parameter. -/
inductive BindValue where
  | i64 (v : Int)
  | f64 (v : F64)
  | text (v : String)
  | bool (v : Bool)
  | dateTime (v : DateTime)
  | bytes (v : List UInt8)
  | null (kind : NullKind)
deriving DecidableEq, Repr

/-- A stored column value. -/
inductive Cell where
  | i64 (v : Int)
  | f64 (v : F64)
  | text (v : String)
  | bool (v : Bool)
  | dateTime (v : DateTime)
  | bytes (v : List UInt8)
  | null
deriving DecidableEq, Repr

/-- What the server receives for a bound value: a NULL loses its type. -/
def BindValue.cell : BindValue → Cell
  | .i64 v => .i64 v
  | .f64 v => .f64 v
  | .text v => .text v
  | .bool v => .bool v
  | .dateTime v => .dateTime v
  | .bytes v => .bytes v
  | .null _ => .null

end Db
end Djangors
