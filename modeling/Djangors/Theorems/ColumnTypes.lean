import Djangors.Lib.Except
import Djangors.Lib.TextCode
import Djangors.Migrations.Operation

/-! # Column types

Which fields have a column type, and what the server reads in it: only the types of automatic integer
columns stand for a generated column, and otherwise `auto` makes no difference. -/

namespace Djangors.Migrations
open Db Orm

/-- A field of characters needs a length on Postgres. -/
def Typed (d : Dialect) (kind : FieldKind) (maxLength : Option Nat) : Prop :=
  d = .postgres → kind ∈ [FieldKind.char, .email, .url, .slug] → maxLength ≠ none

instance (d : Dialect) (kind : FieldKind) (maxLength : Option Nat) : Decidable (Typed d kind maxLength) :=
  inferInstanceAs (Decidable (_ → _ → _))

/-- The column is generated by the server: it is automatic and of a kind of integers. -/
def isSerial (kind : FieldKind) (auto : Bool) : Bool := auto && (kind == .integer || kind == .bigInt)

section Types
variable {d : Dialect} {kind : FieldKind} {maxLength : Option Nat} {auto : Bool} {name t : String}

theorem sqlTypeFor_ok_iff : (∃ t, sqlTypeFor kind maxLength auto name d = .ok t) ↔ Typed d kind maxLength := by
  cases d with
  | sqlite => cases kind <;> simp [sqlTypeFor, Typed]
  | postgres => cases kind <;> cases maxLength <;> simp [sqlTypeFor, Typed]

theorem sqlTypeFor_auto (h : isSerial kind auto = false) :
    sqlTypeFor kind maxLength auto name d = sqlTypeFor kind maxLength false name d := by
  cases auto with
  | false => rfl
  | true => cases kind <;> cases d <;> first | rfl | simp [isSerial] at h

theorem readType_plain (h : t ≠ "SERIAL") (h' : t ≠ "BIGSERIAL") (h'' : t ≠ "INTEGER PRIMARY KEY AUTOINCREMENT") :
    readType t = (t, false) := by
  unfold readType
  split
  · exact absurd rfl h
  · exact absurd rfl h'
  · exact absurd rfl h''
  · rfl

theorem notMem_numeral {c : Char} (hc : ∀ k, c ≠ Nat.digitChar k) (n : Nat) : c ∉ Nat.toDigits 10 n := by
  intro h
  obtain ⟨k, hk⟩ := TextCode.exists_digit_of_mem (by decide) h
  exact hc k hk

/-- A text without a `K` is none of the types with a meaning of their own, `SERIAL` and `BIGSERIAL` apart. -/
theorem not_contains_of_notMem (h : 'K' ∉ t.toList) : contains t "PRIMARY KEY" = false := by
  unfold contains
  rw [decide_eq_false_iff_not]
  exact fun hin => h (hin.subset (by decide))

/-- What the server reads in a type that is not generated. -/
structure Plain (t : String) : Prop where
  read : readType t = (t, false)
  key : contains t "PRIMARY KEY" = false

theorem plain_of_head {c : Char} {cs : List Char} (ht : t.toList = c :: cs) (hc : c ≠ 'S' ∧ c ≠ 'B' ∧ c ≠ 'I')
    (hk : 'K' ∉ c :: cs) : Plain t := by
  refine ⟨readType_plain ?_ ?_ ?_, not_contains_of_notMem (ht ▸ hk)⟩
  all_goals
    rintro rfl
    have hhead := congrArg List.head? ht
    simp at hhead
    simp [← hhead] at hc

theorem plain_varchar (n : Nat) : Plain ("VARCHAR(" ++ toString n ++ ")") := by
  have hk := notMem_numeral (c := 'K') (by simp) n
  have htext : ("VARCHAR(" ++ toString n ++ ")").toList = 'V' :: ("ARCHAR(".toList ++ (toString n).toList ++ [')']) := by simp
  refine plain_of_head htext (by decide) ?_
  simpa using hk

theorem plain_numeric (n m : Nat) : Plain ("NUMERIC(" ++ toString n ++ ", " ++ toString m ++ ")") := by
  have hn := notMem_numeral (c := 'K') (by simp) n
  have hm := notMem_numeral (c := 'K') (by simp) m
  have htext : ("NUMERIC(" ++ toString n ++ ", " ++ toString m ++ ")").toList =
      'N' :: ("UMERIC(".toList ++ (toString n).toList ++ [',', ' '] ++ (toString m).toList ++ [')']) := by simp
  refine plain_of_head htext (by decide) ?_
  simpa using ⟨hn, hm⟩

/-- Types that are not generated stand for themselves. -/
theorem plain_of_sqlTypeFor (h : sqlTypeFor kind maxLength false name d = .ok t) : Plain t := by
  cases d with
  | sqlite => cases kind <;> cases h <;> exact ⟨by decide, by decide⟩
  | postgres =>
    cases kind with
    | decimal n m =>
      cases h
      exact plain_numeric n m
    | char | email | url | slug =>
      cases maxLength with
      | none => cases h
      | some n =>
        cases h
        exact plain_varchar n
    | _ =>
      cases h
      exact ⟨by decide, by decide⟩

theorem generated_of_sqlTypeFor (h : sqlTypeFor kind maxLength auto name d = .ok t) :
    (readType t).2 = isSerial kind auto := by
  cases hs : isSerial kind auto with
  | false =>
    rw [sqlTypeFor_auto hs] at h
    rw [(plain_of_sqlTypeFor h).read]
  | true =>
    cases auto with
    | false => simp [isSerial] at hs
    | true =>
      cases kind with
      | integer | bigInt => cases d <;> cases h <;> rfl
      | _ => simp [isSerial] at hs

/-- The type of a generated column is a primary key by itself on SQLite. -/
theorem key_of_sqlTypeFor (h : sqlTypeFor kind maxLength auto name d = .ok t) :
    contains t "PRIMARY KEY" = (d == .sqlite && isSerial kind auto) := by
  cases hs : isSerial kind auto with
  | false =>
    rw [sqlTypeFor_auto hs] at h
    rw [(plain_of_sqlTypeFor h).key, Bool.and_false]
  | true =>
    cases auto with
    | false => simp [isSerial] at hs
    | true =>
      cases kind with
      | integer | bigInt => cases d <;> cases h <;> decide
      | _ => simp [isSerial] at hs

/-- A column that refers to a generated one has its type. -/
theorem type_of_sqlTypeFor {t' : String} {auto' : Bool} (h : sqlTypeFor kind maxLength auto name d = .ok t)
    (h' : sqlTypeFor kind maxLength auto' name d = .ok t') : (readType t).1 = (readType t').1 := by
  have generated {auto : Bool} {t : String} (h : sqlTypeFor kind maxLength auto name d = .ok t) :
      ∃ u, sqlTypeFor kind maxLength false name d = .ok u ∧ (readType t).1 = u := by
    cases hs : isSerial kind auto with
    | false =>
      rw [sqlTypeFor_auto hs] at h
      exact ⟨t, h, congrArg Prod.fst (plain_of_sqlTypeFor h).read⟩
    | true =>
      cases auto with
      | false => simp [isSerial] at hs
      | true =>
        cases kind with
        | integer | bigInt => cases d <;> cases h <;> exact ⟨_, rfl, rfl⟩
        | _ => simp [isSerial] at hs
  obtain ⟨u, hu, ht⟩ := generated h
  obtain ⟨u', hu', ht'⟩ := generated h'
  rw [ht, ht', Except.ok.inj (hu.symm.trans hu')]

end Types

end Djangors.Migrations
