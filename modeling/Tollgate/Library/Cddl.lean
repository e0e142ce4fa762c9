import Tollgate.Library.Cbor
import Tollgate.Library.Ties

/-!
# Schemas of CBOR items

A rule of a schema is the set of the items it admits, as they are written. Rules are put together as
in the schema language: integers of a size, literals, strings of a size, one of several rules,
arrays of fixed shape, arrays of one or more, and maps whose keys are integers, each required or
optional. The entries of a map may come in any order and a key may not repeat.

A rule carries that what it admits is a single item. So an array or a map that is admitted can be
taken apart again, and its parts are admitted by the parts of the rule (`oneOrMore_writeArray`,
`record_writeRecord`).
-/

set_option autoImplicit false
set_option relaxedAutoImplicit false

namespace Cddl

open Cbor

/-- The items that a schema admits somewhere. -/
structure Rule where
  Admits : List UInt8 → Prop
  single : ∀ bytes, Admits bytes → Spans 1 bytes

namespace Rule

/-! ### Plain values -/

/-- An unsigned integer of at most the given number of bytes. -/
def uintSize (size : ℕ) : Rule where
  Admits bytes := ∃ n < 256 ^ size, n < 2 ^ 64 ∧ bytes = writeUnsigned n
  single := by
    rintro bytes ⟨n, -, hn, rfl⟩
    exact Spans.unsigned hn

/-- Any unsigned integer. -/
def uint : Rule :=
  uintSize 8

/-- One of the listed unsigned integers. -/
def oneOf (values : List ℕ) : Rule where
  Admits bytes := ∃ n ∈ values, n < 2 ^ 64 ∧ bytes = writeUnsigned n
  single := by
    rintro bytes ⟨n, -, hn, rfl⟩
    exact Spans.unsigned hn

/-- A literal. -/
def literal (value : ℕ) : Rule :=
  oneOf [value]

/-- Any integer, of either sign. -/
def int : Rule where
  Admits bytes := ∃ major < 2, ∃ n < 2 ^ 64, bytes = writeHead major n
  single := by
    rintro bytes ⟨major, hmajor, n, hn, rfl⟩
    exact Spans.head hmajor hn

def tstr : Rule where
  Admits bytes := ∃ text : String, text.toByteArray.data.toList.length < 2 ^ 64 ∧
    bytes = writeText text
  single := by
    rintro bytes ⟨text, htext, rfl⟩
    exact Spans.text htext

def bstr : Rule where
  Admits bytes := ∃ payload : List UInt8, payload.length < 2 ^ 64 ∧ bytes = writeBytes payload
  single := by
    rintro bytes ⟨payload, hpayload, rfl⟩
    exact Spans.bytes hpayload

/-- A byte string of exactly the given length. -/
def bstrSize (size : ℕ) : Rule where
  Admits bytes := ∃ payload : List UInt8, payload.length = size ∧ size < 2 ^ 64 ∧
    bytes = writeBytes payload
  single := by
    rintro bytes ⟨payload, rfl, hpayload, rfl⟩
    exact Spans.bytes hpayload

def null : Rule where
  Admits bytes := bytes = [0xf6]
  single := by
    rintro bytes rfl
    refine ⟨1, le_rfl, fun fuel more rest ↦ ?_⟩
    rw [add_comm 1 fuel, add_comm 1 more]
    rfl

/-! ### Combinations -/

/-- Either of two rules. -/
def either (first second : Rule) : Rule where
  Admits bytes := first.Admits bytes ∨ second.Admits bytes
  single bytes := Or.rec (first.single bytes) (second.single bytes)

/-- An array of fixed shape. -/
def tuple (rules : List Rule) : Rule where
  Admits bytes := ∃ items : List (List UInt8), items.length < 2 ^ 64 ∧
    List.Forall₂ (fun rule item ↦ rule.Admits item) rules items ∧ bytes = writeArray items
  single := by
    rintro bytes ⟨items, hlength, hitems, rfl⟩
    refine Spans.array hlength fun item hitem ↦ ?_
    obtain ⟨position, hposition, rfl⟩ := List.mem_iff_getElem.mp hitem
    have hrules : position < rules.length := by rwa [hitems.length_eq]
    exact (rules.get ⟨position, hrules⟩).single _ (hitems.get hrules hposition)

/-- An array of one or more items. -/
def oneOrMore (rule : Rule) : Rule where
  Admits bytes := ∃ items : List (List UInt8), items ≠ [] ∧ items.length < 2 ^ 64 ∧
    (∀ item ∈ items, rule.Admits item) ∧ bytes = writeArray items
  single := by
    rintro bytes ⟨items, -, hlength, hitems, rfl⟩
    exact Spans.array hlength fun item hitem ↦ rule.single item (hitems item hitem)

end Rule

/-- An entry of a map: its key, whether it has to be there, and what its value is. -/
structure Field where
  key : ℕ
  required : Bool
  rule : Rule

/-- An entry that has to be there. -/
def required (key : ℕ) (rule : Rule) : Field :=
  ⟨key, true, rule⟩

/-- An entry that may be left out. -/
def optional (key : ℕ) (rule : Rule) : Field :=
  ⟨key, false, rule⟩

/-- The entries are those of the fields. -/
structure Fills (fields : List Field) (entries : List (ℕ × List UInt8)) : Prop where
  length : entries.length < 2 ^ 64
  keys : ∀ entry ∈ entries, entry.1 < 2 ^ 64
  distinct : (entries.map Prod.fst).Nodup
  known : ∀ entry ∈ entries, ∃ field ∈ fields, field.key = entry.1 ∧ field.rule.Admits entry.2
  complete : ∀ field ∈ fields, field.required = true → field.key ∈ entries.map Prod.fst

theorem Fills.values {fields : List Field} {entries : List (ℕ × List UInt8)}
    (hfills : Fills fields entries) : ∀ entry ∈ entries, Spans 1 entry.2 := by
  intro entry hentry
  obtain ⟨field, -, -, hvalue⟩ := hfills.known entry hentry
  exact field.rule.single entry.2 hvalue

/-- Assumes: fields of distinct keys. An entry is admitted by the field of its key. -/
theorem Fills.admits {fields : List Field} {entries : List (ℕ × List UInt8)}
    (hfills : Fills fields entries) (hkeys : (fields.map Field.key).Nodup) {field : Field}
    (hfield : field ∈ fields) {value : List UInt8} (hentry : (field.key, value) ∈ entries) :
    field.rule.Admits value := by
  obtain ⟨other, hother, hkey, hvalue⟩ := hfills.known _ hentry
  rwa [← List.inj_on_of_nodup_map hkeys hother hfield hkey]

/-- A map with integer keys. -/
def Rule.record (fields : List Field) : Rule where
  Admits bytes := ∃ entries, Fills fields entries ∧ bytes = writeRecord entries
  single := by
    rintro bytes ⟨entries, hfills, rfl⟩
    exact Spans.record hfills.length hfills.keys hfills.values

/-! ### Taking apart -/

/-- Assumes: single items. An array is the array of its items only. -/
theorem writeArray_inj {first second : List (List UInt8)} (hlength : first.length < 2 ^ 64)
    (hlength' : second.length < 2 ^ 64) (hfirst : ∀ item ∈ first, Spans 1 item)
    (hsecond : ∀ item ∈ second, Spans 1 item) (heq : writeArray first = writeArray second) :
    first = second := by
  have hhead := congrArg readHead heq
  rw [writeArray, writeArray, readHead_writeHead (by omega) hlength,
    readHead_writeHead (by omega) hlength'] at hhead
  have hparts := Option.some.inj hhead
  simp only [Prod.mk.injEq, true_and] at hparts
  obtain ⟨hcount, hitems⟩ := hparts
  have hwords : Ties.SelfDelimiting id (first ++ second) := by
    intro one hone other hother rest rest' hjoin
    have hspans : ∀ item ∈ first ++ second, Spans 1 item :=
      List.forall_mem_append.mpr ⟨hfirst, hsecond⟩
    exact (hspans one hone).append_inj (hspans other hother) hjoin
  have hjoin : first.flatMap id ++ [] = second.flatMap id ++ [] := by
    rwa [List.append_nil, List.append_nil, List.flatMap_id, List.flatMap_id]
  exact (Ties.flatMap_append_inj hwords hcount hjoin).1

/-- Assumes: single items. An admitted array of one or more has one, and admitted items. -/
theorem oneOrMore_writeArray {rule : Rule} {items : List (List UInt8)}
    (hlength : items.length < 2 ^ 64) (hitems : ∀ item ∈ items, Spans 1 item) :
    (Rule.oneOrMore rule).Admits (writeArray items) ↔
      items ≠ [] ∧ ∀ item ∈ items, rule.Admits item := by
  constructor
  · rintro ⟨admitted, hnonempty, hcount, hadmits, heq⟩
    have hsingle : ∀ item ∈ admitted, Spans 1 item := fun item hitem ↦
      rule.single item (hadmits item hitem)
    rw [writeArray_inj hlength hcount hitems hsingle heq]
    exact ⟨hnonempty, hadmits⟩
  · rintro ⟨hnonempty, hadmits⟩
    exact ⟨items, hnonempty, hlength, hadmits, rfl⟩

/-- Assumes: small keys and single items. An admitted map has the entries of the rule. -/
theorem record_writeRecord {fields : List Field} {entries : List (ℕ × List UInt8)}
    (hlength : entries.length < 2 ^ 64) (hkeys : ∀ entry ∈ entries, entry.1 < 2 ^ 64)
    (hvalues : ∀ entry ∈ entries, Spans 1 entry.2) :
    (Rule.record fields).Admits (writeRecord entries) ↔ Fills fields entries := by
  constructor
  · rintro ⟨admitted, hfills, heq⟩
    have hread := readRecord_writeRecord hlength hkeys hvalues []
    rw [heq, readRecord_writeRecord hfills.length hfills.keys hfills.values [], Option.some.injEq,
      Prod.mk.injEq] at hread
    rwa [← hread.1]
  · intro hfills
    exact ⟨entries, hfills, rfl⟩

end Cddl
