import Mathlib.Data.List.Basic
import Tmgr.Json

/-!
# The text of a JSON value

The compact text that `dump()` prints, but for floating-point numbers, whose
printing is a parameter. It has no control characters (`text_printable`), and
it is at least as long as the texts of the values inside.
-/

namespace Tmgr

namespace Json

def ascii (s : String) : List UInt8 :=
  s.toList.map fun c => .ofNat c.toNat

def digits (n : Nat) : List UInt8 :=
  (Nat.toDigits 10 n).map fun c => .ofNat c.toNat

def hexDigit (n : Nat) : UInt8 :=
  .ofNat n.digitChar.toNat

/-- `\"`, `\\`, `\b`, `\t`, `\n`, `\f`, `\r` -/
def shortEscape : Nat → Option UInt8
  | 0x22 => some 0x22
  | 0x5c => some 0x5c
  | 0x08 => some 0x62
  | 0x09 => some 0x74
  | 0x0a => some 0x6e
  | 0x0c => some 0x66
  | 0x0d => some 0x72
  | _ => none

/-- A character of a string: a short escape, `\u00xx`, or its bytes. -/
def escape (c : Char) : List UInt8 :=
  match shortEscape c.toNat with
  | some b => [0x5c, b]
  | none =>
    if c.toNat < 0x20 then
      [0x5c, 0x75, 0x30, 0x30, hexDigit (c.toNat / 16), hexDigit (c.toNat % 16)]
    else String.utf8EncodeChar c

def quote (s : String) : List UInt8 :=
  0x22 :: (s.toList.flatMap escape ++ [0x22])

section

variable (float : Rat → List UInt8)

mutual

def text : Json → List UInt8
  | .null => ascii "null"
  | .boolean b => ascii (if b then "true" else "false")
  | .unsigned n => digits n
  | .integer z => if z < 0 then 0x2d :: digits z.natAbs else digits z.natAbs
  | .float q => float q
  | .string s => quote s
  | .array elements => 0x5b :: (textElements elements ++ [0x5d])
  | .object fields => 0x7b :: (textFields fields ++ [0x7d])

def textElements : List Json → List UInt8
  | [] => []
  | j :: elements =>
    text j ++ (if elements.isEmpty then [] else 0x2c :: textElements elements)

def textFields : List (String × Json) → List UInt8
  | [] => []
  | (key, v) :: fields =>
    quote key ++ 0x3a :: text v ++ (if fields.isEmpty then [] else 0x2c :: textFields fields)

end

end

/-! ## No control characters -/

def Printable (bytes : List UInt8) : Prop :=
  ∀ b ∈ bytes, 0x20 ≤ b.toNat

instance (bytes : List UInt8) : Decidable (Printable bytes) :=
  inferInstanceAs (Decidable (∀ b ∈ bytes, 0x20 ≤ b.toNat))

theorem Printable.append {l l' : List UInt8} (h : Printable l) (h' : Printable l') :
    Printable (l ++ l') :=
  List.forall_mem_append.mpr ⟨h, h'⟩

theorem Printable.cons {b : UInt8} {l : List UInt8} (hb : 0x20 ≤ b.toNat) (h : Printable l) :
    Printable (b :: l) :=
  List.forall_mem_cons.mpr ⟨hb, h⟩

theorem printable_nil : Printable [] := by
  simp [Printable]

theorem Printable.enclose {b b' : UInt8} {l : List UInt8} (hb : Printable [b, b'])
    (h : Printable l) : Printable (b :: (l ++ [b'])) := by
  obtain ⟨hfirst, hlast⟩ := List.forall_mem_cons.mp hb
  exact .cons hfirst (h.append hlast)

theorem printable_digits (n : Nat) : Printable (digits n) := by
  intro b hb
  obtain ⟨c, hc, rfl⟩ := List.mem_map.mp hb
  have hdigit := Nat.isDigit_of_mem_toDigits (by decide) le_rfl hc
  have hrange : 48 ≤ c.toNat ∧ c.toNat ≤ 57 := by
    simpa [Char.isDigit, UInt32.le_iff_toNat_le] using hdigit
  rw [UInt8.toNat_ofNat']
  omega

theorem printable_utf8 {c : Char} (h : 0x20 ≤ c.toNat) : Printable (String.utf8EncodeChar c) := by
  have hval : 0x20 ≤ c.val.toNat := h
  simp only [String.utf8EncodeChar]
  repeat' split
  all_goals
    simp only [Printable, List.forall_mem_cons, UInt8.toNat_ofNat', List.not_mem_nil,
      false_imp_iff, implies_true, and_true]
    omega

theorem shortEscape_printable {n : Nat} {b : UInt8} (h : shortEscape n = some b) :
    0x20 ≤ b.toNat := by
  unfold shortEscape at h
  split at h
  all_goals first | cases h; decide | cases h

theorem printable_escape (c : Char) : Printable (escape c) := by
  have hhex : ∀ n < 16, 0x20 ≤ (hexDigit n).toNat := by decide
  unfold escape
  split
  · rename_i b hb
    exact .cons (by decide) (.cons (shortEscape_printable hb) printable_nil)
  · split
    · refine .append (l := [0x5c, 0x75, 0x30, 0x30]) (by decide +kernel) ?_
      exact .cons (hhex _ (by omega)) (.cons (hhex _ (by omega)) printable_nil)
    · rename_i hlow
      exact printable_utf8 (Nat.not_lt.mp hlow)

theorem printable_quote (s : String) : Printable (quote s) := by
  refine .enclose (by decide +kernel) ?_
  intro b hb
  obtain ⟨c, -, hc⟩ := List.mem_flatMap.mp hb
  exact printable_escape c b hc

variable {float : Rat → List UInt8}

mutual

theorem text_printable (hfloat : ∀ q, Printable (float q)) : ∀ j, Printable (text float j)
  | .null => by rw [text]; decide +kernel
  | .boolean true => by rw [text]; decide +kernel
  | .boolean false => by rw [text]; decide +kernel
  | .unsigned n => by rw [text]; exact printable_digits n
  | .integer z => by
      rw [text]
      split
      · exact .cons (by decide) (printable_digits _)
      · exact printable_digits _
  | .float q => by rw [text]; exact hfloat q
  | .string s => by rw [text]; exact printable_quote s
  | .array elements => by
      rw [text]
      exact .enclose (by decide +kernel) (textElements_printable hfloat elements)
  | .object fields => by
      rw [text]
      exact .enclose (by decide +kernel) (textFields_printable hfloat fields)

theorem textElements_printable (hfloat : ∀ q, Printable (float q)) :
    ∀ elements, Printable (textElements float elements)
  | [] => printable_nil
  | j :: elements => by
      rw [textElements]
      refine .append (text_printable hfloat j) ?_
      split
      · exact printable_nil
      · exact .cons (by decide) (textElements_printable hfloat elements)

theorem textFields_printable (hfloat : ∀ q, Printable (float q)) :
    ∀ fields, Printable (textFields float fields)
  | [] => printable_nil
  | (key, v) :: fields => by
      rw [textFields]
      refine .append (.append (printable_quote key) ?_) ?_
      · exact .cons (by decide) (text_printable hfloat v)
      · split
        · exact printable_nil
        · exact .cons (by decide) (textFields_printable hfloat fields)

end

/-! ## Lengths -/

theorem length_escape_pos (c : Char) : 0 < (escape c).length := by
  unfold escape
  split
  · simp
  · split
    · simp
    · rw [String.length_utf8EncodeChar]
      exact c.utf8Size_pos

theorem length_le_flatMap_escape (l : List Char) : l.length ≤ (l.flatMap escape).length := by
  induction l with
  | nil => exact le_rfl
  | cons c l ih =>
      have hpos := length_escape_pos c
      rw [List.flatMap_cons, List.length_append, List.length_cons]
      omega

theorem length_le_quote (s : String) : s.length ≤ (quote s).length := by
  have hle := length_le_flatMap_escape s.toList
  rw [String.length_toList] at hle
  simp only [quote, List.length_cons, List.length_append]
  omega

theorem length_text_item {elements : List Json} {j : Json} (h : j ∈ elements) :
    (text float j).length ≤ (text float (.array elements)).length := by
  have hle : (text float j).length ≤ (textElements float elements).length := by
    induction elements with
    | nil => exact absurd h List.not_mem_nil
    | cons j' elements ih =>
        rw [textElements, List.length_append]
        rcases List.mem_cons.mp h with rfl | h
        · omega
        · rw [if_neg (by cases elements <;> simp_all), List.length_cons]
          have := ih h
          omega
  rw [text, List.length_cons, List.length_append]
  omega

theorem length_text_find? {j v : Json} {key : String} (h : j.find? key = some v) :
    (text float v).length ≤ (text float j).length := by
  cases j with
  | object fields =>
      have hle : (text float v).length ≤ (textFields float fields).length := by
        rw [find?_object] at h
        induction fields with
        | nil => simp at h
        | cons field fields ih =>
            obtain ⟨k, w⟩ := field
            rw [textFields, List.length_append, List.length_append, List.length_cons]
            rw [lookup_cons] at h
            split at h
            · obtain rfl := Option.some.inj h
              omega
            · rw [if_neg (by cases fields <;> simp_all), List.length_cons]
              have := ih h
              omega
      rw [text, List.length_cons, List.length_append]
      omega
  | _ => simp [find?] at h

end Json

/-- The text of a value without floating-point numbers. -/
def plainText : Json → List UInt8 :=
  Json.text fun _ => Json.ascii "0.0"

end Tmgr
