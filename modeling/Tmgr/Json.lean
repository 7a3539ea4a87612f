import Tmgr.Types

/-!
# JSON values

The values of `nlohmann::json` and the accessors the program uses, with the
texts of the exceptions they throw. Parsing and printing are not modelled:
where the program parses a text, the parser is a parameter.

An object is a `std::map`: `set` keeps the fields in the order of their keys,
one for each key.
-/

namespace Tmgr

inductive Json where
  | null
  | boolean (b : Bool)
  /-- `number_unsigned`, below `2^64` -/
  | unsigned (n : Nat)
  /-- `number_integer`, a signed 64-bit value -/
  | integer (z : Int)
  | float (q : Rat)
  | string (s : String)
  | array (elements : List Json)
  | object (fields : List (String × Json))

namespace Json

def typeName : Json → String
  | .null => "null"
  | .boolean _ => "boolean"
  | .unsigned _ | .integer _ | .float _ => "number"
  | .string _ => "string"
  | .array _ => "array"
  | .object _ => "object"

/-! ## Building -/

def insertField (key : String) (v : Json) : List (String × Json) → List (String × Json)
  | [] => [(key, v)]
  | (k, w) :: fields =>
    if key = k then (key, v) :: fields
    else if key < k then (key, v) :: (k, w) :: fields
    else (k, w) :: insertField key v fields

/-- `j[key] = v`, which turns a null into an object; the source does it to
nulls and objects only. -/
def set (j : Json) (key : String) (v : Json) : Json :=
  match j with
  | .null => .object [(key, v)]
  | .object fields => .object (insertField key v fields)
  | j => j

/-- `if (v) j[key] = *v;` -/
def setOption (j : Json) (key : String) : Option Json → Json
  | none => j
  | some v => j.set key v

/-- `j.erase(key)`; the source does it to objects only. -/
def erase (j : Json) (key : String) : Json :=
  match j with
  | .object fields => .object (fields.filter fun field => field.1 ≠ key)
  | j => j

/-- `json{{k₁, v₁}, {k₂, v₂}, …}` with different keys. -/
def ofFields (fields : List (String × Json)) : Json :=
  fields.foldl (fun j field => j.set field.1 field.2) (.object [])

/-! ## Reading -/

def find? (j : Json) (key : String) : Option Json :=
  match j with
  | .object fields => fields.lookup key
  | _ => none

/-- What a range-based `for` over the value visits. -/
def items : Json → List Json
  | .null => []
  | .array elements => elements
  | .object fields => fields.map Prod.snd
  | j => [j]

/-- `type_error.302`, thrown by `get` for a value of another type. -/
def typeError (expected : String) (j : Json) : String :=
  "[json.exception.type_error.302] type must be " ++ expected ++ ", but is " ++ j.typeName

def getString : Json → Except String String
  | .string s => .ok s
  | j => .error (typeError "string" j)

def getBool : Json → Except String Bool
  | .boolean b => .ok b
  | j => .error (typeError "boolean" j)

/-- A float loses its fractional part. -/
def truncate (q : Rat) : Int := q.num.tdiv q.den

/-- `get<uint64_t>`: numbers are converted to 64 bits. -/
def getUInt64 : Json → Except String Nat
  | .unsigned n => .ok n
  | .integer z => .ok (z % 2 ^ 64).toNat
  | .float q => .ok (truncate q % 2 ^ 64).toNat
  | j => .error (typeError "number" j)

/-- `get<int>`: numbers are converted to 32 bits; a boolean is a number
here. -/
def getInt : Json → Except String Int
  | .unsigned n => .ok (Int.bmod n (2 ^ 32))
  | .integer z => .ok (Int.bmod z (2 ^ 32))
  | .float q => .ok (Int.bmod (truncate q) (2 ^ 32))
  | .boolean b => .ok b.toInt
  | j => .error (typeError "number" j)

/-- `get<int64_t>`. -/
def getInt64 : Json → Except String Int
  | .unsigned n => .ok (Int.bmod n (2 ^ 64))
  | .integer z => .ok (Int.bmod z (2 ^ 64))
  | .float q => .ok (Int.bmod (truncate q) (2 ^ 64))
  | j => .error (typeError "number" j)

/-- `get<std::vector<std::string>>`. -/
def getStrings : Json → Except String (List String)
  | .array elements => elements.mapM getString
  | j => .error (typeError "array" j)

variable {α : Type}

/-- `j.at(key)`. -/
def atKey (j : Json) (key : String) : Except String Json :=
  match j with
  | .object fields =>
    match fields.lookup key with
    | some v => .ok v
    | none => .error ("[json.exception.out_of_range.403] key '" ++ key ++ "' not found")
  | j => .error ("[json.exception.type_error.304] cannot use at() with " ++ j.typeName)

/-- `j.value(key, default)`. -/
def value (get : Json → Except String α) (j : Json) (key : String) (default : α) :
    Except String α :=
  match j with
  | .object fields =>
    match fields.lookup key with
    | some v => get v
    | none => .ok default
  | j => .error ("[json.exception.type_error.306] cannot use value() with " ++ j.typeName)

/-- `if (j.contains(key)) x = j[key].get<T>();` -/
def valueOption (get : Json → Except String α) (j : Json) (key : String) :
    Except String (Option α) :=
  match j.find? key with
  | some v => (get v).map some
  | none => .ok none

/-! ## Reading back what was stored -/

theorem lookup_cons (key k : String) (v : Json) (fields : List (String × Json)) :
    ((key, v) :: fields).lookup k = if k = key then some v else fields.lookup k := by
  rw [List.lookup_cons]
  by_cases h : k = key
  · simp [h]
  · simp [h, beq_false_of_ne h]

@[simp] theorem lookup_insertField (key k : String) (v : Json) (fields : List (String × Json)) :
    (insertField key v fields).lookup k = if k = key then some v else fields.lookup k := by
  induction fields with
  | nil => simp only [insertField, lookup_cons]
  | cons field fields ih =>
      obtain ⟨k', w⟩ := field
      unfold insertField
      split
      · rename_i heq
        subst heq
        simp only [lookup_cons]
        split <;> rfl
      · rename_i hne
        split
        · rw [lookup_cons]
        · rw [lookup_cons, lookup_cons, ih]
          by_cases h : k = key
          · simp [h, hne]
          · simp [h]

def insertOption (key : String) (v : Option Json) (fields : List (String × Json)) :
    List (String × Json) :=
  match v with
  | none => fields
  | some v => insertField key v fields

@[simp] theorem lookup_insertOption (key k : String) (v : Option Json)
    (fields : List (String × Json)) : (insertOption key v fields).lookup k =
      if k = key then v.or (fields.lookup k) else fields.lookup k := by
  cases v with
  | none => simp [insertOption]
  | some v => simp [insertOption]

@[simp] theorem find?_object (key : String) (fields : List (String × Json)) :
    (object fields).find? key = fields.lookup key := rfl

@[simp] theorem set_object (key : String) (v : Json) (fields : List (String × Json)) :
    (object fields).set key v = object (insertField key v fields) := rfl

@[simp] theorem setOption_object (key : String) (v : Option Json) (fields : List (String × Json)) :
    (object fields).setOption key v = object (insertOption key v fields) := by
  cases v <;> rfl

@[simp] theorem ofFields_eq (fields : List (String × Json)) :
    ofFields fields = object (fields.foldl (fun fs f => insertField f.1 f.2 fs) []) := by
  unfold ofFields
  generalize ([] : List (String × Json)) = fs
  induction fields generalizing fs with
  | nil => rfl
  | cons f fields ih => exact ih _

/-- How `valueOption` reads the field it finds, or does not. -/
def readOption (get : Json → Except String α) : Option Json → Except String (Option α)
  | none => .ok none
  | some v => (get v).map some

@[simp] theorem value_object (get : Json → Except String α) (key : String) (default : α)
    (fields : List (String × Json)) : (object fields).value get key default =
      ((fields.lookup key).map get).getD (.ok default) := by
  simp only [value]
  cases fields.lookup key <;> rfl

@[simp] theorem atKey_object (key : String) (v : Json) (fields : List (String × Json))
    (h : fields.lookup key = some v) : (object fields).atKey key = .ok v := by
  simp only [atKey, h]

theorem valueOption_eq (get : Json → Except String α) (key : String) (j : Json) :
    j.valueOption get key = readOption get (j.find? key) := by
  unfold valueOption
  cases j.find? key <;> rfl

theorem readOption_map {get : Json → Except String α} {encode : α → Json}
    (h : ∀ a, get (encode a) = .ok a) (o : Option α) :
    readOption get (o.map encode) = .ok o := by
  cases o with
  | none => rfl
  | some a => simp [readOption, h, Except.map]

theorem mapM_map_ok {get : Json → Except String α} {encode : α → Json} {l : List α}
    (h : ∀ a ∈ l, get (encode a) = .ok a) : (l.map encode).mapM get = .ok l := by
  induction l with
  | nil => rfl
  | cons a l ih =>
      obtain ⟨ha, hl⟩ := List.forall_mem_cons.mp h
      rw [List.map_cons, List.mapM_cons, ha, ih hl]
      rfl

@[simp] theorem getString_string (s : String) : (string s).getString = .ok s := rfl

@[simp] theorem getBool_boolean (b : Bool) : (boolean b).getBool = .ok b := rfl

@[simp] theorem getUInt64_unsigned (n : Nat) : (unsigned n).getUInt64 = .ok n := rfl

@[simp] theorem getStrings_array (l : List String) :
    (array (l.map string)).getStrings = .ok l :=
  mapM_map_ok fun _ _ => rfl

theorem getInt_integer {z : Int} (hlo : -2 ^ 31 ≤ z) (hhi : z < 2 ^ 31) :
    (integer z).getInt = .ok z := by
  rw [getInt, Int.bmod_eq_of_le (by omega) (by omega)]

theorem getInt64_integer {z : Int} (hlo : -2 ^ 63 ≤ z) (hhi : z < 2 ^ 63) :
    (integer z).getInt64 = .ok z := by
  rw [getInt64, Int.bmod_eq_of_le (by omega) (by omega)]

/-! ## Through a text -/

mutual

/-- What `parse` makes of the text of a value: a number is read as unsigned
unless it is negative. -/
def reparsed : Json → Json
  | .integer z => if 0 ≤ z then .unsigned (z % 2 ^ 64).toNat else .integer z
  | .array elements => .array (reparsedElements elements)
  | .object fields => .object (reparsedFields fields)
  | j => j

def reparsedElements : List Json → List Json
  | [] => []
  | j :: elements => j.reparsed :: reparsedElements elements

def reparsedFields : List (String × Json) → List (String × Json)
  | [] => []
  | (key, v) :: fields => (key, v.reparsed) :: reparsedFields fields

end

theorem reparsedElements_eq (elements : List Json) :
    reparsedElements elements = elements.map reparsed := by
  induction elements with
  | nil => rfl
  | cons j elements ih => rw [reparsedElements, List.map_cons, ih]

theorem reparsedFields_eq (fields : List (String × Json)) :
    reparsedFields fields = fields.map fun field => (field.1, field.2.reparsed) := by
  induction fields with
  | nil => rfl
  | cons field fields ih => rw [reparsedFields, List.map_cons, ih]

theorem lookup_reparsedFields (key : String) (fields : List (String × Json)) :
    (reparsedFields fields).lookup key = (fields.lookup key).map reparsed := by
  induction fields with
  | nil => rfl
  | cons field fields ih =>
      rw [reparsedFields, lookup_cons, lookup_cons, ih]
      split <;> rfl

theorem reparsed_integer (z : Int) :
    reparsed (.integer z) = if 0 ≤ z then .unsigned (z % 2 ^ 64).toNat else .integer z := by
  rw [reparsed]

theorem find?_reparsed (j : Json) (key : String) :
    j.reparsed.find? key = (j.find? key).map reparsed := by
  cases j with
  | integer z =>
      rw [reparsed_integer]
      split <;> rfl
  | object fields => exact lookup_reparsedFields key fields
  | _ => rfl

theorem items_reparsed (j : Json) : j.reparsed.items = j.items.map reparsed := by
  cases j with
  | integer z =>
      by_cases h : 0 ≤ z
      · simp [reparsed_integer, items, h]
      · simp [reparsed_integer, items, h]
  | array elements => simp [reparsed, items, reparsedElements_eq]
  | object fields => simp [reparsed, items, reparsedFields_eq, Function.comp_def]
  | _ => simp [reparsed, items]

theorem atKey_reparsed (j : Json) (key : String) :
    j.reparsed.atKey key = (j.atKey key).map reparsed := by
  cases j with
  | integer z =>
      rw [reparsed_integer]
      split <;> rfl
  | object fields =>
      simp only [reparsed, atKey, lookup_reparsedFields]
      cases fields.lookup key <;> rfl
  | _ => rfl

theorem getString_reparsed (j : Json) : j.reparsed.getString = j.getString := by
  cases j with
  | integer z =>
      rw [reparsed_integer]
      split <;> rfl
  | array elements => rfl
  | object fields => rfl
  | _ => rfl

theorem getBool_reparsed (j : Json) : j.reparsed.getBool = j.getBool := by
  cases j with
  | integer z =>
      rw [reparsed_integer]
      split <;> rfl
  | array elements => rfl
  | object fields => rfl
  | _ => rfl

theorem getUInt64_reparsed (j : Json) : j.reparsed.getUInt64 = j.getUInt64 := by
  cases j with
  | integer z =>
      rw [reparsed_integer]
      split <;> rfl
  | array elements => rfl
  | object fields => rfl
  | _ => rfl

theorem bmod_toNat_emod {z : Int} (m : Nat) (hm : (m : Int) ∣ 2 ^ 64) :
    Int.bmod (z % 2 ^ 64).toNat m = Int.bmod z m := by
  have hnonneg : 0 ≤ z % 2 ^ 64 := Int.emod_nonneg z (by decide)
  rw [Int.toNat_of_nonneg hnonneg, Int.bmod_def, Int.emod_emod_of_dvd z hm, ← Int.bmod_def]

theorem getInt_reparsed (j : Json) : j.reparsed.getInt = j.getInt := by
  cases j with
  | integer z =>
      rw [reparsed_integer]
      split
      · exact congrArg Except.ok (bmod_toNat_emod (2 ^ 32) (by decide))
      · rfl
  | array elements => rfl
  | object fields => rfl
  | _ => rfl

theorem getInt64_reparsed (j : Json) : j.reparsed.getInt64 = j.getInt64 := by
  cases j with
  | integer z =>
      rw [reparsed_integer]
      split
      · exact congrArg Except.ok (bmod_toNat_emod (2 ^ 64) (by decide))
      · rfl
  | array elements => rfl
  | object fields => rfl
  | _ => rfl

theorem mapM_reparsed {get : Json → Except String α} (h : ∀ v, get v.reparsed = get v)
    (elements : List Json) : (elements.map reparsed).mapM get = elements.mapM get := by
  rw [List.mapM_map]
  exact congrArg (elements.mapM ·) (funext h)

theorem getStrings_reparsed (j : Json) : j.reparsed.getStrings = j.getStrings := by
  cases j with
  | integer z =>
      rw [reparsed_integer]
      split <;> rfl
  | array elements =>
      simp only [reparsed, getStrings, reparsedElements_eq, mapM_reparsed getString_reparsed]
  | object fields => rfl
  | _ => rfl

theorem value_reparsed {get : Json → Except String α} (h : ∀ v, get v.reparsed = get v)
    (j : Json) (key : String) (default : α) :
    j.reparsed.value get key default = j.value get key default := by
  cases j with
  | integer z =>
      rw [reparsed_integer]
      split <;> rfl
  | object fields =>
      simp only [reparsed, value, lookup_reparsedFields]
      cases fields.lookup key with
      | none => rfl
      | some v => exact h v
  | _ => rfl

theorem valueOption_reparsed {get : Json → Except String α} (h : ∀ v, get v.reparsed = get v)
    (j : Json) (key : String) : j.reparsed.valueOption get key = j.valueOption get key := by
  rw [valueOption_eq, valueOption_eq, find?_reparsed]
  cases j.find? key with
  | none => rfl
  | some v => simp [readOption, h]

end Json

end Tmgr
