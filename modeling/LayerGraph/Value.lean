import LayerGraph.Number.Decimal
import LayerGraph.Number.Numeral
import LayerGraph.Table
set_option autoImplicit false

namespace LayerGraph

inductive Value where
  | null
  | bool (b : Bool)
  | int (n : Int)
  | float (x : Binary64)
  | str (s : String)
  | list (items : List Value)
  | object (fields : List (String × Value))
  deriving Repr

abbrev Fields := Table Value

def Fields.get (fields : Fields) (key : String) : Value := (fields.get? key).getD .null

namespace Value

mutual
def beq : Value → Value → Bool
  | .null, .null => true
  | .bool a, .bool b => a == b
  | .int a, .int b => a == b
  | .float a, .float b => a == b
  | .str a, .str b => a == b
  | .list a, .list b => beqItems a b
  | .object a, .object b => beqFields a b
  | _, _ => false
def beqItems : List Value → List Value → Bool
  | [], [] => true
  | a :: as, b :: bs => a.beq b && beqItems as bs
  | _, _ => false
def beqFields : List (String × Value) → List (String × Value) → Bool
  | [], [] => true
  | (k, a) :: as, (l, b) :: bs => k == l && a.beq b && beqFields as bs
  | _, _ => false
end

mutual
theorem beq_iff : ∀ a b : Value, a.beq b = true ↔ a = b
  | .null, b => by cases b <;> simp [beq]
  | .bool a, b => by cases b <;> simp [beq]
  | .int a, b => by cases b <;> simp [beq]
  | .float a, b => by cases b <;> simp [beq]
  | .str a, b => by cases b <;> simp [beq]
  | .list a, b => by cases b <;> simp [beq, beqItems_iff a]
  | .object a, b => by cases b <;> simp [beq, beqFields_iff a]
theorem beqItems_iff : ∀ a b : List Value, beqItems a b = true ↔ a = b
  | [], b => by cases b <;> simp [beqItems]
  | a :: as, b => by cases b <;> simp [beqItems, beq_iff a, beqItems_iff as]
theorem beqFields_iff : ∀ a b : List (String × Value), beqFields a b = true ↔ a = b
  | [], b => by cases b <;> simp [beqFields]
  | (k, a) :: as, b => by
    cases b with
    | nil => simp [beqFields]
    | cons head tail =>
      obtain ⟨l, v⟩ := head
      simp [beqFields, beq_iff a, beqFields_iff as]
end

instance : DecidableEq Value := fun a b => decidable_of_iff _ (beq_iff a b)

def form : Value → Form
  | .null => .null
  | .bool _ => .boolean
  | .int _ => .integer
  | .float _ => .float
  | .str _ => .text
  | .list _ => .list
  | .object _ => .object

/-- Values that count as set: all but null, false, zeros and empty texts, lists and objects. -/
def truthy : Value → Bool
  | .null => false
  | .bool b => b
  | .int n => n != 0
  | .float x => !x.isZero
  | .str s => !s.isEmpty
  | .list items => !items.isEmpty
  | .object fields => !fields.isEmpty

def orElse (a b : Value) : Value := if a.truthy then a else b

def ofOption {α : Type} (encode : α → Value) : Option α → Value
  | none => .null
  | some a => encode a

mutual
/-- The value with whole numbers in the place of floating point numbers without a fraction. -/
def whole : Value → Value
  | .float x =>
    match x.whole? with
    | some n => .int n
    | none => .float x
  | .list items => .list (wholeItems items)
  | v => v
def wholeItems : List Value → List Value
  | [] => []
  | v :: vs => v.whole :: wholeItems vs
end

mutual
def finiteOnly : Value → Value
  | .float x => if x.isFinite then .float x else .null
  | .list items => .list (finiteItems items)
  | .object fields => .object (finiteFields fields)
  | v => v
def finiteItems : List Value → List Value
  | [] => []
  | v :: vs => v.finiteOnly :: finiteItems vs
def finiteFields : List (String × Value) → List (String × Value)
  | [] => []
  | (k, v) :: rest => (k, v.finiteOnly) :: finiteFields rest
end

mutual
def writable : Value → Bool
  | .int n => isWritable n
  | .list items => writableItems items
  | .object fields => writableFields fields
  | _ => true
def writableItems : List Value → Bool
  | [] => true
  | v :: vs => v.writable && writableItems vs
def writableFields : List (String × Value) → Bool
  | [] => true
  | (_, v) :: rest => v.writable && writableFields rest
end

mutual
def literalChars : Value → List Char
  | .null => "None".toList
  | .bool b => (if b then "True" else "False").toList
  | .int n => Text.decimalChars n
  | .float x => Layout.literal.write x
  | .str s => Text.quotedChars s.toList
  | .list items => '[' :: literalItems items
  | .object fields => '\x7b' :: literalFields fields
def literalItems : List Value → List Char
  | [] => [']']
  | [v] => v.literalChars ++ [']']
  | v :: vs => v.literalChars ++ ',' :: ' ' :: literalItems vs
def literalFields : List (String × Value) → List Char
  | [] => ['\x7d']
  | [(k, v)] => Text.quotedChars k.toList ++ ':' :: ' ' :: v.literalChars ++ ['\x7d']
  | (k, v) :: rest =>
    Text.quotedChars k.toList ++ ':' :: ' ' :: v.literalChars ++ ',' :: ' ' :: literalFields rest
end

def literal (v : Value) : String := String.ofList v.literalChars

/-- The literal of a value whose integers can all be written. -/
def write (v : Value) : Except Fault String :=
  if v.writable then .ok v.literal else .error .integerTooLong

def display : Value → Except Fault String
  | .str s => .ok s
  | v => v.write

/-- The whole number that a value stands for: a flag is 0 or 1, a fraction is cut off, and a text
is read as a numeral. -/
def toInt : Value → Except Fault Int
  | .bool b => .ok (if b then 1 else 0)
  | .int n => .ok n
  | .float .nan => .error .notANumber
  | .float (.infinite _) => .error .infinity
  | .float x => .ok (x.truncate?.getD 0)
  | .str s => Numeral.integer s
  | v => .error (.notNumeric v.form)

/-- A size for each of the two spatial axes: one number for both, or a list whose first two items
count; nothing and the empty list stand for a fallback. -/
def toPair (v : Value) (fallback : Int) : Except Fault (Int × Int) :=
  match v with
  | .null | .list [] => .ok (fallback, fallback)
  | .list [a] => do
    let n ← a.toInt
    return (n, n)
  | .list (a :: b :: _) => do
    let n ← a.toInt
    let m ← b.toInt
    return (n, m)
  | v => do
    let n ← v.toInt
    return (n, n)

end Value

def writeInt (n : Int) : Except Fault String :=
  if isWritable n then .ok (Text.decimal n) else .error .integerTooLong

end LayerGraph
