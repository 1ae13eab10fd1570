import WasmBuilder.NumType

/-!
Shapes of values: one number, a positional tuple, or a record of named fields.

A composite shape has no machine type of its own. It occupies one slot for each number in it, in
declaration order (`Shape.flatten`), and two shapes may stand for each other when these slots agree
(`Shape.lowersLike`).
-/

set_option autoImplicit false

namespace WasmBuilder

/-- The shape of a value. The order of record fields is their position. -/
inductive Shape where
  | none
  /-- Not fixed yet; the first value that flows in decides. -/
  | auto
  | num (type : NumType)
  | tuple (fields : List Shape)
  | record (fields : List (String × Shape))
  deriving Repr, Inhabited

namespace Shape

def i32 : Shape := .num .i32
def i64 : Shape := .num .i64
def f32 : Shape := .num .f32
def f64 : Shape := .num .f64

def decEqPair {a b : String × Shape} (names : Decidable (a.1 = b.1))
    (shapes : Decidable (a.2 = b.2)) : Decidable (a = b) :=
  match names, shapes with
  | .isTrue h₁, .isTrue h₂ => .isTrue (Prod.ext h₁ h₂)
  | .isFalse h, _ => .isFalse fun e => h (e ▸ rfl)
  | _, .isFalse h => .isFalse fun e => h (e ▸ rfl)

mutual

def decEq : (a b : Shape) → Decidable (a = b)
  | .none, .none => .isTrue rfl
  | .auto, .auto => .isTrue rfl
  | .num s, .num t =>
    if h : s = t then .isTrue (h ▸ rfl) else .isFalse fun e => h (Shape.num.inj e)
  | .tuple s, .tuple t =>
    match decEqList s t with
    | .isTrue h => .isTrue (h ▸ rfl)
    | .isFalse h => .isFalse fun e => h (Shape.tuple.inj e)
  | .record s, .record t =>
    match decEqFields s t with
    | .isTrue h => .isTrue (h ▸ rfl)
    | .isFalse h => .isFalse fun e => h (Shape.record.inj e)
  | .none, .auto | .none, .num _ | .none, .tuple _ | .none, .record _
  | .auto, .none | .auto, .num _ | .auto, .tuple _ | .auto, .record _
  | .num _, .none | .num _, .auto | .num _, .tuple _ | .num _, .record _
  | .tuple _, .none | .tuple _, .auto | .tuple _, .num _ | .tuple _, .record _
  | .record _, .none | .record _, .auto | .record _, .num _ | .record _, .tuple _ =>
    .isFalse (fun e => by cases e)

def decEqList : (a b : List Shape) → Decidable (a = b)
  | [], [] => .isTrue rfl
  | [], _ :: _ => .isFalse (fun e => by cases e)
  | _ :: _, [] => .isFalse (fun e => by cases e)
  | s :: ss, t :: ts =>
    match decEq s t, decEqList ss ts with
    | .isTrue h₁, .isTrue h₂ => .isTrue (h₁ ▸ h₂ ▸ rfl)
    | .isFalse h, _ => .isFalse fun e => h (List.cons.inj e).1
    | _, .isFalse h => .isFalse fun e => h (List.cons.inj e).2

def decEqFields : (a b : List (String × Shape)) → Decidable (a = b)
  | [], [] => .isTrue rfl
  | [], _ :: _ => .isFalse (fun e => by cases e)
  | _ :: _, [] => .isFalse (fun e => by cases e)
  | (m, s) :: ss, (n, t) :: ts =>
    match decEqPair (a := (m, s)) (b := (n, t)) (inferInstanceAs (Decidable (m = n))) (decEq s t),
      decEqFields ss ts with
    | .isTrue h₁, .isTrue h₂ => .isTrue (h₁ ▸ h₂ ▸ rfl)
    | .isFalse h, _ => .isFalse fun e => h (List.cons.inj e).1
    | _, .isFalse h => .isFalse fun e => h (List.cons.inj e).2

end

instance : DecidableEq Shape := decEq

mutual

def flatten : Shape → List NumType
  | .none | .auto => []
  | .num t => [t]
  | .tuple fields => flattenAll fields
  | .record fields => flattenFields fields

def flattenAll : List Shape → List NumType
  | [] => []
  | s :: rest => s.flatten ++ flattenAll rest

def flattenFields : List (String × Shape) → List NumType
  | [] => []
  | (_, s) :: rest => s.flatten ++ flattenFields rest

end

mutual

def width : Shape → Nat
  | .none | .auto => 0
  | .num _ => 1
  | .tuple fields => widthAll fields
  | .record fields => widthFields fields

def widthAll : List Shape → Nat
  | [] => 0
  | s :: rest => s.width + widthAll rest

def widthFields : List (String × Shape) → Nat
  | [] => 0
  | (_, s) :: rest => s.width + widthFields rest

end

mutual

theorem width_eq : (s : Shape) → s.width = s.flatten.length
  | .none | .auto | .num _ => rfl
  | .tuple fields => widthAll_eq fields
  | .record fields => widthFields_eq fields

theorem widthAll_eq : (fields : List Shape) → widthAll fields = (flattenAll fields).length
  | [] => rfl
  | s :: rest => by rw [widthAll, flattenAll, List.length_append, width_eq s, widthAll_eq rest]

theorem widthFields_eq :
    (fields : List (String × Shape)) → widthFields fields = (flattenFields fields).length
  | [] => rfl
  | (_, s) :: rest => by
    rw [widthFields, flattenFields, List.length_append, width_eq s, widthFields_eq rest]

end

theorem sum_width (shapes : List Shape) :
    (shapes.map width).sum = (shapes.flatMap flatten).length := by
  rw [List.length_flatMap, List.map_congr_left fun s _ => width_eq s]

def fields : Shape → List Shape
  | .tuple fs => fs
  | .record fs => fs.map (·.2)
  | _ => []

def fieldOffset (s : Shape) (index : Nat) : Nat := ((s.fields.take index).map width).sum

def lowersLike (a b : Shape) : Bool := a.flatten = b.flatten

def isPrimitive : Shape → Bool
  | .num _ => true
  | _ => false

def isComposite : Shape → Bool
  | .tuple _ | .record _ => true
  | _ => false

def isOpen : Shape → Bool
  | .none | .auto => true
  | _ => false

def ofSlots : List NumType → Shape
  | [] => .none
  | [t] => .num t
  | ts => .tuple (ts.map .num)

mutual

/-- The shape as text: `(i32, f64)` for tuples, `{ x: i32, y: f64 }` for records. -/
def text : Shape → String
  | .none => "none"
  | .auto => "auto"
  | .num t => t.name
  | .tuple fields => "(" ++ textList fields ++ ")"
  | .record fields => "\x7b" ++ textFields fields ++ " \x7d"

def textList : List Shape → String
  | [] => ""
  | [s] => s.text
  | s :: rest => s.text ++ ", " ++ textList rest

def textFields : List (String × Shape) → String
  | [] => ""
  | [(name, s)] => " " ++ name ++ ": " ++ s.text
  | (name, s) :: rest => " " ++ name ++ ": " ++ s.text ++ "," ++ textFields rest

end

@[simp] theorem flatten_none : Shape.none.flatten = [] := rfl
@[simp] theorem flatten_auto : Shape.auto.flatten = [] := rfl
@[simp] theorem flatten_num (t : NumType) : (Shape.num t).flatten = [t] := rfl

@[simp] theorem flatten_tuple (fs : List Shape) :
    (Shape.tuple fs).flatten = fs.flatMap flatten := by
  induction fs with
  | nil => rfl
  | cons s rest ih =>
    simp only [List.flatMap_cons, ← ih]
    rfl

@[simp] theorem flatten_record (fs : List (String × Shape)) :
    (Shape.record fs).flatten = fs.flatMap (·.2.flatten) := by
  induction fs with
  | nil => rfl
  | cons s rest ih =>
    simp only [List.flatMap_cons, ← ih]
    rfl

@[simp] theorem flatten_ofSlots (ts : List NumType) : (ofSlots ts).flatten = ts := by
  match ts with
  | [] => rfl
  | [_] => rfl
  | a :: b :: rest =>
    simp only [ofSlots, flatten_tuple, List.flatMap_map]
    induction a :: b :: rest with
    | nil => rfl
    | cons t ts ih => simp only [List.flatMap_cons, ih]; rfl

end Shape

abbrev Bindings := List (String × Shape)

def Bindings.flatten (bs : Bindings) : List NumType := bs.flatMap (·.2.flatten)

end WasmBuilder
