import LuisaCompute.Core.Decimal

/-!
# Type shapes and their descriptions

`Type::of<T>()` registers a type under `detail::TypeDesc<T>::description()`. A `Shape` is the C++
type up to what `TypeDesc` tells apart: the four scalars, vectors and square float matrices of order
2 to 4, arrays (`std::array<T, N>` and `T[N]`), structures (`std::tuple<T...>` and what `LUISA_STRUCT`
reflects), `Buffer<T>`, `Image<T>`, `Volume<T>`, `Heap` and `Accel`; a view inherits its resource's
`TypeDesc`, so it has its resource's shape. `toString` stands for both `fmt::format("{}")` and
`std::ostringstream` of a `size_t`.
-/

namespace LuisaCompute

/-- The scalars `LUISA_MAKE_SCALAR_AND_VECTOR_TYPE_DESC_SPECIALIZATION` is applied to. -/
inductive Scalar
  | bool
  | float
  | int
  | uint
  deriving DecidableEq, Repr

inductive Dimension
  | two
  | three
  | four
  deriving DecidableEq, Repr

inductive Shape
  | scalar (s : Scalar)
  | vector (s : Scalar) (n : Dimension)
  | matrix (n : Dimension)
  | array (element : Shape) (n : Nat)
  | struct (alignment : Nat) (members : List Shape)
  | buffer (element : Shape)
  | image (element : Shape)
  | volume (element : Shape)
  | heap
  | accel
  deriving Repr

namespace Shape

def uint2 : Shape := vector .uint .two

def uint3 : Shape := vector .uint .three

end Shape

/-- `#S`, the scalar's name as the macro stringizes it. -/
def Scalar.description : Scalar → String
  | .bool => "bool"
  | .float => "float"
  | .int => "int"
  | .uint => "uint"

def Dimension.description : Dimension → String
  | .two => "2"
  | .three => "3"
  | .four => "4"

mutual

def Shape.description : Shape → String
  | .scalar s => s.description
  | .vector s n => "vector<" ++ s.description ++ "," ++ n.description ++ ">"
  | .matrix n => "matrix<" ++ n.description ++ ">"
  | .array t n => "array<" ++ t.description ++ "," ++ toString n ++ ">"
  | .struct a ts => "struct<" ++ toString a ++ Shape.memberDescriptions ts ++ ">"
  | .buffer t => "buffer<" ++ t.description ++ ">"
  | .image t => "texture<2," ++ t.description ++ ">"
  | .volume t => "texture<3," ++ t.description ++ ">"
  | .heap => "heap"
  | .accel => "accel"

/-- The members of a structure, each behind the comma `appender` (or `",{}"`) puts before it. -/
def Shape.memberDescriptions : List Shape → String
  | [] => ""
  | t :: ts => "," ++ t.description ++ Shape.memberDescriptions ts

end

example : (Shape.struct 4 [.scalar .int, .scalar .float]).description = "struct<4,int,float>" := by
  decide

example : (Shape.array (.vector .float .three) 8).description = "array<vector<float,3>,8>" := by
  decide

end LuisaCompute
