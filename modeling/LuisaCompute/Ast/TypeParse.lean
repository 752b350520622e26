import LuisaCompute.Ast.Type

/-!
# Reading a description back

Two kernel values get the same registered `Type` exactly when their descriptions are equal, so the
registry keeps shapes apart only if `Shape.description` is injective. This module proves it with a
recursive-descent parser of the description grammar that recovers every shape from its description.
Everything rests on where a description ends (`Stop`): in `>` or in a scalar's name, followed inside
an enclosing description by `,` or `>`, so the word and number readers, which read as far as they
can, stop exactly where the description put the end, and a member list splits uniquely at its commas.
-/

namespace LuisaCompute

namespace TypeParse

/-- The word a description starts with: a scalar's name or a type constructor's. -/
inductive Head
  | scalar (s : Scalar)
  | vector
  | matrix
  | array
  | struct
  | buffer
  | texture
  | heap
  | accel
  deriving DecidableEq

def Head.name : Head → List Char
  | .scalar s => s.description.data
  | .vector => "vector".data
  | .matrix => "matrix".data
  | .array => "array".data
  | .struct => "struct".data
  | .buffer => "buffer".data
  | .texture => "texture".data
  | .heap => "heap".data
  | .accel => "accel".data

def Head.all : List Head :=
  [.scalar .bool, .scalar .float, .scalar .int, .scalar .uint, .vector, .matrix, .array, .struct,
    .buffer, .texture, .heap, .accel]

def Head.ofName? (word : List Char) : Option Head := Head.all.find? (·.name = word)

@[simp] theorem Head.ofName?_name (h : Head) : Head.ofName? h.name = some h := by
  rcases h with (_ | _ | _ | _) | _ | _ | _ | _ | _ | _ | _ | _ <;> rfl

theorem Head.isLower_of_mem_name (h : Head) : ∀ c ∈ h.name, c.isLower = true := by
  rcases h with (_ | _ | _ | _) | _ | _ | _ | _ | _ | _ | _ | _ <;> decide

/-! ### Lexing -/

def readWhile (p : Char → Bool) : List Char → List Char × List Char
  | c :: cs => if p c then (c :: (readWhile p cs).1, (readWhile p cs).2) else ([], c :: cs)
  | [] => ([], [])

/-- What may follow a description: nothing, or the `,` or `>` of an enclosing one. -/
def Stop (rest : List Char) : Prop := ∀ c ∈ rest.head?, c = ',' ∨ c = '>'

theorem Stop.not_lower {rest : List Char} (h : Stop rest) : ∀ c ∈ rest.head?, c.isLower = false := by
  intro c hc
  rcases h c hc with rfl | rfl <;> rfl

theorem Stop.not_digit {rest : List Char} (h : Stop rest) : ∀ c ∈ rest.head?, c.isDigit = false := by
  intro c hc
  rcases h c hc with rfl | rfl <;> rfl

theorem readWhile_append {p : Char → Bool} {word rest : List Char} (hword : ∀ c ∈ word, p c = true)
    (hrest : ∀ c ∈ rest.head?, p c = false) : readWhile p (word ++ rest) = (word, rest) := by
  induction word with
  | nil =>
    cases rest with
    | nil => rfl
    | cons c cs => simp [readWhile, hrest c rfl]
  | cons c cs ih =>
    simp only [List.mem_cons, forall_eq_or_imp] at hword
    simp [readWhile, hword.1, ih hword.2]

/-- The word reader stops at a head name. -/
theorem readWord_name (h : Head) {rest : List Char} (hrest : ∀ c ∈ rest.head?, c.isLower = false) :
    readWhile Char.isLower (h.name ++ rest) = (h.name, rest) :=
  readWhile_append h.isLower_of_mem_name hrest

/-- Reads a numeral, as many digits as there are. -/
def readNumber (cs : List Char) : Option (Nat × List Char) :=
  match readWhile Char.isDigit cs with
  | ([], _) => none
  | (ds, rest) => some (Decimal.digitsValue ds, rest)

theorem readNumber_toDigits (n : Nat) {rest : List Char} (hrest : ∀ c ∈ rest.head?, c.isDigit = false) :
    readNumber (Nat.toDigits 10 n ++ rest) = some (n, rest) := by
  have hread : readWhile Char.isDigit (Nat.toDigits 10 n ++ rest) = (Nat.toDigits 10 n, rest) :=
    readWhile_append (fun _ hc => Decimal.isDigit_of_mem_toDigits hc) hrest
  rw [readNumber, hread]
  rcases hcs : Nat.toDigits 10 n with _ | ⟨c, cs⟩
  · exact absurd hcs (Decimal.toDigits_ne_nil n)
  · dsimp only
    rw [← hcs, Decimal.digitsValue_toDigits]

def readDimension : List Char → Option (Dimension × List Char)
  | '2' :: rest => some (.two, rest)
  | '3' :: rest => some (.three, rest)
  | '4' :: rest => some (.four, rest)
  | _ => none

@[simp] theorem readDimension_description (n : Dimension) (rest : List Char) :
    readDimension (n.description.data ++ rest) = some (n, rest) := by
  cases n <;> rfl

def expect (c : Char) : List Char → Option (List Char)
  | d :: rest => if d = c then some rest else none
  | [] => none

@[simp] theorem expect_cons_self (c : Char) (rest : List Char) : expect c (c :: rest) = some rest := by
  simp [expect]

/-! ### The parser -/

mutual

/-- Parses one description off the front of the input; `fuel` bounds the nesting. -/
def parseShape : Nat → List Char → Option (Shape × List Char)
  | 0, _ => none
  | fuel + 1, cs =>
    let (word, rest) := readWhile Char.isLower cs
    match Head.ofName? word with
    | some (.scalar s) => some (.scalar s, rest)
    | some .vector => do
      let (word, rest) := readWhile Char.isLower (← expect '<' rest)
      let some (.scalar s) := Head.ofName? word | none
      let (n, rest) ← readDimension (← expect ',' rest)
      return (.vector s n, ← expect '>' rest)
    | some .matrix => do
      let (n, rest) ← readDimension (← expect '<' rest)
      return (.matrix n, ← expect '>' rest)
    | some .array => do
      let (t, rest) ← parseShape fuel (← expect '<' rest)
      let (k, rest) ← readNumber (← expect ',' rest)
      return (.array t k, ← expect '>' rest)
    | some .struct => do
      let (k, rest) ← readNumber (← expect '<' rest)
      let (ts, rest) ← parseMembers fuel rest
      return (.struct k ts, rest)
    | some .buffer => do
      let (t, rest) ← parseShape fuel (← expect '<' rest)
      return (.buffer t, ← expect '>' rest)
    | some .texture => do
      let (n, rest) ← readDimension (← expect '<' rest)
      let (t, rest) ← parseShape fuel (← expect ',' rest)
      let rest ← expect '>' rest
      match n with
      | .two => return (.image t, rest)
      | .three => return (.volume t, rest)
      | .four => none
    | some .heap => some (.heap, rest)
    | some .accel => some (.accel, rest)
    | none => none

/-- Parses the `,member` items of a structure, up to and including its closing `>`. -/
def parseMembers : Nat → List Char → Option (List Shape × List Char)
  | 0, _ => none
  | _ + 1, '>' :: rest => some ([], rest)
  | fuel + 1, ',' :: rest => do
    let (t, rest) ← parseShape fuel rest
    let (ts, rest) ← parseMembers fuel rest
    return (t :: ts, rest)
  | _ + 1, _ => none

end

/-! ### Descriptions as characters -/

section Data

variable (s : Scalar) (n : Dimension) (t : Shape) (k : Nat) (ts : List Shape)

theorem data_scalar : (Shape.scalar s).description.data = (Head.scalar s).name := rfl

theorem data_vector : (Shape.vector s n).description.data =
    Head.vector.name ++ '<' :: ((Head.scalar s).name ++ ',' :: (n.description.data ++ ['>'])) := by
  simp only [Shape.description, String.data_append, List.append_assoc]
  rfl

theorem data_matrix :
    (Shape.matrix n).description.data = Head.matrix.name ++ '<' :: (n.description.data ++ ['>']) := by
  simp only [Shape.description, String.data_append, List.append_assoc]
  rfl

theorem data_array : (Shape.array t k).description.data =
    Head.array.name ++ '<' :: (t.description.data ++ ',' :: (Nat.toDigits 10 k ++ ['>'])) := by
  simp only [Shape.description, String.data_append, List.append_assoc]
  rfl

theorem data_struct : (Shape.struct k ts).description.data =
    Head.struct.name ++ '<' :: (Nat.toDigits 10 k ++ ((Shape.memberDescriptions ts).data ++ ['>'])) := by
  simp only [Shape.description, String.data_append, List.append_assoc]
  rfl

theorem data_buffer :
    (Shape.buffer t).description.data = Head.buffer.name ++ '<' :: (t.description.data ++ ['>']) := by
  simp only [Shape.description, String.data_append, List.append_assoc]
  rfl

theorem data_image : (Shape.image t).description.data =
    Head.texture.name ++ '<' :: (Dimension.two.description.data ++ ',' :: (t.description.data ++ ['>'])) := by
  simp only [Shape.description, String.data_append, List.append_assoc]
  rfl

theorem data_volume : (Shape.volume t).description.data =
    Head.texture.name ++ '<' :: (Dimension.three.description.data ++ ',' :: (t.description.data ++ ['>'])) := by
  simp only [Shape.description, String.data_append, List.append_assoc]
  rfl

theorem data_heap : Shape.heap.description.data = Head.heap.name := rfl

theorem data_accel : Shape.accel.description.data = Head.accel.name := rfl

theorem data_members_nil : (Shape.memberDescriptions []).data = [] := rfl

theorem data_members_cons : (Shape.memberDescriptions (t :: ts)).data =
    ',' :: (t.description.data ++ (Shape.memberDescriptions ts).data) := by
  simp only [Shape.memberDescriptions, String.data_append, List.append_assoc]
  rfl

end Data

/-! ### The round trip -/

theorem Stop.comma (cs : List Char) : Stop (',' :: cs) := fun _ hc => .inl (Option.mem_some_iff.1 hc).symm

theorem Stop.close (cs : List Char) : Stop ('>' :: cs) := fun _ hc => .inr (Option.mem_some_iff.1 hc).symm

theorem stop_members (ts : List Shape) (rest : List Char) :
    Stop ((Shape.memberDescriptions ts).data ++ '>' :: rest) := by
  cases ts with
  | nil => exact Stop.close rest
  | cons t ts => rw [data_members_cons]; exact Stop.comma _

/-- The word reader stops at a head name followed by a character that is not a letter. -/
theorem readWord_name_cons (h : Head) {c : Char} (hc : c.isLower = false) (cs : List Char) :
    readWhile Char.isLower (h.name ++ c :: cs) = (h.name, c :: cs) :=
  readWord_name h fun _ hd => (Option.mem_some_iff.1 hd) ▸ hc

mutual

/-- The fuel `parseShape` needs for a shape. -/
def size : Shape → Nat
  | .array t _ | .buffer t | .image t | .volume t => size t + 1
  | .struct _ ts => membersSize ts + 1
  | _ => 0

def membersSize : List Shape → Nat
  | [] => 0
  | t :: ts => size t + membersSize ts + 1

end

mutual

theorem parseShape_description (t : Shape) (fuel : Nat) (hfuel : size t < fuel) {rest : List Char}
    (hrest : Stop rest) : parseShape fuel (t.description.data ++ rest) = some (t, rest) := by
  obtain ⟨fuel, rfl⟩ : ∃ f, fuel = f + 1 := ⟨fuel - 1, by omega⟩
  match t with
  | .scalar _ | .heap | .accel =>
    simp [parseShape, data_scalar, data_heap, data_accel, readWord_name _ hrest.not_lower]
  | .vector s n =>
    simp [parseShape, data_vector, readWord_name_cons _ (c := '<') rfl,
      readWord_name_cons _ (c := ',') rfl]
  | .matrix n =>
    simp [parseShape, data_matrix, readWord_name_cons _ (c := '<') rfl]
  | .array t k =>
    have ht := parseShape_description t fuel (Nat.lt_of_succ_lt_succ hfuel)
      (Stop.comma (Nat.toDigits 10 k ++ '>' :: rest))
    simp [parseShape, data_array, readWord_name_cons _ (c := '<') rfl, ht,
      readNumber_toDigits k (Stop.close rest).not_digit]
  | .struct k ts =>
    have hts := parseMembers_memberDescriptions ts fuel (Nat.lt_of_succ_lt_succ hfuel) rest
    simp [parseShape, data_struct, readWord_name_cons _ (c := '<') rfl, hts,
      readNumber_toDigits k (stop_members ts rest).not_digit]
  | .buffer t | .image t | .volume t =>
    have ht := parseShape_description t fuel (Nat.lt_of_succ_lt_succ hfuel) (Stop.close rest)
    simp [parseShape, data_buffer, data_image, data_volume, readWord_name_cons _ (c := '<') rfl, ht]

theorem parseMembers_memberDescriptions (ts : List Shape) (fuel : Nat) (hfuel : membersSize ts < fuel)
    (rest : List Char) :
    parseMembers fuel ((Shape.memberDescriptions ts).data ++ '>' :: rest) = some (ts, rest) := by
  obtain ⟨fuel, rfl⟩ : ∃ f, fuel = f + 1 := ⟨fuel - 1, by omega⟩
  match ts with
  | [] => rfl
  | t :: ts =>
    have hsize : size t + membersSize ts + 1 < fuel + 1 := hfuel
    have ht := parseShape_description t fuel (by omega) (stop_members ts rest)
    have hts := parseMembers_memberDescriptions ts fuel (by omega) rest
    simp [parseMembers, data_members_cons, ht, hts]

end

mutual

theorem size_le_length (t : Shape) : size t ≤ t.description.data.length := by
  match t with
  | .scalar _ | .vector _ _ | .matrix _ | .heap | .accel => exact Nat.zero_le _
  | .array t k | .buffer t | .image t | .volume t =>
    have := size_le_length t
    simp only [size, data_array, data_buffer, data_image, data_volume, List.length_append,
      List.length_cons]
    omega
  | .struct k ts =>
    have := membersSize_le_length ts
    simp only [size, data_struct, List.length_append, List.length_cons]
    omega

theorem membersSize_le_length (ts : List Shape) :
    membersSize ts ≤ (Shape.memberDescriptions ts).data.length := by
  match ts with
  | [] => exact Nat.zero_le _
  | t :: ts =>
    have := size_le_length t
    have := membersSize_le_length ts
    simp only [membersSize, data_members_cons, List.length_append, List.length_cons]
    omega

end

/-- Parses a whole description, with as much fuel as the description has characters. -/
def parse (description : String) : Option Shape :=
  match parseShape (description.length + 1) description.data with
  | some (t, []) => some t
  | _ => none

/-- The parser recovers every shape from its description. -/
theorem parse_description (t : Shape) : parse t.description = some t := by
  have h : parseShape (t.description.length + 1) (t.description.data ++ []) = some (t, []) :=
    parseShape_description t _ (Nat.lt_succ_of_le (size_le_length t)) (fun _ hc => by simp at hc)
  rw [List.append_nil] at h
  simp only [parse, h]

example : parse "struct<16,array<vector<float,3>,4>,texture<2,uint>>" =
    some (.struct 16 [.array (.vector .float .three) 4, .image (.scalar .uint)]) := rfl

/-- Two shapes with the same description are the same shape. -/
theorem description_injective : Function.Injective Shape.description := fun t u h =>
  Option.some.inj ((parse_description t).symm.trans (h ▸ parse_description u))

end TypeParse

end LuisaCompute
