import LiveLinear.Decimal.Binary

namespace LiveLinear

/-! # Foreign values

Values that are no handles, passed where a handle is expected. All that matters
of such a value is what kind it is and which other values it equals. -/

inductive Kind where
  | text
  | whole
  | real
  | nothing
  | truth
  | sequence
  | mapping
  deriving DecidableEq

namespace Kind

def name : Kind → String
  | .text => "str"
  | .whole => "int"
  | .real => "float"
  | .nothing => "NoneType"
  | .truth => "bool"
  | .sequence => "list"
  | .mapping => "dict"

def isHashable : Kind → Bool
  | .sequence | .mapping => false
  | _ => true

end Kind

/-- A value that is no handle. Equal values have equal spellings, also across
kinds; a value without a spelling equals nothing, not even itself. -/
structure Foreign where
  kind : Kind
  spelling : Option String
  deriving DecidableEq

namespace Foreign

def same (left right : Foreign) : Bool :=
  left.spelling.isSome && decide (left.spelling = right.spelling)

def numberSpelling (value : Rat) : String :=
  "#" ++ toString value.num ++ "/" ++ toString value.den

def nothing : Foreign :=
  ⟨.nothing, some "~"⟩

instance : Inhabited Foreign :=
  ⟨nothing⟩

def ofWhole (value : Int) : Foreign :=
  ⟨.whole, some (numberSpelling value)⟩

def ofTruth (value : Bool) : Foreign :=
  ⟨.truth, some (numberSpelling (if value then 1 else 0))⟩

def ofReal (value : Float) : Foreign :=
  match Decimal.Binary.ofFloat value with
  | .unordered => ⟨.real, none⟩
  | .infinite negative => ⟨.real, some (if negative then "-inf" else "+inf")⟩
  | .finite negative significand exponent =>
      let size := significand * Nat.pow 2 exponent.toNat
      let numerator : Int := if negative then -(size : Int) else size
      ⟨.real,
        some (numberSpelling (mkRat numerator (Nat.pow 2 (-exponent).toNat)))⟩

/-- A text is spelled with its length in front, so that spellings can follow
each other without a mark between them. -/
def textSpelling (value : String) : String :=
  "@" ++ toString value.length ++ ":" ++ value

def ofText (value : String) : Foreign :=
  ⟨.text, some (textSpelling value)⟩

def ofSequence (members : List Foreign) : Foreign :=
  ⟨.sequence, (members.mapM spelling).map fun spellings =>
    "[" ++ String.join spellings ++ "]"⟩

def ofMapping (entries : List (String × Foreign)) : Foreign :=
  let sorted := entries.mergeSort fun left right => decide (left.1 ≤ right.1)
  let spellings := sorted.mapM fun entry =>
    entry.2.spelling.map fun spelling => textSpelling entry.1 ++ spelling
  ⟨.mapping, spellings.map fun spellings => "<" ++ String.join spellings ++ ">"⟩

end Foreign

end LiveLinear
