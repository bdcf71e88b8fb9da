import GetBibleSword.Lib.Bytes

/-!
# A JSON reader

The reader of Python's `json` module on a string: `loads` with its two hooks, the one that builds
an object from its member list and the one that receives `NaN`, `Infinity` and `-Infinity`.

* `Json` : values; a number with a fraction or an exponent stays a decimal literal;
* `scanString`, `scanNumber`, `scanOnce` : the scanner; each returns what follows the value;
* `loads` : one value with optional white space around it. Nesting and member lists are scanned on
  fuel; `loads` supplies more than a text of its length can use.
-/

namespace GetBibleSword.Lib

/-- The decimal literal `± digits · 10 ^ exponent`. -/
structure FloatLiteral where
  negative : Bool
  digits : Nat
  exponent : Int
deriving DecidableEq

/-- The nearest double is `1.0`: the literal lies between the midpoints to its two neighbours,
`1 - 2 ^ -53` and `1 + 2 ^ -52`, and a tie goes to the even one. -/
def FloatLiteral.roundsToOne (x : FloatLiteral) : Bool :=
  !x.negative &&
    match x.exponent with
    | .ofNat e => x.digits * 10 ^ e == 1
    | .negSucc e =>
      decide ((2 ^ 54 - 1) * 10 ^ (e + 1) ≤ x.digits * 2 ^ 54) &&
        decide (x.digits * 2 ^ 53 ≤ (2 ^ 53 + 1) * 10 ^ (e + 1))

inductive Json where
  | null
  | bool (b : Bool)
  | int (i : Int)
  | float (x : FloatLiteral)
  | str (s : Text)
  | arr (xs : List Json)
  | obj (ms : List (Text × Json))

namespace Json

/-- What a hook raises, and the string it is about. -/
structure HookError where
  message : String
  subject : Text
deriving DecidableEq

inductive ScanError where
  | syntactic (message : String)
  | hook (error : HookError)
  | fuel
deriving DecidableEq

def isSpace (c : Nat) : Bool := c == 0x20 || c == 0x09 || c == 0x0a || c == 0x0d

def skipSpace (s : Text) : Text := s.dropWhile isSpace

/-! ## Strings -/

def hexValue (c : Nat) : Option Nat :=
  if 0x30 ≤ c ∧ c ≤ 0x39 then some (c - 0x30)
  else if 0x61 ≤ c ∧ c ≤ 0x66 then some (c - 0x57)
  else if 0x41 ≤ c ∧ c ≤ 0x46 then some (c - 0x37)
  else none

def hex4 (a b c d : Nat) : Option Nat :=
  match hexValue a, hexValue b, hexValue c, hexValue d with
  | some a, some b, some c, some d => some (a * 0x1000 + b * 0x100 + c * 0x10 + d)
  | _, _, _, _ => none

/-- The character a one-letter escape names. -/
def simpleEscape (c : Nat) : Option Nat :=
  if c = 0x22 then some 0x22
  else if c = 0x5c then some 0x5c
  else if c = 0x2f then some 0x2f
  else if c = 0x62 then some 0x08
  else if c = 0x66 then some 0x0c
  else if c = 0x6e then some 0x0a
  else if c = 0x72 then some 0x0d
  else if c = 0x74 then some 0x09
  else none

/-- The rest of a string after its opening quote, escapes resolved one by one. -/
def scanUnits : Text → Except ScanError (Text × Text)
  | [] => .error (.syntactic "Unterminated string starting at")
  | c :: s =>
    if c = 0x22 then .ok ([], s)
    else if c = 0x5c then
      match s with
      | [] => .error (.syntactic "Unterminated string starting at")
      | e :: s =>
        if e = 0x75 then
          match s with
          | h1 :: h2 :: h3 :: h4 :: s =>
            match hex4 h1 h2 h3 h4 with
            | some u => (scanUnits s).map fun p => (u :: p.1, p.2)
            | none => .error (.syntactic "Invalid \\uXXXX escape")
          | _ => .error (.syntactic "Invalid \\uXXXX escape")
        else
          match simpleEscape e with
          | some u => (scanUnits s).map fun p => (u :: p.1, p.2)
          | none => .error (.syntactic "Invalid \\escape")
    else if c < 0x20 then .error (.syntactic "Invalid control character at")
    else (scanUnits s).map fun p => (c :: p.1, p.2)

def IsHigh (c : Nat) : Prop := 0xd800 ≤ c ∧ c < 0xdc00

def IsLow (c : Nat) : Prop := 0xdc00 ≤ c ∧ c < 0xe000

instance (c : Nat) : Decidable (IsHigh c) := inferInstanceAs (Decidable (_ ∧ _))

instance (c : Nat) : Decidable (IsLow c) := inferInstanceAs (Decidable (_ ∧ _))

/-- A high surrogate followed by a low one is the character of the pair; any other stays alone.
Text decoded from UTF-8 holds no surrogate, so both halves of a pair come from escapes. -/
def joinSurrogates : Text → Text
  | [] => []
  | hi :: s =>
    match s with
    | [] => [hi]
    | lo :: r =>
      if IsHigh hi ∧ IsLow lo then
        (0x10000 + (hi - 0xd800) * 0x400 + (lo - 0xdc00)) :: joinSurrogates r
      else hi :: joinSurrogates (lo :: r)

def scanString (s : Text) : Except ScanError (Text × Text) :=
  (scanUnits s).map fun p => (joinSurrogates p.1, p.2)

/-! ## Numbers -/

def takeDigits (s : Text) : Text := s.takeWhile isDigit

def dropDigits (s : Text) : Text := s.dropWhile isDigit

/-- `0`, or a run of digits that does not start with it. -/
def scanInt : Text → Option (Text × Text)
  | [] => none
  | c :: s =>
    if c = 0x30 then some ([c], s)
    else if isDigit c then some (c :: takeDigits s, dropDigits s)
    else none

/-- A point with digits after it, or nothing. -/
def scanFraction : Text → Text × Text
  | [] => ([], [])
  | c :: s => if c = 0x2e ∧ takeDigits s ≠ [] then (takeDigits s, dropDigits s) else ([], c :: s)

def scanSign : Text → Bool × Text
  | [] => (false, [])
  | c :: s => if c = 0x2d then (true, s) else if c = 0x2b then (false, s) else (false, c :: s)

def signed (negative : Bool) (n : Nat) : Int := if negative then -(n : Int) else n

/-- An exponent with digits, or nothing. -/
def scanExponent : Text → Option Int × Text
  | [] => (none, [])
  | c :: s =>
    if (c = 0x65 ∨ c = 0x45) ∧ takeDigits (scanSign s).2 ≠ [] then
      (some (signed (scanSign s).1 (digitsValue (takeDigits (scanSign s).2))),
        dropDigits (scanSign s).2)
    else (none, c :: s)

/-- A number without its minus sign. -/
def scanUnsigned (negative : Bool) (s : Text) : Option (Json × Text) :=
  (scanInt s).map fun i =>
    let f := scanFraction i.2
    let e := scanExponent f.2
    match f.1, e.1 with
    | [], none => (.int (signed negative (digitsValue i.1)), e.2)
    | ds, x => (.float ⟨negative, digitsValue (i.1 ++ ds), x.getD 0 - ds.length⟩, e.2)

def scanNumber : Text → Option (Json × Text)
  | [] => none
  | c :: s => if c = 0x2d then scanUnsigned true s else scanUnsigned false (c :: s)

/-! ## Values -/

/-- What follows `word`, where the text starts with it. -/
def afterWord (word : String) (s : Text) : Option Text :=
  if (text word).isPrefixOf s then some (s.drop (text word).length) else none

section Scan
variable (objectHook : List (Text × Json) → Except HookError Json) (constantHook : String → Except HookError Json)

def runHook (r : Except HookError Json) (rest : Text) : Except ScanError (Json × Text) :=
  match r with
  | .ok v => .ok (v, rest)
  | .error e => .error (.hook e)

def scanWord (word : String) (v : Json) (s : Text) : Except ScanError (Json × Text) :=
  match afterWord word s with
  | some r => .ok (v, r)
  | none => .error (.syntactic "Expecting value")

def scanConstant (word : String) (s : Text) : Except ScanError (Json × Text) :=
  match afterWord word s with
  | some r => runHook (constantHook word) r
  | none => .error (.syntactic "Expecting value")

/-- A value that is neither a string nor a container. -/
def scanAtom (c : Nat) (s : Text) : Except ScanError (Json × Text) :=
  if c = 0x6e then scanWord "null" .null s
  else if c = 0x74 then scanWord "true" (.bool true) s
  else if c = 0x66 then scanWord "false" (.bool false) s
  else if c = 0x4e then scanConstant constantHook "NaN" s
  else if c = 0x49 then scanConstant constantHook "Infinity" s
  else if c = 0x2d ∧ (afterWord "-Infinity" s).isSome then scanConstant constantHook "-Infinity" s
  else
    match scanNumber s with
    | some p => .ok p
    | none => .error (.syntactic "Expecting value")

mutual

/-- One value and what follows it. -/
def scanOnce : Nat → Text → Except ScanError (Json × Text)
  | 0, _ => .error .fuel
  | fuel + 1, s =>
    match s with
    | [] => .error (.syntactic "Expecting value")
    | c :: r =>
      if c = 0x22 then (scanString r).map fun p => (.str p.1, p.2)
      else if c = 0x7b then
        match skipSpace r with
        | [] => .error (.syntactic "Expecting property name enclosed in double quotes")
        | d :: t =>
          if d = 0x7d then runHook (objectHook []) t
          else
            match scanMembers fuel (d :: t) with
            | .ok p => runHook (objectHook p.1) p.2
            | .error e => .error e
      else if c = 0x5b then
        match skipSpace r with
        | [] => .error (.syntactic "Expecting value")
        | d :: t =>
          if d = 0x5d then .ok (.arr [], t)
          else (scanElements fuel (d :: t)).map fun p => (.arr p.1, p.2)
      else scanAtom constantHook c (c :: r)

/-- The elements of an array up to and including its closing bracket. -/
def scanElements : Nat → Text → Except ScanError (List Json × Text)
  | 0, _ => .error .fuel
  | fuel + 1, s =>
    match scanOnce fuel s with
    | .error e => .error e
    | .ok p =>
      match skipSpace p.2 with
      | [] => .error (.syntactic "Expecting ',' delimiter")
      | d :: t =>
        if d = 0x5d then .ok ([p.1], t)
        else if d = 0x2c then (scanElements fuel (skipSpace t)).map fun q => (p.1 :: q.1, q.2)
        else .error (.syntactic "Expecting ',' delimiter")

/-- The members of an object up to and including its closing brace. -/
def scanMembers : Nat → Text → Except ScanError (List (Text × Json) × Text)
  | 0, _ => .error .fuel
  | fuel + 1, s =>
    match s with
    | [] => .error (.syntactic "Expecting property name enclosed in double quotes")
    | c :: r =>
      if c = 0x22 then
        match scanString r with
        | .error e => .error e
        | .ok k =>
          match skipSpace k.2 with
          | [] => .error (.syntactic "Expecting ':' delimiter")
          | d :: t =>
            if d = 0x3a then
              match scanOnce fuel (skipSpace t) with
              | .error e => .error e
              | .ok p =>
                match skipSpace p.2 with
                | [] => .error (.syntactic "Expecting ',' delimiter")
                | x :: y =>
                  if x = 0x7d then .ok ([(k.1, p.1)], y)
                  else if x = 0x2c then
                    (scanMembers fuel (skipSpace y)).map fun q => ((k.1, p.1) :: q.1, q.2)
                  else .error (.syntactic "Expecting ',' delimiter")
            else .error (.syntactic "Expecting ':' delimiter")
      else .error (.syntactic "Expecting property name enclosed in double quotes")

end

/-- One JSON text. -/
def loads (s : Text) : Except ScanError Json :=
  if s.head? = some 0xfeff then .error (.syntactic "Unexpected UTF-8 BOM (decode using utf-8-sig)")
  else
    match scanOnce objectHook constantHook (2 * s.length + 2) (skipSpace s) with
    | .error e => .error e
    | .ok p => if skipSpace p.2 = [] then .ok p.1 else .error (.syntactic "Extra data")

end Scan
end Json
end GetBibleSword.Lib
