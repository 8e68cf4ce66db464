import RedisClone.Rust.Str

/-!
This module contains the glob matcher behind `KEYS`. It supports `*` (any run), `?` (one byte),
`[...]` classes (with `^` or `!` negation and `a-z` ranges) and `\` escapes, byte by byte.
-/

namespace RedisClone

def star : UInt8 := 0x2A

def questionMark : UInt8 := 0x3F

def openBracket : UInt8 := 0x5B

def closeBracket : UInt8 := 0x5D

def backslash : UInt8 := 0x5C

def dash : UInt8 := 0x2D

def caret : UInt8 := 0x5E

def bang : UInt8 := 0x21

/--
The loop of `matchClass`: `items` is what is left of the class after `i` bytes.
-/
def matchItems (ch : UInt8) (items : List UInt8) (matched : Bool) (i : Nat) : Bool × Nat :=
  match items with
  | [] => (matched, i)
  | [a] => if a = closeBracket then (matched, i + 1) else (matched || a == ch, i + 1)
  | [a, b] =>
    if a = closeBracket then
      (matched, i + 1)
    else if a = backslash then
      (matched || b == ch, i + 2)
    else
      matchItems ch [b] (matched || a == ch) (i + 1)
  | a :: b :: c :: rest =>
    if a = closeBracket then
      (matched, i + 1)
    else if a = backslash then
      matchItems ch (c :: rest) (matched || b == ch) (i + 2)
    else if b = dash ∧ c ≠ closeBracket then
      matchItems ch rest (matched || decide (min a c ≤ ch ∧ ch ≤ max a c)) (i + 3)
    else
      matchItems ch (b :: c :: rest) (matched || a == ch) (i + 1)

/--
Match one byte against a class whose opening bracket has been consumed. Returns whether it matched
and how many bytes of `cls`, the closing bracket included, were consumed.
-/
def matchClass (cls : List UInt8) (ch : UInt8) : Bool × Nat :=
  let negate := cls.head? == some caret || cls.head? == some bang
  let (matched, consumed) :=
    if negate then matchItems ch cls.tail false 1 else matchItems ch cls false 0
  (matched != negate, consumed)

/--
The byte a backslash stands for and the pattern after it. At the end of a pattern it is itself.
-/
def escaped (rest : List UInt8) : UInt8 × List UInt8 :=
  match rest with
  | literal :: next => (literal, next)
  | [] => (backslash, rest)

theorem escaped_length_le (rest : List UInt8) : (escaped rest).2.length ≤ rest.length := by
  cases rest with
  | nil => exact Nat.le_refl _
  | cons literal next => exact Nat.le_succ _

def globMatchBytes (pattern text : List UInt8) : Bool :=
  match pattern with
  | [] => text.isEmpty
  | token :: rest =>
    if token = star then
      -- Collapse a run of `*` into one, then try the rest at every position.
      let tailPattern := rest.dropWhile (· = star)
      if tailPattern.isEmpty then
        true
      else
        text.tails.any fun tailText => globMatchBytes tailPattern tailText
    else if token = questionMark then
      match text with
      | _ :: next => globMatchBytes rest next
      | [] => false
    else if token = openBracket then
      match text with
      | ch :: next =>
        let (matched, consumed) := matchClass rest ch
        if matched then globMatchBytes (rest.drop consumed) next else false
      | [] => false
    else if token = backslash then
      match text with
      | ch :: next =>
        if ch = (escaped rest).1 then globMatchBytes (escaped rest).2 next else false
      | [] => false
    else
      match text with
      | ch :: next => if ch = token then globMatchBytes rest next else false
      | [] => false
termination_by pattern.length
decreasing_by
  . have := List.length_dropWhile_le (· = star) rest
    simp only [List.length_cons]
    omega
  . simp
  . simp only [List.length_drop, List.length_cons]
    omega
  . have := escaped_length_le rest
    simp only [List.length_cons]
    omega
  . simp

def globMatch (pattern text : String) : Bool :=
  globMatchBytes (asBytes pattern) (asBytes text)

end RedisClone
