import RedisClone.Rust.Num

/-!
This module contains the encoders of replies. They are the only place that knows the framing of the
wire format, and the entries of the append-only file use the same framing.
-/

namespace RedisClone
namespace Resp

def simpleString (value : String) : String := "+" ++ value ++ "\r\n"

def isLineBreak (c : Char) : Bool := c = '\r' || c = '\n'

/--
Error text is framed by its line, so line breaks in it are replaced by spaces.
-/
def sanitize (message : String) : String :=
  if message.toList.any isLineBreak then
    String.ofList (message.toList.map fun c => if isLineBreak c then ' ' else c)
  else
    message

def error (message : String) : String := "-" ++ sanitize message ++ "\r\n"

def integer (value : Int64) : String := ":" ++ toString value ++ "\r\n"

def bulkString (value : String) : String :=
  "$" ++ toString value.utf8ByteSize ++ "\r\n" ++ value ++ "\r\n"

def null : String := "$-1\r\n"

def header (len : Nat) : String := "*" ++ toString len ++ "\r\n"

def array (items : List String) : String :=
  items.foldl (fun out item => out ++ bulkString item) (header items.length)

/--
An array in which missing items are null bulk strings.
-/
def nullableArray (items : List (Option String)) : String :=
  items.foldl
    (fun out item =>
      match item with
      | some value => out ++ bulkString value
      | none => out ++ null)
    (header items.length)

theorem foldl_append_eq (f : α → String) (items : List α) (init : String)
    : items.foldl (fun out item => out ++ f item) init = init ++ String.join (items.map f) := by
  induction items generalizing init with
  | nil => simp
  | cons item items ih =>
    rw [List.foldl_cons, ih, List.map_cons, String.join_cons, String.append_assoc]

theorem array_eq (items : List String)
    : array items = header items.length ++ String.join (items.map bulkString) := by
  exact foldl_append_eq bulkString items _

/--
An item of a nullable array.
-/
def nullableBulk : Option String → String
  | some value => bulkString value
  | none => null

theorem nullableArray_eq (items : List (Option String))
    : nullableArray items = header items.length ++ String.join (items.map nullableBulk) := by
  rw [← foldl_append_eq]
  unfold nullableArray
  congr 1
  funext out item
  cases item <;> rfl

end Resp
end RedisClone
