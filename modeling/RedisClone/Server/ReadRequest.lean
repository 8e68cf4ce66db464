import RedisClone.Rust.Num

/-!
This module contains the reader of requests. The first byte of a line chooses the framing: `*` starts
an array of bulk strings, everything else is a command line split at white space.
-/

namespace RedisClone

def maxMultibulk : Nat := 1024 * 1024

def maxBulkBytes : Nat := 512 * 1024 * 1024

/--
Why reading a request failed: a framing violation, the end of the stream inside of a bulk string, or
a line that is not UTF-8.
-/
inductive ReadError where
  | protocol (message : String)
  | unexpectedEof
  | invalidUtf8
deriving DecidableEq

def lineFeed : UInt8 := 10

/--
The bytes up to and including the first line feed, and the bytes after it.
-/
def splitLine : List UInt8 → List UInt8 × List UInt8
  | [] => ([], [])
  | byte :: bytes =>
    if byte = lineFeed then
      ([byte], bytes)
    else
      let (line, rest) := splitLine bytes
      (byte :: line, rest)

/--
`read_line`: a line and the unread bytes. The line is empty only at the end of the stream.
-/
def readLine (input : List UInt8) : Except ReadError (String × List UInt8) :=
  let (line, rest) := splitLine input
  match fromUtf8 line with
  | some line => .ok (line, rest)
  | none => .error .invalidUtf8

/--
`read_exact`.
-/
def readExact (length : Nat) (input : List UInt8) : Except ReadError (List UInt8 × List UInt8) :=
  if input.length < length then .error .unexpectedEof else .ok (input.take length, input.drop length)

/--
The length in the header line of a bulk string.
-/
def bulkLength (header : String) : Except ReadError Nat :=
  match stripPrefix '$' (trimEnd header) with
  | none => .error (.protocol "expected a bulk string")
  | some length =>
    match parseUsize length with
    | none => .error (.protocol "invalid bulk length")
    | some length =>
      if length > maxBulkBytes then
        .error (.protocol "bulk length out of range")
      else
        .ok length

def readBulkString (input : List UInt8) : Except ReadError (String × List UInt8) := do
  let (header, rest) ← readLine input
  if header.isEmpty then
    .error (.protocol "unexpected end of input")
  else
    let length ← bulkLength header
    let (buffer, rest) ← readExact (length + 2) rest
    match fromUtf8 (buffer.take length) with
    | some token => .ok (token, rest)
    | none => .error (.protocol "invalid UTF-8 in bulk string")

/--
The loop of `readMultibulk`.
-/
def readBulkStrings : Nat → List UInt8 → Except ReadError (List String × List UInt8)
  | 0, input => .ok ([], input)
  | count + 1, input => do
    let (token, rest) ← readBulkString input
    let (tokens, rest) ← readBulkStrings count rest
    .ok (token :: tokens, rest)

def readMultibulk (count : String) (input : List UInt8)
    : Except ReadError (List String × List UInt8) :=
  match parseUsize count with
  | none => .error (.protocol "invalid multibulk length")
  | some count =>
    if count > maxMultibulk then
      .error (.protocol "multibulk length out of range")
    else
      readBulkStrings count input

/--
`read_request`: a request and the unread bytes, or nothing at the end of the stream.
-/
def readRequest (input : List UInt8) : Except ReadError (Option (List String × List UInt8)) := do
  let (line, rest) ← readLine input
  if line.isEmpty then
    .ok none
  else
    let line := trimEnd line
    match stripPrefix '*' line with
    | some count => do
      let request ← readMultibulk count rest
      .ok (some request)
    | none => .ok (some (splitWhitespace line, rest))

end RedisClone
