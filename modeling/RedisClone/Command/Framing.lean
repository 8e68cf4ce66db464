import RedisClone.Command.Dispatch
import RedisClone.Lib.Resp2

/-!
This module contains the proof that the reply of every command is one value of the wire format.
-/

namespace RedisClone

open Resp2 (Encodes intBytes digitBytes)

/--
A reply that a client reads as one value, however the stream of replies goes on.
-/
def Framed (depth : Nat) (reply : String) : Prop := ∃ value, Encodes depth (asBytes reply) value

theorem Framed.mono {depth depth' : Nat} {reply : String} (hle : depth ≤ depth')
    (h : Framed depth reply)
    : Framed depth' reply := by
  rcases h with ⟨value, h⟩
  exact ⟨value, h.mono hle⟩

/-
Texts within a line.
-/

def OneLine (text : String) : Prop := ∀ c ∈ text.toList, Resp.isLineBreak c = false

theorem oneLine_ok : OneLine "OK" := by
  simp [OneLine, Resp.isLineBreak]

theorem oneLine_typeName (value : Value) : OneLine value.typeName := by
  cases value <;> simp [OneLine, Value.typeName, Resp.isLineBreak]

theorem ne_of_oneLine {text : String} (h : OneLine text)
    : ∀ b ∈ asBytes text, b ≠ 13 ∧ b ≠ 10 := by
  intro b hmem
  rw [asBytes_eq_flatMap, List.mem_flatMap] at hmem
  rcases hmem with ⟨c, hc, hb⟩
  have hbreak := h c hc
  constructor
  . rintro rfl
    have hnat := eq_of_mem_utf8EncodeChar hb (by decide)
    have hchar : c = '\r' := Char.toNat_inj.mp hnat
    rw [hchar] at hbreak
    cases hbreak
  . rintro rfl
    have hnat := eq_of_mem_utf8EncodeChar hb (by decide)
    have hchar : c = '\n' := Char.toNat_inj.mp hnat
    rw [hchar] at hbreak
    cases hbreak

theorem oneLine_sanitize (message : String) : OneLine (Resp.sanitize message) := by
  intro c hmem
  unfold Resp.sanitize at hmem
  split at hmem
  . rw [String.toList_ofList, List.mem_map] at hmem
    rcases hmem with ⟨d, -, rfl⟩
    split
    . rfl
    . next hd => simpa using hd
  . next hany =>
    rw [List.any_eq_true] at hany
    by_contra hbreak
    exact hany ⟨c, hmem, by simpa using hbreak⟩

/-
Numbers.
-/

theorem asBytes_repr (n : Nat) : asBytes n.repr = digitBytes n := by
  rw [asBytes_eq_flatMap, Nat.toList_repr]
  unfold digitBytes
  rw [← List.flatMap_singleton' (List.map _ _), List.flatMap_map]
  apply List.flatMap_congr
  intro c hmem
  have hdigit := Nat.isDigit_of_mem_toDigits (by omega) (by omega) hmem
  have hc : 48 ≤ c.val.toNat ∧ c.val.toNat ≤ 57 := by
    simpa [Char.isDigit, UInt32.le_iff_toNat_le] using hdigit
  unfold String.utf8EncodeChar
  dsimp only
  rw [if_pos (by omega)]
  rfl

theorem asBytes_toString_nat (n : Nat) : asBytes (toString n) = intBytes n := by
  rw [Nat.toString_eq_repr, asBytes_repr]
  rfl

theorem asBytes_toString_int (n : Int) : asBytes (toString n) = intBytes n := by
  cases n with
  | ofNat n => exact asBytes_toString_nat n
  | negSucc n =>
    have htext : toString (Int.negSucc n) = "-" ++ (n + 1).repr := rfl
    rw [htext, asBytes_append, asBytes_repr]
    rfl

theorem asBytes_header (len : Nat)
    : asBytes (Resp.header len) = 42 :: intBytes len ++ [13, 10] := by
  rw [Resp.header, asBytes_append, asBytes_append, asBytes_toString_nat]
  rfl

/-
One lemma for each encoder.
-/

theorem encodes_bulkString (depth : Nat) (value : String)
    : Encodes (depth + 1) (asBytes (Resp.bulkString value)) (.bulk (asBytes value)) := by
  have hbytes : asBytes (Resp.bulkString value)
      = 36 :: intBytes (asBytes value).length ++ [13, 10] ++ asBytes value ++ [13, 10] := by
    rw [Resp.bulkString, length_asBytes]
    simp only [asBytes_append, asBytes_toString_nat]
    rfl
  rw [hbytes]
  exact Resp2.encodes_bulk

theorem encodes_integer (depth : Nat) (value : Int64)
    : Encodes (depth + 1) (asBytes (Resp.integer value)) (.integer value.toInt) := by
  have hbytes : asBytes (Resp.integer value) = 58 :: intBytes value.toInt ++ [13, 10] := by
    rw [Resp.integer, asBytes_append, asBytes_append]
    rw [show toString value = toString value.toInt from rfl, asBytes_toString_int]
    rfl
  rw [hbytes]
  exact Resp2.encodes_integer _

theorem encodes_header {depth : Nat} {chunks : List (List UInt8)} {values : List Resp2.Value}
    (h : List.Forall₂ (Encodes depth) chunks values)
    : Encodes (depth + 1) (asBytes (Resp.header chunks.length) ++ chunks.flatten) (.array values) := by
  rw [asBytes_header]
  exact Resp2.encodes_array h

theorem encodes_items {depth : Nat} (encode : α → String) (value : α → Resp2.Value)
    (h : ∀ item, Encodes depth (asBytes (encode item)) (value item)) (items : List α)
    : Encodes (depth + 1)
        (asBytes (Resp.header items.length ++ String.join (items.map encode)))
        (.array (items.map value)) := by
  have hitems : List.Forall₂ (Encodes depth) (items.map fun item => asBytes (encode item))
      (items.map value) := by
    rw [List.forall₂_map_left_iff, List.forall₂_map_right_iff, List.forall₂_same]
    exact fun item _ => h item
  have hbytes := encodes_header hitems
  rw [List.length_map] at hbytes
  rw [asBytes_append, asBytes_join, List.flatMap_map]
  exact hbytes

theorem encodes_array (depth : Nat) (items : List String)
    : Encodes (depth + 2) (asBytes (Resp.array items))
        (.array (items.map fun item => .bulk (asBytes item))) := by
  rw [Resp.array_eq]
  exact encodes_items _ _ (encodes_bulkString depth) items

theorem framed_simpleString {value : String} (h : OneLine value)
    : Framed 2 (Resp.simpleString value) := by
  refine ⟨.simple (asBytes value), ?_⟩
  have hbytes : asBytes (Resp.simpleString value) = 43 :: asBytes value ++ [13, 10] := by
    rw [Resp.simpleString, asBytes_append, asBytes_append]
    rfl
  rw [hbytes]
  exact Resp2.encodes_simple (ne_of_oneLine h)

theorem framed_error (message : String) : Framed 2 (Resp.error message) := by
  refine ⟨.error (asBytes (Resp.sanitize message)), ?_⟩
  have hbytes : asBytes (Resp.error message) = 45 :: asBytes (Resp.sanitize message) ++ [13, 10] := by
    rw [Resp.error, asBytes_append, asBytes_append]
    rfl
  rw [hbytes]
  exact Resp2.encodes_error (ne_of_oneLine (oneLine_sanitize message))

theorem framed_integer (value : Int64) : Framed 2 (Resp.integer value) :=
  ⟨_, encodes_integer 1 value⟩

theorem framed_bulkString (value : String) : Framed 2 (Resp.bulkString value) :=
  ⟨_, encodes_bulkString 1 value⟩

theorem framed_null : Framed 2 Resp.null := by
  refine ⟨.null, ?_⟩
  exact Resp2.encodes_null

theorem framed_array (items : List String) : Framed 2 (Resp.array items) :=
  ⟨_, encodes_array 0 items⟩

theorem framed_nullableArray (items : List (Option String)) : Framed 2 (Resp.nullableArray items) := by
  rw [Resp.nullableArray_eq]
  refine ⟨.array (items.map fun item => item.elim .null fun value => .bulk (asBytes value)), ?_⟩
  apply encodes_items
  intro item
  cases item with
  | some value => exact encodes_bulkString 0 value
  | none => exact Resp2.encodes_null

/-
One lemma for each way to encode the outcome of an operation.
-/

namespace Reply

theorem framed_optional : ∀ result, Framed 2 (optional result)
  | .ok (some value) => framed_bulkString value
  | .ok none => framed_null
  | .error error => framed_error error.toString

theorem framed_array : ∀ result, Framed 2 (array result)
  | .ok values => RedisClone.framed_array values
  | .error error => framed_error error.toString

theorem framed_bit (value : Bool) : Framed 2 (bit value) := framed_integer _

theorem framed_bool : ∀ result, Framed 2 (bool result)
  | .ok value => framed_bit value
  | .error error => framed_error error.toString

theorem framed_number (count : Nat) : Framed 2 (number count) := framed_integer _

theorem framed_count : ∀ result, Framed 2 (count result)
  | .ok count => framed_number count
  | .error error => framed_error error.toString

theorem framed_signed : ∀ result, Framed 2 (signed result)
  | .ok value => framed_integer value
  | .error error => framed_error error.toString

theorem framed_status : ∀ result, Framed 2 (status result)
  | .ok () => framed_simpleString oneLine_ok
  | .error error => framed_error error.toString

theorem framed_score : ∀ result, Framed 2 (score result)
  | .ok score => framed_bulkString (formatScore score)
  | .error error => framed_error error.toString

theorem framed_optionalScore : ∀ result, Framed 2 (optionalScore result)
  | .ok (some score) => framed_bulkString (formatScore score)
  | .ok none => framed_null
  | .error error => framed_error error.toString

theorem framed_scoredMembers : ∀ result, Framed 2 (scoredMembers result)
  | .ok _ => RedisClone.framed_array _
  | .error error => framed_error error.toString

theorem framed_rank : ∀ result, Framed 2 (rank result)
  | .ok (some rank) => framed_number rank
  | .ok none => framed_null
  | .error error => framed_error error.toString

theorem framed_renamed (found : Bool) : Framed 2 (renamed found) := by
  unfold renamed
  split
  . exact framed_simpleString oneLine_ok
  . exact framed_error _

end Reply

theorem oneLine_typeOf (now : Instant) (key : String) (store : Store)
    : OneLine (Db.typeOf now key store).2 := by
  unfold Db.typeOf Store.readEntry
  split
  . next entry _ =>
    split
    . simp [OneLine, Resp.isLineBreak]
    . exact oneLine_typeName entry.value
  . simp [OneLine, Resp.isLineBreak]

theorem framed_run {op : Store → Store × α} {reply : α → String} (db : Database)
    (h : ∀ result, Framed 2 (reply result))
    : Framed 2 (db.run op reply).2 :=
  h _

theorem framed_execute (env : Env) (command : Command) (db : Database)
    : Framed 2 (execute env command db).2 := by
  cases command
  case zRange key start stop withScores =>
    cases withScores with
    | true => exact framed_run db Reply.framed_scoredMembers
    | false => exact framed_run db Reply.framed_array
  case ping message =>
    cases message with
    | some message => exact framed_bulkString message
    | none => exact framed_simpleString (by simp [OneLine, Resp.isLineBreak])
  case save =>
    simp only [execute]
    split
    . exact framed_simpleString oneLine_ok
    . exact framed_error _
  case type key => exact framed_simpleString (oneLine_typeOf env.now key db.store)
  case keys pattern => exact framed_array _
  case mGet keys => exact framed_nullableArray _
  case echo message => exact framed_bulkString message
  case info => exact framed_bulkString _
  case bgSave => exact framed_simpleString (by simp [OneLine, Resp.isLineBreak])
  case set | flushAll | mSet => exact framed_simpleString oneLine_ok
  case del | existsKeys | dbSize | publish => exact Reply.framed_number _
  case get | lPop | rPop | hGet | getSet | lIndex | sPop => exact framed_run db Reply.framed_optional
  case lRange | sMembers | hGetAll | hKeys | hVals | zRangeByScore =>
    exact framed_run db Reply.framed_array
  case sInter | sUnion | sDiff => exact Reply.framed_array _
  case lPush | rPush | sAdd | sRem | zAdd | hLen | append | strLen | lLen | sCard | zCard =>
    exact framed_run db Reply.framed_count
  case sIsMember | zRem | hSet | hDel | hExists => exact framed_run db Reply.framed_bool
  case expire | persist | setNx => exact framed_run db Reply.framed_bit
  case hIncrBy | incrBy => exact framed_run db Reply.framed_signed
  case ttl => exact framed_run db framed_integer
  case rename => exact framed_run db Reply.framed_renamed
  case zScore => exact framed_run db Reply.framed_optionalScore
  case zIncrBy => exact framed_run db Reply.framed_score
  case zRank => exact framed_run db Reply.framed_rank
  case lSet => exact framed_run db Reply.framed_status

theorem framed_dispatch (env : Env) {tokens : List String} (hne : tokens ≠ []) (db : Database)
    : Framed 2 (dispatch env tokens db).2 := by
  cases hparse : Command.parse tokens with
  | ok command =>
    rw [dispatch_of_parse_ok hparse]
    exact framed_execute env command db
  | error error =>
    rw [dispatch_of_parse_error hne hparse]
    exact framed_error _

end RedisClone
