import RedisClone.Keyspace.Laws
import RedisClone.Keyspace.SetAlgebra

/-!
This module contains the proof that a command replies `WRONGTYPE` exactly if a key that it accesses as
one type is live and holds another.
-/

namespace RedisClone

open Store

/--
The keys that a command accesses as one particular type.
-/
def Command.accesses : Command → List (String × String)
  | .get key | .strLen key | .append key _ | .incrBy key _ | .getSet key _ => [(key, "string")]
  | .lPush key _ | .rPush key _ | .lPop key | .rPop key | .lRange key _ _ | .lLen key
  | .lIndex key _ | .lSet key _ _ => [(key, "list")]
  | .sAdd key _ | .sRem key _ | .sMembers key | .sIsMember key _ | .sCard key | .sPop key =>
    [(key, "set")]
  | .zAdd key _ | .zRem key _ | .zRange key _ _ _ | .zScore key _ | .zCard key | .zRank key _
  | .zIncrBy key _ _ | .zRangeByScore key _ _ _ _ => [(key, "zset")]
  | .hSet key _ _ | .hGet key _ | .hDel key _ | .hGetAll key | .hKeys key | .hVals key | .hLen key
  | .hExists key _ | .hIncrBy key _ _ => [(key, "hash")]
  | .sInter names | .sUnion names | .sDiff names => names.map fun key => (key, "set")
  | _ => []

/--
An action that fails with `WRONGTYPE` exactly on the values of other types.
-/
def Typed (type : String) (act : Value → Except StoreError α) : Prop :=
  ∀ value, act value = .error .wrongType ↔ value.typeName ≠ type

section

variable {type : String} {act : Value → Except StoreError α}

theorem typed_asStr : Typed "string" Value.asStr := by
  intro value
  cases value <;> simp [Value.asStr, Value.typeName]

theorem typed_asList : Typed "list" Value.asList := by
  intro value
  cases value <;> simp [Value.asList, Value.typeName]

theorem typed_asSet : Typed "set" Value.asSet := by
  intro value
  cases value <;> simp [Value.asSet, Value.typeName]

theorem typed_asSortedSet : Typed "zset" Value.asSortedSet := by
  intro value
  cases value <;> simp [Value.asSortedSet, Value.typeName]

theorem typed_asHash : Typed "hash" Value.asHash := by
  intro value
  cases value <;> simp [Value.asHash, Value.typeName]

theorem Typed.map (h : Typed type act) (f : α → β) : Typed type fun value => (act value).map f := by
  intro value
  rw [← h value]
  cases hact : act value <;> simp [Except.map, hact]

theorem Typed.bind (h : Typed type act) {f : α → Except StoreError β}
    (hf : ∀ inner, f inner ≠ .error .wrongType)
    : Typed type fun value => (act value).bind f := by
  intro value
  rw [← h value]
  cases hact : act value with
  | error error => simp [Except.bind, hact]
  | ok inner => simpa [Except.bind, hact] using hf inner

end

namespace Reply

/--
Encoders that pass the text of an error on.
-/
structure PassesErrors (encode : Except StoreError α → String) : Prop where
  error : ∀ error, encode (.error error) = Resp.error error.toString
  reports : Reports encode

variable {encode : Except StoreError α → String}

theorem PassesErrors.eq_wrongType_iff (h : PassesErrors encode) (result : Except StoreError α)
    : encode result = wrongTypeReply ↔ result = .error .wrongType := by
  cases result with
  | ok result =>
    refine iff_of_false ?_ (by simp)
    intro heq
    have herror := congrArg isError heq
    rw [h.reports result] at herror
    simp [wrongTypeReply] at herror
  | error error => rw [h.error, error_eq_wrongType_iff, Except.error.injEq]

theorem passesErrors_optional : PassesErrors optional := ⟨fun _ => rfl, reports_optional⟩

theorem passesErrors_bool : PassesErrors bool := ⟨fun _ => rfl, reports_bool⟩

theorem passesErrors_count : PassesErrors count := ⟨fun _ => rfl, reports_count⟩

theorem passesErrors_signed : PassesErrors signed := ⟨fun _ => rfl, reports_signed⟩

theorem passesErrors_status : PassesErrors status := ⟨fun _ => rfl, reports_status⟩

theorem passesErrors_score : PassesErrors score := ⟨fun _ => rfl, reports_score⟩

theorem passesErrors_array : PassesErrors array := ⟨fun _ => rfl, fun _ => by simp [array]⟩

theorem passesErrors_optionalScore : PassesErrors optionalScore := by
  refine ⟨fun _ => rfl, ?_⟩
  intro result
  cases result <;> simp [optionalScore]

theorem passesErrors_scoredMembers : PassesErrors scoredMembers :=
  ⟨fun _ => rfl, fun _ => by simp [scoredMembers]⟩

theorem passesErrors_rank : PassesErrors rank := by
  refine ⟨fun _ => rfl, ?_⟩
  intro result
  cases result <;> simp [rank, number]

end Reply

namespace KeyOp

/--
The operation replies `WRONGTYPE` exactly if it finds a value of another type.
-/
def Expects (type : String) (op : KeyOp String) : Prop :=
  ∀ found, (op found).2 = wrongTypeReply ↔ ∃ entry, found = some entry ∧ entry.value.typeName ≠ type

variable {type : String}

theorem expects_readOp {encode : Except StoreError α → String} (hencode : Reply.PassesErrors encode)
    {absent : α} {view : Value → Except StoreError α} (h : Typed type view)
    : Expects type ((readOp (.ok absent) fun entry => view entry.value).reply encode) := by
  intro found
  cases found with
  | none => simp [reply, readOp, hencode.eq_wrongType_iff]
  | some entry => simp [reply, readOp, hencode.eq_wrongType_iff, h entry.value]

theorem expects_updateOp {encode : Except StoreError α → String}
    (hencode : Reply.PassesErrors encode) {fresh : Value}
    {act : Value → Except StoreError (Value × α)} (h : Typed type act)
    (hfresh : fresh.typeName = type)
    : Expects type ((updateOp fresh act).reply encode) := by
  have hresult : ∀ found : Option Entry, (updateOp fresh act found).2 = .error .wrongType
      ↔ (found.getD { value := fresh, expiresAt := none }).value.typeName ≠ type := by
    intro found
    rw [← h]
    unfold updateOp
    cases hact : act (found.getD { value := fresh, expiresAt := none }).value <;> simp [hact]
  intro found
  unfold reply
  dsimp only
  rw [hencode.eq_wrongType_iff, hresult]
  cases found with
  | none => simp [hfresh]
  | some entry => simp

theorem expects_removeOp {encode : Except StoreError α → String}
    (hencode : Reply.PassesErrors encode) {absent : α}
    {act : Value → Except StoreError (Value × α × Bool)} (h : Typed type act)
    : Expects type ((removeOp absent act).reply encode) := by
  intro found
  unfold reply
  dsimp only
  rw [hencode.eq_wrongType_iff]
  cases found with
  | none => simp [removeOp]
  | some entry =>
    have hresult : (removeOp absent act (some entry)).2 = .error .wrongType
        ↔ act entry.value = .error .wrongType := by
      unfold removeOp
      cases hact : act entry.value <;> simp [hact]
    rw [hresult, h]
    simp

theorem expects_getsetOp (value : String)
    : Expects "string" ((getsetOp value).reply Reply.optional) := by
  intro found
  unfold reply
  dsimp only
  rw [Reply.passesErrors_optional.eq_wrongType_iff]
  cases found with
  | none => simp [getsetOp]
  | some entry =>
    have hresult : (getsetOp value (some entry)).2 = .error .wrongType
        ↔ entry.value.asStr = .error .wrongType := by
      unfold getsetOp
      cases hact : entry.value.asStr <;> simp [hact]
    rw [hresult, typed_asStr]
    simp

theorem expects_lsetOp (index : Int64) (value : String)
    : Expects "list" ((lsetOp index value).reply Reply.status) := by
  intro found
  unfold reply
  dsimp only
  rw [Reply.passesErrors_status.eq_wrongType_iff]
  cases found with
  | none => simp [lsetOp]
  | some entry =>
    have hresult : (lsetOp index value (some entry)).2 = .error .wrongType
        ↔ entry.value.asList = .error .wrongType := by
      unfold lsetOp
      cases hact : entry.value.asList with
      | error error => simp [hact]
      | ok list =>
        rcases hlset : list.lset index value with ⟨changed, _ | _⟩
        all_goals simp [hact, hlset]
    rw [hresult, typed_asList]
    simp

end KeyOp

namespace Db

theorem typed_incrOn (delta : Int64) : Typed "string" (incrOn delta) := by
  apply typed_asStr.bind
  intro text h
  split at h
  . cases h
  . split at h <;> cases h

theorem hashInteger_ne_wrongType (field : Option String)
    : hashInteger field ≠ .error .wrongType := by
  intro h
  unfold hashInteger at h
  split at h
  . split at h <;> cases h
  . cases h

theorem typed_hincrOn (field : String) (delta : Int64) : Typed "hash" (hincrOn field delta) := by
  apply typed_asHash.bind
  intro hash h
  cases hinteger : hashInteger (hash.hget field) with
  | error error =>
    rw [hinteger] at h
    cases h
    exact hashInteger_ne_wrongType _ hinteger
  | ok current =>
    simp only [hinteger, Except.bind] at h
    split at h <;> cases h

theorem typed_zincrOn (increment : Float) (member : String)
    : Typed "zset" (zincrOn increment member) := by
  apply typed_asSortedSet.bind
  intro zset h
  dsimp only at h
  split at h <;> cases h

end Db

variable {env : Env} {command : Command} {key : String} {op : KeyOp String}

theorem keyOp_expects (h : command.keyOp env = some (key, op))
    : (∃ type, command.accesses = [(key, type)] ∧ op.Expects type)
        ∨ (command.accesses = [] ∧ ∀ found, Reply.isError (op found).2 = false) := by
  cases command
  case zRange key start stop withScores =>
    cases withScores
    all_goals
      simp only [Command.keyOp, Option.some.injEq, Prod.mk.injEq, if_true, if_false,
        Bool.false_eq_true] at h
      rcases h with ⟨rfl, rfl⟩
      refine .inl ⟨_, rfl, ?_⟩
    . exact KeyOp.expects_readOp Reply.passesErrors_array (typed_asSortedSet.map _)
    . exact KeyOp.expects_readOp Reply.passesErrors_scoredMembers (typed_asSortedSet.map _)
  all_goals simp only [Command.keyOp, Option.some.injEq, Prod.mk.injEq, reduceCtorEq] at h
  all_goals rcases h with ⟨rfl, rfl⟩
  case set | type | expire | ttl | persist | setNx =>
    refine .inr ⟨rfl, ?_⟩
    intro found
    simp [KeyOp.overwriteOp, KeyOp.reply, Reply.bit]
  all_goals refine .inl ⟨_, rfl, ?_⟩
  case get => exact KeyOp.expects_readOp Reply.passesErrors_optional (typed_asStr.map _)
  case strLen => exact KeyOp.expects_readOp Reply.passesErrors_count (typed_asStr.map _)
  case append => exact KeyOp.expects_updateOp Reply.passesErrors_count (typed_asStr.map _) rfl
  case incrBy => exact KeyOp.expects_updateOp Reply.passesErrors_signed (Db.typed_incrOn _) rfl
  case getSet => exact KeyOp.expects_getsetOp _
  case lPush | rPush => exact KeyOp.expects_updateOp Reply.passesErrors_count (typed_asList.map _) rfl
  case lPop | rPop => exact KeyOp.expects_removeOp Reply.passesErrors_optional (typed_asList.map _)
  case lRange => exact KeyOp.expects_readOp Reply.passesErrors_array (typed_asList.map _)
  case lLen => exact KeyOp.expects_readOp Reply.passesErrors_count (typed_asList.map _)
  case lIndex => exact KeyOp.expects_readOp Reply.passesErrors_optional (typed_asList.map _)
  case lSet => exact KeyOp.expects_lsetOp _ _
  case sAdd => exact KeyOp.expects_updateOp Reply.passesErrors_count (typed_asSet.map _) rfl
  case sRem => exact KeyOp.expects_removeOp Reply.passesErrors_count (typed_asSet.map _)
  case sPop => exact KeyOp.expects_removeOp Reply.passesErrors_optional (typed_asSet.map _)
  case sMembers => exact KeyOp.expects_readOp Reply.passesErrors_array (typed_asSet.map _)
  case sIsMember => exact KeyOp.expects_readOp Reply.passesErrors_bool (typed_asSet.map _)
  case sCard => exact KeyOp.expects_readOp Reply.passesErrors_count (typed_asSet.map _)
  case zAdd => exact KeyOp.expects_updateOp Reply.passesErrors_count (typed_asSortedSet.map _) rfl
  case zRem => exact KeyOp.expects_removeOp Reply.passesErrors_bool (typed_asSortedSet.map _)
  case zScore =>
    exact KeyOp.expects_readOp Reply.passesErrors_optionalScore (typed_asSortedSet.map _)
  case zCard => exact KeyOp.expects_readOp Reply.passesErrors_count (typed_asSortedSet.map _)
  case zRank => exact KeyOp.expects_readOp Reply.passesErrors_rank (typed_asSortedSet.map _)
  case zIncrBy => exact KeyOp.expects_updateOp Reply.passesErrors_score (Db.typed_zincrOn _ _) rfl
  case zRangeByScore => exact KeyOp.expects_readOp Reply.passesErrors_array (typed_asSortedSet.map _)
  case hSet => exact KeyOp.expects_updateOp Reply.passesErrors_bool (typed_asHash.map _) rfl
  case hGet => exact KeyOp.expects_readOp Reply.passesErrors_optional (typed_asHash.map _)
  case hDel => exact KeyOp.expects_removeOp Reply.passesErrors_bool (typed_asHash.map _)
  case hGetAll | hKeys | hVals =>
    exact KeyOp.expects_readOp Reply.passesErrors_array (typed_asHash.map _)
  case hLen => exact KeyOp.expects_readOp Reply.passesErrors_count (typed_asHash.map _)
  case hExists => exact KeyOp.expects_readOp Reply.passesErrors_bool (typed_asHash.map _)
  case hIncrBy => exact KeyOp.expects_updateOp Reply.passesErrors_signed (Db.typed_hincrOn _ _) rfl

/-
What `TYPE` reports.
-/

theorem simpleString_inj {value value' : String}
    : Resp.simpleString value = Resp.simpleString value' ↔ value = value' := by
  simp [Resp.simpleString]

theorem execute_type (env : Env) (key : String) (db : Database)
    : (execute env (.type key) db).2
        =
      Resp.simpleString (((live env.now db.store key).map fun entry => entry.value.typeName).getD "none")
    := by
  rw [execute_eq_keyOp rfl]
  unfold Database.run
  rw [atKey_eq]
  unfold KeyOp.reply
  dsimp only [id]
  cases live env.now db.store key <;> rfl

theorem holdsOther_iff {db : Database} {type : String}
    : HoldsOther type env.now db.store key
        ↔
      (live env.now db.store key).isSome = true
        ∧ (execute env (.type key) db).2 ≠ Resp.simpleString type := by
  rw [execute_type, ne_eq, simpleString_inj]
  unfold HoldsOther
  cases live env.now db.store key <;> simp

theorem ne_wrongType_of_not_isError {reply : String} (h : Reply.isError reply = false)
    : reply ≠ wrongTypeReply := by
  rintro rfl
  simp [wrongTypeReply] at h

/--
The text of the error starts with `ERR`, whatever stopped the save.
-/
theorem save_ne_wrongType (db : Database) : (execute env .save db).2 ≠ wrongTypeReply := by
  simp only [execute]
  split
  . apply ne_wrongType_of_not_isError
    simp
  . next cause _ =>
    intro h
    have htext : (Resp.sanitize ("ERR " ++ cause)).toList.head? = some 'E' := by
      unfold Resp.sanitize
      split
      . rw [String.toList_ofList, String.toList_append, List.map_append]
        rfl
      . rw [String.toList_append]
        rfl
    have hsecond := congrArg (fun reply : String => reply.toList.tail.head?) h
    have hleft : (Resp.error ("ERR " ++ cause)).toList.tail.head? = some 'E' := by
      unfold Resp.error
      rw [String.append_assoc, String.toList_append, String.toList_append]
      cases hlist : (Resp.sanitize ("ERR " ++ cause)).toList with
      | nil =>
        rw [hlist] at htext
        cases htext
      | cons c cs =>
        rw [hlist] at htext
        exact htext
    dsimp only at hsecond
    rw [hleft] at hsecond
    revert hsecond
    decide

theorem RepliesSet.wrongType_iff {db : Database} {keys : List String} {contained : String → Prop}
    (h : RepliesSet env db keys command contained)
    (haccesses : command.accesses = keys.map fun key => (key, "set"))
    : (execute env command db).2 = wrongTypeReply
        ↔
      ∃ key type, (key, type) ∈ command.accesses ∧ HoldsOther type env.now db.store key := by
  rw [h.1, haccesses]
  constructor
  . rintro ⟨key, hmem, hkey⟩
    exact ⟨key, "set", List.mem_map_of_mem hmem, hkey⟩
  . rintro ⟨key, type, hmem, hkey⟩
    rcases List.mem_map.mp hmem with ⟨other, hother, heq⟩
    cases heq
    exact ⟨key, hother, hkey⟩

/--
A command replies `WRONGTYPE` exactly if a key that it accesses as one type is live at that moment and
`TYPE` reports another one.
-/
theorem wrong_type_iff (env : Env) (command : Command) (db : Database)
    : (execute env command db).2 = wrongTypeReply
        ↔
      ∃ key type, (key, type) ∈ command.accesses ∧ (live env.now db.store key).isSome = true
        ∧ (execute env (.type key) db).2 ≠ Resp.simpleString type := by
  simp only [← holdsOther_iff]
  cases hkey : command.keyOp env with
  | some keyOp =>
    rcases keyOp with ⟨key, op⟩
    have hreply : (execute env command db).2 = (op (live env.now db.store key)).2 := by
      rw [execute_eq_keyOp hkey]
      unfold Database.run
      rw [atKey_eq]
      rfl
    rw [hreply]
    rcases keyOp_expects hkey with ⟨type, haccesses, hexpects⟩ | ⟨haccesses, hnone⟩
    . rw [hexpects, haccesses]
      simp [HoldsOther]
    . rw [haccesses]
      refine iff_of_false ?_ (by simp)
      intro h
      have herror := congrArg Reply.isError h
      rw [hnone] at herror
      simp [wrongTypeReply] at herror
  | none =>
    cases command
    case zRange key start stop withScores => cases withScores <;> cases hkey
    all_goals simp only [Command.keyOp, reduceCtorEq] at hkey
    case sInter keys =>
      cases keys with
      | nil =>
        refine iff_of_false ?_ (by simp [Command.accesses])
        apply ne_wrongType_of_not_isError
        simp [execute, Db.sinter, Reply.array]
      | cons key keys => exact (repliesSet_sInter env db key keys).wrongType_iff rfl
    case sUnion keys =>
      cases keys with
      | nil =>
        refine iff_of_false ?_ (by simp [Command.accesses])
        apply ne_wrongType_of_not_isError
        simp [execute, Db.sunion, Db.combineSets, Reply.array, pure, Except.pure, Except.map]
      | cons key keys => exact (repliesSet_sUnion env db key keys).wrongType_iff rfl
    case sDiff keys =>
      cases keys with
      | nil =>
        refine iff_of_false ?_ (by simp [Command.accesses])
        apply ne_wrongType_of_not_isError
        simp [execute, Db.sdiff, Reply.array]
      | cons key keys => exact (repliesSet_sDiff env db key keys).wrongType_iff rfl
    all_goals refine iff_of_false ?_ (by simp [Command.accesses])
    case save => exact save_ne_wrongType db
    case rename key newKey =>
      simp only [execute, Database.run]
      cases (Db.rename env.now key newKey db.store).2 <;> decide
    all_goals apply ne_wrongType_of_not_isError
    case ping message => cases message <;> simp [execute]
    all_goals simp [execute, Database.run, Reply.number]

end RedisClone
