import RedisClone.Command.WellFormed
import RedisClone.Keyspace.KeyOp

/-!
This module contains the laws of the operations on one key: what a command that only reads, and a
command that fails, does to the entry of its key.
-/

namespace RedisClone

/--
Whether a command can change the keyspace. `SPOP` does, though it is not logged under its own name.
-/
def Command.mutates : Command → Bool
  | .sPop _ => true
  | command => command.isWrite

namespace Reply

/--
An encoder of results that makes error replies of failures only.
-/
def Reports (encode : Except StoreError α → String) : Prop :=
  ∀ result, isError (encode (.ok result)) = false

theorem reports_optional : Reports optional := by
  intro result
  cases result <;> simp [optional]

theorem reports_bool : Reports bool := by
  intro result
  simp [bool, bit]

theorem reports_count : Reports count := by
  intro result
  simp [count, number]

theorem reports_signed : Reports signed := by
  intro result
  simp [signed]

theorem reports_status : Reports status := by
  intro result
  simp [status]

theorem reports_score : Reports score := by
  intro result
  simp [score]

end Reply

namespace KeyOp

open Store

theorem readOp_reply_unchanged (absent : α) (read : Entry → α) (encode : α → String)
    (found : Option Entry) : ((readOp absent read).reply encode found).1 = found := by
  exact readOp_unchanged absent read found

theorem updateOp_fail {fresh : Value} {act : Value → Except StoreError (Value × α)}
    {encode : Except StoreError α → String} (hencode : Reply.Reports encode)
    (hfresh : ∃ changed, act fresh = .ok changed) {found : Option Entry}
    (h : Reply.isError ((updateOp fresh act).reply encode found).2 = true)
    : ((updateOp fresh act).reply encode found).1 = found := by
  unfold reply updateOp at *
  cases found with
  | none =>
    rcases hfresh with ⟨changed, hfresh⟩
    simp [hfresh, hencode _] at h
  | some entry =>
    cases hact : act entry.value with
    | ok changed => simp [hact, hencode _] at h
    | error error => simp [hact]

theorem removeOp_fail {absent : α} {act : Value → Except StoreError (Value × α × Bool)}
    {encode : Except StoreError α → String} (hencode : Reply.Reports encode)
    {found : Option Entry}
    (h : Reply.isError ((removeOp absent act).reply encode found).2 = true)
    : ((removeOp absent act).reply encode found).1 = found := by
  unfold reply removeOp at *
  cases found with
  | none => rfl
  | some entry =>
    cases hact : act entry.value with
    | ok changed => simp [hact, hencode _] at h
    | error error => simp [hact]

theorem getsetOp_fail {value : String} {found : Option Entry}
    (h : Reply.isError ((getsetOp value).reply Reply.optional found).2 = true)
    : ((getsetOp value).reply Reply.optional found).1 = found := by
  unfold reply getsetOp at *
  cases found with
  | none => simp [Reply.optional] at h
  | some entry =>
    cases hact : entry.value.asStr with
    | ok current => simp [hact, Reply.optional] at h
    | error error => simp [hact]

theorem lsetOp_fail {index : Int64} {value : String} {found : Option Entry}
    (h : Reply.isError ((lsetOp index value).reply Reply.status found).2 = true)
    : ((lsetOp index value).reply Reply.status found).1 = found := by
  unfold reply lsetOp at *
  cases found with
  | none => rfl
  | some entry =>
    cases hact : entry.value.asList with
    | ok list =>
      rcases hlset : list.lset index value with ⟨list', _ | _⟩
      . simp [hact, hlset]
      . simp [hact, hlset, Reply.status] at h
    | error error => simp [hact]

end KeyOp

namespace Command

variable {env : Env} {command : Command} {key : String} {op : KeyOp String} {found : Option Entry}

theorem keyOp_read (h : command.keyOp env = some (key, op)) (hread : command.mutates = false)
    : (op found).1 = found := by
  cases command
  case zRange key start stop withScores =>
    cases withScores
    all_goals
      simp only [keyOp, Option.some.injEq, Prod.mk.injEq, if_true, if_false,
        Bool.false_eq_true] at h
      rcases h with ⟨rfl, rfl⟩
      exact KeyOp.readOp_reply_unchanged _ _ _ _
  all_goals simp only [keyOp, Option.some.injEq, Prod.mk.injEq, reduceCtorEq] at h
  all_goals rcases h with ⟨rfl, rfl⟩
  all_goals first
    | exact KeyOp.readOp_reply_unchanged _ _ _ _
    | simp [mutates, isWrite] at hread

theorem incrOn_fresh (delta : Int64) : ∃ changed, Db.incrOn delta (.str "0") = .ok changed := by
  have hzero : parseI64 "0" = some 0 := by decide
  simp [Db.incrOn, Value.asStr, Except.bind, hzero]

theorem hincrOn_fresh (field : String) (delta : Int64)
    : ∃ changed, Db.hincrOn field delta (.hash .new) = .ok changed := by
  simp [Db.hincrOn, Db.hashInteger, Value.asHash, Except.bind, RHash.hget, RHash.new]

theorem zincrOn_fresh {increment : Float} (h : increment.isNaN = false) (member : String)
    : ∃ changed, Db.zincrOn increment member (.sortedSet .new) = .ok changed := by
  have hscore : RSortedSet.new.zscore member = none := by
    simp [RSortedSet.zscore, RSortedSet.new]
  simp only [Db.zincrOn, Value.asSortedSet, Except.bind, hscore, Option.getD_none]
  rw [if_neg]
  . exact ⟨_, rfl⟩
  . rw [isNaN_zero_add, h]
    decide

/--
A command that fails gives back the entry it found. The get-or-create path is no exception: what it
does to a fresh value succeeds.
-/
theorem keyOp_fail {tokens : List String} (hparse : command.WellFormed tokens)
    (h : command.keyOp env = some (key, op)) (hfail : Reply.isError (op found).2 = true)
    : (op found).1 = found := by
  cases hread : command.mutates with
  | false => exact keyOp_read h hread
  | true =>
    cases command
    all_goals simp only [mutates, isWrite, Bool.false_eq_true] at hread
    all_goals simp only [keyOp, Option.some.injEq, Prod.mk.injEq, reduceCtorEq] at h
    all_goals rcases h with ⟨rfl, rfl⟩
    case set => simp [KeyOp.overwriteOp] at hfail
    case setNx => simp [KeyOp.reply, Reply.bit] at hfail
    case expire => simp [KeyOp.reply, Reply.bit] at hfail
    case persist => simp [KeyOp.reply, Reply.bit] at hfail
    case getSet => exact KeyOp.getsetOp_fail hfail
    case lSet => exact KeyOp.lsetOp_fail hfail
    case lPop | rPop | sPop => exact KeyOp.removeOp_fail Reply.reports_optional hfail
    case sRem => exact KeyOp.removeOp_fail Reply.reports_count hfail
    case zRem | hDel => exact KeyOp.removeOp_fail Reply.reports_bool hfail
    case lPush | rPush | sAdd | zAdd | append =>
      exact KeyOp.updateOp_fail Reply.reports_count ⟨_, rfl⟩ hfail
    case hSet => exact KeyOp.updateOp_fail Reply.reports_bool ⟨_, rfl⟩ hfail
    case hIncrBy => exact KeyOp.updateOp_fail Reply.reports_signed (hincrOn_fresh _ _) hfail
    case incrBy => exact KeyOp.updateOp_fail Reply.reports_signed (incrOn_fresh _) hfail
    case zIncrBy => exact KeyOp.updateOp_fail Reply.reports_score (zincrOn_fresh hparse _) hfail

end Command
end RedisClone
