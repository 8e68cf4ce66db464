import RedisClone.Command.WellFormed
import RedisClone.Keyspace.Collection
import RedisClone.Keyspace.Count
import RedisClone.Lib.Ranking
import RedisClone.Traffic.AtKey

/-!
This module contains what a sorted set is to the clients that share it: a table of scores. The second
index, in which the members are kept in score order, does not show: all positions and ranges are those of
the table, put in order when it is asked for them.
-/

namespace RedisClone

open Store

abbrev Scores := Std.ExtTreeMap String Float

namespace Scores

/--
The entries of a table.
-/
def players (scores : Scores) : List SortedMember :=
  scores.toList.map fun entry => ⟨entry.1, entry.2⟩

/--
The entries from the lowest to the highest.
-/
def standings (scores : Scores) : List SortedMember := Ranking.ranked SortedMember.cmp scores.players

/--
Give a member a score. One that is equal to the old score leaves the old one in place.
-/
def record (scores : Scores) (score : Float) (member : String) : Scores :=
  if scores[member]?.any fun old => OrderedFloat.eq old score then scores else scores.insert member score

def recordAll (scores : Scores) (members : List (Float × String)) : Scores :=
  members.foldl (fun scores pair => scores.record pair.1 pair.2) scores

/--
The number of members below the given one, if it is in the table.
-/
def rank (scores : Scores) (member : String) : Option Nat :=
  scores[member]?.map fun score => Ranking.below SortedMember.cmp scores.players ⟨member, score⟩

end Scores

/--
The key of a command on a sorted set.
-/
def Command.boardKey : Command → Option String
  | .zAdd key _ | .zRem key _ | .zRange key _ _ _ | .zScore key _ | .zCard key | .zRank key _
  | .zIncrBy key _ _ | .zRangeByScore key _ _ _ _ => some key
  | _ => none

/--
A command on a table of scores, with its reply. `ZADD` is answered with the number of new members.
-/
def Command.onScores (scores : Scores) : Command → Scores × String
  | .zAdd _ members =>
    let recorded := scores.recordAll members
    (recorded, Reply.number (recorded.size - scores.size))
  | .zRem _ member => (scores.erase member, Reply.bit (scores.contains member))
  | .zScore _ member => (scores, Reply.optionalScore (.ok scores[member]?))
  | .zCard _ => (scores, Reply.number scores.size)
  | .zRank _ member => (scores, Reply.rank (.ok (scores.rank member)))
  | .zRange _ start stop withScores =>
    let chosen := selectRange scores.standings start stop
    if withScores then
      (scores, Reply.scoredMembers (.ok (chosen.map fun entry => (entry.member, entry.score))))
    else
      (scores, Resp.array (chosen.map SortedMember.member))
  | .zRangeByScore _ min minInclusive max maxInclusive =>
    let chosen := scores.standings.filter fun entry =>
      RSortedSet.inBounds min minInclusive max maxInclusive entry.score
    (scores, Resp.array (chosen.map SortedMember.member))
  | .zIncrBy _ increment member =>
    let score := scores[member]?.getD f64Zero + increment
    if score.isNaN then
      (scores, Resp.error StoreError.scoreNaN.toString)
    else
      (scores.record score member, Reply.score (.ok score))
  | _ => (scores, "")

namespace RSortedSet

variable (self : RSortedSet)

/-
A sorted set seen as its table.
-/

theorem mem_players {scores : Scores} {entry : SortedMember}
    : entry ∈ scores.players ↔ scores[entry.member]? = some entry.score := by
  unfold Scores.players
  rw [List.mem_map, ← Std.ExtTreeMap.mem_toList_iff_getElem?_eq_some]
  constructor
  . rintro ⟨pair, hmem, rfl⟩
    exact hmem
  . intro hmem
    exact ⟨_, hmem, rfl⟩

theorem nodup_players (scores : Scores) : scores.players.Nodup := by
  unfold Scores.players
  rw [List.Nodup, List.pairwise_map]
  apply Std.ExtTreeMap.distinct_keys_toList.imp
  intro pair pair' hne heq
  exact hne (Std.LawfulEqCmp.compare_eq_iff_eq.mpr (congrArg SortedMember.member heq))

theorem perm_players : self.sorted.toList.Perm (Scores.players self.members) := by
  rw [List.perm_ext_iff_of_nodup self.nodup_toList (nodup_players self.members)]
  intro entry
  rw [mem_toList_iff, mem_players]

theorem toList_eq_standings : self.sorted.toList = Scores.standings self.members := by
  exact Ranking.eq_ranked Std.ExtTreeSet.ordered_toList self.perm_players

theorem members_zadd (score : Float) (member : String)
    : (self.zadd score member).1.members = Scores.record self.members score member := by
  have hany : (∃ old, self.members[member]? = some old ∧ OrderedFloat.eq old score)
      ↔ (self.members[member]?.any fun old => OrderedFloat.eq old score) = true := by
    rw [Option.any_eq_true]
  apply Std.ExtTreeMap.ext_getElem?
  intro other
  rw [getElem?_members_zadd, Scores.record]
  by_cases hold : (self.members[member]?.any fun old => OrderedFloat.eq old score) = true
  . rw [if_pos hold, if_neg fun h => h.2 (hany.mpr hold)]
  . rw [if_neg hold, Std.ExtTreeMap.getElem?_insert]
    by_cases hother : member = other
    . rw [if_pos ⟨hother, fun h => hold (hany.mp h)⟩, if_pos (by simpa using hother)]
    . rw [if_neg fun h => hother h.1, if_neg (by simpa using hother)]

theorem zaddOn_eq (members : List (Float × String))
    : ∃ next, next.members = Scores.recordAll self.members members
        ∧ Db.zaddOn members (.sortedSet self) = .ok (.sortedSet next, next.zcard - self.zcard) := by
  let added := Db.countChanges (fun zset pair => zset.zadd pair.1 pair.2) members self
  have hact : Db.zaddOn members (.sortedSet self) = .ok (.sortedSet added.1, added.2) := by
    rfl
  have hcount : added.1.zcard = self.zcard + added.2 :=
    Db.countChanges_grows _ zcard (fun zset pair => zset.zcard_zadd pair.1 pair.2) members self
  refine ⟨added.1, ?_, ?_⟩
  . unfold added Scores.recordAll
    rw [Db.countChanges_fst]
    clear hact hcount added
    induction members generalizing self with
    | nil => rfl
    | cons pair members ih => rw [List.foldl_cons, List.foldl_cons, ih, members_zadd]
  . rw [hact, hcount, Nat.add_sub_cancel_left]

theorem zrem_eq (member : String)
    : (self.zrem member).1.members = self.members.erase member
        ∧ (self.zrem member).2 = self.members.contains member := by
  rw [Std.ExtTreeMap.contains_eq_isSome_getElem?]
  unfold zrem
  split
  . next score hscore =>
    exact ⟨rfl, (congrArg Option.isSome hscore).symm⟩
  . next hnone =>
    refine ⟨?_, (congrArg Option.isSome hnone).symm⟩
    apply Std.ExtTreeMap.ext_getElem?
    intro other
    rw [Std.ExtTreeMap.getElem?_erase]
    split
    . next hcmp => rw [← Std.LawfulEqCmp.eq_of_compare hcmp, hnone]
    . rfl

theorem zrank_eq_rank (member : String) : self.zrank member = Scores.rank self.members member := by
  unfold zrank Scores.rank
  cases hscore : self.members[member]? with
  | none =>
    rw [Option.map_none, List.findIdx?_eq_none_iff]
    intro entry hmem
    rw [mem_toList_iff] at hmem
    rw [beq_eq_false_iff_ne]
    rintro rfl
    rw [hmem] at hscore
    cases hscore
  | some score =>
    have hmem : ⟨member, score⟩ ∈ self.sorted.toList := mem_toList_iff.mpr hscore
    rw [Option.map_some, ← Ranking.below_perm self.perm_players]
    apply Ranking.findIdx?_eq_below Std.ExtTreeSet.ordered_toList hmem
    intro other hother
    rw [beq_iff_eq]
    constructor
    . rintro rfl
      rw [mem_toList_iff, hscore] at hother
      cases other
      cases hother
      rfl
    . rintro rfl
      rfl

/-
The entry of a sorted set without a deadline.
-/

theorem isEmpty_iff_eq_new : self.isEmpty = true ↔ self = new := by
  unfold isEmpty
  rw [Std.ExtTreeMap.isEmpty_iff]
  constructor
  . intro h
    exact ext h
  . rintro rfl
    rfl

end RSortedSet

def boards : Collection RSortedSet where
  wrap := .sortedSet
  empty := .new
  isEmpty := RSortedSet.isEmpty
  isEmpty_iff := RSortedSet.isEmpty_iff_eq_new

/--
The keyspace holds a table of scores at a key.
-/
def HoldsScores (scores : Scores) (found : Option Entry) : Prop :=
  ∃ zset, zset.members = scores ∧ found = boards.entry zset

theorem mem_record {scores : Scores} {score : Float} {member other : String}
    : other ∈ scores.record score member ↔ other = member ∨ other ∈ scores := by
  unfold Scores.record
  split
  . next hold =>
    rw [Option.any_eq_true] at hold
    obtain ⟨old, hold, -⟩ := hold
    constructor
    . exact .inr
    . rintro (rfl | hmem)
      . rw [Std.ExtTreeMap.mem_iff_isSome_getElem?, hold]
        rfl
      . exact hmem
  . rw [Std.ExtTreeMap.mem_insert, Std.LawfulEqCmp.compare_eq_iff_eq, eq_comm]

theorem mem_recordAll {members : List (Float × String)} {scores : Scores} {other : String}
    : other ∈ scores.recordAll members ↔ other ∈ members.map Prod.snd ∨ other ∈ scores := by
  unfold Scores.recordAll
  induction members generalizing scores with
  | nil => simp
  | cons pair members ih =>
    rw [List.foldl_cons, ih, mem_record, List.map_cons, List.mem_cons, or_left_comm, or_assoc]

theorem isEmpty_boards {zset : RSortedSet} {member : String} (h : member ∈ zset.members)
    : boards.isEmpty zset = false := by
  have hne : ¬ zset.isEmpty = true := by
    unfold RSortedSet.isEmpty
    rw [Std.ExtTreeMap.isEmpty_iff]
    intro hempty
    rw [hempty] at h
    exact Std.ExtTreeMap.not_mem_empty h
  simpa [boards] using hne

theorem holdsScores_reply {α : Type} {zset next : RSortedSet} {scores : Scores} {op : KeyOp α}
    {result : α} (h : op (boards.entry zset) = (boards.entry next, result))
    (hmembers : next.members = scores) (encode : α → String)
    : HoldsScores scores (op.reply encode (boards.entry zset)).1
        ∧ (op.reply encode (boards.entry zset)).2 = encode result := by
  rw [KeyOp.reply_eq h]
  exact ⟨⟨next, hmembers, rfl⟩, rfl⟩

variable {key : String} {command : Command}

/--
A query of a table, which is answered from an empty one if the key is missing.
-/
theorem holdsScores_read {α : Type} {absent result : α} {read : RSortedSet → α} (zset : RSortedSet)
    (hresult : read zset = result) (habsent : absent = read .new) (encode : Except StoreError α → String)
    : let op := (KeyOp.readOp (.ok absent) fun entry => entry.value.asSortedSet.map read).reply encode
      HoldsScores zset.members (op (boards.entry zset)).1
        ∧ (op (boards.entry zset)).2 = encode (.ok result) := by
  have hread : KeyOp.readOp (.ok absent) (fun entry => entry.value.asSortedSet.map read)
        (boards.entry zset)
      = (boards.entry zset, .ok result) := by
    apply boards.readOp_entry
    . rw [← hresult]
      rfl
    . rintro rfl
      rw [habsent, ← hresult]
      rfl
  exact holdsScores_reply hread rfl encode

/--
At a key that holds a table of scores, a command on it does what it does to the table.
-/
theorem keyOp_onScores {tokens : List String} (env : Env) (hboard : command.boardKey = some key)
    (hwellFormed : command.WellFormed tokens) (zset : RSortedSet)
    : ∃ op, command.keyOp env = some (key, op)
        ∧ HoldsScores (command.onScores zset.members).1 (op (boards.entry zset)).1
        ∧ (op (boards.entry zset)).2 = (command.onScores zset.members).2 := by
  cases command
  all_goals simp only [Command.boardKey, Option.some.injEq, reduceCtorEq] at hboard
  all_goals subst hboard
  case zAdd key members =>
    obtain ⟨next, hmembers, hact⟩ := zset.zaddOn_eq members
    have hne : boards.isEmpty next = false := by
      obtain ⟨pair, hpair⟩ := List.exists_mem_of_ne_nil _ hwellFormed.1
      have hmem : pair.2 ∈ next.members := by
        rw [hmembers, mem_recordAll]
        exact .inl (List.mem_map_of_mem hpair)
      exact isEmpty_boards hmem
    have hreply : (Command.onScores zset.members (.zAdd key members)).2
        = Reply.count (.ok (next.zcard - zset.zcard)) := by
      dsimp only [Command.onScores, RSortedSet.zcard, Reply.count]
      rw [hmembers]
    rw [hreply]
    exact ⟨_, rfl, holdsScores_reply (boards.updateOp_entry hact hne) hmembers Reply.count⟩
  case zRem key member =>
    obtain ⟨hmembers, hremoved⟩ := zset.zrem_eq member
    have hempty : zset = boards.empty
        → (zset.zrem member).1 = boards.empty ∧ (zset.zrem member).2 = false := by
      rintro rfl
      exact ⟨RSortedSet.ext hmembers, hremoved⟩
    have hreply : (Command.onScores zset.members (.zRem key member)).2
        = Reply.bool (.ok (zset.zrem member).2) := by
      rw [hremoved]
      rfl
    rw [hreply]
    exact ⟨_, rfl, holdsScores_reply (boards.removeOp_entry rfl hempty) hmembers Reply.bool⟩
  case zIncrBy key increment member =>
    let score := zset.members[member]?.getD f64Zero + increment
    cases hnan : score.isNaN with
    | true =>
      have hact : Db.zincrOn increment member (boards.wrap zset) = .error .scoreNaN := by
        exact if_pos hnan
      have hne : boards.isEmpty zset = false := by
        rw [Bool.eq_false_iff]
        intro hempty
        obtain rfl := (boards.isEmpty_iff zset).mp hempty
        have hzero : (f64Zero + increment).isNaN = true := hnan
        rw [isNaN_zero_add, hwellFormed] at hzero
        cases hzero
      have hcommand : Command.onScores zset.members (.zIncrBy key increment member)
          = (zset.members, Reply.score (.error .scoreNaN)) := by
        exact if_pos hnan
      rw [hcommand]
      exact ⟨_, rfl, holdsScores_reply (boards.updateOp_entry_error hact hne) rfl Reply.score⟩
    | false =>
      have hnumber : ¬ score.isNaN = true := by
        rw [hnan]
        decide
      have hact : Db.zincrOn increment member (boards.wrap zset)
          = .ok (boards.wrap (zset.zadd score member).1, score) := by
        exact if_neg hnumber
      have hne : boards.isEmpty (zset.zadd score member).1 = false := by
        have hmem : member ∈ (zset.zadd score member).1.members := by
          rw [RSortedSet.members_zadd, mem_record]
          exact .inl rfl
        exact isEmpty_boards hmem
      have hcommand : Command.onScores zset.members (.zIncrBy key increment member)
          = (Scores.record zset.members score member, Reply.score (.ok score)) := by
        exact if_neg hnumber
      rw [hcommand]
      exact ⟨_, rfl,
        holdsScores_reply (boards.updateOp_entry hact hne) (zset.members_zadd score member) Reply.score⟩
  case zScore key member =>
    exact ⟨_, rfl, holdsScores_read zset rfl rfl Reply.optionalScore⟩
  case zCard key => exact ⟨_, rfl, holdsScores_read zset rfl rfl Reply.count⟩
  case zRank key member =>
    exact ⟨_, rfl, holdsScores_read zset (zset.zrank_eq_rank member) rfl Reply.rank⟩
  case zRange key start stop withScores =>
    cases withScores with
    | true =>
      have hresult : zset.zrangeWithScores start stop
          = (selectRange (Scores.standings zset.members) start stop).map
            fun entry => (entry.member, entry.score) := by
        rw [← zset.toList_eq_standings]
        rfl
      exact ⟨_, rfl, holdsScores_read zset hresult rfl Reply.scoredMembers⟩
    | false =>
      have hresult : zset.zrange start stop
          = (selectRange (Scores.standings zset.members) start stop).map SortedMember.member := by
        rw [← zset.toList_eq_standings]
        rfl
      exact ⟨_, rfl, holdsScores_read zset hresult rfl Reply.array⟩
  case zRangeByScore key min minInclusive max maxInclusive =>
    have hresult : zset.zrangeByScore min minInclusive max maxInclusive
        = ((Scores.standings zset.members).filter fun entry =>
            RSortedSet.inBounds min minInclusive max maxInclusive entry.score).map
          SortedMember.member := by
      rw [← zset.toList_eq_standings]
      rfl
    exact ⟨_, rfl, holdsScores_read zset hresult rfl Reply.array⟩

namespace Traffic

/--
A table of scores that answers the commands on a sorted set.
-/
def leaderboard : Linearize.Object Scores ClientRequest String := commands fun _ => Command.onScores

theorem standsFor_leaderboard (key : String)
    : StandsFor leaderboard key (isRequestOn Command.boardKey key)
        fun scores _ found => HoldsScores scores found := by
  apply standsFor_of_keyOp
  . rintro scores found now ⟨zset, -, rfl⟩
    exact boards.filter_entry now zset
  . rintro tokens command env scores found hparse hkey ⟨zset, rfl, rfl⟩
    exact keyOp_onScores env hkey (Command.parse_wellFormed hparse) zset

/--
A sorted set is a linearizable table of scores. Whatever other keys the clients use at the same time, every
command on it, be it for a score, a position or a range, is answered as by a table that is put in order
each time, and the key holds this table in the end.
-/
theorem sorted_set_is_leaderboard {events : List TrafficEvent} {start : Instant} {db : Database}
    {last : Traffic} {answers : List (ClientRequest × String)} {scores : Scores}
    (hinitial : HoldsScores scores (live start db.store key))
    (huses : ∀ event ∈ events, Uses (isRequestOn Command.boardKey key) key event)
    (hrun : system.run events (new start db) = some (last, answers))
    : let requests := (events.filterMap TrafficEvent.clientRequest).filter
        (isRequestOn Command.boardKey key)
      (answers.filter fun answer => isRequestOn Command.boardKey key answer.1)
          = leaderboard.answers requests scores
        ∧ HoldsScores (leaderboard.after requests scores) (live last.clock last.db.store key) := by
  exact (standsFor_leaderboard key).run hinitial huses hrun

/--
Two players whose scores are equal for a while, and a client that asks for the standings.
-/
theorem sorted_set_is_leaderboard_match
    : let events : List TrafficEvent :=
        [.request 0 (envAt startOfClock) ["ZADD", "match", "2", "a", "2", "b"],
          .request 1 (envAt startOfClock) ["ZINCRBY", "match", "-1", "b"], .finish 0 startOfClock,
          .request 2 (envAt startOfClock) ["SET", "k", "v"],
          .request 3 (envAt startOfClock) ["ZRANGE", "match", "0", "-1"],
          .request 4 (envAt startOfClock) ["ZRANK", "match", "a"]]
      ∃ last answers,
        system.run events (new startOfClock (.new startOfClock)) = some (last, answers)
          ∧ let requests := (events.filterMap TrafficEvent.clientRequest).filter
              (isRequestOn Command.boardKey "match")
            (answers.filter fun answer => isRequestOn Command.boardKey "match" answer.1)
                = leaderboard.answers requests ∅
              ∧ HoldsScores (leaderboard.after requests ∅)
                (live last.clock last.db.store "match") := by
  intro events
  have hinitial : HoldsScores ∅ (live startOfClock (Database.new startOfClock).store "match") := by
    exact ⟨.new, rfl, rfl⟩
  have hrun : (system.run events (new startOfClock (.new startOfClock))).isSome = true := by
    decide
  obtain ⟨⟨last, answers⟩, hrun⟩ := Option.isSome_iff_exists.mp hrun
  refine ⟨last, answers, hrun, sorted_set_is_leaderboard hinitial ?_ hrun⟩
  simp only [events, List.forall_mem_cons, List.not_mem_nil, false_implies, implies_true, and_true]
  refine ⟨?_, ?_, ?_, ?_, ?_, ?_⟩
  all_goals
    intro request hrequest
    cases hrequest
  . left
    decide
  . left
    decide
  . right
    intro command hcommand
    cases hcommand
    exact ⟨by simp, .inr (by simp [Command.namedKeys])⟩
  . left
    decide
  . left
    decide

end Traffic
end RedisClone
