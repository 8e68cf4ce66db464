import RedisClone.Command.Framing
import RedisClone.Session.Deferred

/-!
This module contains the proof that a connection is answered with one value for each request, and
with one for each channel if the request changes its subscriptions.
-/

namespace RedisClone

open Resp2 (Encodes)

theorem encodes_join {depth : Nat} {replies : List String}
    (h : ∀ reply ∈ replies, Framed depth reply)
    : ∃ values, List.Forall₂ (Encodes depth) (replies.map asBytes) values := by
  induction replies with
  | nil => exact ⟨[], .nil⟩
  | cons reply replies ih =>
    rcases h reply List.mem_cons_self with ⟨value, hvalue⟩
    rcases ih fun reply hmem => h reply (List.mem_cons_of_mem _ hmem) with ⟨values, hvalues⟩
    exact ⟨value :: values, .cons hvalue hvalues⟩

theorem encodes_header_join {depth : Nat} {replies : List String}
    (h : ∀ reply ∈ replies, Framed depth reply)
    : ∃ values, values.length = replies.length
        ∧ Encodes (depth + 1) (asBytes (Resp.header replies.length ++ String.join replies))
            (.array values) := by
  rcases encodes_join h with ⟨values, hvalues⟩
  refine ⟨values, ?_, ?_⟩
  . rw [← hvalues.length_eq, List.length_map]
  . have hbytes := encodes_header hvalues
    rw [List.length_map] at hbytes
    rw [asBytes_append, asBytes_join, List.flatMap_def]
    exact hbytes

namespace Session

variable {session : Session} {tokens : List String}

theorem framed_beginMulti (session : Session) : Framed 2 session.beginMulti.2 := by
  unfold beginMulti
  split
  . exact framed_error _
  . exact framed_simpleString oneLine_ok

theorem framed_discard (session : Session) : Framed 2 session.discard.2 := by
  unfold discard
  split
  . exact framed_simpleString oneLine_ok
  . exact framed_error _

theorem framed_queue (name : String) (tokens : List String) (transaction : Transaction)
    (session : Session)
    : Framed 2 (session.queue name tokens transaction).2 := by
  unfold queue
  split
  . exact framed_error _
  . split
    . exact framed_simpleString (by simp [OneLine, Resp.isLineBreak])
    . exact framed_error _

theorem dispatchEach_framed (envs : Nat → Env) {commands : List (List String)}
    (hne : ∀ tokens ∈ commands, tokens ≠ []) (db : Database)
    : (dispatchEach envs commands db).2.length = commands.length
        ∧ ∀ reply ∈ (dispatchEach envs commands db).2, Framed 2 reply := by
  induction commands generalizing envs db with
  | nil => simp [dispatchEach]
  | cons tokens commands ih =>
    rcases ih (fun i => envs (i + 1)) (fun tokens hmem => hne tokens (List.mem_cons_of_mem _ hmem))
      (dispatch (envs 0) tokens db).1 with ⟨hlength, hreplies⟩
    rw [dispatchEach]
    constructor
    . exact congrArg Nat.succ hlength
    . intro reply hmem
      rcases List.mem_cons.mp hmem with rfl | hmem
      . exact framed_dispatch (envs 0) (hne tokens List.mem_cons_self) db
      . exact hreplies reply hmem

theorem ne_nil_of_queued {transaction : Transaction} (hmem : tokens ∈ transaction.commands)
    : tokens ≠ [] := by
  rintro rfl
  rcases transaction.parses [] hmem with ⟨command, hparse⟩
  cases hparse

/--
The header of `EXEC` counts the values that follow it.
-/
theorem encodes_dispatchAll (envs : Nat → Env) (transaction : Transaction) (db : Database)
    : ∃ values, values.length = transaction.commands.length
        ∧ Encodes 3
            (asBytes (dispatchAll envs transaction.commands db
              (Resp.header transaction.commands.length)).2)
            (.array values) := by
  rcases dispatchEach_framed envs (fun tokens => ne_nil_of_queued) db with ⟨hlength, hreplies⟩
  rcases encodes_header_join hreplies with ⟨values, hvalues, hencodes⟩
  rw [hlength] at hvalues hencodes
  rw [dispatchAll_eq]
  exact ⟨values, hvalues, hencodes⟩

theorem framed_exec (envs : Nat → Env) (session : Session) (db : Database)
    : Framed 3 (session.exec envs db).2.2 := by
  unfold exec
  split
  . exact (framed_error _).mono (by omega)
  . next transaction _ =>
    dsimp only
    split
    . exact (framed_error _).mono (by omega)
    . rcases encodes_dispatchAll envs transaction db with ⟨values, -, hencodes⟩
      exact ⟨_, hencodes⟩

/-
Requests that change the subscriptions.
-/

theorem encodes_subscriptionReply (kind channel : String) (count : Nat)
    : Encodes 2 (asBytes (subscriptionReply kind channel count))
        (.array
          [.bulk (asBytes kind), .bulk (asBytes channel), .integer (Int64.ofNat count).toInt]) := by
  have harray := encodes_header (.cons (encodes_bulkString 0 kind)
    (.cons (encodes_bulkString 0 channel) (.cons (encodes_integer 0 (Int64.ofNat count)) .nil)))
  simp only [List.flatten_cons, List.flatten_nil, List.append_nil] at harray
  rw [subscriptionReply, asBytes_append, asBytes_append, asBytes_append, List.append_assoc,
    List.append_assoc]
  exact harray

theorem framed_subscriptionReplyNull (kind : String) : Framed 2 (subscriptionReplyNull kind) := by
  have harray := encodes_header (.cons (encodes_bulkString 0 kind)
    (.cons (Resp2.encodes_null : Encodes 1 (asBytes Resp.null) .null)
      (.cons (encodes_integer 0 0) .nil)))
  simp only [List.flatten_cons, List.flatten_nil, List.append_nil] at harray
  unfold Framed
  rw [subscriptionReplyNull, asBytes_append, asBytes_append, asBytes_append, List.append_assoc,
    List.append_assoc]
  exact ⟨_, harray⟩

/--
A three-element array that tells of one channel.
-/
def IsConfirmation (kind channel : String) (value : Resp2.Value) : Prop :=
  ∃ count : Int, value = .array [.bulk (asBytes kind), .bulk (asBytes channel), .integer count]

theorem foldl_confirms {one : String → Session → Database → Session × Database × String}
    {kind : String}
    (hone : ∀ channel session db, ∃ count,
      (one channel session db).2.2 = subscriptionReply kind channel count)
    (channels : List String) (session : Session) (db : Database) (reply : String)
    : ∃ chunks values, List.Forall₂ (Encodes 2) chunks values
        ∧ List.Forall₂ (IsConfirmation kind) channels values
        ∧ asBytes (channels.foldl
            (fun (session, db, reply) channel =>
              let (session, db, confirmation) := one channel session db
              (session, db, reply ++ confirmation))
            (session, db, reply)).2.2
          = asBytes reply ++ chunks.flatten := by
  induction channels generalizing session db reply with
  | nil => exact ⟨[], [], .nil, .nil, (List.append_nil _).symm⟩
  | cons channel channels ih =>
    rcases hone channel session db with ⟨count, hcount⟩
    rcases ih (one channel session db).1 (one channel session db).2.1
      (reply ++ (one channel session db).2.2) with ⟨chunks, values, hencodes, hconfirms, hbytes⟩
    refine ⟨asBytes (subscriptionReply kind channel count) :: chunks, _ :: values,
      .cons (encodes_subscriptionReply kind channel count) hencodes, .cons ⟨_, rfl⟩ hconfirms, ?_⟩
    rw [List.foldl_cons, List.flatten_cons, ← List.append_assoc, ← asBytes_append, ← hcount]
    exact hbytes

theorem parseMany_forChannels {one : String → Session → Database → Session × Database × String}
    {kind : String}
    (hone : ∀ channel session db, ∃ count,
      (one channel session db).2.2 = subscriptionReply kind channel count)
    {channels : List String} (hne : channels ≠ []) (session : Session) (db : Database)
    : ∃ values, Resp2.parseMany channels.length
          (asBytes (forChannels one channels session db).2.2) = some values
        ∧ List.Forall₂ (IsConfirmation kind) channels values := by
  rcases foldl_confirms hone channels session db "" with ⟨chunks, values, hencodes, hconfirms, hbytes⟩
  have hlength : channels.length = chunks.length := by
    rw [hconfirms.length_eq, hencodes.length_eq]
  refine ⟨values, ?_, hconfirms⟩
  unfold forChannels
  rw [hbytes, asBytes_empty, List.nil_append, hlength]
  apply Resp2.parseMany_of_encodes hencodes
  . rintro rfl
    exact hne (List.eq_nil_of_length_eq_zero hlength)
  . omega

/--
The body of the loop that makes the confirmations of a kind.
-/
def oneOf (kind : String) : String → Session → Database → Session × Database × String :=
  if kind = "subscribe" then subscribeOne else unsubscribeOne

theorem oneOf_reply {kind : String} (hkind : kind = "subscribe" ∨ kind = "unsubscribe")
    (channel : String) (session : Session) (db : Database)
    : (oneOf kind channel session db).2.2
        =
      subscriptionReply kind channel (oneOf kind channel session db).1.channels.size := by
  rcases hkind with rfl | rfl
  . rfl
  . rfl

/--
The kind and the channels of the confirmations that answer a request, which is a `SUBSCRIBE` or an
`UNSUBSCRIBE` outside of a transaction with at least one channel to act on.
-/
def confirms (env : Env) (session : Session) (tokens : List String)
    : Option (String × List String) :=
  match session.transaction, tokens with
  | none, first :: args =>
    let name := toAsciiUppercase first
    if name == "SUBSCRIBE" then
      if args.isEmpty then none else some ("subscribe", args)
    else if name == "UNSUBSCRIBE" then
      let targets := unsubscribeTargets env args session
      if targets.isEmpty then none else some ("unsubscribe", targets)
    else
      none
  | _, _ => none

theorem handle_of_confirms {envs : Nat → Env} {kind : String} {channels : List String}
    (h : confirms (envs 0) session tokens = some (kind, channels)) (db : Database)
    : channels ≠ [] ∧ (kind = "subscribe" ∨ kind = "unsubscribe")
        ∧ session.handle envs tokens db = forChannels (oneOf kind) channels session db := by
  unfold confirms at h
  split at h
  . next first args htransaction =>
    unfold handle
    dsimp only at h ⊢
    generalize toAsciiUppercase first = name at h ⊢
    split at h
    . next hname =>
      rw [beq_iff_eq] at hname
      subst hname
      split at h
      . cases h
      . next hargs =>
        cases h
        refine ⟨by simpa using hargs, .inl rfl, ?_⟩
        simp [htransaction, subscribe, hargs, oneOf]
    . split at h
      . next hname =>
        rw [beq_iff_eq] at hname
        subst hname
        split at h
        . cases h
        . next htargets =>
          cases h
          refine ⟨by simpa using htargets, .inr rfl, ?_⟩
          simp [htransaction, unsubscribe, htargets, oneOf]
      . cases h
  . cases h

theorem framed_handle (envs : Nat → Env) (session : Session) (hne : tokens ≠ [])
    (h : confirms (envs 0) session tokens = none) (db : Database)
    : Framed 3 (session.handle envs tokens db).2.2 := by
  cases tokens with
  | nil => exact absurd rfl hne
  | cons first args =>
    unfold confirms at h
    unfold handle
    dsimp only at h ⊢
    split
    . exact (framed_error _).mono (by omega)
    . split
      . exact (framed_beginMulti session).mono (by omega)
      . split
        . exact framed_exec envs session db
        . split
          . exact (framed_discard session).mono (by omega)
          . cases htransaction : session.transaction with
            | some transaction => exact (framed_queue _ _ transaction session).mono (by omega)
            | none =>
              rw [htransaction] at h
              dsimp only at h ⊢
              split
              . next hname =>
                rw [if_pos hname] at h
                unfold subscribe
                split
                . exact (framed_error _).mono (by omega)
                . next hargs =>
                  rw [if_neg hargs] at h
                  cases h
              . next hsubscribe =>
                rw [if_neg hsubscribe] at h
                split
                . next hname =>
                  rw [if_pos hname] at h
                  unfold unsubscribe
                  dsimp only
                  split
                  . exact (framed_subscriptionReplyNull _).mono (by omega)
                  . next htargets =>
                    rw [if_neg htargets] at h
                    cases h
                . exact (framed_dispatch (envs 0) (List.cons_ne_nil first args) db).mono (by omega)

/--
Every request but a blank line is answered with one value, and a `SUBSCRIBE` or `UNSUBSCRIBE` that
acts on channels with one array for each of them; the array of an `EXEC` has one item for each request
that was queued.
-/
theorem handle_keeps_framing (envs : Nat → Env) (session : Session) (db : Database)
    {tokens : List String} (hne : tokens ≠ [])
    : (match confirms (envs 0) session tokens with
        | none => ∃ value, Resp2.parse (asBytes (session.handle envs tokens db).2.2) = some value
        | some (kind, channels) =>
          ∃ values, Resp2.parseMany channels.length
              (asBytes (session.handle envs tokens db).2.2) = some values
            ∧ List.Forall₂ (IsConfirmation kind) channels values)
        ∧
      ∀ transaction, requestName tokens = some "EXEC" → session.isSubscribed = false
        → session.transaction = some transaction → transaction.dirty = false
        → ∃ values, values.length = transaction.commands.length
            ∧ Resp2.parse (asBytes (session.handle envs tokens db).2.2) = some (.array values) := by
  constructor
  . split
    . next hnone =>
      rcases framed_handle envs session hne hnone db with ⟨value, hvalue⟩
      exact ⟨value, Resp2.parse_of_encodes hvalue (by omega)⟩
    . next kind channels hsome =>
      rcases handle_of_confirms hsome db with ⟨hchannels, hkind, heq⟩
      rw [heq]
      apply parseMany_forChannels _ hchannels session db
      intro channel session db
      exact ⟨_, oneOf_reply hkind channel session db⟩
  . intro transaction hexec hsubscribed htransaction hdirty
    rcases encodes_dispatchAll envs transaction db with ⟨values, hlength, hvalues⟩
    refine ⟨values, hlength, ?_⟩
    rw [handle_exec envs db hexec hsubscribed htransaction, hdirty, if_neg (by decide)]
    rw [dispatchAll_eq] at hvalues
    exact Resp2.parse_of_encodes hvalues (by omega)

theorem handle_keeps_framing_echo
    : let env := envAt startOfClock
      let db := Database.new env.now
      ∃ value, Resp2.parse
        (asBytes ((Session.new db).1.handle (fun _ => env) ["ECHO", "\r\n+OK\r\n"] db).2.2)
          = some value := by
  intro env db
  have hframing := (handle_keeps_framing (fun _ => env) (Session.new db).1 db
    (List.cons_ne_nil "ECHO" ["\r\n+OK\r\n"])).1
  have hnone : confirms env (Session.new db).1 ["ECHO", "\r\n+OK\r\n"] = none := by
    rfl
  rw [hnone] at hframing
  exact hframing

end Session
end RedisClone
