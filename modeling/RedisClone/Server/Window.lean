import RedisClone.Hub.History
import RedisClone.Server.HandleConnection

/-!
This module contains the proof of when the messages a connection writes stay within the subscription
to their channel, and a run in which one does not.
-/

namespace RedisClone

/--
Whether a client that has read these frames is subscribed to a channel.
-/
def window (channel : String) (frames : List Frame) : Bool :=
  frames.foldl
    (fun opened frame =>
      match frame with
      | .confirmation kind name _ => if name = channel then kind = "subscribe" else opened
      | _ => opened)
    false

/--
Everything that is pushed is a message of a channel the client is subscribed to.
-/
def InWindow (frames : List Frame) : Prop :=
  ∀ before message after, frames = before ++ .push message :: after →
    (∃ channel payload, message = PubSub.message channel payload)
      ∧ ∀ channel payload, message = PubSub.message channel payload → window channel before = true

section

variable {frames : List Frame} {channel channel' payload payload' : String}

@[simp]
theorem window_nil : window channel [] = false := by
  rfl

theorem window_confirmation (kind : String) (count : Nat)
    : window channel (frames ++ [.confirmation kind channel' count])
        =
      if channel' = channel then decide (kind = "subscribe") else window channel frames := by
  unfold window
  rw [List.foldl_append]
  rfl

@[simp]
theorem window_reply (text : String)
    : window channel (frames ++ [.reply text]) = window channel frames := by
  unfold window
  rw [List.foldl_append]
  rfl

@[simp]
theorem window_push (message : String)
    : window channel (frames ++ [.push message]) = window channel frames := by
  unfold window
  rw [List.foldl_append]
  rfl

theorem inWindow_nil : InWindow [] := by
  intro before message after h
  simp at h

theorem inWindow_concat {frame : Frame} (h : InWindow frames)
    (hframe : ∀ message, frame = .push message →
      (∃ channel payload, message = PubSub.message channel payload)
        ∧ ∀ channel payload, message = PubSub.message channel payload
          → window channel frames = true)
    : InWindow (frames ++ [frame]) := by
  intro before message after heq
  rcases List.eq_nil_or_concat after with rfl | ⟨after, last, rfl⟩
  . rcases List.append_inj' heq rfl with ⟨rfl, hlast⟩
    cases hlast
    exact hframe message rfl
  . rw [List.concat_eq_append, ← List.cons_append, ← List.append_assoc] at heq
    exact h before message after (List.append_inj' heq rfl).1

theorem message_inj (h : PubSub.message channel payload = PubSub.message channel' payload')
    : channel = channel' ∧ payload = payload' := by
  have hleft := encodes_array 0 ["message", channel, payload] []
  have hright := encodes_array 0 ["message", channel', payload'] []
  unfold PubSub.message at h
  rw [h, hright] at hleft
  simp only [List.map_cons, List.map_nil, Option.some.injEq, Prod.mk.injEq, Resp2.Value.array.injEq,
    List.cons.injEq, Resp2.Value.bulk.injEq, asBytes_inj] at hleft
  exact ⟨hleft.1.2.1.symm, hleft.1.2.2.1.symm⟩

theorem inWindow_append_confirmations {confirmations : List Frame} (h : InWindow frames)
    (hconfirmations : ∀ frame ∈ confirmations, ∃ kind channel count,
      frame = .confirmation kind channel count)
    : InWindow (frames ++ confirmations) := by
  induction confirmations generalizing frames with
  | nil =>
    rw [List.append_nil]
    exact h
  | cons frame confirmations ih =>
    rw [List.append_cons]
    apply ih
    . apply inWindow_concat h
      rintro message rfl
      rcases hconfirmations _ List.mem_cons_self with ⟨_, _, _, heq⟩
      cases heq
    . intro frame hmem
      exact hconfirmations frame (List.mem_cons_of_mem _ hmem)

end

namespace Session

/--
Requests dispatched one after the other.
-/
def dispatchEnvs (requests : List (Env × List String)) (db : Database) : Database :=
  requests.foldl (fun db request => (dispatch request.1 request.2 db).1) db

theorem dispatchAll_db (envs : Nat → Env) (commands : List (List String)) (db : Database)
    (reply : String)
    : ∃ requests, (dispatchAll envs commands db reply).1 = dispatchEnvs requests db := by
  induction commands generalizing envs db reply with
  | nil => exact ⟨[], rfl⟩
  | cons tokens commands ih =>
    rcases ih (fun i => envs (i + 1)) (dispatch (envs 0) tokens db).1
      (reply ++ (dispatch (envs 0) tokens db).2) with ⟨requests, hrequests⟩
    exact ⟨(envs 0, tokens) :: requests, hrequests⟩

theorem handle_of_not_confirms {envs : Nat → Env} {session : Session} {tokens : List String}
    (h : confirms (envs 0) session tokens = none) (db : Database)
    : ∃ transaction requests,
        (session.handle envs tokens db).1 = { session with transaction }
          ∧ (session.handle envs tokens db).2.1 = dispatchEnvs requests db := by
  have hunchanged : ∃ transaction requests, session = { session with transaction }
      ∧ db = dispatchEnvs requests db := ⟨session.transaction, [], rfl, rfl⟩
  cases tokens with
  | nil => exact hunchanged
  | cons first args =>
    unfold confirms at h
    unfold handle
    dsimp only at h ⊢
    split
    . exact hunchanged
    . split
      . unfold beginMulti
        split
        . exact hunchanged
        . exact ⟨_, [], rfl, rfl⟩
      . split
        . unfold exec
          split
          . exact hunchanged
          . next transaction _ =>
            dsimp only
            split
            . exact ⟨none, [], rfl, rfl⟩
            . rcases dispatchAll_db envs transaction.commands db
                (Resp.header transaction.commands.length) with ⟨requests, hrequests⟩
              exact ⟨none, requests, rfl, hrequests⟩
        . split
          . unfold discard
            split
            . exact ⟨none, [], rfl, rfl⟩
            . exact hunchanged
          . cases htransaction : session.transaction with
            | some transaction =>
              dsimp only
              unfold queue
              split
              . exact ⟨_, [], rfl, rfl⟩
              . split
                . exact ⟨_, [], rfl, rfl⟩
                . exact ⟨_, [], rfl, rfl⟩
            | none =>
              rw [htransaction] at h
              dsimp only at h ⊢
              split
              . next hname =>
                rw [if_pos hname] at h
                unfold subscribe
                split
                . exact hunchanged
                . next hargs =>
                  rw [if_neg hargs] at h
                  cases h
              . next hsubscribe =>
                rw [if_neg hsubscribe] at h
                split
                . next hname =>
                  rw [if_pos hname] at h
                  unfold unsubscribe
                  dsimp only
                  split
                  . exact hunchanged
                  . next htargets =>
                    rw [if_neg htargets] at h
                    cases h
                . exact ⟨session.transaction, [(envs 0, first :: args)], rfl, rfl⟩

end Session

namespace Hub

variable {hub hub' : Hub} {id : UInt64} {connection : Connection} {frames : List Frame}

/--
What is in the mailbox of a connection.
-/
def queued (hub : Hub) (connection : Connection) : List String :=
  hub.db.pubsub.mailboxes[connection.session.mailbox]?.getD []

/--
A connection that serves requests, whose mailbox holds messages of its channels only, while its client
has been told, or is about to be told, that it is subscribed to these.
-/
structure Listening (hub : Hub) (id : UInt64) (connection : Connection) (frames : List Frame)
    : Prop where
  consistent : hub.Consistent
  serving : hub.serving id = some connection
  queued : ∀ message ∈ hub.queued connection, ∃ channel payload,
    message = PubSub.message channel payload ∧ channel ∈ connection.session.channels
  opened : ∀ channel ∈ connection.session.channels, window channel frames = true

theorem connections_of_others {event : HubEvent} (hevent : event.concerns id = false)
    (hconnection : hub.connections[id]? = some connection) (hstep : hub.step event = some hub')
    : hub'.connections[id]? = some connection := by
  cases event with
  | connect =>
    simp only [step] at hstep
    split at hstep
    . next hnone =>
      cases hstep
      rw [getElem?_update, if_neg]
      . exact hconnection
      . intro heq
        rw [heq, hconnection] at hnone
        cases hnone
    . cases hstep
  | dispatch env tokens =>
    cases hstep
    exact hconnection
  | subscribe other channel =>
    simp only [step, Option.map_eq_some_iff] at hstep
    rcases hstep with ⟨found, -, rfl⟩
    rw [getElem?_update, if_neg (by simpa [HubEvent.concerns] using hevent)]
    exact hconnection
  | unsubscribe other channel =>
    simp only [step, Option.map_eq_some_iff] at hstep
    rcases hstep with ⟨found, -, rfl⟩
    rw [getElem?_update, if_neg (by simpa [HubEvent.concerns] using hevent)]
    exact hconnection
  | transact other transaction =>
    simp only [step, Option.map_eq_some_iff] at hstep
    rcases hstep with ⟨found, -, rfl⟩
    rw [getElem?_update, if_neg (by simpa [HubEvent.concerns] using hevent)]
    exact hconnection
  | receive other =>
    simp only [step, Option.bind_eq_some_iff, Option.map_eq_some_iff] at hstep
    rcases hstep with ⟨found, -, received, -, rfl⟩
    rw [getElem?_update, if_neg (by simpa [HubEvent.concerns] using hevent)]
    exact hconnection
  | hangUp other =>
    simp only [step, Option.map_eq_some_iff] at hstep
    rcases hstep with ⟨found, -, rfl⟩
    rw [getElem?_update, if_neg (by simpa [HubEvent.concerns] using hevent)]
    exact hconnection
  | leave other =>
    simp only [step] at hstep
    split at hstep
    . cases hstep
      rw [getElem?_update, if_neg (by simpa [HubEvent.concerns] using hevent)]
      exact hconnection
    . cases hstep
  | close other =>
    simp only [step] at hstep
    split at hstep
    . cases hstep
      rw [getElem?_close, if_neg (by simpa [HubEvent.concerns] using hevent)]
      exact hconnection
    . cases hstep

/--
What the others do leaves messages of the connection's channels at most.
-/
theorem Listening.others (h : hub.Listening id connection frames) {event : HubEvent}
    (hevent : event.concerns id = false) (hstep : hub.step event = some hub')
    : hub'.Listening id connection frames := by
  have hserving := serving_eq_some.mp h.serving
  have hconnection' := connections_of_others hevent hserving.1 hstep
  refine ⟨step_consistent h.consistent hstep, serving_eq_some.mpr ⟨hconnection', hserving.2⟩, ?_,
    h.opened⟩
  intro message hmem
  have hhistory := step_history h.consistent hstep hserving.1 hconnection'
  unfold history at hhistory
  rw [List.append_assoc, List.append_cancel_left_eq] at hhistory
  unfold Hub.queued at hmem
  rw [hhistory] at hmem
  rcases List.mem_append.mp hmem with hmem | hmem
  . exact h.queued message hmem
  . unfold heardAt at hmem
    split at hmem
    . split at hmem
      . next channel payload _ =>
        split at hmem
        . next hsubscribed =>
          rw [List.mem_singleton] at hmem
          refine ⟨channel, payload, hmem, ?_⟩
          rw [subscribed, hserving.1, Option.any_some, subscribed_of_serving hserving.2] at hsubscribed
          exact Std.ExtTreeSet.contains_iff_mem.mp hsubscribed
        . cases hmem
      . cases hmem
    . cases hmem

/--
The connection changes its session, and drops no channel it still has messages of.
-/
theorem Listening.change (h : hub.Listening id connection frames) {session : Session} {db : Database}
    {frames' : List Frame} (hconsistent : (hub.update id { connection with session } db).Consistent)
    (hmailbox : session.mailbox = connection.session.mailbox)
    (hmailboxes : db.pubsub.mailboxes = hub.db.pubsub.mailboxes)
    (hqueued : ∀ channel payload, PubSub.message channel payload ∈ hub.queued connection
      → channel ∈ connection.session.channels → channel ∈ session.channels)
    (hopened : ∀ channel ∈ session.channels, window channel frames' = true)
    : (hub.update id { connection with session } db).Listening id { connection with session } frames'
    := by
  refine ⟨hconsistent, serving_update (serving_eq_some.mp h.serving).2, ?_, hopened⟩
  intro message hmem
  have hsame : (hub.update id { connection with session } db).queued { connection with session }
      = hub.queued connection := by
    simp only [Hub.queued, Hub.update, hmailbox, hmailboxes]
  rw [hsame] at hmem
  rcases h.queued message hmem with ⟨channel, payload, rfl, hchannel⟩
  exact ⟨channel, payload, rfl, hqueued channel payload hmem hchannel⟩

theorem Listening.transact (h : hub.Listening id connection frames)
    (transaction : Option Transaction)
    : (hub.update id { connection with session := { connection.session with transaction } }
        hub.db).Listening id { connection with session := { connection.session with transaction } }
          frames := by
  apply h.change (consistent_transact h.consistent h.serving transaction) rfl rfl
  . exact fun _ _ _ hmem => hmem
  . exact h.opened

theorem mem_subscribeOne {channel other : String} {session : Session} {db : Database}
    : other ∈ (Session.subscribeOne channel session db).1.channels
        ↔ other = channel ∨ other ∈ session.channels := by
  unfold Session.subscribeOne
  dsimp only
  split
  . next hmem =>
    rw [Std.ExtTreeSet.contains_iff_mem] at hmem
    constructor
    . exact .inr
    . rintro (rfl | h)
      . exact hmem
      . exact h
  . rw [Std.ExtTreeSet.mem_insert, Std.LawfulEqCmp.compare_eq_iff_eq, eq_comm]

theorem mem_unsubscribeOne {channel other : String} {session : Session} {db : Database}
    : other ∈ (Session.unsubscribeOne channel session db).1.channels
        ↔ other ≠ channel ∧ other ∈ session.channels := by
  unfold Session.unsubscribeOne
  dsimp only
  split
  . rw [Std.ExtTreeSet.mem_erase, Ne, Std.LawfulEqCmp.compare_eq_iff_eq, ne_comm]
  . next hmem =>
    rw [Std.ExtTreeSet.contains_iff_mem] at hmem
    constructor
    . intro h
      refine ⟨?_, h⟩
      rintro rfl
      exact hmem h
    . exact And.right

theorem Listening.subscribe (h : hub.Listening id connection frames) (channel : String) (count : Nat)
    : let changed := Session.subscribeOne channel connection.session hub.db
      (hub.update id { connection with session := changed.1 } changed.2.1).Listening id
        { connection with session := changed.1 }
        (frames ++ [.confirmation "subscribe" channel count]) := by
  have hframe := subscribeOne_frame channel connection.session hub.db
  apply h.change (consistent_subscribe h.consistent h.serving channel) hframe.1 hframe.2.2
  . intro other payload _ hmem
    exact mem_subscribeOne.mpr (.inr hmem)
  . intro other hmem
    rw [window_confirmation]
    split
    . rfl
    . next hne =>
      rcases mem_subscribeOne.mp hmem with heq | hmem
      . exact absurd heq.symm hne
      . exact h.opened other hmem

/--
A channel may be left when no message of it waits in the mailbox.
-/
theorem Listening.unsubscribe (h : hub.Listening id connection frames) (channel : String)
    (count : Nat) (hdrained : ∀ payload, PubSub.message channel payload ∉ hub.queued connection)
    : let changed := Session.unsubscribeOne channel connection.session hub.db
      (hub.update id { connection with session := changed.1 } changed.2.1).Listening id
        { connection with session := changed.1 }
        (frames ++ [.confirmation "unsubscribe" channel count]) := by
  have hframe := unsubscribeOne_frame channel connection.session hub.db
  apply h.change (consistent_unsubscribe h.consistent h.serving channel) hframe.1 hframe.2.2
  . intro other payload hqueued hmem
    apply mem_unsubscribeOne.mpr
    refine ⟨?_, hmem⟩
    rintro rfl
    exact hdrained payload hqueued
  . intro other hmem
    rw [mem_unsubscribeOne] at hmem
    rw [window_confirmation, if_neg (Ne.symm hmem.1)]
    exact h.opened other hmem.2

theorem Listening.receive (h : hub.Listening id connection frames) {message : String}
    {pubsub : PubSub} (hrecv : hub.db.pubsub.recv connection.session.mailbox = some (message, pubsub))
    : message ∈ hub.queued connection
        ∧ (hub.update id { connection with received := connection.received ++ [message] }
            { hub.db with pubsub }).Listening id
              { connection with received := connection.received ++ [message] } frames := by
  have hconsistent := consistent_receive h.consistent h.serving hrecv
  have hserving := (serving_eq_some.mp h.serving).2
  have hqueued := h.queued
  unfold PubSub.recv at hrecv
  unfold Hub.queued at hqueued ⊢
  split at hrecv
  . next queue hqueue =>
    cases hrecv
    rw [hqueue, Option.getD_some] at hqueued ⊢
    refine ⟨List.mem_cons_self, hconsistent, serving_update hserving, ?_, h.opened⟩
    intro other hmem
    apply hqueued other
    simp only [Hub.queued, Hub.update, Std.ExtTreeMap.getElem?_insert_self, Option.getD_some] at hmem
    exact List.mem_cons_of_mem _ hmem
  . cases hrecv

theorem Listening.reply (h : hub.Listening id connection frames) (text : String)
    : hub.Listening id connection (frames ++ [.reply text]) := by
  refine ⟨h.consistent, h.serving, h.queued, ?_⟩
  intro channel hmem
  rw [window_reply]
  exact h.opened channel hmem

theorem Listening.push (h : hub.Listening id connection frames) (message : String)
    : hub.Listening id connection (frames ++ [.push message]) := by
  refine ⟨h.consistent, h.serving, h.queued, ?_⟩
  intro channel hmem
  rw [window_push]
  exact h.opened channel hmem

theorem Listening.dispatches (h : hub.Listening id connection frames)
    (requests : List (Env × List String))
    : Listening { hub with db := Session.dispatchEnvs requests hub.db } id connection frames := by
  induction requests generalizing hub with
  | nil => exact h
  | cons request requests ih =>
    exact ih (@Listening.others _ _ _ _ _ h (.dispatch request.1 request.2) rfl rfl)

theorem listening_new {opened : Hub} (h : hub.Consistent) (hopened : hub.step .connect = some opened)
    : ∃ connection, opened.Listening (Session.new hub.db).1.id connection [] := by
  have hconsistent := step_consistent h hopened
  simp only [step] at hopened
  split at hopened
  . cases hopened
    refine ⟨⟨(Session.new hub.db).1, [], none⟩, hconsistent, serving_update rfl, ?_, ?_⟩
    . intro message hmem
      have hempty : (Session.new hub.db).2.pubsub.mailboxes
          = hub.db.pubsub.mailboxes.insert (Session.new hub.db).1.mailbox [] := rfl
      simp only [queued, update, hempty, Std.ExtTreeMap.getElem?_insert_self, Option.getD_some] at hmem
      cases hmem
    . intro channel hmem
      simp [Session.new] at hmem
  . cases hopened

end Hub

namespace ConnectionTask

/--
When a channel is left, no message of it waits in the mailbox.
-/
def Drained (id : UInt64) (task : ConnectionTask) : TaskEvent → Prop
  | .channel => ∀ channel channels connection,
    task.serving = some ("unsubscribe", channel :: channels)
      → task.hub.serving id = some connection
      → ∀ payload, PubSub.message channel payload ∉ task.hub.queued connection
  | _ => True

def RunDrained (id : UInt64) : List TaskEvent → ConnectionTask → Prop
  | [], _ => True
  | event :: events, task =>
    task.Drained id event ∧ ∀ next, task.step id event = some next → RunDrained id events next

structure Windowed (id : UInt64) (task : ConnectionTask) : Prop where
  listening : ∃ connection, task.hub.Listening id connection (task.written ++ task.pending)
  written : InWindow task.written
  pending : ∀ frame ∈ task.pending, ∃ kind channel count, frame = .confirmation kind channel count
  idle : task.serving = none → task.pending = []
  kind : ∀ kind channels, task.serving = some (kind, channels)
    → kind = "subscribe" ∨ kind = "unsubscribe"

variable {id : UInt64} {task next : ConnectionTask}

theorem windowed_serve (h : task.Windowed id) {envs : Nat → Env}
    (hstep : task.step id (.serve envs) = some next)
    : next.Windowed id := by
  rcases h.listening with ⟨connection, hlistening⟩
  simp only [step] at hstep
  split at hstep
  . next tokens requests found hserving _ hfound =>
    have hpending := h.idle hserving
    rw [hlistening.serving] at hfound
    cases hfound
    split at hstep
    . next request hconfirms =>
      cases hstep
      refine ⟨⟨connection, hlistening⟩, h.written, h.pending, ?_, ?_⟩
      . intro hnone
        cases hnone
      . rintro kind channels heq
        cases heq
        exact (Session.handle_of_confirms hconfirms task.hub.db).2.1
    . next hconfirms =>
      rcases Session.handle_of_not_confirms hconfirms task.hub.db
        with ⟨transaction, dispatched, hsession, hdb⟩
      cases hstep
      rw [hsession, hdb]
      have htransact := (hlistening.transact transaction).dispatches dispatched
      rw [hpending, List.append_nil] at htransact
      refine ⟨?_, ?_, h.pending, h.idle, h.kind⟩
      . dsimp only
        rw [hpending, List.append_nil]
        exact ⟨_, htransact.reply _⟩
      . apply inWindow_concat h.written
        intro message heq
        cases heq
  . cases hstep

theorem windowed_channel (h : task.Windowed id) (hdrained : task.Drained id .channel)
    (hstep : task.step id .channel = some next)
    : next.Windowed id := by
  rcases h.listening with ⟨connection, hlistening⟩
  simp only [step] at hstep
  split at hstep
  . next kind channel channels found hserving hfound =>
    rw [hlistening.serving] at hfound
    cases hfound
    have hkind := h.kind kind _ hserving
    cases hstep
    refine ⟨?_, h.written, ?_, ?_, ?_⟩
    . dsimp only
      rw [← List.append_assoc]
      rcases hkind with rfl | rfl
      . exact ⟨_, hlistening.subscribe channel _⟩
      . refine ⟨_, hlistening.unsubscribe channel _ ?_⟩
        exact hdrained channel channels connection hserving hlistening.serving
    . intro frame hmem
      rcases List.mem_append.mp hmem with hmem | hmem
      . exact h.pending frame hmem
      . exact ⟨_, _, _, List.mem_singleton.mp hmem⟩
    . intro hnone
      cases hnone
    . intro kind' channels' heq
      cases heq
      exact hkind
  . cases hstep

theorem windowed_receive (h : task.Windowed id) (hstep : task.step id .receive = some next)
    : next.Windowed id := by
  rcases h.listening with ⟨connection, hlistening⟩
  simp only [step] at hstep
  split at hstep
  . next found hserving hfound =>
    have hpending := h.idle hserving
    rw [hlistening.serving] at hfound
    cases hfound
    rw [Option.map_eq_some_iff] at hstep
    rcases hstep with ⟨⟨message, pubsub⟩, hrecv, rfl⟩
    rcases hlistening.receive hrecv with ⟨hmem, hreceived⟩
    rw [hpending, List.append_nil] at hreceived hlistening
    refine ⟨?_, ?_, h.pending, h.idle, h.kind⟩
    . dsimp only
      rw [hpending, List.append_nil]
      exact ⟨_, hreceived.push message⟩
    . apply inWindow_concat h.written
      intro pushed heq
      cases heq
      rcases hlistening.queued message hmem with ⟨channel, payload, rfl, hchannel⟩
      refine ⟨⟨channel, payload, rfl⟩, ?_⟩
      intro channel' payload' heq
      rw [← (message_inj heq).1]
      exact hlistening.opened channel hchannel
  . cases hstep

theorem step_windowed (h : task.Windowed id) {event : TaskEvent} (hdrained : task.Drained id event)
    (hstep : task.step id event = some next)
    : next.Windowed id := by
  cases event with
  | arrive tokens =>
    cases hstep
    exact ⟨h.listening, h.written, h.pending, h.idle, h.kind⟩
  | others event =>
    simp only [step] at hstep
    split at hstep
    . cases hstep
    . next hevent =>
      rw [Option.map_eq_some_iff] at hstep
      rcases hstep with ⟨hub, hhub, rfl⟩
      rcases h.listening with ⟨connection, hlistening⟩
      exact ⟨⟨connection, hlistening.others (by simpa using hevent) hhub⟩, h.written, h.pending,
        h.idle, h.kind⟩
  | serve envs => exact windowed_serve h hstep
  | channel => exact windowed_channel h hdrained hstep
  | reply =>
    simp only [step] at hstep
    split at hstep
    . cases hstep
      rcases h.listening with ⟨connection, hlistening⟩
      refine ⟨⟨connection, ?_⟩, inWindow_append_confirmations h.written h.pending, ?_, fun _ => rfl, ?_⟩
      . dsimp only
        rw [List.append_nil]
        exact hlistening
      . intro frame hmem
        cases hmem
      . intro kind channels heq
        cases heq
    . cases hstep
  | receive => exact windowed_receive h hstep

theorem run_windowed {events : List TaskEvent} (h : task.Windowed id)
    (hdrained : RunDrained id events task) (hrun : run id events task = some next)
    : next.Windowed id := by
  induction events generalizing task with
  | nil =>
    cases hrun
    exact h
  | cons event events ih =>
    rw [run, Option.bind_eq_some_iff] at hrun
    rcases hrun with ⟨between, hstep, hrun⟩
    exact ih (step_windowed h hdrained.1 hstep) (hdrained.2 between hstep) hrun

/--
If no message of a channel is still waiting whenever the channel is left, then whatever a connection
pushes to its client is a message of a channel the client is subscribed to, by the confirmations
written before it.
-/
theorem pushes_in_window {hub opened : Hub} (hreachable : hub.Reachable)
    (hopened : hub.step .connect = some opened) {events : List TaskEvent} {task : ConnectionTask}
    (hrun : run (Session.new hub.db).1.id events (new opened) = some task)
    (hdrained : RunDrained (Session.new hub.db).1.id events (new opened))
    : InWindow task.written := by
  have hconsistent := Hub.consistent_of_reachable hreachable
  have hnew : (new opened).Windowed (Session.new hub.db).1.id := by
    refine ⟨Hub.listening_new hconsistent hopened, inWindow_nil, ?_, fun _ => rfl, ?_⟩
    . intro frame hmem
      cases hmem
    . intro kind channels heq
      cases heq
  exact (run_windowed hnew hdrained hrun).written

theorem runDrained_cons {event : TaskEvent} {events : List TaskEvent}
    (hdrained : task.Drained id event) (hstep : task.step id event = some next)
    (h : RunDrained id events next)
    : RunDrained id (event :: events) task := by
  refine ⟨hdrained, ?_⟩
  intro found hfound
  rw [hstep] at hfound
  cases hfound
  exact h

theorem pushes_in_window_received
    : let env := envAt startOfClock
      let events : List TaskEvent :=
        [.arrive ["SUBSCRIBE", "news"], .serve fun _ => env, .channel, .reply,
          .others (.dispatch env ["PUBLISH", "news", "hello"]), .receive,
          .arrive ["UNSUBSCRIBE", "news"], .serve fun _ => env, .channel, .reply]
      ∃ opened task,
        (Hub.new (.new env.now)).step .connect = some opened ∧ run 0 events (new opened) = some task
          ∧ InWindow task.written := by
  intro env events
  have hreachable : (Hub.new (.new env.now)).Reachable := ⟨.new env.now, [], rfl, rfl⟩
  refine ⟨_, _, rfl, rfl, @pushes_in_window _ _ hreachable rfl events _ rfl ?_⟩
  refine runDrained_cons ⟨⟩ rfl ?_
  refine runDrained_cons ⟨⟩ rfl ?_
  refine runDrained_cons ?_ rfl ?_
  . intro channel channels connection hserving
    have hkind : "subscribe" = "unsubscribe" :=
      congrArg (fun request => (request.map Prod.fst).getD "") hserving
    exact absurd hkind (by decide)
  . refine runDrained_cons ⟨⟩ rfl ?_
    refine runDrained_cons ⟨⟩ rfl ?_
    refine runDrained_cons ⟨⟩ rfl ?_
    refine runDrained_cons ⟨⟩ rfl ?_
    refine runDrained_cons ⟨⟩ rfl ?_
    refine runDrained_cons ?_ rfl ?_
    . -- the mailbox is empty when the channel is left
      rintro channel channels connection - ⟨⟩ payload hmem
      cases hmem
    . refine runDrained_cons ⟨⟩ rfl ?_
      exact ⟨⟩

/--
A message that is published before the channel is left, and written after that.
-/
theorem push_after_unsubscribe
    : let env := envAt startOfClock
      let events : List TaskEvent :=
        [.arrive ["SUBSCRIBE", "news"], .serve fun _ => env, .channel, .reply,
          .others (.dispatch env ["PUBLISH", "news", "hello"]),
          .arrive ["UNSUBSCRIBE", "news"], .serve fun _ => env, .channel, .reply, .receive]
      ∃ opened task,
        (Hub.new (.new env.now)).step .connect = some opened ∧ run 0 events (new opened) = some task
          ∧ ¬ InWindow task.written := by
  intro env events
  refine ⟨_, _, rfl, rfl, ?_⟩
  intro h
  have hopened := (h
    [.confirmation "subscribe" "news" 1, .confirmation "unsubscribe" "news" 0]
    (PubSub.message "news" "hello") [] rfl).2 "news" "hello" rfl
  exact absurd hopened (by decide)

end ConnectionTask
end RedisClone
