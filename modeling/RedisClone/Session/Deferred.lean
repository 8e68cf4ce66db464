import RedisClone.Session

/-!
This module contains the proof that transactions are deferred, ordered and abort cleanly: between
`MULTI` and `EXEC` nothing happens, and `EXEC` does what dispatching the queued requests would have
done.
-/

namespace RedisClone

/--
The name of a request, which a blank line does not have.
-/
def requestName (tokens : List String) : Option String := tokens.head?.map toAsciiUppercase

/--
The requests that make an open transaction abort. A nested `MULTI` is refused without doing so, and a
blank line is not even answered.
-/
def aborts (tokens : List String) : Bool :=
  match requestName tokens with
  | none => false
  | some name =>
    if name == "MULTI" then
      false
    else
      name == "SUBSCRIBE" || name == "UNSUBSCRIBE" || (Command.parse tokens).toOption.isNone

/--
The requests that are held back until `EXEC`: those that would be dispatched.
-/
def isDeferred (tokens : List String) : Bool :=
  match requestName tokens with
  | none => false
  | some name => name != "MULTI" && !aborts tokens

def queuedReply : String := Resp.simpleString "QUEUED"

/--
The requests among the answered ones that were queued.
-/
def queuedRequests (answers : List (List String × String)) : List (List String) :=
  (answers.filter fun answer => answer.2 == queuedReply).map Prod.fst

namespace Session

/--
A connection serves requests one after the other, each in its own surroundings.
-/
def handleAll (envs : Nat → Env) (requests : List (List String)) (session : Session)
    (db : Database) : Session × Database × List (List String × String) :=
  match requests with
  | [] => (session, db, [])
  | tokens :: requests =>
    let (session, db, reply) := session.handle (fun _ => envs 0) tokens db
    let (session, db, answers) := handleAll (fun i => envs (i + 1)) requests session db
    (session, db, (tokens, reply) :: answers)

/--
Requests dispatched directly, one after the other, with their replies.
-/
def dispatchEach (envs : Nat → Env) (requests : List (List String)) (db : Database)
    : Database × List String :=
  match requests with
  | [] => (db, [])
  | tokens :: requests =>
    let (db, reply) := dispatch (envs 0) tokens db
    let (db, replies) := dispatchEach (fun i => envs (i + 1)) requests db
    (db, reply :: replies)

theorem dispatchAll_eq (envs : Nat → Env) (commands : List (List String)) (db : Database)
    (reply : String)
    : dispatchAll envs commands db reply
        =
      ((dispatchEach envs commands db).1,
        reply ++ String.join (dispatchEach envs commands db).2) := by
  induction commands generalizing envs db reply with
  | nil => simp [dispatchAll, dispatchEach]
  | cons command commands ih =>
    unfold dispatchAll dispatchEach
    dsimp only
    rw [ih, String.join_cons, String.append_assoc]

variable {session : Session} {db : Database} {tokens : List String} {envs : Nat → Env}

theorem error_ne_queuedReply (message : String) : Resp.error message ≠ queuedReply := by
  intro h
  have herror : Reply.isError (Resp.error message) = true := Reply.isError_error message
  rw [h] at herror
  simp [queuedReply] at herror

theorem queuedRequests_cons (tokens : List String) (reply : String)
    (answers : List (List String × String))
    : queuedRequests ((tokens, reply) :: answers)
        =
      (if reply = queuedReply then [tokens] else []) ++ queuedRequests answers := by
  unfold queuedRequests
  rw [List.filter_cons]
  by_cases h : reply = queuedReply
  . rw [if_pos h, if_pos (by simpa using h)]
    rfl
  . rw [if_neg h, if_neg (by simpa using h)]
    rfl

/--
What a request does to the transaction it falls into.
-/
structure Queues (transaction transaction' : Transaction) (tokens : List String) (reply : String)
    : Prop where
  commands : transaction'.commands
    = transaction.commands ++ if reply = queuedReply then [tokens] else []
  dirty : transaction'.dirty = (transaction.dirty || aborts tokens)
  deferred : reply = queuedReply ↔ isDeferred tokens = true

theorem queue_queues (session : Session) (transaction : Transaction) {name : String}
    (args : List String) (hmulti : toAsciiUppercase name ≠ "MULTI")
    : ∃ transaction',
        (session.queue (toAsciiUppercase name) (name :: args) transaction).1
          = { session with transaction := some transaction' }
        ∧ Queues transaction transaction' (name :: args)
            (session.queue (toAsciiUppercase name) (name :: args) transaction).2 := by
  have haborts : aborts (name :: args) = (toAsciiUppercase name == "SUBSCRIBE"
      || toAsciiUppercase name == "UNSUBSCRIBE"
      || (Command.parse (name :: args)).toOption.isNone) := by
    unfold aborts requestName
    rw [List.head?_cons, Option.map_some]
    dsimp only
    rw [if_neg (by simpa using hmulti)]
  have hdeferred : isDeferred (name :: args) = !aborts (name :: args) := by
    unfold isDeferred requestName
    rw [List.head?_cons, Option.map_some]
    simp [hmulti]
  unfold queue
  by_cases hsubscribe : (toAsciiUppercase name == "SUBSCRIBE"
      || toAsciiUppercase name == "UNSUBSCRIBE") = true
  . rw [if_pos hsubscribe]
    refine ⟨transaction.markDirty, rfl, ?_, ?_, ?_⟩
    . rw [if_neg (error_ne_queuedReply _)]
      exact (List.append_nil _).symm
    . rw [haborts, hsubscribe, Bool.true_or, Bool.or_true]
      rfl
    . rw [hdeferred, haborts, hsubscribe]
      exact iff_of_false (error_ne_queuedReply _) (by simp)
  . rw [if_neg hsubscribe]
    rw [Bool.not_eq_true] at hsubscribe
    rw [hsubscribe, Bool.false_or] at haborts
    split
    . next command hparse =>
      have haborts : aborts (name :: args) = false := by
        rw [haborts, hparse]
        rfl
      refine ⟨transaction.push (name :: args) command hparse, rfl, ?_, ?_, ?_⟩
      . have hqueued : Resp.simpleString "QUEUED" = queuedReply := rfl
        dsimp only
        rw [if_pos hqueued]
        rfl
      . rw [haborts]
        exact (Bool.or_false _).symm
      . rw [hdeferred, haborts]
        exact iff_of_true rfl rfl
    . next error hparse =>
      have haborts : aborts (name :: args) = true := by
        rw [haborts, hparse]
        rfl
      refine ⟨transaction.markDirty, rfl, ?_, ?_, ?_⟩
      . rw [if_neg (error_ne_queuedReply _)]
        exact (List.append_nil _).symm
      . rw [haborts]
        exact (Bool.or_true _).symm
      . rw [hdeferred, haborts]
        exact iff_of_false (error_ne_queuedReply _) (by simp)

/--
A request inside of a transaction, other than `EXEC` and `DISCARD`, touches nothing but the
transaction.
-/
theorem handle_queues (envs : Nat → Env) (db : Database) {transaction : Transaction}
    (hsubscribed : session.isSubscribed = false)
    (htransaction : session.transaction = some transaction)
    (hexec : requestName tokens ≠ some "EXEC") (hdiscard : requestName tokens ≠ some "DISCARD")
    : ∃ transaction' reply,
        session.handle envs tokens db
          = ({ session with transaction := some transaction' }, db, reply)
        ∧ Queues transaction transaction' tokens reply := by
  have hsession : { session with transaction := some transaction } = session := by
    rw [← htransaction]
  cases tokens with
  | nil =>
    refine ⟨transaction, "", ?_, ?_, ?_, ?_⟩
    . rw [hsession]
      rfl
    . rw [if_neg (by decide)]
      exact (List.append_nil _).symm
    . exact (Bool.or_false _).symm
    . exact iff_of_false (by decide) Bool.false_ne_true
  | cons name args =>
    simp only [requestName, List.head?_cons, Option.map_some, ne_eq, Option.some.injEq]
      at hexec hdiscard
    unfold handle
    dsimp only
    rw [hsubscribed, Bool.false_and, if_neg Bool.false_ne_true]
    by_cases hmulti : toAsciiUppercase name = "MULTI"
    . refine ⟨transaction, Resp.error "ERR MULTI calls can not be nested", ?_, ?_, ?_, ?_⟩
      . rw [if_pos (by simpa using hmulti)]
        unfold beginMulti
        rw [if_pos (by rw [htransaction]; rfl), hsession]
      . rw [if_neg (error_ne_queuedReply _)]
        exact (List.append_nil _).symm
      . unfold aborts requestName
        rw [List.head?_cons, Option.map_some]
        dsimp only
        rw [if_pos (by simpa using hmulti)]
        exact (Bool.or_false _).symm
      . unfold isDeferred requestName
        rw [List.head?_cons, Option.map_some]
        exact iff_of_false (error_ne_queuedReply _) (by simp [hmulti])
    . rcases queue_queues session transaction args hmulti with ⟨transaction', hqueue, hqueues⟩
      refine ⟨transaction', _, ?_, hqueues⟩
      rw [if_neg (by simpa using hmulti), if_neg (by simpa using hexec),
        if_neg (by simpa using hdiscard), htransaction]
      dsimp only
      rw [hqueue]

theorem handleAll_queues (envs : Nat → Env) (requests : List (List String)) (session : Session)
    (db : Database) (transaction : Transaction) (hsubscribed : session.isSubscribed = false)
    (htransaction : session.transaction = some transaction)
    (hexec : ∀ tokens ∈ requests, requestName tokens ≠ some "EXEC")
    (hdiscard : ∀ tokens ∈ requests, requestName tokens ≠ some "DISCARD")
    : ∃ transaction' answers,
        session.handleAll envs requests db
          = ({ session with transaction := some transaction' }, db, answers)
        ∧ transaction'.commands = transaction.commands ++ queuedRequests answers
        ∧ transaction'.dirty = (transaction.dirty || requests.any aborts)
        ∧ answers.map Prod.fst = requests
        ∧ queuedRequests answers = requests.filter isDeferred := by
  induction requests generalizing session transaction envs with
  | nil =>
    refine ⟨transaction, [], ?_, ?_, ?_, rfl, rfl⟩
    . rw [← htransaction]
      rfl
    . exact (List.append_nil _).symm
    . exact (Bool.or_false _).symm
  | cons tokens requests ih =>
    have hmem : tokens ∈ tokens :: requests := List.mem_cons_self
    rcases handle_queues (fun _ => envs 0) db hsubscribed htransaction (hexec tokens hmem)
      (hdiscard tokens hmem) with ⟨middle, reply, hhandle, hqueues⟩
    rcases ih (fun i => envs (i + 1)) { session with transaction := some middle } middle
      hsubscribed rfl
      (fun other h => hexec other (List.mem_cons_of_mem _ h))
      (fun other h => hdiscard other (List.mem_cons_of_mem _ h))
      with ⟨transaction', answers, hrest, hcommands, hdirty, hanswered, hqueued⟩
    refine ⟨transaction', (tokens, reply) :: answers, ?_, ?_, ?_, ?_, ?_⟩
    . unfold handleAll
      rw [hhandle]
      dsimp only
      rw [hrest]
    . rw [hcommands, hqueues.commands, queuedRequests_cons, List.append_assoc]
    . rw [hdirty, hqueues.dirty, List.any_cons, Bool.or_assoc]
    . rw [List.map_cons, hanswered]
    . rw [queuedRequests_cons, hqueued, List.filter_cons]
      simp only [hqueues.deferred]
      split <;> rfl

theorem handle_of_not_subscribed (envs : Nat → Env) (name : String) (args : List String)
    (db : Database) (hsubscribed : session.isSubscribed = false)
    : session.handle envs (name :: args) db
        =
      if toAsciiUppercase name == "MULTI" then
        (session.beginMulti.1, db, session.beginMulti.2)
      else if toAsciiUppercase name == "EXEC" then
        session.exec envs db
      else if toAsciiUppercase name == "DISCARD" then
        (session.discard.1, db, session.discard.2)
      else
        match session.transaction with
        | some transaction =>
          ((session.queue (toAsciiUppercase name) (name :: args) transaction).1, db,
            (session.queue (toAsciiUppercase name) (name :: args) transaction).2)
        | none =>
          if toAsciiUppercase name == "SUBSCRIBE" then
            session.subscribe args db
          else if toAsciiUppercase name == "UNSUBSCRIBE" then
            session.unsubscribe (envs 0) args db
          else
            (session, dispatch (envs 0) (name :: args) db) := by
  unfold handle
  dsimp only
  rw [hsubscribed, Bool.false_and]
  exact if_neg Bool.false_ne_true

theorem exists_of_requestName {name : String} (h : requestName tokens = some name)
    : ∃ first args, tokens = first :: args ∧ toAsciiUppercase first = name := by
  cases tokens with
  | nil => cases h
  | cons first args =>
    rw [requestName, List.head?_cons, Option.map_some, Option.some.injEq] at h
    exact ⟨first, args, rfl, h⟩

theorem handle_multi (envs : Nat → Env) (db : Database) (hmulti : requestName tokens = some "MULTI")
    (hsubscribed : session.isSubscribed = false) (htransaction : session.transaction = none)
    : session.handle envs tokens db
        =
      ({ session with transaction := some .new }, db, Resp.simpleString "OK") := by
  rcases exists_of_requestName hmulti with ⟨first, args, rfl, hname⟩
  rw [handle_of_not_subscribed envs first args db hsubscribed, hname, if_pos (by rfl)]
  unfold beginMulti
  rw [htransaction]
  rfl

theorem handle_discard (envs : Nat → Env) (db : Database) {transaction : Transaction}
    (hdiscard : requestName tokens = some "DISCARD") (hsubscribed : session.isSubscribed = false)
    (htransaction : session.transaction = some transaction)
    : session.handle envs tokens db
        =
      ({ session with transaction := none }, db, Resp.simpleString "OK") := by
  rcases exists_of_requestName hdiscard with ⟨first, args, rfl, hname⟩
  rw [handle_of_not_subscribed envs first args db hsubscribed, hname, if_neg (by decide),
    if_neg (by decide), if_pos (by rfl)]
  unfold discard
  rw [htransaction]

theorem handle_exec (envs : Nat → Env) (db : Database) {transaction : Transaction}
    (hexec : requestName tokens = some "EXEC") (hsubscribed : session.isSubscribed = false)
    (htransaction : session.transaction = some transaction)
    : session.handle envs tokens db
        =
      if transaction.dirty then
        ({ session with transaction := none }, db,
          Resp.error "EXECABORT Transaction discarded because of previous errors.")
      else
        ({ session with transaction := none }, (dispatchEach envs transaction.commands db).1,
          Resp.header transaction.commands.length
            ++ String.join (dispatchEach envs transaction.commands db).2) := by
  rcases exists_of_requestName hexec with ⟨first, args, rfl, hname⟩
  rw [handle_of_not_subscribed envs first args db hsubscribed, hname, if_neg (by decide),
    if_pos (by rfl)]
  unfold exec
  rw [htransaction]
  dsimp only
  rw [dispatchAll_eq]

end Session

/--
Nothing happens between `MULTI` and the end of the transaction, and every request that is neither blank nor
refused is queued. `DISCARD` then changes nothing either, nor does `EXEC` if a request made the transaction
abort. Otherwise `EXEC` does what dispatching the queued requests does, and replies with the array of their
replies. Both close the transaction.
-/
theorem transaction_deferred (session : Session) (db : Database)
    (hsubscribed : session.isSubscribed = false) (htransaction : session.transaction = none)
    (multi : List String) (hmulti : requestName multi = some "MULTI")
    (requests : List (List String))
    (hexec : ∀ tokens ∈ requests, requestName tokens ≠ some "EXEC")
    (hdiscard : ∀ tokens ∈ requests, requestName tokens ≠ some "DISCARD")
    (multiEnvs envs : Nat → Env)
    : let opened := session.handle multiEnvs multi db
      let queueing := opened.1.handleAll envs requests opened.2.1
      let queued := queuedRequests queueing.2.2
      opened.2 = (db, Resp.simpleString "OK") ∧ queueing.2.1 = db
        ∧ queueing.2.2.map Prod.fst = requests ∧ queued = requests.filter isDeferred
        ∧ (∀ discard discardEnvs, requestName discard = some "DISCARD" →
            queueing.1.handle discardEnvs discard queueing.2.1
              = (session, db, Resp.simpleString "OK"))
        ∧ (∀ exec execEnvs, requestName exec = some "EXEC" →
            queueing.1.handle execEnvs exec queueing.2.1
              = if requests.any aborts then
                  (session, db,
                    Resp.error "EXECABORT Transaction discarded because of previous errors.")
                else
                  (session, (Session.dispatchEach execEnvs queued db).1,
                    Resp.header queued.length
                      ++ String.join (Session.dispatchEach execEnvs queued db).2)) := by
  intro opened queueing queued
  have hopened : opened = ({ session with transaction := some .new }, db, Resp.simpleString "OK") :=
    Session.handle_multi multiEnvs db hmulti hsubscribed htransaction
  rcases Session.handleAll_queues envs requests { session with transaction := some .new } db .new
    hsubscribed rfl hexec hdiscard
    with ⟨transaction, answers, hqueueing, hcommands, hdirty, hanswered, hqueued⟩
  have hqueueing : queueing
      = ({ session with transaction := some transaction }, db, answers) := by
    simp only [queueing, hopened]
    exact hqueueing
  have hopen : { session with transaction := some transaction }.isSubscribed = false := hsubscribed
  have hclosed : { session with transaction := none } = session := by
    rw [← htransaction]
  have hcommands : transaction.commands = queued := by
    simp only [queued, hqueueing]
    exact hcommands
  have hdirty : transaction.dirty = requests.any aborts := hdirty
  have hqueued : queued = requests.filter isDeferred := by
    simp only [queued, hqueueing]
    exact hqueued
  rw [hopened, hqueueing]
  refine ⟨rfl, rfl, hanswered, hqueued, ?_, ?_⟩
  . intro discard discardEnvs hdiscard
    refine (Session.handle_discard discardEnvs db hdiscard hopen rfl).trans ?_
    dsimp only
    rw [hclosed]
  . intro exec execEnvs hexec
    refine (Session.handle_exec execEnvs db hexec hopen rfl).trans ?_
    dsimp only
    rw [hcommands, hdirty, hclosed]

/--
A transaction with a request that fails at run time, a nested `MULTI` and a blank line: the three requests
that are queued, and their replies.
-/
theorem transaction_deferred_runtime_error
    : let envs := fun _ : Nat => envAt startOfClock
      let db := Database.withPersistence startOfClock none (some [])
      let session := (Session.new db).1
      let requests := [["SET", "k", "v"], ["multi"], [], ["INCR", "k"], ["GET", "k"]]
      let queueing := (session.handle envs ["MULTI"] db).1.handleAll envs requests db
      let queued := [["SET", "k", "v"], ["INCR", "k"], ["GET", "k"]]
      queueing.2.1 = db ∧ queuedRequests queueing.2.2 = queued
        ∧ queueing.1.handle envs ["exec"] queueing.2.1
          = (session, (Session.dispatchEach envs queued db).1,
            "*3\r\n+OK\r\n-ERR value is not an integer or out of range\r\n$1\r\nv\r\n") := by
  intro envs db session requests queueing queued
  obtain ⟨-, hunchanged, -, hqueued, -, hexec⟩ := transaction_deferred session db rfl rfl ["MULTI"]
    (by decide) requests (by decide) (by decide) envs envs
  have hdeferred : requests.filter isDeferred = queued := by
    decide
  have hreplies : Resp.header queued.length ++ String.join (Session.dispatchEach envs queued db).2
      = "*3\r\n+OK\r\n-ERR value is not an integer or out of range\r\n$1\r\nv\r\n" := by
    decide
  have hreply := hexec ["exec"] envs (by decide)
  rw [hqueued, hdeferred, hreplies, if_neg (by decide)] at hreply
  exact ⟨hunchanged, hqueued.trans hdeferred, hreply⟩

end RedisClone
