import RedisClone.Machine.AppendOnly

/-!
This module contains what a loss of power takes from the clients of a server in append-only mode, under
each of the policies for the log.
-/

namespace RedisClone
namespace Machine

variable {json : SnapshotJson} {path : String} {disk : Disk} {events earlier later : List MachineEvent}
  {middle last : Machine} {answers : List ((Env × List String) × String)} {spec : Database}
  {running : Running} {inFlight : Env × List String} {image : List UInt8}

/--
Nothing that has reached stable storage leaves it.
-/
theorem refines_stable (json : SnapshotJson) (path : String) (base : List UInt8)
    : Linearize.Refines (system json) restless (AppendOnly path)
        (fun machine spec => Follows path machine spec ∧ base <+: machine.stable path)
        fun request reply reply' => FromKeyspace request.2 → reply = reply' := by
  apply (refines_restless json path).and fun _ => id
  intro self event next answer spec hevent h hbase hstep
  obtain ⟨-, hlog, -⟩ := h.step hevent hstep
  rcases hlog.stable with hstable | ⟨hstable, -⟩
  . rw [hstable]
    exact (hbase.trans h.stable).trans hlog.grows
  . rwa [hstable]

/--
Under `always` the whole log is on stable storage after each step.
-/
theorem refines_always (json : SnapshotJson) (path : String)
    : Linearize.Refines (system json) restless
        (fun event => AppendOnly path event ∧ StartsAlways event)
        (fun machine spec => Follows path machine spec
          ∧ machine.Always ∧ machine.stable path = machine.log path)
        fun request reply reply' => FromKeyspace request.2 → reply = reply' := by
  apply (refines_restless json path).and fun _ => And.left
  intro self event next answer spec hevent h hsynced hstep
  obtain ⟨-, hlog, -⟩ := h.step hevent.1 hstep
  refine ⟨hlog.always hevent.2 hsynced.1, ?_⟩
  rcases hlog.stable with hstable | ⟨hstable, hquiet⟩
  . exact hstable
  . rw [hstable, hquiet hsynced.1]
    exact hsynced.2

/--
After all of the log was on stable storage, a loss of power in the middle of a request undoes only
requests that came later.
-/
theorem Follows.survives (h : Follows path middle spec)
    (hsynced : middle.stable path = middle.log path)
    (hevents : ∀ event ∈ later, AppendOnly path event)
    (hrun : (system json).run later middle = some (last, answers))
    (hrunning : last.running = some running) (hinFlight : Loggable inFlight)
    (hstable : last.stable path <+: image)
    (himage : image <+: ((dispatch inFlight.1 inFlight.2 running.db).1.aof).getD [])
    : ∃ survived, survived <+: later.filterMap MachineEvent.clientRequest ++ [inFlight]
        ∧ ∀ (now : Instant) (envs : Nat → Env) (snapshotPath : Option String),
          (initAppendOnly now envs snapshotPath image).store
            = (restless.after survived spec).store := by
  have hrequests := (system json).map_fst_run _ clientRequest_of_step hrun
  have hbase : middle.log path <+: middle.stable path := by
    rw [hsynced]
  obtain ⟨⟨hlast, hkept⟩, -⟩ := (refines_stable json path _).run hevents ⟨h, hbase⟩ hrun
  rw [hrequests] at hlast
  obtain ⟨entries, hrecoverable⟩ := h.recoverable
  have hentries : middle.log path = logBytes entries := by
    exact Option.some.inj (h.aof.symm.trans hrecoverable.aof)
  have hloggable : ∀ request ∈ later.filterMap MachineEvent.clientRequest ++ [inFlight],
      Loggable request := by
    rw [List.forall_mem_append, List.forall_mem_singleton]
    refine ⟨?_, hinFlight⟩
    intro request hmem
    obtain ⟨event, hevent, hrequest⟩ := List.mem_filterMap.mp hmem
    have hallowed := hevents event hevent
    cases event with
    | request env tokens =>
      cases hrequest
      exact hallowed
    | _ => cases hrequest
  -- the log the request in flight would have led to
  obtain ⟨appended, hfinal⟩ := hrecoverable.after hloggable
  have hlog : ((dispatch inFlight.1 inFlight.2 running.db).1.aof).getD []
      = logBytes (entries ++ appended) := by
    have hagrees := (hlast.running running hrunning).agrees
    have haof := (dispatch_agrees inFlight.1 inFlight.2 hagrees).1.aof
    have hafter : (restless.after (later.filterMap MachineEvent.clientRequest ++ [inFlight]) spec).aof
        = (dispatch inFlight.1 inFlight.2 running.db).1.aof := by
      rw [haof, Linearize.Object.after_append]
      rfl
    rw [← hafter, hfinal.aof]
    rfl
  apply hrecoverable.survives hloggable hfinal.aof
  . rw [← hentries]
    exact hkept.trans hstable
  . rw [← hlog]
    exact himage

theorem Follows.stable_of_flush {now : Instant} {self next : Machine}
    {answer : Option ((Env × List String) × String)} (h : Follows path self spec)
    (hstep : Machine.step json self (.flush now) = some (next, answer))
    : next.stable path = next.log path := by
  rcases step_cases hstep with ⟨running, uptime, hrunning, -, -, hserve⟩ | ⟨-, config, now, envs, heq⟩
  . rw [Machine.serve, Option.ite_none_right_eq_some] at hserve
    cases hserve.2
    exact (h.running running hrunning).syncAof _ h.aof
  . cases heq

end Machine
end RedisClone
