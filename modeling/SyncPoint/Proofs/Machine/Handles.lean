import SyncPoint.Proofs.Machine.Atomic
import SyncPoint.Proofs.Machine.Awaiting

/-!
# Handles in use

A thread hands commands over only to queues of which it has a handle: those that its call names, and
those that an answer hands out (`Within`).  As the last handle of a queue is not dropped while a call
uses it, the queue that a thread enqueues on is there (`Machine.handles_of_marker`).
-/

namespace SyncPoint.Host

variable {α β : Type}

/-- The queue that a request hands a command over to. -/
def Request.target? : Request → Option QueueRef
  | .engine (.enqueueMarker q _) => some q
  | _ => none

/-- Along all answers, the program enqueues only on these queues and on those that it is handed. -/
def Within : Program α → List QueueRef → Prop
  | .done _, _ => True
  | .ask request next, queues => (∀ q ∈ Request.target? request, q ∈ queues) ∧
      ∀ answer, Within (next answer) (queues ++ handlesIn request answer)

/-! ## Programs -/

section Programs

variable {queues queues' : List QueueRef} {q : QueueRef}

theorem Within.mono {program : Program α} (h : Within program queues) (hsub : queues ⊆ queues') :
    Within program queues' := by
  induction program generalizing queues queues' with
  | done value => trivial
  | ask request next ih =>
    refine ⟨fun q hq => hsub (h.1 q hq), fun answer => ih answer (h.2 answer) ?_⟩
    exact List.append_subset.2 ⟨List.subset_append_of_subset_left _ hsub,
      List.subset_append_right _ _⟩

theorem Within.andThen {program : Program β} {next : β → Program α} (h : Within program queues)
    (hnext : ∀ value, Within (next value) queues) : Within (program.andThen next) queues := by
  induction program generalizing queues with
  | done value => exact hnext value
  | ask request rest ih =>
    refine ⟨h.1, fun answer => ih answer (h.2 answer) fun value => ?_⟩
    exact (hnext value).mono (List.subset_append_left _ _)

/-- A program that changes nothing enqueues nothing. -/
theorem Quiet.within {program : Program α} (h : Quiet program) (queues : List QueueRef) :
    Within program queues := by
  induction program generalizing queues with
  | done value => trivial
  | ask request next ih =>
    refine ⟨fun q hq => ?_, fun answer => ?_⟩
    · unfold Request.target? at hq
      split at hq
      next => exact absurd ⟨0, rfl⟩ (h (.ok 0)).1
      next => cases hq
    · exact ih answer (h answer).2 _

theorem within_request_andThen {request : Request} {next : request.Answer → Program α}
    (hrequest : Request.target? request = none) (hnext : ∀ answer, Within (next answer) queues) :
    Within ((Program.request request).andThen next) queues := by
  refine ⟨?_, fun answer => (hnext answer).mono (List.subset_append_left _ _)⟩
  rw [hrequest]
  exact nofun

section Operations

variable {operation : Operation β} {next : β → Operation α}

theorem within_bind (h : Within operation.run queues)
    (hnext : ∀ value, Within (next value).run queues) :
    Within (operation >>= next).run queues := by
  refine Within.andThen h fun result => ?_
  cases result with
  | error failure => trivial
  | ok value => exact hnext value

theorem Within.lift {program : Program α} (h : Within program queues) :
    Within (liftM program : Operation α).run queues :=
  h.andThen fun _ => trivial

theorem within_bind_request {request : Request} {next : request.Answer → Operation α}
    (hrequest : Request.target? request = none)
    (hnext : ∀ answer, Within (next answer).run queues) :
    Within ((liftM (Program.request request) : Operation request.Answer) >>= next).run queues :=
  within_request_andThen hrequest hnext

theorem within_marker (hq : q ∈ queues) (request : MarkerRequest CommandRef) :
    Within (ExceptT.mk (Program.engine (.enqueueMarker q request)) : Operation CommandRef).run
      queues := by
  refine ⟨?_, fun _ => trivial⟩
  rintro _ ⟨⟩
  exact hq

theorem within_log (entry : LogEntry) :
    Within (liftM (Program.log entry) : Operation Unit).run queues :=
  within_request_andThen rfl fun _ => trivial

end Operations

namespace Event

theorem within_locking (event : Event) {body : Program α} (h : Within body queues) :
    Within (event.locking body) queues := by
  refine within_request_andThen rfl fun _ => h.andThen fun _ => ?_
  exact within_request_andThen rfl fun _ => trivial

theorem within_currentPosition (hq : q ∈ queues) :
    Within (Event.currentPosition q).run queues := by
  refine within_bind_request rfl fun profiling => ?_
  split
  · exact within_marker hq _
  · refine within_bind_request rfl fun last => ?_
    split
    · exact within_marker hq _
    · refine within_bind_request rfl fun visible => ?_
      split
      · trivial
      · exact within_marker hq _

theorem within_choosePosition (hq : q ∈ queues) (command : Option CommandRef) :
    Within (Event.choosePosition q command).run queues := by
  cases command with
  | none => exact within_currentPosition hq
  | some c =>
    refine within_bind_request rfl fun owner => ?_
    refine within_bind_request rfl fun target => ?_
    split <;> trivial

theorem within_addMarker (hq : q ∈ queues) (event : Event) (command : Option CommandRef)
    (recorded : Bool) : Within (event.addMarker q command recorded).run queues := by
  apply within_locking
  refine within_bind (within_choosePosition hq command) fun position => ?_
  refine within_bind_request rfl fun current => ?_
  refine within_bind_request rfl fun target => ?_
  split
  · exact within_log _
  · exact within_bind_request rfl fun _ => within_log _

theorem within_streamWait (hq : q ∈ queues) (event : Event) :
    Within (event.streamWait q).run queues := by
  apply within_locking
  refine within_bind_request rfl fun binding => ?_
  split
  · trivial
  · refine within_bind_request rfl fun owner => ?_
    refine within_bind_request rfl fun target => ?_
    split
    · trivial
    · refine within_bind_request rfl fun able => ?_
      split
      · trivial
      · refine within_bind_request rfl fun profiling => ?_
        exact within_bind (within_marker hq _) fun _ => within_log _

theorem within_position? (event : Event) : Within event.position? queues :=
  within_locking event (within_request_andThen rfl fun _ => trivial)

theorem within_query (event : Event) : Within event.query queues := by
  apply within_locking
  refine within_request_andThen rfl fun binding => ?_
  split
  · trivial
  · exact ((quiet_isReady _).within queues).andThen fun _ => trivial

theorem within_synchronize (event : Event) : Within event.synchronize queues := by
  refine (within_position? event).andThen fun position => ?_
  split
  · trivial
  · exact within_request_andThen rfl fun _ => trivial

/-- The marker that a measurement enqueues goes to the queue that it has been handed. -/
theorem within_freshMarkerEnd (event : Event) (position : CommandRef) :
    Within (event.freshMarkerEnd position).run queues := by
  refine ⟨nofun, fun owner => ?_⟩
  cases owner with
  | none => trivial
  | some q =>
    have hq : q ∈ queues ++ handlesIn (.engine (.owner position)) (some q) :=
      List.mem_append_right _ List.mem_cons_self
    refine within_bind_request rfl fun id => ?_
    refine within_bind_request rfl fun _ => ?_
    refine within_bind_request rfl fun profiling => ?_
    refine within_bind (within_marker hq _) fun marker => ?_
    refine within_bind_request rfl fun _ => ?_
    exact within_bind ((quiet_timestampsOf marker).within _) fun _ => trivial

theorem within_nanosBetween (start : Event) (first second : Bool) (p r : CommandRef) :
    Within (start.nanosBetween first second p r).run queues := by
  refine within_bind ((quiet_timestampsOf p).within queues) fun times => ?_
  split
  · exact within_bind ((quiet_timestampsOf r).within queues) fun _ => trivial
  · split
    · exact within_bind (within_freshMarkerEnd start p) fun _ => trivial
    · exact within_bind ((quiet_timestampsOf r).within queues) fun _ => trivial

theorem within_guardingBoth (start stop : Event) {operation : Operation α}
    (h : Within operation.run queues) :
    Within (Event.guardingBoth start stop operation).run queues := by
  unfold Event.guardingBoth
  split
  · exact within_locking start (within_locking stop h)
  · exact within_locking stop (within_locking start h)

theorem within_nanosToSelf (event : Event) : Within event.nanosToSelf.run queues := by
  apply within_locking
  refine within_bind_request rfl fun binding => ?_
  split
  · trivial
  · split
    · trivial
    · refine within_bind ((quiet_isReady _).within queues).lift fun ready => ?_
      split <;> trivial

theorem within_nanosToOther (start stop : Event) :
    Within (Event.nanosToOther start stop).run queues := by
  apply within_guardingBoth
  refine within_bind_request rfl fun first => ?_
  refine within_bind_request rfl fun second => ?_
  split
  · split
    · trivial
    · refine within_bind ((quiet_isReady _).within queues).lift fun ready => ?_
      split
      · trivial
      · refine within_bind ((quiet_isReady _).within queues).lift fun ready' => ?_
        split
        · trivial
        · exact within_nanosBetween start _ _ _ _
  · trivial

theorem within_elapsedTime (start stop : Event) :
    Within (start.elapsedTime stop).run queues := by
  refine within_bind ?_ fun _ => trivial
  unfold Event.elapsedNanos
  split
  · exact within_nanosToSelf start
  · exact within_nanosToOther start stop

end Event

namespace Table

theorem within_create (table : TableRef) (raw : UInt32) :
    Within (Table.create table raw).run queues := by
  have hcheck : Within (Operation.check (EventFlags.ofRaw raw)).run queues := trivial
  refine within_bind hcheck fun flags => ?_
  refine within_bind ((quiet_create flags).within queues) fun event => ?_
  refine within_bind_request rfl fun handle => ?_
  split
  · trivial
  · exact within_bind_request rfl fun _ => trivial

theorem within_destroy (table : TableRef) (handle : EventHandle) :
    Within (Table.destroy table handle).run queues := by
  refine within_bind_request rfl fun found => ?_
  split
  · exact within_log _
  · trivial

theorem within_get (table : TableRef) (handle : EventHandle) :
    Within (Table.get table handle).run queues :=
  (quiet_get table handle).within queues

theorem within_record (hq : q ∈ queues) (table : TableRef) (handle : EventHandle) :
    Within (Table.record table handle q).run queues := by
  refine within_bind_request rfl fun target => ?_
  refine within_bind_request rfl fun _ => ?_
  exact within_bind (within_get table handle) fun event => Event.within_addMarker hq event none true

theorem within_query (table : TableRef) (handle : EventHandle) :
    Within (Table.query table handle).run queues :=
  within_bind (within_get table handle) fun event => (Event.within_query event).lift

theorem within_synchronize (table : TableRef) (handle : EventHandle) :
    Within (Table.synchronize table handle).run queues := by
  refine within_bind_request rfl fun _ => ?_
  exact within_bind (within_get table handle) fun event => (Event.within_synchronize event).lift

theorem within_streamWait (hq : q ∈ queues) (table : TableRef) (handle : EventHandle) :
    Within (Table.streamWait table handle q).run queues := by
  refine within_bind_request rfl fun target => ?_
  refine within_bind_request rfl fun _ => ?_
  exact within_bind (within_get table handle) fun event => Event.within_streamWait hq event

theorem within_elapsedTime (table : TableRef) (start stop : EventHandle) :
    Within (Table.elapsedTime table start stop).run queues := by
  refine within_bind (within_get table start) fun startEvent => ?_
  refine within_bind (within_get table stop) fun stopEvent => ?_
  refine within_bind (Event.within_elapsedTime startEvent stopEvent) fun millis => ?_
  exact within_bind_request rfl fun _ => trivial

end Table

/-- A call enqueues only on queues that it names or that it is handed. -/
theorem Call.within_enter (call : Call) (system : System World) :
    Within (call.enter system).1 call.queues := by
  cases call with
  | newQueue | cloneQueue | dropQueue | setPaused | shutdown | enqueueWork | enqueueMarker
  | newTable => trivial
  | finish q => exact (quiet_awaitBarrier _).within _
  | await c => exact within_request_andThen rfl fun _ => trivial
  | newEvent flags => exact (Table.quiet_create flags).within _
  | addMarker event q command recorded =>
    exact Event.within_addMarker List.mem_cons_self event command recorded
  | isRecorded event =>
    exact Event.within_locking event (within_request_andThen rfl fun _ => trivial)
  | position? event => exact Event.within_position? event
  | display | tableSize | tableIsEmpty => exact within_request_andThen rfl fun _ => trivial
  | query event => exact Event.within_query event
  | synchronize event => exact Event.within_synchronize event
  | streamWait event q => exact Event.within_streamWait List.mem_cons_self event
  | elapsedTime start stop => exact Event.within_elapsedTime start stop
  | tableCreate table raw => exact Table.within_create table raw
  | tableCreateDefault table => exact Table.within_create table EventFlags.empty.bits
  | tableDestroy table handle => exact Table.within_destroy table handle
  | tableGet table handle => exact Table.within_get table handle
  | tableRecord table handle q => exact Table.within_record List.mem_cons_self table handle
  | tableQuery table handle => exact Table.within_query table handle
  | tableSynchronize table handle => exact Table.within_synchronize table handle
  | tableStreamWait table handle q => exact Table.within_streamWait List.mem_cons_self table handle
  | tableElapsedTime table start stop => exact Table.within_elapsedTime table start stop

end Programs

/-! ## Machines -/

namespace Machine

variable {s s' : Machine} {t : ThreadId} {q : QueueRef}

/-- What is left of a call enqueues only on queues of which it has a handle in use. -/
theorem within_of_reachable (hs : s.Reachable) {task : Task} (htask : s.tasks t = some task) :
    Within task.rest task.queues :=
  task_of_reachable (fun task => Within task.rest task.queues)
    (fun call system => call.within_enter system)
    (fun _ _ _ _ answer hwithin => hwithin.2 answer) hs htask

end Machine

/-- What the beginning of a call does to the handles of the queue `q`, and to whether it takes
commands. -/
structure Queue.Called (call : Call) (q : QueueRef) (before after : Queue) : Prop where
  handles_le : call ≠ .cloneQueue q → after.handles ≤ before.handles
  le_handles : call ≠ .dropQueue q → before.handles ≤ after.handles
  le_succ_handles : before.handles ≤ after.handles + 1
  accepting : after.accepting = true → before.accepting = true ∧ call ≠ .shutdown q

namespace Call

variable {call : Call} {q r : QueueRef} {w w' : World}

theorem called_of_same (hcall : call ≠ .shutdown q)
    (hhandles : (w'.queue q).handles = (w.queue q).handles)
    (haccepting : (w'.queue q).accepting = (w.queue q).accepting) :
    Queue.Called call q (w.queue q) (w'.queue q) where
  handles_le _ := Nat.le_of_eq hhandles
  le_handles _ := Nat.le_of_eq hhandles.symm
  le_succ_handles := Nat.le_succ_of_le (Nat.le_of_eq hhandles.symm)
  accepting h := ⟨haccepting ▸ h, hcall⟩

theorem called_setQueue {queue : Queue} (hq : q < w.queues.length)
    (hother : q ≠ r → call ≠ .shutdown q)
    (hself : q = r → Queue.Called call q (w.queue q) queue) :
    Queue.Called call q (w.queue q) ((w.setQueue r queue).queue q) := by
  by_cases hr : q = r
  · subst r
    rw [w.queue_setQueue_self hq]
    exact hself rfl
  · have hsame := w.queue_setQueue_of_ne hr queue
    exact called_of_same (hother hr) (by rw [hsame]) (by rw [hsame])

theorem called_enter (system : System World) (call : Call)
    (hq : q < system.engine.queues.length) :
    Queue.Called call q (system.engine.queue q) ((call.enter system).2.engine.queue q) := by
  have hsubmit : ∀ command, call ≠ .shutdown q → Queue.Called call q (system.engine.queue q)
      ((system.engine.submit command).state.queue q) := by
    intro command hcall
    obtain ⟨hhandles, haccepting, -⟩ := World.SameSettings.submit system.engine command q
    exact called_of_same hcall hhandles haccepting
  cases call with
  | newQueue config =>
    have hsame := system.engine.queue_addQueue_of_lt config hq
    exact called_of_same nofun (congrArg Queue.handles hsame) (congrArg Queue.accepting hsame)
  | cloneQueue r =>
    refine called_setQueue hq (fun _ => nofun) ?_
    rintro rfl
    exact ⟨fun hcall => absurd rfl hcall, fun _ => Nat.le_succ _, Nat.le_add_right_of_le
      (Nat.le_succ _), fun h => ⟨h, nofun⟩⟩
  | dropQueue r =>
    refine called_setQueue hq (fun _ => nofun) ?_
    rintro rfl
    exact ⟨fun _ => Nat.sub_le _ _, fun hcall => absurd rfl hcall, Nat.le_add_of_sub_le
      (Nat.le_refl _), fun h => ⟨h, nofun⟩⟩
  | setPaused r paused =>
    refine called_setQueue hq (fun _ => nofun) ?_
    rintro rfl
    exact ⟨fun _ => Nat.le_refl _, fun _ => Nat.le_refl _, Nat.le_succ _, fun h => ⟨h, nofun⟩⟩
  | shutdown r =>
    refine called_setQueue hq (fun hr heq => ?_) ?_
    · cases heq
      exact hr rfl
    · rintro rfl
      exact ⟨fun _ => Nat.le_refl _, fun _ => Nat.le_refl _, Nat.le_succ _, nofun⟩
  | enqueueWork r work => exact hsubmit _ nofun
  | enqueueMarker r request => exact hsubmit _ nofun
  | finish r => exact hsubmit _ nofun
  | _ => exact called_of_same nofun rfl rfl

end Call

/-- A queue that is handed out is there. -/
theorem Serves.handles_of_owner {t : ThreadId} {a b : System World} {c : CommandRef} {q : QueueRef}
    (h : Serves t a (.engine (.owner c)) (some q) b) : 0 < (a.engine.queue q).handles := by
  obtain ⟨answer, hanswer⟩ : ∃ answer, answer = some q := ⟨_, rfl⟩
  rw [← hanswer] at h
  cases h with
  | engine hserve =>
    cases hserve
    split at hanswer
    next hpositive =>
      cases hanswer
      exact hpositive
    next => cases hanswer

/-- The queue of which a step makes a handle. -/
def Happening.cloned? : Happening → Option QueueRef
  | .enter _ (.cloneQueue q) => some q
  | _ => none

/-- The queue of which a step drops a handle. -/
def Happening.dropped? : Happening → Option QueueRef
  | .enter _ (.dropQueue q) => some q
  | _ => none

theorem World.handles_setQueue (w : World) {q : QueueRef} (hq : q < w.queues.length) (r : QueueRef)
    (queue : Queue) : ((w.setQueue r queue).queue q).handles =
      if r = q then queue.handles else (w.queue q).handles := by
  split
  next hr => rw [hr, w.queue_setQueue_self hq]
  next hr => rw [w.queue_setQueue_of_ne (Ne.symm hr)]

namespace Machine

variable {s s' : Machine} {t : ThreadId} {l : Happening} {h : History} {q : QueueRef}

/-- A step changes how many handles there are by the one that it makes or drops. -/
theorem Step.handles_eq (hstep : Step s l s') (hq : q < s.world.queues.length) :
    (s'.world.queue q).handles + l.dropped?.toList.count q =
      (s.world.queue q).handles + l.cloned?.toList.count q := by
  by_cases hcall : ∃ t call, l = .enter t call
  case neg =>
    rw [(hstep.same_settings (fun t call heq => hcall ⟨t, call, heq⟩) q).1]
    cases hstep with
    | worker | ask => rfl
    | enter => exact absurd ⟨_, _, rfl⟩ hcall
  obtain ⟨t, call, rfl⟩ := hcall
  have hsetQueue := s.world.handles_setQueue hq
  cases hstep with
  | enter hidle hallowed =>
    cases call with
    | cloneQueue r =>
      show ((s.world.cloneHandle r).queue q).handles + 0 = _ + List.count q [r]
      rw [World.cloneHandle, hsetQueue, List.count_singleton]
      by_cases hr : r = q <;> simp [hr]
    | dropQueue r =>
      show ((s.world.dropHandle r).queue q).handles + List.count q [r] = _ + 0
      rw [World.dropHandle, hsetQueue, List.count_singleton]
      by_cases hr : r = q
      · subst r
        have hhandles := hallowed.queues q List.mem_cons_self
        simp only [if_pos, beq_self_eq_true]
        omega
      · simp [hr]
    | newQueue config =>
      exact congrArg Queue.handles (s.world.queue_addQueue_of_lt config hq)
    | setPaused r paused =>
      refine (hsetQueue r _).trans ?_
      split
      next hr => rw [hr]; rfl
      next => rfl
    | shutdown r =>
      refine (hsetQueue r _).trans ?_
      split
      next hr => rw [hr]; rfl
      next => rfl
    | enqueueWork | enqueueMarker | finish => exact (World.SameSettings.submit s.world _ q).1
    | _ => rfl

/-- There are as many handles of a queue as were made and not dropped. -/
theorem Run.handles_eq (hsound : s.Sound) (hrun : Run s h s') (hq : q < s.world.queues.length) :
    (s'.world.queue q).handles + (h.filterMap Happening.dropped?).count q =
      (s.world.queue q).handles + (h.filterMap Happening.cloned?).count q := by
  induction hrun with
  | refl => rfl
  | @snoc h l x y hbefore hstep ih =>
    have hlast := hstep.handles_eq (Nat.lt_of_lt_of_le hq (hsound.grows hbefore).queues_le)
    have hone : ∀ f : Happening → Option QueueRef, [l].filterMap f = (f l).toList := by
      intro f
      cases hf : f l <;> simp [hf]
    simp only [List.filterMap_append, List.count_append, hone]
    omega

theorem inUse_of_task {call : Call} {request : Request} {next : request.Answer → Program call.Result}
    {queues : List QueueRef} (htask : s.tasks t = some ⟨call, .ask request next, queues⟩)
    (hq : q ∈ queues) : s.InUse q :=
  ⟨t, _, htask, ⟨request, next, rfl⟩, hq⟩

/-- A step leaves a queue that a call uses with a handle. -/
theorem Step.handles_of_inUse (hstep : Step s l s')
    (hbefore : ∀ r, s.InUse r → 0 < (s.world.queue r).handles) (huse : s'.InUse q) :
    0 < (s'.world.queue q).handles := by
  cases hstep with
  | @worker r w hworks =>
    have hsame : ((s.withWorld w).world.queue q).handles = (s.world.queue q).handles :=
      (Step.same_settings (.worker hworks) (fun _ _ => nofun) q).1
    rw [hsame]
    exact hbefore q huse
  | @enter t call hidle hallowed =>
    obtain ⟨u, task, htask, hunfinished, hq⟩ := huse
    by_cases hu : u = t
    · subst u
      cases (tasks_withTask_self ..).symm.trans htask
      have hhandles := hallowed.queues q hq
      have hcalled := Call.called_enter s.system call (lt_of_handles hhandles)
      refine Nat.lt_of_lt_of_le hhandles (hcalled.le_handles ?_)
      rintro rfl
      obtain ⟨request, next, hrest⟩ := hunfinished
      cases hrest
    · have huse : s.InUse q :=
        ⟨u, task, (tasks_withTask_of_ne hu ..).symm.trans htask, hunfinished, hq⟩
      have hhandles := hbefore q huse
      have hcalled := Call.called_enter s.system call (lt_of_handles hhandles)
      -- nobody drops the last handle while another call uses the queue
      have hlast : (s.world.queue q).handles ≠ 1 ∨ call ≠ .dropQueue q := by
        by_contra hnot
        push Not at hnot
        exact hallowed.unused q hnot.2 hnot.1 huse
      rcases hlast with hone | hcall
      · have hle := hcalled.le_succ_handles
        change (s.world.queue q).handles ≤ _ at hle
        show 0 < ((call.enter s.system).2.engine.queue q).handles
        omega
      · exact Nat.lt_of_lt_of_le hhandles (hcalled.le_handles hcall)
  | @ask t call request next queues answer system htask hserve =>
    have hsame : (system.engine.queue q).handles = (s.world.queue q).handles :=
      (Step.same_settings (.ask htask hserve) (fun _ _ => nofun) q).1
    show 0 < (system.engine.queue q).handles
    rw [hsame]
    obtain ⟨u, task, htask', hunfinished, hq⟩ := huse
    by_cases hu : u = t
    · subst u
      cases (tasks_withTask_self ..).symm.trans htask'
      rcases List.mem_append.1 hq with hold | hnew
      · exact hbefore q (inUse_of_task htask hold)
      · -- the answer hands out a queue only if it is there
        unfold handlesIn at hnew
        split at hnew
        next c owner =>
          obtain rfl := Option.mem_toList.1 hnew
          exact (serves_of_serve hserve).handles_of_owner
        next => cases hnew
    · exact hbefore q ⟨u, task, (tasks_withTask_of_ne hu ..).symm.trans htask', hunfinished, hq⟩

/-- A queue that a call uses has a handle. -/
theorem handles_of_inUse (hs : s.Reachable) (huse : s.InUse q) :
    0 < (s.world.queue q).handles := by
  obtain ⟨process, h, hrun⟩ := hs
  induction hrun generalizing q with
  | refl =>
    obtain ⟨t, task, htask, -⟩ := huse
    cases htask
  | snoc _ hstep ih => exact hstep.handles_of_inUse (fun r => ih) huse

/-- A queue on which a thread enqueues a marker has a handle. -/
theorem handles_of_marker (hs : s.Reachable) {marker : MarkerRequest CommandRef}
    (hstep : Step s (.ask t (.engine (.enqueueMarker q marker))) s') :
    0 < (s.world.queue q).handles := by
  cases hstep with
  | ask htask hserve =>
    have hq := (within_of_reachable hs htask).1 q rfl
    exact handles_of_inUse hs (inUse_of_task htask hq)

end Machine

end SyncPoint.Host
