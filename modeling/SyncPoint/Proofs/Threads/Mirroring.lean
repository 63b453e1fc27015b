import SyncPoint.Proofs.Threads.Shadowing

/-!
# Runs with handles mirror runs without

A run in which threads mean events by handles is followed step by step by a run in which they use
the objects alone.  While an access looks its handles up, nothing is done in the second run, where
the thread still does nothing.  Once the last handle was found, the thread begins the operation on
the objects there, and from then on both threads are answered the same (`Mirrored.step`).
-/

namespace SyncPoint.Threads

variable {σ : Type}

/-- What a thread does in a run, and what it does in one where events are meant by objects alone. -/
inductive Mirror (h : History σ) (t : ThreadId) : Option Task → Option Task → Prop
  | none : Mirror h t none none
  | other {α : Type} {operation : Operation α} {rest : Program (Except Failure α)} :
      Mirror h t (some ⟨α, .other operation, rest⟩) (some ⟨α, .other operation, rest⟩)
  /-- An access still looks its handles up. -/
  | seeking {α : Type} {a : Access Reference α} {found : List (Reference × Event)}
      {rest : Program (Except Failure α)} {task : Option Task} (hseeks : Seeks a found rest)
      (hfound : ∀ p ∈ found, h.Means p.1 p.2) (hrest : AtRest task) :
      Mirror h t (some ⟨α, .access a, rest⟩) task
  /-- An access failed, since it looked a handle up just now which means nothing. -/
  | missed {α : Type} {a : Access Reference α} {ref : TableRef} {handle : EventHandle}
      {task : Option Task} (hhandle : .handle ref handle ∈ a.references)
      (hlast : h.last? t = some (.ask t (.find ref handle) none)) (hrest : AtRest task) :
      Mirror h t (some ⟨α, .access a, .done (.error .unknownEvent)⟩) task
  /-- An access has come to the operation on the objects that its references mean. -/
  | running {α : Type} {a : Access Reference α} {b : Access Event α}
      {rest rest' : Program (Except Failure α)} (hmeans : a.Resolves h.Means b)
      (hshadows : Shadows rest rest') :
      Mirror h t (some ⟨α, .access a, rest⟩) (some ⟨α, .access b.direct, rest'⟩)

/-- What happens in the second run while this happens in the first. -/
inductive Matched : Happening σ → History σ → Prop
  | same (l : Happening σ) (hdirect : ∀ t α (a : Access Reference α),
      l = .enter t (.access a) → ∃ b : Access Event α, a = b.direct) : Matched l [l]
  | enter (t : ThreadId) {α : Type} (a : Access Reference α) : Matched (.enter t (.access a)) []
  | log (t : ThreadId) (entry : LogEntry) : Matched (.ask t (.log entry) ()) []
  | identify (t : ThreadId) (queue : QueueRef) (id : QueueId) :
      Matched (.ask t (.engine (.queueId queue)) id) [.identify queue]
  | look (t : ThreadId) (ref : TableRef) (handle : EventHandle) (answer : Option Event) :
      Matched (.ask t (.find ref handle) answer) []
  | last (t : ThreadId) (ref : TableRef) (handle : EventHandle) (event : Event)
      {α : Type} (b : Access Event α) :
      Matched (.ask t (.find ref handle) (some event)) [.enter t (.access b.direct)]

/-- Events, tables and the engine are the same in both runs, and so is what threads do. -/
structure Mirrored (h : History σ) (s s' : State σ) : Prop where
  system : s.system.Alike s'.system
  threads : ∀ t, Mirror h t (s.tasks t) (s'.tasks t)

variable {engine : Engine σ} {moves : σ → σ → Prop} {h h' : History σ} {t : ThreadId}
  {l : Happening σ} {s s' x y : State σ}

/-- A thread that did nothing is as before. -/
theorem Mirror.append {task task' : Option Task} (hmirror : Mirror h t task task')
    (hothers : ∀ l ∈ h', l.thread? ≠ some t) : Mirror (h ++ h') t task task' := by
  cases hmirror with
  | none => exact .none
  | other => exact .other
  | seeking hseeks hfound hrest =>
    exact .seeking hseeks (fun p hp => (hfound p hp).append h') hrest
  | missed hhandle hlast hrest =>
    exact .missed hhandle ((History.last?_append_of_ne hothers).trans hlast) hrest
  | running hmeans hshadows =>
    exact .running (hmeans.mono fun _ _ hmeans => hmeans.append h') hshadows

/-- A thread that does nothing in the first run does nothing in the second. -/
theorem Mirror.atRest {task task' : Option Task} (hmirror : Mirror h t task task')
    (hrest : AtRest task) : AtRest task' := by
  cases hmirror with
  | none | other => exact hrest
  | @seeking _ _ _ rest _ hseeks =>
    obtain ⟨value, hdone⟩ := hrest _ rfl
    rw [show rest = .done value from hdone] at hseeks
    cases hseeks
  | missed _ _ hrest' => exact hrest'
  | @running _ _ _ rest _ _ hshadows =>
    obtain ⟨value, hdone⟩ := hrest _ rfl
    rw [show rest = .done value from hdone] at hshadows
    rintro _ ⟨⟩
    exact ⟨value, hshadows.eq_done⟩

/-- Where one thread made some steps, the others are as before. -/
theorem Mirrored.at_thread (hmirrored : Mirrored h s s') {task : Option Task} {system : System σ}
    (hsteps : ∀ l ∈ h', l.thread? = some t) (hsystem : system.Alike x.system)
    (hothers : ∀ u, u ≠ t → x.tasks u = s'.tasks u)
    (hmirror : Mirror (h ++ h') t task (x.tasks t)) :
    Mirrored (h ++ h') (s.withTask t task system) x := by
  refine ⟨hsystem, fun u => ?_⟩
  by_cases hu : u = t
  · subst hu
    rwa [State.tasks_withTask_self]
  · rw [State.tasks_withTask_of_ne _ hu, hothers u hu]
    refine (hmirrored.threads u).append fun l hl => ?_
    rw [hsteps l hl]
    exact fun heq => hu (Option.some.inj heq).symm

/-- The thread made a step in both. -/
theorem Mirrored.at_both (hmirrored : Mirrored h s s') {task task' : Option Task}
    {system system' : System σ} (hl : l.thread? = some t) (hsystem : system.Alike system')
    (hmirror : Mirror (h ++ [l]) t task task') :
    Mirrored (h ++ [l]) (s.withTask t task system) (s'.withTask t task' system') := by
  refine hmirrored.at_thread (List.forall_mem_singleton.2 hl) hsystem
    (fun u hu => State.tasks_withTask_of_ne _ hu _ _) ?_
  rwa [State.tasks_withTask_self]

variable (engine moves) in
/-- When the first run has gone on to `x`, the second one can go on from `s'` so that it mirrors
that again. -/
def Follows (h : History σ) (s' : State σ) (l : Happening σ) (x : State σ) : Prop :=
  ∃ piece x', Matched l piece ∧ Run engine moves s' piece x' ∧ Mirrored (h ++ [l]) x x'

/-- Both threads begin the same. -/
theorem Mirrored.enter_both {α : Type} {use : Use α} (hmirrored : Mirrored h s s')
    (hidle : s.Idle t) (hmatched : Matched (.enter t use : Happening σ) [.enter t use])
    (hmirror : Mirror (h ++ [.enter t use]) t (some ⟨α, use, use.program⟩)
      (some ⟨α, use, use.program⟩)) :
    Follows engine moves h s' (.enter t use)
      (s.withTask t (some ⟨α, use, use.program⟩) s.system) := by
  have hidle' : s'.Idle t := (hmirrored.threads t).atRest hidle
  exact ⟨_, _, hmatched, (Step.enter use hidle').run,
    hmirrored.at_both rfl hmirrored.system hmirror⟩

section Ask

variable {α : Type} {request : Request} {answer : request.Answer} {task : Option Task}
  {system : System σ}

/-- Both threads ask the same, and are answered the same. -/
theorem Mirrored.ask_both {use : Use α} {next : request.Answer → Program (Except Failure α)}
    (hmirrored : Mirrored h s s')
    (hserve : System.serve engine t request s.system = some (answer, system))
    (htask : s'.tasks t = some ⟨α, use, .ask request next⟩)
    (hmirror : Mirror (h ++ [.ask t request answer]) t task (some ⟨α, use, next answer⟩)) :
    Follows engine moves h s' (.ask t request answer) (s.withTask t task system) := by
  obtain ⟨system', hserve', halike⟩ := hmirrored.system.serve hserve
  exact ⟨_, _, .same _ (by simp), (Step.ask htask hserve').run,
    hmirrored.at_both rfl halike hmirror⟩

/-- A request changes nothing but the log, and the second thread does nothing. -/
theorem Mirrored.ask_alone (hmirrored : Mirrored h s s') (hsystem : s.system.Alike system)
    (hmatched : Matched (.ask t request answer : Happening σ) [])
    (hmirror : Mirror (h ++ [.ask t request answer]) t task (s'.tasks t)) :
    Follows engine moves h s' (.ask t request answer) (s.withTask t task system) :=
  ⟨[], s', hmatched, .refl, hmirrored.at_thread (List.forall_mem_singleton.2 rfl)
    (hsystem.symm.trans hmirrored.system) (fun _ _ => rfl) hmirror⟩

/-- A handle means nothing, and that ends the access. -/
theorem Mirrored.ask_missing {a : Access Reference α} {ref : TableRef} {handle : EventHandle}
    {next : Option Event → Program (Except Failure α)} (hmirrored : Mirrored h s s')
    (hhandle : .handle ref handle ∈ a.references)
    (hmiss : next none = .done (.error .unknownEvent)) (hrest : s'.Idle t) :
    Follows engine moves h s' (.ask t (.find ref handle) none)
      (s.withTask t (some ⟨α, .access a, next none⟩) s.system) := by
  refine hmirrored.ask_alone (.refl _) (.look t ref handle none) ?_
  rw [hmiss]
  exact .missed hhandle (History.last?_concat_self rfl) hrest

/-- A thread that looks its handles up is answered. -/
theorem Mirrored.ask_seeking {a : Access Reference α} {found : List (Reference × Event)}
    {next : request.Answer → Program (Except Failure α)} (hmirrored : Mirrored h s s')
    (hmeans : ∀ ref handle event, (s.system.table ref).find? handle = some event →
      h.Means (.handle ref handle) event)
    (hserve : System.serve engine t request s.system = some (answer, system))
    (hseeks : Seeks a found (.ask request next)) (hfound : ∀ p ∈ found, h.Means p.1 p.2)
    (hrest : s'.Idle t) :
    Follows engine moves h s' (.ask t request answer)
      (s.withTask t (some ⟨α, .access a, next answer⟩) system) := by
  have hfound' : ∀ l : Happening σ, ∀ p ∈ found, (h ++ [l]).Means p.1 p.2 :=
    fun l p hp => (hfound p hp).append [l]
  cases hseeks with
  | log entry hnext =>
    cases hserve
    exact hmirrored.ask_alone ⟨_, rfl⟩ (.log t entry) (.seeking hnext (hfound' _) hrest)
  | identify queue hnext =>
    obtain ⟨system', hserve', halike⟩ := hmirrored.system.serve hserve
    refine ⟨_, _, .identify t queue answer, (Step.identify t hserve').run, ?_⟩
    exact hmirrored.at_thread (List.forall_mem_singleton.2 rfl) halike (fun _ _ => rfl)
      (.seeking (hnext answer) (hfound' _) hrest)
  | @look _ ref handle next hhandle hmiss hnext =>
    cases hserve
    cases hfind : (s.system.table ref).find? handle with
    | none => exact hmirrored.ask_missing hhandle hmiss hrest
    | some event =>
      refine hmirrored.ask_alone (.refl _) (.look t ref handle (some event))
        (.seeking (hnext event) ?_ hrest)
      exact List.forall_mem_cons.2 ⟨(hmeans ref handle event hfind).append _, hfound' _⟩
  | @last _ ref handle next hhandle hmiss hnext =>
    cases hserve
    cases hfind : (s.system.table ref).find? handle with
    | none => exact hmirrored.ask_missing hhandle hmiss hrest
    | some event =>
      obtain ⟨b, hresolves, hshadows⟩ := hnext event
      refine ⟨_, _, .last t ref handle event b, (Step.enter (.access b.direct) hrest).run, ?_⟩
      refine hmirrored.at_both rfl hmirrored.system ?_
      rw [Use.program, Access.call_direct]
      refine .running (hresolves.mono fun x e hknown => ?_) hshadows
      cases hknown with
      | object => exact .object e
      | found hmem =>
        rcases List.mem_cons.1 hmem with heq | hmem
        · cases heq
          exact (hmeans ref handle event hfind).append _
        · exact hfound' _ (x, e) hmem

end Ask

/-- One step of the first run, and what happens in the second meanwhile. -/
theorem Mirrored.step (hmirrored : Mirrored h s s')
    (hmeans : ∀ ref handle event, (s.system.table ref).find? handle = some event →
      h.Means (.handle ref handle) event)
    (hstep : Step engine moves s l x) : Follows engine moves h s' l x := by
  cases hstep with
  | @move state entries hmove =>
    obtain ⟨log, hlog⟩ := hmirrored.system
    have hstep' : Step engine moves s' (.move state entries) _ := .move (by rw [hlog]; exact hmove)
    refine ⟨_, _, .same _ (by simp), hstep'.run, ⟨log ++ entries, ?_⟩, fun t => ?_⟩
    · simp [hlog]
    · exact (hmirrored.threads t).append (by simp [Happening.thread?])
  | @identify queue id system t hserve =>
    obtain ⟨system', hserve', halike⟩ := hmirrored.system.serve hserve
    refine ⟨_, _, .same _ (by simp), (Step.identify t hserve').run, halike, fun t => ?_⟩
    exact (hmirrored.threads t).append (by simp [Happening.thread?])
  | @enter t α use hidle =>
    have hidle' : s'.Idle t := (hmirrored.threads t).atRest hidle
    cases use with
    | other operation => exact hmirrored.enter_both hidle (.same _ (by rintro _ _ _ ⟨⟩)) .other
    | access a =>
      rcases a.direct_or_seeks with ⟨b, rfl⟩ | hseeks
      · refine hmirrored.enter_both hidle (.same _ ?_)
          (.running (Access.resolves_direct .object b) (.refl _))
        rintro _ _ _ ⟨⟩
        exact ⟨b, rfl⟩
      · refine ⟨[], s', .enter t a, .refl, ?_⟩
        exact hmirrored.at_thread (List.forall_mem_singleton.2 rfl) hmirrored.system
          (fun _ _ => rfl) (.seeking hseeks (by simp) hidle')
  | @ask t α use request next answer system htask hserve =>
    have hmirror := hmirrored.threads t
    rw [htask] at hmirror
    generalize htask' : s'.tasks t = task' at hmirror
    cases hmirror with
    | other => exact hmirrored.ask_both hserve htask' .other
    | seeking hseeks hfound hrest =>
      subst htask'
      exact hmirrored.ask_seeking hmeans hserve hseeks hfound hrest
    | running hresolves hshadows =>
      have hresolves' := hresolves.mono fun x event (hm : h.Means x event) =>
        hm.append [.ask t request answer]
      cases hshadows with
      | ask _ hnext => exact hmirrored.ask_both hserve htask' (.running hresolves' (hnext answer))
      | log entry hnext =>
        cases hserve
        refine hmirrored.ask_alone ⟨_, rfl⟩ (.log t entry) ?_
        rw [htask']
        exact .running hresolves' hnext

/-! ## Whole runs -/

variable (engine moves) in
/-- Two runs from one state. At every moment the second mirrors the first. -/
inductive Paired (s : State σ) : History σ → State σ → History σ → State σ → Prop
  | refl : Paired s [] s [] s
  | snoc {h h' piece : History σ} {l : Happening σ} {x x' y y' : State σ}
      (hpaired : Paired s h x h' x') (hstep : Step engine moves x l y) (hmatched : Matched l piece)
      (hrun : Run engine moves x' piece y') (hmirrored : Mirrored (h ++ [l]) y y') :
      Paired s (h ++ [l]) y (h' ++ piece) y'

theorem Mirrored.start (e : σ) (limits : List (Option Nat)) :
    Mirrored [] (start e limits) (start e limits) :=
  ⟨.refl _, fun _ => .none⟩

theorem Paired.mirrored {e : σ} {limits : List (Option Nat)}
    (hpaired : Paired engine moves (Threads.start e limits) h x h' y) : Mirrored h x y := by
  cases hpaired with
  | refl => exact .start e limits
  | snoc _ _ _ _ hmirrored => exact hmirrored

theorem Paired.run (hpaired : Paired engine moves s h x h' y) : Run engine moves s h' y := by
  induction hpaired with
  | refl => exact .refl
  | snoc _ _ _ hrun _ ih => exact Run.trans ih hrun

/-- Every run is mirrored. -/
theorem Run.paired {e : σ} {limits : List (Option Nat)}
    (hrun : Run engine moves (start e limits) h s) :
    ∃ h' s', Paired engine moves (start e limits) h s h' s' := by
  induction hrun with
  | refl => exact ⟨[], _, .refl⟩
  | @snoc h l x y hbefore _ hstep ih =>
    obtain ⟨h', x', hpaired⟩ := ih
    obtain ⟨piece, y', hmatched, hrun', hmirrored⟩ :=
      hpaired.mirrored.step (fun _ _ _ => Run.means_of_find? hbefore) hstep
    exact ⟨h' ++ piece, y', hpaired.snoc hstep hmatched hrun' hmirrored⟩

/-! ## Results -/

/-- The access failed, since a handle that it looked up just now means nothing. -/
def Missed {α : Type} (h : History σ) (t : ThreadId) (a : Access Reference α)
    (result : Except Failure α) : Prop :=
  result = .error .unknownEvent ∧ ∃ ref handle, .handle ref handle ∈ a.references ∧
    h.last? t = some (.ask t (.find ref handle) none)

/-- What an access returns, the operation on the objects returned. -/
theorem Mirrored.result {α : Type} {a : Access Reference α} {result : Except Failure α}
    (hmirrored : Mirrored h s s') (htask : s.tasks t = some ⟨α, .access a, .done result⟩) :
    Missed h t a result ∨ ∃ b : Access Event α, a.Resolves h.Means b ∧
      s'.tasks t = some ⟨α, .access b.direct, .done result⟩ := by
  have hmirror := hmirrored.threads t
  rw [htask] at hmirror
  generalize htask' : s'.tasks t = task' at hmirror
  cases hmirror with
  | seeking hseeks => cases hseeks
  | missed hhandle hlast => exact .inl ⟨rfl, _, _, hhandle, hlast⟩
  | running hresolves hshadows =>
    cases hshadows
    exact .inr ⟨_, hresolves, rfl⟩

/-! ## Keeping up -/

/-- The thread in the first run gets to where the one in the second stands, and at most writes to
the log before. Then it has the same result, or is answered when the other is. -/
theorem Mirrored.keeps_up {α : Type} {a : Access Reference α} {b : Access Event α}
    {rest rest' : Program (Except Failure α)} (hmirrored : Mirrored h s s')
    (htask : s.tasks t = some ⟨α, .access a, rest⟩)
    (htask' : s'.tasks t = some ⟨α, .access b.direct, rest'⟩) (hresolves : a.Resolves h.Means b)
    (hshadows : Shadows rest rest') :
    ∃ entries x, Run engine moves s (writes t entries) x ∧
      Mirrored (h ++ writes t entries) x s' ∧
      (∀ result, rest' = .done result → x.tasks t = some ⟨α, .access a, .done result⟩) ∧
      ∀ {request answer y'}, Step engine moves s' (.ask t request answer) y' →
        ∃ y, Step engine moves x (.ask t request answer) y ∧
          Mirrored (h ++ writes t entries ++ [.ask t request answer]) y y' := by
  obtain ⟨entries, rest₁, log, hlevel, hrun⟩ := hshadows.exists_level htask
  have hresolves' : a.Resolves (h ++ writes t entries).Means b :=
    hresolves.mono fun _ _ hmeans => hmeans.append _
  have hmirrored' : Mirrored (h ++ writes t entries)
      (s.withTask t (some ⟨α, .access a, rest₁⟩) { s.system with log := log }) s' := by
    refine hmirrored.at_thread ?_ ?_ (fun _ _ => rfl) ?_
    · simp [writes, Happening.thread?]
    · exact System.Alike.trans ⟨s.system.log, rfl⟩ hmirrored.system
    · rw [htask']
      exact .running hresolves' hlevel.shadows
  refine ⟨entries, _, hrun, hmirrored', ?_, ?_⟩
  · rintro result rfl
    cases hlevel
    exact State.tasks_withTask_self _ _ _ _
  · intro request answer y' hstep
    cases hstep with
    | @ask _ _ _ _ next' _ system' htask'' hserve' =>
      cases htask'.symm.trans htask''
      cases hlevel with
      | ask _ hnext =>
        obtain ⟨system, hserve, halike⟩ := hmirrored'.system.symm.serve hserve'
        refine ⟨_, .ask (State.tasks_withTask_self _ _ _ _) hserve, ?_⟩
        exact hmirrored'.at_both rfl halike.symm
          (.running (hresolves'.mono fun _ _ hmeans => hmeans.append _) (hnext answer))

/-- A thread that looks its handles up goes on, unless the engine does not tell the identifier of a
queue. -/
theorem Seeks.proceeds {α : Type} {a : Access Reference α} {found : List (Reference × Event)}
    {rest : Program (Except Failure α)} (hseeks : Seeks a found rest)
    (htask : s.tasks t = some ⟨α, .access a, rest⟩) :
    (∃ request answer x, Step engine moves s (.ask t request answer) x) ∨
      ∃ queue next, rest = .ask (.engine (.queueId queue)) next ∧
        engine.serve (.queueId queue) s.system.engine = none := by
  cases hseeks with
  | log entry => exact .inl ⟨_, _, _, .ask htask rfl⟩
  | look | last => exact .inl ⟨_, _, _, .ask htask rfl⟩
  | @identify _ queue next =>
    cases hreply : engine.serve (.queueId queue) s.system.engine with
    | none => exact .inr ⟨queue, next, rfl, hreply⟩
    | some reply =>
      have hserve : System.serve engine t (.engine (.queueId queue)) s.system =
          some (reply.value,
            { s.system with engine := reply.state, log := s.system.log ++ reply.log }) :=
        Option.map_eq_some_iff.2 ⟨reply, hreply, rfl⟩
      exact .inl ⟨_, _, _, .ask htask hserve⟩

end SyncPoint.Threads
