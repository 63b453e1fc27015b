import SyncPoint.Proofs.Threads.Mirroring
import SyncPoint.Proofs.Threads.Sparing
import SyncPoint.Scripted

/-!
# Table access is transparent

Over any engine, and in any mixture of handles and objects: what threads do to events through the
handles of tables, they might as well do through the objects that `Table.get` returns for these
handles.  The run with handles is mirrored by one with objects (`Paired`), with the same engine and
the same events, and accesses return the same.  A handle that was destroyed takes nothing from its
object: the run goes on as if it had not been destroyed (`Spared`), and as if the table could hold
one event more.
-/

namespace SyncPoint.Threads

variable {σ : Type}

/-- What it means that handles of tables are as good as the objects. -/
structure Transparent (engine : Engine σ) (moves : σ → σ → Prop) : Prop where
  /-- A reference means one event, for ever, so that a handle and the object that is found for it,
  or a handle and itself, mean the same event. -/
  meaning : ∀ {e limits h s}, Run engine moves (start e limits) h s →
    (∀ {x event event'}, h.Means x event → h.Means x event' → event = event') ∧
    ∀ {t ref handle event}, .ask t (.find ref handle) (some event) ∈ h →
      h.Means (.handle ref handle) event
  /-- The time from an event to itself is measured as that, by whichever references. -/
  itself : ∀ {e limits h s}, Run engine moves (start e limits) h s → ∀ {x y event},
    h.Means x event → h.Means y event → ∀ {b}, (Access.elapsedTime x y).Resolves h.Means b →
      b.operation = do return Elapsed.millis (← event.nanosToSelf)
  /-- A handle is live until it is destroyed. -/
  live : ∀ {e limits h s}, Run engine moves (start e limits) h s → ∀ {ref handle event},
    (s.system.table ref).find? handle = some event ↔
      h.Means (.handle ref handle) event ∧ handle ∉ TableAct.destroyed (h.ledger ref)
  /-- A run with handles is mirrored, at every moment, by a run with objects. -/
  mirrored : ∀ {e limits h s}, Run engine moves (start e limits) h s →
    ∃ h' s', Paired engine moves (start e limits) h s h' s' ∧
      Run engine moves (start e limits) h' s' ∧ Mirrored h s s'
  /-- An access fails since it just now looked up a handle that is not live, or returns what the
  operation on the objects returns. -/
  result : ∀ {h : History σ} {s s' t α} {a : Access Reference α} {result}, Mirrored h s s' →
    s.tasks t = some ⟨α, .access a, .done result⟩ →
      Missed h t a result ∨ ∃ b : Access Event α, a.Resolves h.Means b ∧
        s'.tasks t = some ⟨α, .access b.direct, .done result⟩
  /-- An access that looks its handles up is not kept waiting, but by an engine that does not tell
  the identifier of a queue. -/
  proceeds : ∀ {s : State σ} {t α} {a : Access Reference α} {found rest}, Seeks a found rest →
    s.tasks t = some ⟨α, .access a, rest⟩ →
      (∃ request answer x, Step engine moves s (.ask t request answer) x) ∨
        ∃ queue next, rest = .ask (.engine (.queueId queue)) next ∧
          engine.serve (.queueId queue) s.system.engine = none
  /-- After that it is kept waiting only where the operation on the objects is: it has at most to
  write to the log, and then has the same result, or is answered when the other is. -/
  keeps_up : ∀ {h : History σ} {s s' t α rest rest'} {a : Access Reference α}
    {b : Access Event α}, Mirrored h s s' → s.tasks t = some ⟨α, .access a, rest⟩ →
    s'.tasks t = some ⟨α, .access b.direct, rest'⟩ → a.Resolves h.Means b → Shadows rest rest' →
      ∃ entries x, Run engine moves s (writes t entries) x ∧
        Mirrored (h ++ writes t entries) x s' ∧
        (∀ result, rest' = .done result → x.tasks t = some ⟨α, .access a, .done result⟩) ∧
        ∀ {request answer y'}, Step engine moves s' (.ask t request answer) y' →
          ∃ y, Step engine moves x (.ask t request answer) y ∧
            Mirrored (h ++ writes t entries ++ [.ask t request answer]) y y'
  /-- Destroying a live handle succeeds and takes the event out of the table, where there is room
  for another one at once.  Everything else is as it was. -/
  destroyed : ∀ {e limits h s t use ref handle event}, Run engine moves (start e limits) h s →
    (s.system.table ref).find? handle = some event →
    s.tasks t = some ⟨Unit, use, (Table.destroy ref handle).run⟩ →
      ∃ s' rest, Step engine moves s (.ask t (.unregister ref handle) true) s' ∧
        s'.system = s.system.without ref handle ∧
        (s'.system.table ref).size + 1 = (s.system.table ref).size ∧
        (s'.system.table ref).isFull = false ∧
        s'.tasks t = some ⟨Unit, use, rest⟩ ∧ Shadows rest (.done (.ok ())) ∧
        ∀ b : State σ, b.system = s.system → (∀ u, u ≠ t → b.tasks u = s.tasks u) → b.Idle t →
          Spared ref handle t s' b
  /-- Whatever happens where the handle was not destroyed happens where it was, and the other way
  round, unless the handle itself is used, the table is full, or its events are counted. -/
  spared : ∀ {ref handle t} {a b : State σ}, Spared ref handle t a b →
    (∀ {h b'}, RunWithin engine moves (SparesHandle ref handle 0) b h b' →
      ∃ h' a', Run engine moves a h' a' ∧ h'.deeds = h.deeds ∧ Spared ref handle t a' b') ∧
    ∀ {h a'}, RunWithin engine moves (SparesHandle ref handle 1) a h a' →
      ∃ h' b', Run engine moves b h' b' ∧ h'.deeds = h.deeds ∧ Spared ref handle t a' b'

open TableAct

/-- A table holds each of its events once. -/
theorem Keeps.holds {ref : TableRef} {limit : Option Nat} {s : State σ} {acts : List TableAct}
    {handle : EventHandle} {event : Event} (hkeeps : Keeps ref limit s acts)
    (hfind : (s.system.table ref).find? handle = some event) :
    (s.system.table ref).Holds handle := by
  obtain ⟨hconforms, hrepresents⟩ := hkeeps
  obtain ⟨hfiled, hissued, halive⟩ := hrepresents.live_of_find? hfind
  have hkeys : (s.system.table ref).events.map (·.1) =
      (issued acts).filter fun number => number ∉ destroyed acts := by
    rw [hrepresents.events, issued, List.filter_map]
    rfl
  refine ⟨?_, ?_⟩
  · rw [hrepresents.next]
    exact Nat.lt_succ_of_le (hconforms.number_le hissued).2
  · rw [hkeys]
    exact List.count_eq_one_of_mem (hconforms.nodup.filter _) (by simp [hissued, halive])

/-- An event that is taken out leaves room. -/
theorem Keeps.isFull_erase {ref : TableRef} {limit : Option Nat} {s : State σ}
    {acts : List TableAct} {handle : EventHandle} (hkeeps : Keeps ref limit s acts)
    (hholds : (s.system.table ref).Holds handle) :
    ((s.system.table ref).erase handle).isFull = false := by
  rw [Table.isFull_eq_false_iff]
  intro max hmax
  have hlimit : limit = some max := hkeeps.represents.limit.symm.trans hmax
  have hle := hkeeps.conforms.count_le hlimit
  have hsize := hkeeps.represents.size_eq_count hkeeps.conforms
  have herase := hholds.size_erase
  omega

theorem tables_transparent (engine : Engine σ) (moves : σ → σ → Prop) :
    Transparent engine moves where
  meaning hrun := ⟨Run.means_unique hrun, Run.means_of_look hrun⟩
  itself {e limits h s} hrun {x y event} hx hy {b} hresolves := by
    obtain ⟨start, stop, hmeasured, hstart, hstop⟩ := hresolves.measured? rfl
    obtain rfl := Run.means_unique hrun hx hstart
    obtain rfl := Run.means_unique hrun hy hstop
    rw [eq_of_heq (Access.operation_of_measured? hmeasured), Event.elapsedTime, Event.elapsedNanos,
      if_pos rfl]
  live hrun := Run.find?_iff hrun
  mirrored hrun := by
    obtain ⟨h', s', hpaired⟩ := Run.paired hrun
    exact ⟨h', s', hpaired, hpaired.run, hpaired.mirrored⟩
  result hmirrored htask := hmirrored.result htask
  proceeds hseeks htask := hseeks.proceeds htask
  keeps_up hmirrored htask htask' hresolves hshadows :=
    hmirrored.keeps_up htask htask' hresolves hshadows
  destroyed {e limits h s t use ref handle event} hrun hfind htask := by
    have hkeeps := Run.keeps hrun ref
    have hholds := hkeeps.holds hfind
    have href := Host.lt_of_find? hfind
    have hserve : System.serve engine t (.unregister ref handle) s.system =
        some (true, s.system.without ref handle) := by
      rw [System.serve, hfind]
      rfl
    refine ⟨_, .ask (.log (.destroyed handle)) fun _ => .done (.ok ()), .ask htask hserve, rfl,
      ?_, ?_, State.tasks_withTask_self _ _ _ _, .log _ (.done _), ?_⟩
    · rw [State.system_withTask, System.table_without_self href]
      exact hholds.size_erase
    · rw [State.system_withTask, System.table_without_self href]
      exact hkeeps.isFull_erase hholds
    · intro b hsystem hothers hidle
      refine ⟨?_, fun u hu => ?_, .inr ⟨hidle,
        ⟨Unit, use, .ask (.log (.destroyed handle)) fun _ => .done (.ok ())⟩, .ok (),
        State.tasks_withTask_self _ _ _ _, .log _ (.done _)⟩⟩
      · rw [hsystem]
        exact ⟨href, hholds, .refl _⟩
      · rw [State.tasks_withTask_of_ne _ hu, hothers u hu]
  spared hspared := ⟨hspared.run, hspared.run_back⟩

/-! ## A run that mixes handles and objects -/

/-- What a thread has left to do is done without interruption, up to so many steps of it. -/
def State.proceed (engine : Engine σ) (t : ThreadId) (s : State σ) : Nat → History σ × State σ
  | 0 => ([], s)
  | steps + 1 =>
    match s.tasks t with
    | some ⟨α, use, .ask request next⟩ =>
      match System.serve engine t request s.system with
      | some (answer, system) =>
        let rest := proceed engine t (s.withTask t (some ⟨α, use, next answer⟩) system) steps
        (.ask t request answer :: rest.1, rest.2)
      | none => ([], s)
    | _ => ([], s)

/-- Threads that did nothing before do one thing each, one after the other. -/
def State.perform (engine : Engine σ) (steps : Nat) (s : State σ) :
    List (ThreadId × (α : Type) × Use α) → History σ × State σ
  | [] => ([], s)
  | (t, ⟨α, use⟩) :: uses =>
    if (s.tasks t).isNone then
      let entered := s.withTask t (some ⟨α, use, use.program⟩) s.system
      let made := entered.proceed engine t steps
      let rest := perform engine steps made.2 uses
      (.enter t use :: (made.1 ++ rest.1), rest.2)
    else ([], s)

theorem run_proceed (engine : Engine σ) (moves : σ → σ → Prop) (t : ThreadId) (s : State σ)
    (steps : Nat) :
    Run engine moves s (s.proceed engine t steps).1 (s.proceed engine t steps).2 := by
  induction steps generalizing s with
  | zero => exact .refl
  | succ steps ih =>
    rw [State.proceed]
    split
    next α use request next htask =>
      split
      next answer system hserve => exact (Step.ask htask hserve).run.trans (ih _)
      next => exact .refl
    next => exact .refl

theorem run_perform (engine : Engine σ) (moves : σ → σ → Prop) (steps : Nat) (s : State σ)
    (uses : List (ThreadId × (α : Type) × Use α)) :
    Run engine moves s (s.perform engine steps uses).1 (s.perform engine steps uses).2 := by
  induction uses generalizing s with
  | nil => exact .refl
  | cons head uses ih =>
    obtain ⟨t, α, use⟩ := head
    rw [State.perform]
    split
    next hnone =>
      have hidle : s.Idle t := by
        rw [State.Idle, Option.isNone_iff_eq_none.1 hnone]
        rintro x ⟨⟩
      have hmade := run_proceed engine moves t
        (s.withTask t (some ⟨α, use, use.program⟩) s.system) steps
      exact (Step.enter use hidle).run.trans (hmade.trans (ih _))
    next => exact .refl

/-- The same is done to what the references are taken to. -/
def Access.map {ρ ρ' α : Type} (f : ρ → ρ') : Access ρ α → Access ρ' α
  | record x queue => record (f x) queue
  | query x => query (f x)
  | synchronize x => synchronize (f x)
  | streamWait x queue => streamWait (f x) queue
  | elapsedTime start stop => elapsedTime (f start) (f stop)

/-- References that mean one event each leave no choice. -/
theorem Access.Resolves.eq_map {α : Type} {means : Reference → Event → Prop}
    {a : Access Reference α} {b : Access Event α} (h : a.Resolves means b) {f : Reference → Event}
    (hf : ∀ x ∈ a.references, ∀ event, means x event → f x = event) : b = a.map f := by
  cases h with
  | record queue h | query h | synchronize h | streamWait queue h =>
    rw [map, hf _ (.head _) _ h]
  | elapsedTime hstart hstop =>
    rw [map, hf _ (.head _) _ hstart, hf _ (.tail _ (.head _)) _ hstop]

namespace Mixed

def event : Event := ⟨0, .empty⟩

/-- One queue.  A marker on it takes five nanoseconds, and is done at once. -/
def engine : Scripted.State :=
  let marker : Scripted.MarkerPlan := .add { done := true, times := some ⟨10, 15⟩ }
  { queues := [{ id := ⟨0⟩, markers := [marker, marker] }] }

/-- One table, with room for one event, which is destroyed while it is in use. -/
def uses : List (ThreadId × (α : Type) × Use α) :=
  [(0, ⟨_, .other (Table.createDefault 0)⟩),
   (1, ⟨_, .access (.record (.handle 0 ⟨1⟩) 0)⟩),
   (2, ⟨_, .access (.elapsedTime (.handle 0 ⟨1⟩) (.object event))⟩),
   (3, ⟨_, .other (Table.destroy 0 ⟨1⟩)⟩),
   (4, ⟨_, .access (.query (.handle 0 ⟨1⟩))⟩),
   (5, ⟨_, .access (.query (.object event))⟩),
   (6, ⟨_, .other (Table.createDefault 0)⟩)]

def history : History Scripted.State :=
  ((start engine [some 1]).perform Scripted.engine 20 uses).1

def last : State Scripted.State :=
  ((start engine [some 1]).perform Scripted.engine 20 uses).2

end Mixed

open Mixed in
/-- The time from a handle to its object is the time from the object to itself, which is none.  The
handle means nothing once it is destroyed, but the object is queried as before, and there is room
for another event. -/
theorem tables_transparent_mixed :
    ∃ h' s', Paired Scripted.engine (fun _ _ => False) (start engine [some 1]) history last h' s' ∧
      last.tasks 2 = some ⟨Single, .access (.elapsedTime (.handle 0 ⟨1⟩) (.object event)),
        .done (.ok (Elapsed.millis 0))⟩ ∧
      s'.tasks 2 = some ⟨Single, .access (.elapsedTime (.object event) (.object event)),
        .done (.ok (Elapsed.millis 0))⟩ ∧
      last.tasks 4 = some ⟨EventStatus, .access (.query (.handle 0 ⟨1⟩)),
        .done (.error .unknownEvent)⟩ ∧
      s'.tasks 5 = some ⟨EventStatus, .access (.query (.object event)), .done (.ok .ready)⟩ ∧
      last.tasks 6 = some ⟨EventHandle, .other (Table.createDefault 0), .done (.ok ⟨2⟩)⟩ := by
  have htransparent := tables_transparent Scripted.engine fun _ _ => False
  have hrun : Run Scripted.engine (fun _ _ => False) (start engine [some 1]) history last :=
    run_perform _ _ _ _ _
  have helapsed : last.tasks 2 = some ⟨Single, .access (.elapsedTime (.handle 0 ⟨1⟩)
      (.object event)), .done (.ok (Elapsed.millis 0))⟩ := rfl
  have hquery : last.tasks 5 = some ⟨EventStatus, .access (.query (.object event)),
      .done (.ok .ready)⟩ := rfl
  have hobject : ∀ event', history.Means (.object event) event' → event = event' := by
    rintro _ ⟨⟩
    rfl
  have hhandle : ∀ event', history.Means (.handle 0 ⟨1⟩) event' → event = event' :=
    fun event' => (htransparent.meaning hrun).1 (.handle (by decide))
  obtain ⟨h', s', hpaired, -, hmirrored⟩ := htransparent.mirrored hrun
  refine ⟨h', s', hpaired, helapsed, ?_, rfl, ?_, rfl⟩
  · obtain ⟨hfailed, -⟩ | ⟨b, hresolves, htask⟩ := htransparent.result hmirrored helapsed
    · cases hfailed
    · rwa [hresolves.eq_map (f := fun _ => event) (by simpa [Access.references] using
        ⟨hhandle, hobject⟩)] at htask
  · obtain ⟨hfailed, -⟩ | ⟨b, hresolves, htask⟩ := htransparent.result hmirrored hquery
    · cases hfailed
    · rwa [hresolves.eq_map (f := fun _ => event) (by simpa [Access.references] using
        hobject)] at htask

end SyncPoint.Threads
