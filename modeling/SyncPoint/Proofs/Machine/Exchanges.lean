import SyncPoint.Proofs.Machine.Replay
import SyncPoint.Proofs.Machine.Schedule

/-!
# What threads are answered

A history tells who asked what.  Together with the state in which it begins it also tells the
answers (`Machine.dealings`), as each step depends only on the state it is made in.

`Program.Completes` says of a program that each of its requests is answered whenever it is asked,
whatever others do meanwhile, and what its result has to do with the answers.  A call whose program
completes has a result or can go on, in every state that follows (`Machine.Began.proceeds`).
-/

namespace SyncPoint.Host

/-- A request and the answer to it. -/
structure Exchange where
  request : Request
  answer : request.Answer

/-- The exchange changes nothing but the log, wherever it takes place. -/
def Exchange.OnlyReads (x : Exchange) : Prop :=
  ∀ t system system', System.serve stillEngine t x.request system = some (x.answer, system') →
    system' = { system with log := system'.log }

/-- An exchange of a thread. -/
structure Dealing where
  thread : ThreadId
  exchange : Exchange

/-- The exchanges of one thread. -/
def exchangesOf (t : ThreadId) (dealings : List Dealing) : List Exchange :=
  (dealings.filter (·.thread = t)).map (·.exchange)

theorem exchangesOf_append (t : ThreadId) (ds ds' : List Dealing) :
    exchangesOf t (ds ++ ds') = exchangesOf t ds ++ exchangesOf t ds' := by
  simp [exchangesOf]

namespace Machine

variable {s s' x : Machine} {t : ThreadId} {l : Happening} {h : History}

/-- The machine after a step. -/
def next (s : Machine) : Happening → Machine
  | .worker q _ => ((s.beat (.worker q)).map (·.2)).getD s
  | .enter t call => s.enter t call
  | .ask t _ => ((s.beat (.ask t)).map (·.2)).getD s

theorem Step.next_eq (hstep : Step s l s') : s.next l = s' := by
  cases hstep with
  | worker hstep => simp [next, beat, hstep]
  | enter => rfl
  | ask htask hserve => simp [next, beat, htask, hserve]

/-- What is dealt with in a step. -/
def dealing? (s : Machine) : Happening → Option Dealing
  | .ask t request =>
    (System.serve stillEngine t request s.system).map fun reply => ⟨t, ⟨request, reply.1⟩⟩
  | .worker .. | .enter .. => none

/-- What is dealt with in these steps. -/
def dealings (s : Machine) : History → List Dealing
  | [] => []
  | l :: h => (s.dealing? l).toList ++ (s.next l).dealings h

theorem dealings_append (hrun : Run s h x) (h' : History) :
    s.dealings (h ++ h') = s.dealings h ++ x.dealings h' := by
  induction h generalizing s with
  | nil =>
    obtain rfl := hrun.eq_of_nil
    rfl
  | cons l h ih =>
    obtain ⟨y, hstep, hrest⟩ := hrun.uncons
    simp only [List.cons_append, dealings, hstep.next_eq, ih hrest, List.append_assoc]

theorem dealings_concat (hrun : Run s h x) (l : Happening) :
    s.dealings (h ++ [l]) = s.dealings h ++ (x.dealing? l).toList := by
  rw [dealings_append hrun]
  simp [dealings]

/-- A thread deals with nothing in a step that is not its own. -/
theorem exchangesOf_dealing?_of_ne (s : Machine) (hl : l.thread? ≠ some t) :
    exchangesOf t (s.dealing? l).toList = [] := by
  cases l with
  | worker | enter => rfl
  | ask u request =>
    have hu : u ≠ t := fun heq => hl (congrArg some heq)
    cases hserve : System.serve stillEngine u request s.system with
    | none => simp [dealing?, hserve, exchangesOf]
    | some reply => simp [dealing?, hserve, exchangesOf, hu]

end Machine

/-! ## Programs that nobody holds up -/

section Completes

variable {α : Type} {t : ThreadId} {inv : System World → Prop}

/-- Whenever a request of the program is looked at, `inv` holding then, it is answered; in the end
`post` holds of the exchanges and the result. -/
def Completes (t : ThreadId) (inv : System World → Prop) :
    (List Exchange → α → Prop) → Program α → Prop
  | post, .done value => post [] value
  | post, .ask request next => ∀ system, inv system → ∃ answer system',
      System.serve stillEngine t request system = some (answer, system') ∧
        Completes t inv (fun xs => post (⟨request, answer⟩ :: xs)) (next answer)

end Completes

namespace Machine

variable {s s' : Machine} {t : ThreadId} {call : Call} {h : History} {inv : System World → Prop}
  {post : List Exchange → call.Result → Prop}

/-- The thread made the call in the first state, and in the steps up to the second one it has made
no other. -/
structure Began (t : ThreadId) (call : Call) (s : Machine) (h : History) (s' : Machine) : Prop where
  idle : s.Idle t
  allowed : s.Allows call
  run : Run (s.enter t call) h s'
  same : ∀ l ∈ h, ∀ call', l ≠ .enter t call'

/-- The call of the thread has a result, of which `post` holds, or the next request of the thread is
answered. -/
def Proceeds (t : ThreadId) (call : Call) (post : call.Result → Prop) (s : Machine) : Prop :=
  (∃ value queues, s.tasks t = some ⟨call, .done value, queues⟩ ∧ post value) ∨
    ∃ request s', Step s (.ask t request) s'

/-- Whatever others do meanwhile, what is left of a program that completes completes. -/
theorem Run.completes {rest : Program call.Result} {queues : List QueueRef} (hrun : Run s h s')
    (hsame : ∀ l ∈ h, ∀ call', l ≠ .enter t call')
    (hinv : ∀ before after x, h = before ++ after → Run s before x → inv x.system)
    (htask : s.tasks t = some ⟨call, rest, queues⟩) (hrest : Completes t inv post rest) :
    ∃ rest' queues', s'.tasks t = some ⟨call, rest', queues'⟩ ∧
      Completes t inv (fun xs => post (exchangesOf t (s.dealings h) ++ xs)) rest' := by
  induction hrun with
  | refl => exact ⟨rest, queues, htask, hrest⟩
  | @snoc h l x y hbefore hstep ih =>
    obtain ⟨rest', queues', htask', hrest'⟩ := ih
      (fun l hl => hsame l (List.mem_append_left _ hl))
      (fun before after x hsplit => hinv before (after ++ [l]) x (by rw [hsplit, List.append_assoc]))
    have hlast : ∀ call', l ≠ .enter t call' :=
      hsame l (List.mem_append_right _ List.mem_cons_self)
    rw [dealings_concat hbefore, exchangesOf_append]
    by_cases hmine : l.thread? = some t
    · cases hstep with
      | worker => cases hmine
      | enter => cases hmine; exact absurd rfl (hlast _)
      | @ask u call' request next queues'' answer system htask'' hserve =>
        cases hmine
        cases htask'.symm.trans htask''
        obtain ⟨answer', system', hserve', hnext⟩ :=
          hrest' x.system (hinv h [.ask t request] x rfl hbefore)
        cases hserve.symm.trans hserve'
        refine ⟨next answer, _, tasks_withTask_self .., ?_⟩
        simpa [dealing?, hserve, exchangesOf] using hnext
    · rw [exchangesOf_dealing?_of_ne x hmine, List.append_nil]
      refine ⟨rest', queues', ?_, hrest'⟩
      rw [← htask']
      cases hstep with
      | worker => rfl
      | @enter u => exact tasks_withTask_of_ne (fun heq => hmine (congrArg some heq.symm)) ..
      | @ask u => exact tasks_withTask_of_ne (fun heq => hmine (congrArg some heq.symm)) ..

/-- A call whose program completes has a result or goes on. -/
theorem Began.proceeds (hbegan : Began t call s h s')
    (hinv : ∀ before after x, h = before ++ after → Run (s.enter t call) before x → inv x.system)
    (hprogram : Completes t inv post (call.enter s.system).1) :
    Proceeds t call (post (exchangesOf t ((s.enter t call).dealings h))) s' := by
  obtain ⟨rest, queues, htask, hrest⟩ :=
    hbegan.run.completes hbegan.same hinv (tasks_withTask_self ..) hprogram
  cases rest with
  | done value =>
    unfold Completes at hrest
    rw [List.append_nil] at hrest
    exact .inl ⟨value, queues, htask, hrest⟩
  | ask request next =>
    obtain ⟨answer, system, hserve, -⟩ := hrest s'.system
      (hinv h [] s' (List.append_nil h).symm hbegan.run)
    exact .inr ⟨request, _, .ask htask hserve⟩

/-- The same for a program that completes in any state. -/
theorem Began.proceeds_anyhow (hbegan : Began t call s h s')
    (hprogram : Completes t (fun _ => True) post (call.enter s.system).1) :
    Proceeds t call (post (exchangesOf t ((s.enter t call).dealings h))) s' :=
  hbegan.proceeds (fun _ _ _ _ _ => trivial) hprogram

/-- A step in which a thread's exchange only reads changes nothing but the log. -/
theorem Step.system_of_onlyReads {l : Happening} (hstep : Step s l s')
    (hmine : l.thread? = some t) (hcall : ∀ call', l ≠ .enter t call')
    (hreads : ∀ x ∈ exchangesOf t (s.dealing? l).toList, x.OnlyReads) :
    s'.system = { s.system with log := s'.system.log } := by
  cases hstep with
  | worker => cases hmine
  | enter => cases hmine; exact absurd rfl (hcall _)
  | @ask u call request next queues answer system htask hserve =>
    cases hmine
    refine hreads ⟨request, answer⟩ ?_ t s.system system hserve
    simp [dealing?, hserve, exchangesOf]

/-- A call whose exchanges only read changes nothing but the log in any step of its own. -/
theorem Began.system_of_onlyReads (hbegan : Began t call s h s')
    (hreads : ∀ x ∈ exchangesOf t ((s.enter t call).dealings h), x.OnlyReads)
    {before after : History} {l : Happening} {x y : Machine} (hsplit : h = before ++ l :: after)
    (hrun : Run (s.enter t call) before x) (hstep : Step x l y) (hmine : l.thread? = some t) :
    y.system = { x.system with log := y.system.log } := by
  subst hsplit
  refine hstep.system_of_onlyReads hmine (hbegan.same l (by simp)) fun e he => hreads e ?_
  rw [dealings_append hrun, exchangesOf_append, dealings, exchangesOf_append]
  exact List.mem_append_right _ (List.mem_append_left _ he)

end Machine

end SyncPoint.Host
