import SyncPoint.Proofs.Host.Front
import SyncPoint.Proofs.Machine.Termination

/-!
# Fair courses

A course is a run without end that is fair: whoever can go on from some moment on does so in the
end.  Calls may be made all the while.  If no gate is closed from some moment on, every command runs
in the end (`Machine.Course.completes`), because the commands that it depends on are older and come
first, and then its own worker has only so much to do.  Every wait for a command therefore ends
(`Machine.Course.answers`).  There is a course from every state (`Machine.exists_course`).
-/

namespace SyncPoint.Host.Machine

/-- The thread is in a call and what it asks next would be answered. -/
def Answered (s : Machine) (t : ThreadId) : Prop :=
  ∃ call request next queues, s.tasks t = some ⟨call, .ask request next, queues⟩ ∧
    System.serve stillEngine t request s.system ≠ none

/-- A run without end, at times with nothing happening, in which no worker and no thread stands
still for ever that could go on from some moment on. -/
structure Course (s : Nat → Machine) (l : Nat → Option Happening) : Prop where
  moves : ∀ n, l n = none ∧ s (n + 1) = s n ∨
    ∃ happening, l n = some happening ∧ Step (s n) happening (s (n + 1))
  works : ∀ q n, (∀ m, n ≤ m → (s m).world.step? q ≠ none) →
    ∃ m place, n ≤ m ∧ l m = some (.worker q place)
  asks : ∀ t n, (∀ m, n ≤ m → (s m).Answered t) →
    ∃ m request, n ≤ m ∧ l m = some (.ask t request)

/-- What happens before the `n`-th moment of a course. -/
def happened (l : Nat → Option Happening) : Nat → History
  | 0 => []
  | n + 1 => happened l n ++ (l n).toList

/-- No step leaves more to do for a command that is due. -/
theorem Sound.toGo_le_of_step {s s' : Machine} {l : Happening} {c : CommandRef} (h : s.Sound)
    (hdue : s.world.Due c) (hstep : Step s l s') (hpending : s'.world.status c = .pending) :
    s'.world.toGo c ≤ s.world.toGo c := by
  have hgrows := h.grows_of_step hstep
  rcases h.world_of_step hstep with ⟨q, -, hworks⟩ | ⟨-, hsame | hcalled⟩
  · by_cases hq : (s.world.command c).queue = q
    · subst q
      rcases World.toGo_lt_of_works h.world hdue hworks with hcomplete | hlt
      · rw [hpending] at hcomplete
        cases hcomplete
      · exact Nat.le_of_lt hlt
    · have hworker := congrArg Queue.worker (hworks.queue_of_ne hq)
      exact Nat.le_of_eq (World.toGo_eq h.world hdue hgrows hworker)
  · rw [hsame]
  · have hworker := hcalled.worker (h.world.owner c hdue.exist)
    exact Nat.le_of_eq (World.toGo_eq h.world hdue hgrows hworker)

namespace Course

variable {s : Nat → Machine} {l : Nat → Option Happening} {n m : Nat} {c : CommandRef}

theorem sound (h : Course s l) (hsound : (s 0).Sound) (n : Nat) : (s n).Sound := by
  induction n with
  | zero => exact hsound
  | succ n ih =>
    rcases h.moves n with ⟨-, hsame⟩ | ⟨happening, -, hstep⟩
    · rw [hsame]; exact ih
    · exact ih.of_step hstep

/-- What happens before the `n`-th moment of a course is a run. -/
theorem run (h : Course s l) (n : Nat) : Run (s 0) (happened l n) (s n) := by
  induction n with
  | zero => exact .refl
  | succ n ih =>
    rcases h.moves n with ⟨hnothing, hsame⟩ | ⟨happening, hlabel, hstep⟩
    · rw [happened, hnothing, Option.toList_none, List.append_nil, hsame]
      exact ih
    · rw [happened, hlabel]
      exact ih.snoc hstep

/-- Without new calls gates stay open. -/
theorem keeps_open (h : Course s l) (hcall : ∀ n t call, l n ≠ some (.enter t call))
    (hopen : (s 0).world.Open) (n : Nat) : (s n).world.Open := by
  induction n with
  | zero => exact hopen
  | succ n ih =>
    rcases h.moves n with ⟨-, hsame⟩ | ⟨happening, hlabel, hstep⟩
    · rw [hsame]; exact ih
    · refine hstep.keeps_open (fun t call heq => hcall n t call ?_) ih
      rw [hlabel, heq]

variable (h : Course s l) (hsound : ∀ n, (s n).Sound)
include h hsound

theorem grows (hnm : n ≤ m) : (s n).world.Grows (s m).world := by
  induction m, hnm using Nat.le_induction with
  | base => exact .refl _
  | succ m _ ih =>
    rcases h.moves m with ⟨-, hsame⟩ | ⟨happening, -, hstep⟩
    · rw [hsame]; exact ih
    · exact ih.trans ((hsound m).grows_of_step hstep)

/-- As long as a command that is due does not run, it never has more to do. -/
theorem toGo_le (hdue : ∀ k, n ≤ k → (s k).world.Due c) (hnm : n ≤ m) :
    (s m).world.toGo c ≤ (s n).world.toGo c := by
  induction m, hnm using Nat.le_induction with
  | base => exact Nat.le_refl _
  | succ m hnm ih =>
    rcases h.moves m with ⟨-, hsame⟩ | ⟨happening, -, hstep⟩
    · rw [hsame]; exact ih
    · have hpending := (hdue (m + 1) (Nat.le_succ_of_le hnm)).pending
      exact Nat.le_trans ((hsound m).toGo_le_of_step (hdue m hnm) hstep hpending) ih

/-- As long as a command that is due does not run and its gate is open, its worker gets to do
something for it. -/
theorem exists_toGo_lt (hdue : ∀ k, n ≤ k → (s k).world.Due c)
    (hopen : ∀ k, n ≤ k → ((s k).world.queue ((s n).world.command c).queue).paused = false) :
    ∃ m, n ≤ m ∧ (s m).world.toGo c < (s n).world.toGo c := by
  have hqueue : ∀ k, n ≤ k → ((s k).world.command c).queue = ((s n).world.command c).queue :=
    fun k hk => (h.grows hsound hk).queue_command (hdue n (Nat.le_refl _)).exist
  have hable : ∀ k, n ≤ k → (s k).world.step? ((s n).world.command c).queue ≠ none := by
    intro k hk
    have hgate := hopen k hk
    rw [← hqueue k hk] at hgate ⊢
    exact (hsound k).world.step?_ne_none (hdue k hk) hgate
  obtain ⟨m, place, hm, hlabel⟩ := h.works _ n hable
  refine ⟨m + 1, Nat.le_succ_of_le hm, ?_⟩
  rcases h.moves m with ⟨hnone, -⟩ | ⟨happening, hsome, hstep⟩
  · rw [hlabel] at hnone
    cases hnone
  · obtain rfl := Option.some.inj (hlabel.symm.trans hsome)
    have hworks : (s m).world.Works ((s m).world.command c).queue (s (m + 1)).world := by
      rw [hqueue m hm]
      rcases (hsound m).world_of_step hstep with ⟨q, hq, hworks⟩ | ⟨⟨t, ht⟩, -⟩
      · cases hq
        exact hworks
      · cases ht
    rcases World.toGo_lt_of_works (hsound m).world (hdue m hm) hworks with hcomplete | hlt
    · rw [(hdue (m + 1) (Nat.le_succ_of_le hm)).pending] at hcomplete
      cases hcomplete
    · exact Nat.lt_of_lt_of_le hlt (h.toGo_le hsound hdue hm)

/-- A command that is due runs in the end if its gate is open, since there is only so much to do for
it. -/
theorem completes_of_due (hdue : (s n).world.Due c)
    (hopen : ∀ k, n ≤ k → ((s k).world.queue ((s n).world.command c).queue).paused = false) :
    ∃ m, n ≤ m ∧ (s m).world.status c = .complete := by
  rcases Classical.em (∃ m, n ≤ m ∧ (s m).world.status c = .complete) with hsome | hnone
  · exact hsome
  · have hstays : ∀ k, n ≤ k → (s k).world.Due c := by
      intro k hk
      refine hdue.grows (h.grows hsound hk) ?_
      cases hstatus : (s k).world.status c with
      | pending => rfl
      | complete => exact absurd ⟨k, hk, hstatus⟩ hnone
    have hless : ∀ k, ∃ m, n ≤ m ∧ (s m).world.toGo c + k ≤ (s n).world.toGo c := by
      intro k
      induction k with
      | zero => exact ⟨n, Nat.le_refl _, Nat.le_refl _⟩
      | succ k ih =>
        obtain ⟨m, hm, hle⟩ := ih
        obtain ⟨m', hm', hlt⟩ := h.exists_toGo_lt hsound
          (fun k hk => hstays k (Nat.le_trans hm hk)) fun k hk => by
            rw [(h.grows hsound hm).queue_command hdue.exist]
            exact hopen k (Nat.le_trans hm hk)
        exact ⟨m', Nat.le_trans hm hm', by omega⟩
    obtain ⟨m, -, hle⟩ := hless ((s n).world.toGo c + 1)
    omega

/-- Where the gates of all that a command requires are open from some moment on, the command runs in
the end: first what it depends on, which is older, and then the command itself. -/
theorem completes_of_requires {k : Nat} (hc : c < (s n).world.commands.length)
    (hopen : ∀ i, k ≤ i → ∀ d, (s n).world.Requires c d →
      ((s i).world.queue ((s n).world.command d).queue).paused = false) :
    ∃ m, n ≤ m ∧ (s m).world.status c = .complete := by
  induction c using Nat.strongRecOn with
  | _ c ih =>
    have hfirst : ∀ e, e ≤ c → ∃ m, n ≤ m ∧
        ∀ d, d < e → (s n).world.DependsOn c d → (s m).world.status d = .complete := by
      intro e he
      induction e with
      | zero => exact ⟨n, Nat.le_refl _, fun d hd => absurd hd (Nat.not_lt_zero d)⟩
      | succ e ihe =>
        obtain ⟨m, hm, hdone⟩ := ihe (Nat.le_of_succ_le he)
        by_cases hdepends : (s n).world.DependsOn c e
        · obtain ⟨m', hm', hcomplete⟩ := ih e he (Nat.lt_trans he hc)
            fun i hi d hd => hopen i hi d (.head hdepends hd)
          refine ⟨max m m', Nat.le_trans hm (Nat.le_max_left ..), fun d hd hd' => ?_⟩
          rcases Nat.lt_succ_iff_lt_or_eq.1 hd with hlt | rfl
          · exact (h.grows hsound (Nat.le_max_left ..)).status (hdone d hlt hd')
          · exact (h.grows hsound (Nat.le_max_right ..)).status hcomplete
        · refine ⟨m, hm, fun d hd hd' => ?_⟩
          rcases Nat.lt_succ_iff_lt_or_eq.1 hd with hlt | rfl
          · exact hdone d hlt hd'
          · exact absurd hd' hdepends
    obtain ⟨m₀, hm₀, hdone⟩ := hfirst c (Nat.le_refl c)
    -- by then gates are open too
    obtain ⟨m, hm, hk⟩ : ∃ m, m₀ ≤ m ∧ k ≤ m := ⟨max m₀ k, Nat.le_max_left .., Nat.le_max_right ..⟩
    have hgrows := h.grows hsound (Nat.le_trans hm₀ hm)
    cases hstatus : (s m).world.status c with
    | complete => exact ⟨m, Nat.le_trans hm₀ hm, hstatus⟩
    | pending =>
      have hdue : (s m).world.Due c := by
        refine ⟨Nat.lt_of_lt_of_le hc hgrows.commands_le, hstatus, fun d hd => ?_⟩
        have hearlier := hdone d ((hsound m).world.lt_of_dependsOn hd) (hd.of_grows hgrows hc)
        exact (h.grows hsound hm).status hearlier
      obtain ⟨m', hm', hcomplete⟩ := h.completes_of_due hsound hdue fun i hi => by
        rw [hgrows.queue_command hc]
        exact hopen i (Nat.le_trans hk hi) c .refl
      exact ⟨m', Nat.le_trans hm₀ (Nat.le_trans hm hm'), hcomplete⟩

/-- Where no gate is closed any more, every command runs in the end. -/
theorem completes {k : Nat} (hopen : ∀ i, k ≤ i → (s i).world.Open)
    (hc : c < (s n).world.commands.length) : ∃ m, n ≤ m ∧ (s m).world.status c = .complete :=
  h.completes_of_requires hsound hc fun i hi _ _ => (hopen i hi).paused _

/-- Where no gate is closed any more, every wait for a command ends. -/
theorem answers {k : Nat} (hopen : ∀ i, k ≤ i → (s i).world.Open) {t : ThreadId} {call : Call}
    {next : Unit → Program call.Result} {queues : List QueueRef}
    (htask : (s n).tasks t = some ⟨call, .ask (.engine (.await c)) next, queues⟩) :
    ∃ m, n ≤ m ∧ l m = some (.ask t (.engine (.await c))) := by
  rcases Classical.em (∃ m, n ≤ m ∧ l m = some (.ask t (.engine (.await c)))) with hsome | hnone
  · exact hsome
  · -- the thread would wait for ever for a command that has run
    have hwaits : ∀ k, n ≤ k →
        (s k).tasks t = some ⟨call, .ask (.engine (.await c)) next, queues⟩ := by
      intro k hk
      induction k, hk using Nat.le_induction with
      | base => exact htask
      | succ k hk ih =>
        rcases h.moves k with ⟨-, hsame⟩ | ⟨happening, hlabel, hstep⟩
        · rw [hsame]; exact ih
        · by_cases ht : happening.thread? = some t
          · obtain rfl := eq_ask_of_step hstep ht ih
            exact absurd ⟨k, hk, hlabel⟩ hnone
          · exact ((hsound k).meanwhile hstep ht).1.trans ih
    obtain ⟨held, -, hconduct⟩ := (hsound n).conduct t
    have hc : c < (s n).world.commands.length := (hconduct.of_task htask).1
    obtain ⟨m, hm, hcomplete⟩ := h.completes hsound hopen hc
    have hanswered : ∀ k, m ≤ k → (s k).Answered t := by
      intro k hk
      refine ⟨call, .engine (.await c), next, queues, hwaits k (Nat.le_trans hm hk), ?_⟩
      intro hserve
      rcases waits_of_serve_eq_none hserve with ⟨event, u, heq, -⟩ | ⟨d, heq, hpending⟩
      · cases heq
      · cases heq
        exact hpending ((h.grows hsound hk).status hcomplete)
    obtain ⟨m', request, hm', hlabel⟩ := h.asks t m hanswered
    have hn := Nat.le_trans hm hm'
    rcases h.moves m' with ⟨hnothing, -⟩ | ⟨happening, hlabel', hstep⟩
    · rw [hlabel] at hnothing
      cases hnothing
    · obtain rfl := Option.some.inj (hlabel.symm.trans hlabel')
      rw [eq_ask_of_step hstep rfl (hwaits m' hn)] at hlabel
      exact absurd ⟨m', hn, hlabel⟩ hnone

end Course

/-! ## Courses exist -/

/-- A machine at rest may stay so. -/
theorem course_of_rest {s : Machine} (hrest : ∀ s', ¬ GoesOn s' s) :
    Course (fun _ => s) fun _ => none where
  moves _ := .inl ⟨rfl, rfl⟩
  works q n hable := absurd (step?_eq_none_of_rest hrest q) (hable n (Nat.le_refl n))
  asks t n hanswered := by
    obtain ⟨call, request, next, queues, htask, hserve⟩ := hanswered n (Nat.le_refl n)
    cases hreply : System.serve stillEngine t request s.system with
    | none => exact absurd hreply hserve
    | some reply =>
      obtain ⟨answer, system⟩ := reply
      exact absurd ⟨_, fun _ _ heq => (by cases heq), .ask htask hreply⟩ (hrest _)

/-- A step before a course makes a course. -/
theorem Course.cons {x : Machine} {happening : Happening} {s : Nat → Machine}
    {l : Nat → Option Happening} (hstep : Step x happening (s 0)) (h : Course s l) :
    Course (fun n => n.casesOn x s) fun n => n.casesOn (some happening) l where
  moves
    | 0 => .inr ⟨happening, rfl, hstep⟩
    | n + 1 => h.moves n
  works q n hable := by
    obtain ⟨m, place, hm, hlabel⟩ := h.works q n fun m hm => hable (m + 1) (Nat.le_succ_of_le hm)
    exact ⟨m + 1, place, Nat.le_succ_of_le hm, hlabel⟩
  asks t n hanswered := by
    obtain ⟨m, request, hm, hlabel⟩ :=
      h.asks t n fun m hm => hanswered (m + 1) (Nat.le_succ_of_le hm)
    exact ⟨m + 1, request, Nat.le_succ_of_le hm, hlabel⟩

/-- From every state there is a course, even without a new call. -/
theorem exists_course {x : Machine} (hx : x.Reachable) :
    ∃ s l, Course s l ∧ s 0 = x ∧ ∀ n t call, l n ≠ some (.enter t call) := by
  have hacc := acc_goesOn hx
  clear hx
  induction hacc with
  | intro x _ ih =>
    rcases Classical.em (∃ x', GoesOn x' x) with ⟨x', hgoes⟩ | hrest
    · obtain ⟨s, l, hcourse, rfl, hl⟩ := ih x' hgoes
      obtain ⟨happening, hcall, hstep⟩ := hgoes
      refine ⟨_, _, hcourse.cons hstep, rfl, fun n t call => ?_⟩
      cases n with
      | zero => exact fun heq => hcall t call (Option.some.inj heq)
      | succ n => exact hl n t call
    · exact ⟨_, _, course_of_rest (not_exists.1 hrest), rfl, fun _ _ _ => nofun⟩

end SyncPoint.Host.Machine
