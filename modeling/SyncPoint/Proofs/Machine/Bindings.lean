import SyncPoint.Proofs.Machine.Replay

/-!
# Who binds events

Only a request to bind an event changes what it is bound to, so an event that nobody binds in a run
(`Untouched`) stays bound to what it is bound to (`Machine.Run.binding_eq`).
-/

namespace SyncPoint.Host

/-- The event that a step binds. -/
def Happening.binds? : Happening → Option Event
  | .ask _ (.bind event _) => some event
  | _ => none

/-- Nobody binds the event in these steps. -/
def Untouched (event : Event) (h : History) : Prop :=
  ∀ l ∈ h, ∀ other ∈ l.binds?, other.ordinal ≠ event.ordinal

instance (event : Event) (h : History) : Decidable (Untouched event h) :=
  inferInstanceAs (Decidable (∀ l ∈ h, ∀ other ∈ l.binds?, other.ordinal ≠ event.ordinal))

theorem Untouched.of_append {event : Event} {h h' : History} (hall : Untouched event (h ++ h')) :
    Untouched event h ∧ Untouched event h' :=
  ⟨fun l hl => hall l (List.mem_append_left _ hl), fun l hl => hall l (List.mem_append_right _ hl)⟩

/-- A call that begins binds nothing yet. -/
theorem Untouched.enter_cons {event : Event} {t : ThreadId} {call : Call} {h : History}
    (huntouched : Untouched event h) : Untouched event (.enter t call :: h) := by
  intro l hl other hother
  rcases List.mem_cons.1 hl with rfl | hl
  · cases hother
  · exact huntouched l hl other hother

/-- Only a request to bind an event changes what it is bound to. -/
theorem Serves.binding_eq {t : ThreadId} {request : Request} {answer : request.Answer}
    {a b : System World} (h : Serves t a request answer b) {event : Event}
    (hrequest : ∀ other binding, request = .bind other binding → other.ordinal ≠ event.ordinal) :
    b.binding event = a.binding event := by
  cases h with
  | engine | binding | peek | full | register | unknown | unregister | find | size | log => rfl
  | newEvent => exact congrArg EventCell.binding (getD_cells_concat _ _)
  | lock other | unlock other =>
    rw [System.binding]
    rcases cell_setCell a other _ event with hsame | ⟨ho, hsame⟩
    · rw [hsame]; rfl
    · rw [hsame, System.binding, System.cell, System.cell, ho]
  | bind other binding =>
    have hne := hrequest other binding rfl
    exact congrArg EventCell.binding (System.cell_setCell_of_ne (Ne.symm hne) _ _)

namespace Machine

variable {s s' : Machine} {event : Event} {h : History}

theorem Step.binding_eq {l : Happening} (hstep : Step s l s') (huntouched : Untouched event [l]) :
    s'.system.binding event = s.system.binding event := by
  cases hstep with
  | worker => rfl
  | @enter t call =>
    exact congrArg (fun cells : List EventCell => (cells.getD event.ordinal {}).binding)
      (Call.cells_enter call s.system)
  | @ask t call request next queues answer system htask hserve =>
    refine (serves_of_serve hserve).binding_eq fun other binding hrequest => ?_
    subst hrequest
    exact huntouched _ List.mem_cons_self other rfl

/-- An event that nobody binds stays bound to what it is bound to. -/
theorem Run.binding_eq (hrun : Run s h s') (huntouched : Untouched event h) :
    s'.system.binding event = s.system.binding event := by
  induction hrun with
  | refl => rfl
  | snoc _ hstep ih =>
    obtain ⟨hbefore, hlast⟩ := huntouched.of_append
    exact (hstep.binding_eq hlast).trans (ih hbefore)

/-- Events are never lost. -/
theorem Run.cells_le (hrun : Run s h s') : s.system.cells.length ≤ s'.system.cells.length := by
  induction hrun with
  | refl => exact Nat.le_refl _
  | snoc _ hstep ih =>
    refine Nat.le_trans ih ?_
    cases hstep with
    | worker => exact Nat.le_refl _
    | @enter t call => exact Nat.le_of_eq (congrArg List.length (Call.cells_enter call _)).symm
    | ask htask hserve => exact (serves_of_serve hserve).cells_le

/-- The machine is in state `x` between two of these steps, or before or after them. -/
def During (s : Machine) (h : History) (x : Machine) : Prop :=
  ∃ before after, h = before ++ after ∧ Run s before x

theorem During.reachable {x : Machine} (hduring : During s h x) (hs : s.Reachable) :
    x.Reachable := by
  obtain ⟨before, after, -, hrun⟩ := hduring
  exact hs.run hrun

theorem During.run {x : Machine} (hduring : During s h x) (hrun : Run s h s') :
    ∃ after, Run x after s' := by
  obtain ⟨before, after, rfl, hbefore⟩ := hduring
  obtain ⟨y, hbefore', hafter⟩ := hrun.split
  obtain rfl := hbefore.unique hbefore'
  exact ⟨after, hafter⟩

theorem During.grows {x : Machine} (hduring : During s h x) (hs : s.Reachable) (hrun : Run s h s') :
    x.world.Grows s'.world := by
  obtain ⟨after, hafter⟩ := hduring.run hrun
  exact (sound_of_reachable (hduring.reachable hs)).grows hafter

/-- Of two states in a run, one comes first. -/
theorem During.total {x y : Machine} (hx : During s h x) (hy : During s h y) :
    (∃ h', Run x h' y) ∨ ∃ h', Run y h' x := by
  obtain ⟨before, after, rfl, hbefore⟩ := hx
  obtain ⟨before', after', hsplit, hbefore'⟩ := hy
  rcases List.append_eq_append_iff.1 hsplit with ⟨rest, rfl, -⟩ | ⟨rest, rfl, -⟩
  · obtain ⟨z, hz, hrest⟩ := hbefore'.split
    exact .inl ⟨rest, hbefore.unique hz ▸ hrest⟩
  · obtain ⟨z, hz, hrest⟩ := hbefore.split
    exact .inr ⟨rest, hbefore'.unique hz ▸ hrest⟩

theorem During.binding_eq {x : Machine} (hduring : During s h x) (huntouched : Untouched event h) :
    x.system.binding event = s.system.binding event := by
  obtain ⟨before, after, rfl, hrun⟩ := hduring
  exact hrun.binding_eq huntouched.of_append.1

/-- A call that returned has ensured what its program ensures, where its requests are answered in
states of the machine during the call. -/
theorem Returns.ensures_during {t : ThreadId} {call : Call} {value : call.Result}
    (hreturns : Returns t call s h value s') (hsound : s.Sound)
    {post : System World → call.Result → Prop}
    (hensures : Ensures t (fun system => ∃ x, During s h x ∧ x.system = system) post
      (call.enter s.system).1 (call.enter s.system).2) : post s'.system value := by
  refine hreturns.ensures hsound _ ?_ hensures
  intro before after x hsplit hrun
  exact ⟨x, ⟨before, after, hsplit, hrun⟩, rfl⟩

end Machine

end SyncPoint.Host
