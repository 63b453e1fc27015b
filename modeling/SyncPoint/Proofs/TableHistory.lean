import SyncPoint.Proofs.Machine.Tables

/-!
# Tables among threads

Whatever threads do with a table from its construction on, and however their calls interleave, the
table is a bounded map with fresh keys (`Machine.table_kept`): the n-th event that is put in gets the
number n, an event is refused exactly if the table is full at that moment, each number is taken out
once, and a number that was taken out, or not given out yet, means nothing.  Asking for the size
tells how many events are there at that moment.

Handles are numbers without a bound here, so a table never runs out of them, and a table can always
grow up to its limit.
-/

namespace SyncPoint.Host.Machine

open TableAct

/-- How threads and a table get along from the moment on in which the table is made. -/
structure TableKept (ref : TableRef) (limit : Option Nat) (s : Machine) : Prop where
  /-- What is done to the table is proper at that moment. -/
  proper : ∀ h x l y dealing act, Run s h x → Step x l y → x.dealing? l = some dealing →
    dealing.exchange.act? ref = some act → Proper limit (s.ledger ref h) act
  /-- The n-th number that is given out is n, so none is given out twice. -/
  numbered : ∀ h x, Run s h x → (issued (s.ledger ref h)).Nodup ∧
    issued (s.ledger ref h) = (List.range (issued (s.ledger ref h)).length).map fun n => ⟨n + 1⟩
  /-- No number is taken out twice, and none that was not given out. -/
  once : ∀ h x, Run s h x → (destroyed (s.ledger ref h)).Nodup ∧
    ∀ handle ∈ destroyed (s.ledger ref h), handle ∈ issued (s.ledger ref h)
  /-- The table holds as many events as were put in and not taken out. -/
  size : ∀ h x, Run s h x → (x.system.table ref).size = count (s.ledger ref h) ∧
    (x.system.table ref).size + (destroyed (s.ledger ref h)).length =
      (issued (s.ledger ref h)).length
  /-- The table never holds more events than it may. -/
  bounded : ∀ h x max, Run s h x → limit = some max → (x.system.table ref).size ≤ max
  /-- Whoever creates an event is answered at once. The flags are refused, or the event is put in
  once, or refused, and that is what the call returns. -/
  created : ∀ h x t raw during y, Run s h x → Began t (.tableCreate ref raw) x during y →
    Proceeds t (.tableCreate ref raw)
      (Created raw ((x.enter t (.tableCreate ref raw)).ledgerOf ref t during)) y
  /-- So is whoever creates an event without flags, which are never refused. -/
  createdDefault : ∀ h x t during y, Run s h x → Began t (.tableCreateDefault ref) x during y →
    Proceeds t (.tableCreateDefault ref)
      (PutIn .empty ((x.enter t (.tableCreateDefault ref)).ledgerOf ref t during)) y
  /-- Whoever destroys an event is answered at once, by what was done to the table. -/
  destroyed : ∀ h x t handle during y, Run s h x → Began t (.tableDestroy ref handle) x during y →
    Proceeds t (.tableDestroy ref handle)
      (Destroyed handle ((x.enter t (.tableDestroy ref handle)).ledgerOf ref t during)) y
  /-- Whoever gets an event is answered at once, by what was found in the table. -/
  got : ∀ h x t handle during y, Run s h x → Began t (.tableGet ref handle) x during y →
    Proceeds t (.tableGet ref handle)
      (Got handle ((x.enter t (.tableGet ref handle)).ledgerOf ref t during)) y
  /-- Whoever asks how many events there are is answered at once, by how many there were then. -/
  counted : ∀ h x t during y, Run s h x → Began t (.tableSize ref) x during y →
    Proceeds t (.tableSize ref) (Counted ((x.enter t (.tableSize ref)).ledgerOf ref t during)) y
  /-- So is whoever asks whether there are none. -/
  toldEmpty : ∀ h x t during y, Run s h x → Began t (.tableIsEmpty ref) x during y →
    Proceeds t (.tableIsEmpty ref)
      (ToldEmpty ((x.enter t (.tableIsEmpty ref)).ledgerOf ref t during)) y
  /-- Whoever means an event by a number that was taken out before, or has not been given out, is
  answered at once that there is no such event, and nothing but the log changes. -/
  dead : ∀ h x t call handle during y, Run s h x → Began t call x during y → ref ∈ call.tables →
    handle ∈ call.handles →
    (handle ∈ TableAct.destroyed (s.ledger ref h) ∨
      handle ∉ issued (s.ledger ref (h ++ .enter t call :: during))) →
    Proceeds t call (fun result => call.failure? result = some .unknownEvent ∧
      ∀ before l after u v, during = before ++ l :: after → Run (x.enter t call) before u →
        Step u l v → l.thread? = some t → v.system = { u.system with log := v.system.log }) y

variable {s s' x y : Machine} {t : ThreadId} {h during : History} {ref : TableRef}
  {limit : Option Nat} {call : Call} {handle : EventHandle}

/-- A handle that is dead when a call begins, or that is not given out until later, is not known to
the table at any moment of the call. -/
theorem Keeps.lacks (hkeeps : Keeps ref limit s []) (hrun : Run s h x)
    (hbegan : Began t call x during y)
    (hdead : handle ∈ destroyed (s.ledger ref h) ∨
      handle ∉ issued (s.ledger ref (h ++ .enter t call :: during)))
    {before after : History} {u : Machine} (hsplit : during = before ++ after)
    (hbefore : Run (x.enter t call) before u) : Lacks ref handle u.system := by
  have hcall : Run s (h ++ .enter t call :: before) u :=
    hrun.trans ((Step.enter hbegan.idle hbegan.allowed).run.trans hbefore)
  have hkept := hkeeps.of_run hcall
  rw [Lacks, hkept.represents.find?_eq_none_iff]
  rintro ⟨hissued, halive⟩
  rcases hdead with hdestroyed | hunissued
  · rw [ledger_append hrun, destroyed_append] at halive
    exact halive (List.mem_append_left _ hdestroyed)
  · have hsplit' : h ++ .enter t call :: during = (h ++ .enter t call :: before) ++ after := by
      simp [hsplit]
    rw [hsplit', ledger_append hcall, issued_append] at hunissued
    exact hunissued (List.mem_append_left _ hissued)

/-- From its construction on, a table is a bounded map with fresh keys. -/
theorem table_kept {s₀ : Machine} {t₀ : ThreadId} {h₀ : History}
    (hnew : Returns t₀ (.newTable limit) s₀ h₀ ref s) : TableKept ref limit s := by
  have hkeeps : Keeps ref limit s [] := keeps_of_newTable hnew
  refine
    { proper := ?_, numbered := ?_, once := ?_, size := ?_, bounded := ?_, created := ?_,
      createdDefault := ?_, destroyed := ?_, got := ?_, counted := ?_, toldEmpty := ?_, dead := ?_ }
  · intro h x l y dealing act hrun hstep hdealing hact
    have hkept := hkeeps.of_run hrun
    have hacts := (hstep.table_acts hkept.exists_table).2
    simp only [hdealing, Option.bind_some, hact] at hacts
    exact hkept.represents.proper hkept.conforms hacts
  · intro h x hrun
    have hconforms := (hkeeps.of_run hrun).conforms
    exact ⟨hconforms.nodup, hconforms.numbered⟩
  · intro h x hrun
    exact (hkeeps.of_run hrun).conforms.destroyed_once
  · intro h x hrun
    have hkept := hkeeps.of_run hrun
    exact ⟨hkept.represents.size_eq_count hkept.conforms, hkept.represents.size_eq hkept.conforms⟩
  · intro h x max hrun hlimit
    have hkept := hkeeps.of_run hrun
    rw [hkept.represents.size_eq_count hkept.conforms]
    exact hkept.conforms.count_le hlimit
  · intro h x t raw during y hrun hbegan
    exact hbegan.proceeds_anyhow (completes_create raw)
  · intro h x t during y hrun hbegan
    exact hbegan.proceeds_anyhow completes_createDefault
  · intro h x t handle during y hrun hbegan
    exact hbegan.proceeds_anyhow (completes_destroy handle)
  · intro h x t handle during y hrun hbegan
    exact hbegan.proceeds_anyhow (completes_get handle)
  · intro h x t during y hrun hbegan
    exact hbegan.proceeds_anyhow completes_count
  · intro h x t during y hrun hbegan
    exact hbegan.proceeds_anyhow completes_isEmpty
  · intro h x t call handle during y hrun hbegan href hhandle hdead
    have hlacks : ∀ before after u, during = before ++ after → Run (x.enter t call) before u →
        Lacks ref handle u.system :=
      fun _ _ _ hsplit hbefore => hkeeps.lacks hrun hbegan hdead hsplit hbefore
    rcases hbegan.proceeds hlacks (refused_of_lacks href hhandle x.system) with
      ⟨result, queues, htask, hfailed, hreads⟩ | hgoes
    · refine .inl ⟨result, queues, htask, hfailed, ?_⟩
      intro before l after u v hsplit hbefore hstep hmine
      exact hbegan.system_of_onlyReads hreads hsplit hbefore hstep hmine
    · exact .inr hgoes

/-! ### A table that is filled again -/

namespace Refilled

def empty : Machine := (start fun _ => 0).made 0 (.newTable (some 1))

/-- A table of one event is filled, refuses another one, is emptied, and filled again. -/
def filling : List Turn :=
  [.call 0 (.tableCreateDefault 0), .call 1 (.tableCreate 0 0), .call 1 (.tableDestroy 0 ⟨1⟩),
    .call 1 (.tableCreateDefault 0)]

def filled : Machine := reached filling empty

/-- The first event is gone. -/
def measuring : Call := .tableElapsedTime 0 ⟨2⟩ ⟨1⟩

def asking : List Beat := [.ask 0, .ask 0]

def sizing : List Beat := [.ask 1]

def sized : Machine := playedTo sizing (filled.enter 1 (.tableSize 0))

def measured : Machine := playedTo asking (filled.enter 0 measuring)

end Refilled

open Refilled in
theorem table_kept_refilled :
    issued (empty.ledger 0 (told filling empty)) = [⟨1⟩, ⟨2⟩] ∧
      (filled.system.table 0).size = 1 ∧
        Proceeds 1 (.tableSize 0) (fun n => n = 1) sized ∧
          Proceeds 0 measuring (fun result => measuring.failure? result = some .unknownEvent)
            measured := by
  have hnew : Returns 0 (.newTable (some 1)) (start fun _ => 0)
      ((start fun _ => 0).asked 0 (.newTable (some 1))) 0 empty := returns_made (by rfl)
  have hkept : TableKept 0 (some 1) empty := table_kept hnew
  have hrun : Run empty (told filling empty) filled := run_reached (by decide)
  have hplayed : played asking (filled.enter 0 measuring) =
      [.ask 0 (.find 0 ⟨2⟩), .ask 0 (.find 0 ⟨1⟩)] := by rfl
  have hbegan : Began 0 measuring filled (played asking (filled.enter 0 measuring)) measured := by
    refine ⟨idle_of_idle (by decide), allows_of_permits (by decide), run_playedTo (by decide), ?_⟩
    simp [hplayed]
  have hsizes : played sizing (filled.enter 1 (.tableSize 0)) = [.ask 1 (.size 0)] := by rfl
  have hbegan' : Began 1 (.tableSize 0) filled (played sizing (filled.enter 1 (.tableSize 0)))
      sized := by
    refine ⟨idle_of_idle (by decide), allows_of_permits (by decide), run_playedTo (by decide), ?_⟩
    simp [hsizes]
  refine ⟨(hkept.numbered _ _ hrun).2.trans (by decide),
    (hkept.size _ _ hrun).1.trans (by decide), ?_, ?_⟩
  · have hledger : (filled.enter 1 (.tableSize 0)).ledgerOf 0 1
        (played sizing (filled.enter 1 (.tableSize 0))) = [.size 1] := by rfl
    rcases hkept.counted _ _ 1 _ _ hrun hbegan' with ⟨n, queues, htask, hcounted⟩ | hgoes
    · refine .inl ⟨n, queues, htask, ?_⟩
      cases hledger.symm.trans hcounted
      rfl
    · exact .inr hgoes
  have hdead := hkept.dead _ _ 0 measuring ⟨1⟩ _ _ hrun hbegan (by decide) (by decide)
    (.inl (by decide))
  rcases hdead with ⟨result, queues, htask, hfailed, -⟩ | hgoes
  · exact .inl ⟨result, queues, htask, hfailed⟩
  · exact .inr hgoes

end SyncPoint.Host.Machine
