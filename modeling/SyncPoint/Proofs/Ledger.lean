import Mathlib.Data.List.Nodup
import Mathlib.Data.List.Perm.Subperm
import SyncPoint.Table

/-!
# Bounded maps with fresh keys

What is done to a table is a list of acts with their answers.  `Proper` says which answer comes next
of a map that is bounded and uses each key once: the n-th event is put under the number n, an event
is refused exactly if as many are there as there may be, and a key that was taken out, or not given
out yet, means nothing.  Counting tells how many were put in and not taken out.  `Conforms` says
this of a whole list.

`Represents` ties a list of acts to the table that it leads to.  Tables keep to it, and give the
answers that are proper (`Represents.proper`).
-/

namespace SyncPoint

/-- What is done to a table, with the answer. -/
inductive TableAct
  /-- An event is put in, under the number in the answer, or is refused. -/
  | put (event : Event) (answer : Option EventHandle)
  | take (handle : EventHandle) (found : Bool)
  | look (handle : EventHandle) (answer : Option Event)
  /-- The events are counted. -/
  | size (answer : Nat)
  deriving DecidableEq, Repr

namespace TableAct

/-- What an act puts in. -/
def filing? : TableAct → Option (EventHandle × Event)
  | put event (some handle) => some (handle, event)
  | _ => none

/-- What an act takes out. -/
def taken? : TableAct → Option EventHandle
  | take handle true => some handle
  | _ => none

/-- What was put in, oldest first. -/
def filed (acts : List TableAct) : List (EventHandle × Event) := acts.filterMap filing?

/-- The numbers that were given out, oldest first. -/
def issued (acts : List TableAct) : List EventHandle := (filed acts).map (·.1)

/-- The numbers that were taken out. -/
def destroyed (acts : List TableAct) : List EventHandle := acts.filterMap taken?

/-- How many events are there. -/
def count (acts : List TableAct) : Nat := (issued acts).length - (destroyed acts).length

/-- The number was given out and not taken out. -/
def Live (acts : List TableAct) (handle : EventHandle) : Prop :=
  handle ∈ issued acts ∧ handle ∉ destroyed acts

/-- After these acts, this one is that of a bounded map with fresh keys. -/
inductive Proper (limit : Option Nat) (acts : List TableAct) : TableAct → Prop
  | put (event : Event) {handle : EventHandle} (hroom : limit ≠ some (count acts))
      (hfresh : handle.number = (issued acts).length + 1) :
      Proper limit acts (.put event (some handle))
  | refuse (event : Event) (hfull : limit = some (count acts)) : Proper limit acts (.put event none)
  | take {handle : EventHandle} (hlive : Live acts handle) : Proper limit acts (.take handle true)
  | miss {handle : EventHandle} (hdead : ¬ Live acts handle) :
      Proper limit acts (.take handle false)
  | find {handle : EventHandle} {event : Event} (hfiled : (handle, event) ∈ filed acts)
      (hlive : Live acts handle) : Proper limit acts (.look handle (some event))
  | lack {handle : EventHandle} (hdead : ¬ Live acts handle) : Proper limit acts (.look handle none)
  | size : Proper limit acts (.size (count acts))

/-- All these acts are those of a bounded map with fresh keys. -/
inductive Conforms (limit : Option Nat) : List TableAct → Prop
  | nil : Conforms limit []
  | concat {acts : List TableAct} {act : TableAct} (hacts : Conforms limit acts)
      (hact : Proper limit acts act) : Conforms limit (acts ++ [act])

variable {limit : Option Nat} {acts : List TableAct} {handle : EventHandle} {event : Event}

@[simp] theorem filed_append (acts acts' : List TableAct) :
    filed (acts ++ acts') = filed acts ++ filed acts' :=
  List.filterMap_append

@[simp] theorem issued_append (acts acts' : List TableAct) :
    issued (acts ++ acts') = issued acts ++ issued acts' := by
  simp [issued]

@[simp] theorem destroyed_append (acts acts' : List TableAct) :
    destroyed (acts ++ acts') = destroyed acts ++ destroyed acts' :=
  List.filterMap_append

@[simp] theorem filed_singleton (act : TableAct) : filed [act] = (filing? act).toList := by
  cases h : filing? act <;> simp [filed, h]

@[simp] theorem issued_singleton (act : TableAct) :
    issued [act] = (filing? act).toList.map (·.1) := by
  simp [issued]

@[simp] theorem destroyed_singleton (act : TableAct) : destroyed [act] = (taken? act).toList := by
  cases h : taken? act <;> simp [destroyed, h]

theorem mem_issued_of_mem_filed (h : (handle, event) ∈ filed acts) : handle ∈ issued acts :=
  List.mem_map.2 ⟨_, h, rfl⟩

namespace Conforms

/-- The n-th number given out is n. -/
theorem numbered (h : Conforms limit acts) :
    issued acts = (List.range (issued acts).length).map fun n => ⟨n + 1⟩ := by
  induction h with
  | nil => rfl
  | @concat acts act _ hact ih =>
    cases hact with
    | @put event handle _ hfresh =>
      obtain ⟨number⟩ := handle
      rw [show number = (issued acts).length + 1 from hfresh]
      simpa [filing?, List.range_succ] using ih
    | refuse | take | miss | find | lack | size => simpa [filing?] using ih

theorem number_le (h : Conforms limit acts) (hissued : handle ∈ issued acts) :
    1 ≤ handle.number ∧ handle.number ≤ (issued acts).length := by
  rw [h.numbered] at hissued
  obtain ⟨n, hn, rfl⟩ := List.mem_map.1 hissued
  have hlt : n < (issued acts).length := List.mem_range.1 hn
  exact ⟨by simp, hlt⟩

/-- No number is given out twice. -/
theorem nodup (h : Conforms limit acts) : (issued acts).Nodup := by
  rw [h.numbered]
  refine List.Nodup.map (fun m n heq => ?_) List.nodup_range
  simpa using heq

/-- No number is taken out twice, and none that was not given out. -/
theorem destroyed_once (h : Conforms limit acts) :
    (destroyed acts).Nodup ∧ ∀ handle ∈ destroyed acts, handle ∈ issued acts := by
  induction h with
  | nil => simp [destroyed]
  | @concat acts act _ hact ih =>
    obtain ⟨hnodup, hissued⟩ := ih
    cases hact with
    | @take handle hlive =>
      refine ⟨?_, ?_⟩
      · simpa [taken?, List.nodup_append] using ⟨hnodup, fun x hx heq => hlive.2 (heq ▸ hx)⟩
      · simpa [taken?, filing?, or_imp, forall_and] using ⟨hissued, hlive.1⟩
    | put | refuse | miss | find | lack | size =>
      simp only [destroyed_append, destroyed_singleton, issued_append, taken?, Option.toList_none,
        List.append_nil]
      exact ⟨hnodup, fun handle hmem => List.mem_append_left _ (hissued handle hmem)⟩

/-- As many numbers as are taken out were given out. -/
theorem length_destroyed_le (h : Conforms limit acts) :
    (destroyed acts).length ≤ (issued acts).length :=
  (List.subperm_of_subset h.destroyed_once.1 h.destroyed_once.2).length_le

/-- There are never more events than there may be. -/
theorem count_le (h : Conforms limit acts) {max : Nat} (hlimit : limit = some max) :
    count acts ≤ max := by
  subst hlimit
  induction h with
  | nil => simp [count, issued, filed]
  | @concat acts act hacts hact ih =>
    cases hact with
    | put _ hroom =>
      have hne : max ≠ count acts := fun heq => hroom (congrArg some heq)
      have hle : (destroyed acts).length ≤ (issued acts).length := hacts.length_destroyed_le
      simp only [count, destroyed_append, destroyed_singleton, issued_append, issued_singleton,
        taken?, filing?, Option.toList_none, Option.toList_some, List.append_nil, List.map_cons,
        List.map_nil, List.length_append, List.length_singleton] at ih hne ⊢
      omega
    | take => simp [count, taken?, filing?] at ih ⊢; omega
    | refuse | miss | find | lack | size => simpa [count, taken?, filing?] using ih

end Conforms

end TableAct

/-! ## Tables -/

open TableAct

/-- What tables do. -/
inductive Table.Acts (table : Table) : TableAct → Table → Prop
  | put {event : Event} {handle : EventHandle} {filled : Table}
      (h : table.insert? event = some (handle, filled)) :
      Table.Acts table (.put event (some handle)) filled
  | refuse {event : Event} (h : table.insert? event = none) :
      Table.Acts table (.put event none) table
  | take {handle : EventHandle} {event : Event} (h : table.find? handle = some event) :
      Table.Acts table (.take handle true) (table.erase handle)
  | miss {handle : EventHandle} (h : table.find? handle = none) :
      Table.Acts table (.take handle false) table
  | look (handle : EventHandle) : Table.Acts table (.look handle (table.find? handle)) table
  | size : Table.Acts table (.size table.size) table

/-- The table after these acts. -/
structure Represents (limit : Option Nat) (table : Table) (acts : List TableAct) : Prop where
  limit : table.limit = limit
  next : table.next = (issued acts).length + 1
  events : table.events = (filed acts).filter fun entry => entry.1 ∉ destroyed acts

namespace Represents

variable {limit : Option Nat} {table table' : Table} {acts : List TableAct} {act : TableAct}
  {handle : EventHandle} {event : Event}

theorem start (limit : Option Nat) : Represents limit { limit := limit } [] := ⟨rfl, rfl, rfl⟩

theorem mem_events (h : Represents limit table acts) :
    (handle, event) ∈ table.events ↔ (handle, event) ∈ filed acts ∧ handle ∉ destroyed acts := by
  rw [h.events]
  simp

/-- A number is found exactly while it is live. -/
theorem find?_eq_none_iff (h : Represents limit table acts) :
    table.find? handle = none ↔ ¬ Live acts handle := by
  rw [Table.find?, List.lookup_eq_none_iff]
  constructor
  · rintro hnone ⟨hissued, halive⟩
    obtain ⟨⟨_, event⟩, hfiled, rfl⟩ := List.mem_map.1 hissued
    simpa using hnone _ (h.mem_events.2 ⟨hfiled, halive⟩)
  · rintro hdead ⟨number, event⟩ hmem
    obtain ⟨hfiled, halive⟩ := h.mem_events.1 hmem
    have hne : handle ≠ number := by
      rintro rfl
      exact hdead ⟨mem_issued_of_mem_filed hfiled, halive⟩
    simpa using hne

theorem live_of_find? (h : Represents limit table acts) (hfind : table.find? handle = some event) :
    (handle, event) ∈ filed acts ∧ Live acts handle := by
  obtain ⟨before, after, hsplit, -⟩ := List.lookup_eq_some_iff.1 hfind
  obtain ⟨hfiled, halive⟩ := h.mem_events.1 (show (handle, event) ∈ table.events by simp [hsplit])
  exact ⟨hfiled, mem_issued_of_mem_filed hfiled, halive⟩

/-- As many events are there as were put in and not taken out. -/
theorem size_eq (h : Represents limit table acts) (hacts : Conforms limit acts) :
    table.size + (destroyed acts).length = (issued acts).length := by
  obtain ⟨hnodup, hissued⟩ := hacts.destroyed_once
  have htaken : ((issued acts).filter fun handle => handle ∈ destroyed acts).Perm
      (destroyed acts) := by
    rw [List.perm_ext_iff_of_nodup (hacts.nodup.filter _) hnodup]
    intro handle
    simpa using hissued handle
  have hkeys : table.size = ((issued acts).filter fun handle => handle ∉ destroyed acts).length := by
    rw [Table.size, h.events, issued, List.filter_map, List.length_map]
    rfl
  have hall := List.length_eq_length_filter_add (l := issued acts)
    fun handle => decide (handle ∈ destroyed acts)
  rw [htaken.length_eq] at hall
  rw [hkeys, hall, Nat.add_comm]
  simp

theorem size_eq_count (h : Represents limit table acts) (hacts : Conforms limit acts) :
    table.size = count acts := by
  have hsize := h.size_eq hacts
  rw [count]
  omega

/-- A table does what is proper. -/
theorem proper (h : Represents limit table acts) (hacts : Conforms limit acts)
    (hact : table.Acts act table') : Proper limit acts act := by
  have hsize := h.size_eq_count hacts
  cases hact with
  | @put event handle _ hinsert =>
    rw [Table.insert?] at hinsert
    split at hinsert
    · cases hinsert
    next hroom =>
      cases hinsert
      refine .put event (fun hlimit => hroom ?_) h.next
      simp [Table.isFull, h.limit, hlimit, hsize]
  | @refuse event hinsert =>
    have hfull := (Table.insert?_eq_none_iff table event).1 hinsert
    rw [Table.isFull, h.limit] at hfull
    cases hlimit : limit with
    | none => simp [hlimit] at hfull
    | some max =>
      have hle := hacts.count_le hlimit
      have hge : max ≤ table.size := by simpa [hlimit] using hfull
      exact .refuse event (congrArg some (by omega))
  | take hfind => exact .take (h.live_of_find? hfind).2
  | miss hfind => exact .miss (h.find?_eq_none_iff.1 hfind)
  | look handle =>
    cases hfind : table.find? handle with
    | none => exact .lack (h.find?_eq_none_iff.1 hfind)
    | some event => exact .find (h.live_of_find? hfind).1 (h.live_of_find? hfind).2
  | size => exact hsize ▸ .size

/-- After an act, a table is as the acts say. -/
theorem after (h : Represents limit table acts) (hacts : Conforms limit acts)
    (hact : table.Acts act table') : Represents limit table' (acts ++ [act]) := by
  have hnext := h.next
  cases hact with
  | @put event handle filled hinsert =>
    rw [Table.insert?] at hinsert
    split at hinsert
    · cases hinsert
    next hroom =>
      cases hinsert
      -- a number that is given out now was not taken out before
      have hfresh : table.nextHandle ∉ destroyed acts := by
        intro hmem
        have hle : table.next ≤ (issued acts).length :=
          (hacts.number_le (hacts.destroyed_once.2 _ hmem)).2
        omega
      refine ⟨h.limit, by simp [filing?, hnext], ?_⟩
      simp [filing?, taken?, h.events, hfresh]
  | take =>
    refine ⟨h.limit, by simp [filing?, Table.erase, hnext], ?_⟩
    simp only [Table.erase, h.events, filed_append, filed_singleton, destroyed_append,
      destroyed_singleton, filing?, taken?, Option.toList_none, Option.toList_some, List.append_nil,
      List.filter_filter]
    refine List.filter_congr fun entry _ => ?_
    simp [and_comm]
  | refuse | miss | look | size =>
    refine ⟨h.limit, by simp [filing?, hnext], ?_⟩
    simp [filing?, taken?, h.events]

end Represents

end SyncPoint
