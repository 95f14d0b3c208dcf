import Lumio.Lib.FixedWindow
import Lumio.Lib.Machine
import Lumio.Lib.Table
import Lumio.Lib.Text

/-!
# Rate limits

A counter for every key, in fixed windows. Counters of windows that are over are dropped about once a minute, whenever some
key is used.
-/

namespace Lumio.Control

open FixedWindow (Window countIn Admitted)

structure Rule where
  limit : Nat
  window : Int
deriving DecidableEq

structure Counter where
  count : Nat
  windowStart : Int
deriving DecidableEq

structure Limiter where
  counters : Table Text Counter
  lastGC : Int

/-- `time.Minute`, in nanoseconds -/
def minute : Int := 60000000000

/-- `time.Hour` -/
def hour : Int := 60 * minute

/-- `Time.Sub`: a duration has 64 bits. -/
def timeSub (t u : Int) : Int := max (-2 ^ 63) (min (2 ^ 63 - 1) (t - u))

def newWithClock (now : Int) : Limiter := ⟨∅, now⟩

def gcLocked (now : Int) (l : Limiter) : Limiter :=
  if timeSub now l.lastGC < minute then l
  else ⟨l.counters.keep fun _ c => !decide (hour < timeSub now c.windowStart), now⟩

def openWindow (now : Int) (key : Text) (l : Limiter) : Limiter × Bool × Int :=
  ({ l with counters := l.counters.insert key ⟨1, now⟩ }, true, 0)

def allowLocked (now : Int) (key : Text) (rule : Rule) (l : Limiter) : Limiter × Bool × Int :=
  match l.counters.lookup key with
  | none => openWindow now key l
  | some c =>
    if rule.window ≤ timeSub now c.windowStart then openWindow now key l
    else if rule.limit ≤ c.count then (l, false, rule.window - timeSub now c.windowStart)
    else ({ l with counters := l.counters.insert key { c with count := c.count + 1 } }, true, 0)

def allow (now : Int) (key : Text) (rule : Rule) (l : Limiter) : Limiter × Bool × Int :=
  allowLocked now key rule (gcLocked now l)

/-- `Reset` -/
def reset (key : Text) (l : Limiter) : Limiter := { l with counters := l.counters.erase key }

/-! ## Runs -/

structure LimiterCall where
  now : Int
  key : Text

def limiterMachine (rules : Text → Rule) : Machine Limiter LimiterCall (Bool × Int) :=
  ⟨fun l call => allow call.now call.key (rules call.key) l⟩

abbrev LimiterEntry := Machine.Entry Limiter LimiterCall (Bool × Int)

def allowedTimes (key : Text) (log : List LimiterEntry) : List Int :=
  log.filterMap fun e => if e.call.key = key ∧ e.answer.1 = true then some e.call.now else none

def Clocked (start : Int) (calls : List LimiterCall) : Prop := (start :: calls.map (·.now)).Pairwise (· ≤ ·)

instance (start : Int) (calls : List LimiterCall) : Decidable (Clocked start calls) :=
  inferInstanceAs (Decidable (List.Pairwise _ _))

/-! ## One call -/

section Step

variable {now then' start width : Int} {key other : Text} {rule : Rule} {l : Limiter} {c : Counter} {times : List Int}
  {windows : List Window}

theorem timeSub_lt_iff (hstart : start ≤ now) (hwidth : width ≤ hour) :
    timeSub now start < width ↔ now < start + width := by
  unfold timeSub
  unfold hour minute at hwidth
  omega

theorem timeSub_of_lt (hstart : start ≤ now) (hwidth : width ≤ hour) (h : now < start + width) :
    timeSub now start = now - start := by
  unfold timeSub
  unfold hour minute at hwidth
  omega

theorem lookup_gcLocked (h : (gcLocked now l).counters.lookup key = some c) : l.counters.lookup key = some c := by
  unfold gcLocked at h
  split_ifs at h
  · exact h
  · exact (Table.lookup_keep.mp h).1

theorem lookup_gcLocked_of_running (hwidth : width ≤ hour) (hstart : c.windowStart ≤ now)
    (hrunning : now < c.windowStart + width) (h : l.counters.lookup key = some c) :
    (gcLocked now l).counters.lookup key = some c := by
  unfold gcLocked
  split_ifs
  · exact h
  · apply Table.lookup_keep.mpr
    have hnot : ¬hour < timeSub now c.windowStart := by
      rw [timeSub_of_lt hstart hwidth hrunning]
      omega
    simp [h, hnot]

/-- The counter of a key is its last window, and a key without counter has no window in progress. -/
structure Tracks (rule : Rule) (key : Text) (now : Int) (l : Limiter) (times : List Int) (windows : List Window) : Prop where
  admitted : Admitted rule.limit rule.window times windows
  counter : ∀ c, l.counters.lookup key = some c →
    c.windowStart ≤ now ∧ ∃ earlier, windows = ⟨c.windowStart, c.count⟩ :: earlier
  ended : l.counters.lookup key = none → ∀ w ∈ windows.head?, w.start + rule.window ≤ now

theorem Tracks.gc (hwindow : rule.window ≤ hour) (hnow : then' ≤ now) (h : Tracks rule key then' l times windows) :
    Tracks rule key now (gcLocked now l) times windows where
  admitted := h.admitted
  counter c hc := by
    obtain ⟨hstart, earlier, hwindows⟩ := h.counter c (lookup_gcLocked hc)
    exact ⟨hstart.trans hnow, earlier, hwindows⟩
  ended hnone w hw := by
    cases hc : l.counters.lookup key with
    | none => exact (h.ended hc w hw).trans hnow
    | some c =>
      obtain ⟨hstart, earlier, rfl⟩ := h.counter c hc
      cases hw
      by_contra hrunning
      have hkept := lookup_gcLocked_of_running hwindow (hstart.trans hnow) (not_le.mp hrunning) hc
      rw [hkept] at hnone
      cases hnone

def allowedTime (now : Int) (allowed : Bool) : List Int := if allowed = true then [now] else []

theorem Tracks.allowLocked (hwindow : rule.window ≤ hour) (h : Tracks rule key now l times windows) :
    ∃ windows', Tracks rule key now (allowLocked now key rule l).1
        (times ++ allowedTime now (allowLocked now key rule l).2.1) windows' ∧
      windows.map (·.start) ⊆ windows'.map (·.start) := by
  have hopens : (∀ w ∈ windows.head?, w.start + rule.window ≤ now) →
      Tracks rule key now (openWindow now key l).1 (times ++ [now]) (⟨now, 1⟩ :: windows) := by
    intro hended
    refine ⟨.opens h.admitted hended, fun c hc => ?_, fun hnone => ?_⟩
    · rw [openWindow, AList.lookup_insert] at hc
      cases hc
      exact ⟨le_rfl, windows, rfl⟩
    · rw [openWindow, AList.lookup_insert] at hnone
      cases hnone
  unfold Control.allowLocked
  split
  · rename_i hnone
    exact ⟨_, hopens (h.ended hnone), List.subset_cons_self _ _⟩
  · rename_i c hc
    obtain ⟨hstart, earlier, rfl⟩ := h.counter c hc
    split_ifs with hover hfull
    · refine ⟨_, hopens ?_, List.subset_cons_self _ _⟩
      rintro w hw
      cases hw
      by_contra hrunning
      have hlt := (timeSub_lt_iff hstart hwindow).mpr (not_le.mp hrunning)
      omega
    · refine ⟨_, ?_, List.Subset.refl _⟩
      rw [show allowedTime now false = [] from rfl, List.append_nil]
      exact h
    · have hrunning := (timeSub_lt_iff hstart hwindow).mp (not_le.mp hover)
      refine ⟨⟨c.windowStart, c.count + 1⟩ :: earlier,
        ⟨.admits h.admitted hstart hrunning (not_le.mp hfull), fun d hd => ?_, fun hnone => ?_⟩, ?_⟩
      · rw [AList.lookup_insert] at hd
        cases hd
        exact ⟨hstart, earlier, rfl⟩
      · rw [AList.lookup_insert] at hnone
        cases hnone
      · exact List.Subset.refl _

theorem lookup_allowLocked_ne (hne : key ≠ other) :
    (Control.allowLocked now other rule l).1.counters.lookup key = l.counters.lookup key := by
  unfold Control.allowLocked openWindow
  split
  · exact AList.lookup_insert_ne hne
  · split_ifs
    · exact AList.lookup_insert_ne hne
    · rfl
    · exact AList.lookup_insert_ne hne

theorem Tracks.mono (hnow : then' ≤ now) (h : Tracks rule key then' l times windows) : Tracks rule key now l times windows where
  admitted := h.admitted
  counter c hc := ⟨(h.counter c hc).1.trans hnow, (h.counter c hc).2⟩
  ended hnone w hw := (h.ended hnone w hw).trans hnow

end Step

/-! ## What holds along a run -/

section Runs

variable {rules : Text → Rule} {start now : Int} {key : Text} {l : Limiter} {call again : LimiterCall}
  {calls pre post between : List LimiterCall} {times : List Int} {windows : List Window}

theorem Clocked.head (h : Clocked start (call :: calls)) : start ≤ call.now :=
  (List.pairwise_cons.mp h).1 _ List.mem_cons_self

theorem Clocked.tail (h : Clocked start (call :: calls)) : Clocked call.now calls := (List.pairwise_cons.mp h).2

theorem allowedTimes_append (log more : List LimiterEntry) :
    allowedTimes key (log ++ more) = allowedTimes key log ++ allowedTimes key more := List.filterMap_append

theorem allowedTimes_entry (h : call.key = key) : allowedTimes key [(limiterMachine rules).entry l call] =
    allowedTime call.now (allow call.now key (rules key) l).2.1 := by
  subst h
  have hentry : (limiterMachine rules).entry l call = ⟨l, call, (allow call.now call.key (rules call.key) l).2⟩ := rfl
  rw [hentry]
  generalize (allow call.now call.key (rules call.key) l).2 = answer
  obtain ⟨allowed, delay⟩ := answer
  cases allowed <;> simp [allowedTimes, allowedTime]

theorem allowedTimes_entry_ne (h : call.key ≠ key) : allowedTimes key [(limiterMachine rules).entry l call] = [] := by
  have hkey : ((limiterMachine rules).entry l call).call.key = call.key := rfl
  simp [allowedTimes, hkey, h]

theorem Tracks.step (call : LimiterCall) (hwindow : (rules key).window ≤ hour) (hnow : start ≤ call.now)
    (h : Tracks (rules key) key start l times windows) :
    ∃ windows', Tracks (rules key) key call.now ((limiterMachine rules).step l call).1
        (times ++ allowedTimes key [(limiterMachine rules).entry l call]) windows' ∧
      windows.map (·.start) ⊆ windows'.map (·.start) := by
  have hgc := h.gc hwindow hnow
  by_cases hkey : call.key = key
  · rw [allowedTimes_entry hkey]
    subst hkey
    exact hgc.allowLocked hwindow
  · rw [allowedTimes_entry_ne hkey, List.append_nil]
    have hlookup : ((limiterMachine rules).step l call).1.counters.lookup key = (gcLocked call.now l).counters.lookup key :=
      lookup_allowLocked_ne (Ne.symm hkey)
    refine ⟨windows, ⟨hgc.admitted, fun c hc => hgc.counter c (hlookup ▸ hc), fun hnone => hgc.ended (hlookup ▸ hnone)⟩, ?_⟩
    exact List.Subset.refl _

theorem Tracks.run (hwindow : (rules key).window ≤ hour) (hclock : Clocked start calls) (hstart : start ≤ now)
    (hcalls : ∀ call ∈ calls, call.now ≤ now) (h : Tracks (rules key) key start l times windows) :
    ∃ windows', Tracks (rules key) key now ((limiterMachine rules).run l calls)
        (times ++ allowedTimes key ((limiterMachine rules).log l calls)) windows' ∧
      windows.map (·.start) ⊆ windows'.map (·.start) := by
  induction calls generalizing start l times windows with
  | nil =>
    refine ⟨windows, ?_, List.Subset.refl _⟩
    rw [show allowedTimes key ((limiterMachine rules).log l []) = [] from rfl, List.append_nil]
    exact h.mono hstart
  | cons call calls ih =>
    obtain ⟨between, hbetween, hsubset⟩ := h.step call hwindow hclock.head
    obtain ⟨windows', hrun, hsubset'⟩ := ih hclock.tail (hcalls call List.mem_cons_self)
      (fun other hother => hcalls other (List.mem_cons_of_mem _ hother)) hbetween
    refine ⟨windows', ?_, fun s hs => hsubset' (hsubset hs)⟩
    rw [List.append_assoc, ← allowedTimes_append] at hrun
    exact hrun

theorem Tracks.new (rules : Text → Rule) (key : Text) (start : Int) :
    Tracks (rules key) key start (newWithClock start) [] [] where
  admitted := .nil
  counter c hc := by cases hc
  ended _ w hw := by cases hw

theorem Clocked.append_left (h : Clocked start (pre ++ post)) : Clocked start pre := by
  rw [Clocked, List.map_append, ← List.cons_append] at h
  exact (List.pairwise_append.mp h).1

theorem Clocked.middle (h : Clocked start (pre ++ call :: post)) :
    start ≤ call.now ∧ (∀ earlier ∈ pre, earlier.now ≤ call.now) ∧ Clocked call.now (call :: post) := by
  induction pre generalizing start with
  | nil => exact ⟨h.head, (fun _ hearlier => by cases hearlier), List.pairwise_cons.mpr ⟨fun t ht => by
    rcases List.mem_cons.mp ht with rfl | ht
    · exact le_rfl
    · exact (List.pairwise_cons.mp h.tail).1 t ht, h.tail⟩⟩
  | cons first pre ih =>
    obtain ⟨hfirst, hpre, hpost⟩ := ih h.tail
    refine ⟨h.head.trans hfirst, fun earlier hearlier => ?_, hpost⟩
    rcases List.mem_cons.mp hearlier with rfl | hearlier
    · exact hfirst
    · exact hpre earlier hearlier

theorem tracks_before (hwindow : (rules key).window ≤ hour) (hclock : Clocked start (pre ++ call :: post)) :
    ∃ windows, Tracks (rules key) key call.now ((limiterMachine rules).run (newWithClock start) pre)
      (allowedTimes key ((limiterMachine rules).log (newWithClock start) pre)) windows := by
  obtain ⟨hstart, hpre, -⟩ := hclock.middle
  obtain ⟨windows, hrun, -⟩ := (Tracks.new rules key start).run hwindow hclock.append_left hstart hpre
  exact ⟨windows, hrun⟩

theorem exists_end (start : Int) (calls : List LimiterCall) : ∃ now, start ≤ now ∧ ∀ call ∈ calls, call.now ≤ now := by
  induction calls with
  | nil => exact ⟨start, le_rfl, fun _ hcall => by cases hcall⟩
  | cons call calls ih =>
    obtain ⟨now, hstart, hcalls⟩ := ih
    refine ⟨max now call.now, hstart.trans (le_max_left _ _), fun other hother => ?_⟩
    rcases List.mem_cons.mp hother with rfl | hother
    · exact le_max_right _ _
    · exact (hcalls other hother).trans (le_max_left _ _)

theorem tracks_all (hwindow : (rules key).window ≤ hour) (hclock : Clocked start (pre ++ post)) :
    ∃ now windows, Tracks (rules key) key now ((limiterMachine rules).run (newWithClock start) (pre ++ post))
        (allowedTimes key ((limiterMachine rules).log (newWithClock start) (pre ++ post))) windows ∧
      ∀ c, ((limiterMachine rules).run (newWithClock start) pre).counters.lookup key = some c →
        c.windowStart ∈ windows.map (·.start) := by
  cases post with
  | nil =>
    obtain ⟨now, hstart, hcalls⟩ := exists_end start pre
    rw [List.append_nil] at hclock ⊢
    obtain ⟨windows, hrun, -⟩ := (Tracks.new rules key start).run hwindow hclock hstart hcalls
    refine ⟨now, windows, hrun, fun c hc => ?_⟩
    obtain ⟨-, earlier, rfl⟩ := hrun.counter c hc
    exact List.mem_cons_self
  | cons call post =>
    obtain ⟨before, hbefore⟩ := tracks_before hwindow hclock
    obtain ⟨-, -, hpost⟩ := hclock.middle
    obtain ⟨now, hstart, hcalls⟩ := exists_end call.now (call :: post)
    obtain ⟨windows, hrun, hsubset⟩ := hbefore.run hwindow hpost hstart hcalls
    rw [← allowedTimes_append, ← Machine.log_append, ← Machine.run_append] at hrun
    refine ⟨now, windows, hrun, fun c hc => hsubset ?_⟩
    obtain ⟨-, earlier, rfl⟩ := hbefore.counter c hc
    exact List.mem_cons_self

theorem allow_refused {rule : Rule} {delay : Int} (hwindow : rule.window ≤ hour) (hstart : ∀ c,
    (gcLocked now l).counters.lookup key = some c → c.windowStart ≤ now) (h : (allow now key rule l).2 = (false, delay)) :
    ∃ c, (gcLocked now l).counters.lookup key = some c ∧ now < c.windowStart + rule.window ∧ rule.limit ≤ c.count ∧
      now + delay = c.windowStart + rule.window := by
  unfold allow allowLocked openWindow at h
  split at h
  · cases h
  · rename_i c hc
    split_ifs at h with hover hfull
    · cases h
    · have hrunning := (timeSub_lt_iff (hstart c hc) hwindow).mp (not_le.mp hover)
      have hsub := timeSub_of_lt (hstart c hc) hwindow hrunning
      have hdelay : rule.window - timeSub now c.windowStart = delay := (Prod.mk.inj h).2
      exact ⟨c, hc, hrunning, hfull, by omega⟩
    · cases h

theorem allow_cases (now : Int) (key : Text) (rule : Rule) (l : Limiter) :
    (allow now key rule l).2 = (true, 0) ∨ ∃ delay, (allow now key rule l).2 = (false, delay) := by
  unfold allow allowLocked openWindow
  split
  · exact .inl rfl
  · split_ifs
    · exact .inl rfl
    · exact .inr ⟨_, rfl⟩
    · exact .inl rfl

/-- The counter of the key, with its counting window still running. -/
def CountsAt (rules : Text → Rule) (key : Text) (start : Int) (before : List LimiterCall) (now : Int) (c : Counter) : Prop :=
  ((limiterMachine rules).run (newWithClock start) before).counters.lookup key = some c ∧
    now < c.windowStart + (rules key).window

def allowedInWindow (rules : Text → Rule) (key : Text) (start : Int) (before : List LimiterCall) (c : Counter) : Nat :=
  countIn c.windowStart (c.windowStart + (rules key).window)
    (allowedTimes key ((limiterMachine rules).log (newWithClock start) before))

/-- A window that runs after the delay was not begun before its end: the windows of a key are one after the other. -/
theorem begins_after_delay (hwindow : (rules key).window ≤ hour)
    (hclock : Clocked start (pre ++ call :: (between ++ again :: post))) {delay : Int}
    (hrefused : (allow call.now key (rules key) ((limiterMachine rules).run (newWithClock start) pre)).2 = (false, delay))
    (hdelay : call.now + delay ≤ again.now) {d : Counter}
    (hd : CountsAt rules key start (pre ++ call :: between) again.now d) : call.now + delay ≤ d.windowStart := by
  obtain ⟨windows, hbefore⟩ := tracks_before hwindow hclock
  obtain ⟨-, -, hpost⟩ := hclock.middle
  have hgc := hbefore.gc hwindow le_rfl
  obtain ⟨c, hc, hrunning, -, hend⟩ := allow_refused hwindow (fun c hc => (hgc.counter c hc).1) hrefused
  obtain ⟨hopened, earlier, rfl⟩ := hgc.counter c hc
  have hwidth : 0 < (rules key).window := by omega
  have hcalls : Clocked call.now ((call :: between) ++ again :: post) := hpost
  obtain ⟨hagain, hbetween, -⟩ := hcalls.middle
  obtain ⟨windows, hrun, hsubset⟩ := hbefore.run hwindow hcalls.append_left hagain hbetween
  rw [← Machine.run_append] at hrun
  obtain ⟨-, earlier', rfl⟩ := hrun.counter d hd.1
  have hstarts := hd.2
  rcases List.mem_cons.mp (hsubset List.mem_cons_self) with hsame | hmem
  · have hsame : c.windowStart = d.windowStart := hsame
    omega
  · obtain ⟨w, hw, hws⟩ := List.mem_map.mp hmem
    have hended : w.start + (rules key).window ≤ d.windowStart := hrun.admitted.ended hwidth.le w hw
    have hws : w.start = c.windowStart := hws
    omega

theorem allowed_of_few (hwindow : (rules key).window ≤ hour) (hlimit : 1 ≤ (rules key).limit)
    (hclock : Clocked start (pre ++ again :: post))
    (hfew : ∀ c, CountsAt rules key start pre again.now c → allowedInWindow rules key start pre c < (rules key).limit) :
    (allow again.now key (rules key) ((limiterMachine rules).run (newWithClock start) pre)).2 = (true, 0) := by
  obtain ⟨windows, hbefore⟩ := tracks_before hwindow hclock
  have hgc := hbefore.gc hwindow le_rfl
  rcases allow_cases again.now key (rules key) ((limiterMachine rules).run (newWithClock start) pre) with h | ⟨delay, h⟩
  · exact h
  · exfalso
    obtain ⟨d, hd, hrunning, hfull, -⟩ := allow_refused hwindow (fun d hd => (hgc.counter d hd).1) h
    obtain ⟨hopened, earlier, rfl⟩ := hgc.counter d hd
    have hcounted : d.count ≤ allowedInWindow rules key start pre d :=
      (hgc.admitted.bounded hlimit (by omega)).counted
    have hless := hfew d ⟨lookup_gcLocked hd, hrunning⟩
    omega

/-! ## The limit -/

structure RateLimited (rules : Text → Rule) (key : Text) (start : Int) (calls : List LimiterCall) : Prop where
  perWindow : ∀ (pre post : List LimiterCall) c, calls = pre ++ post →
    ((limiterMachine rules).run (newWithClock start) pre).counters.lookup key = some c →
    countIn c.windowStart (c.windowStart + (rules key).window)
      (allowedTimes key ((limiterMachine rules).log (newWithClock start) calls)) ≤ (rules key).limit
  sliding : ∀ t, countIn t (t + (rules key).window)
    (allowedTimes key ((limiterMachine rules).log (newWithClock start) calls)) ≤ 2 * (rules key).limit - 1
  kept : ∀ (pre : List LimiterCall) (call : LimiterCall) post c, calls = pre ++ call :: post →
    ((limiterMachine rules).run (newWithClock start) pre).counters.lookup key = some c →
    call.now < c.windowStart + (rules key).window →
    (gcLocked call.now ((limiterMachine rules).run (newWithClock start) pre)).counters.lookup key = some c
  retried : ∀ (pre : List LimiterCall) (call : LimiterCall) (between : List LimiterCall) (again : LimiterCall) post delay,
    calls = pre ++ call :: (between ++ again :: post) →
    call.key = key → again.key = key →
    (allow call.now key (rules key) ((limiterMachine rules).run (newWithClock start) pre)).2 = (false, delay) →
    call.now + delay ≤ again.now →
    (∀ c, CountsAt rules key start (pre ++ call :: between) again.now c → call.now + delay ≤ c.windowStart) ∧
      ((∀ c, CountsAt rules key start (pre ++ call :: between) again.now c →
          allowedInWindow rules key start (pre ++ call :: between) c < (rules key).limit) →
        (allow again.now key (rules key) ((limiterMachine rules).run (newWithClock start) (pre ++ call :: between))).2 =
          (true, 0))

theorem rate_limited (hclock : Clocked start calls) (hlimit : 1 ≤ (rules key).limit) (hwindow : (rules key).window ≤ hour) :
    RateLimited rules key start calls where
  perWindow pre post c hcalls hc := by
    subst hcalls
    obtain ⟨now, windows, hall, hbegun⟩ := tracks_all hwindow hclock
    obtain ⟨w, hw, hstart⟩ := List.mem_map.mp (hbegun c hc)
    rw [← hstart]
    exact hall.admitted.window_le hlimit w hw
  sliding t := by
    have hclock' : Clocked start (calls ++ []) := by rwa [List.append_nil]
    obtain ⟨now, windows, hall, -⟩ := tracks_all hwindow hclock'
    have hsliding := hall.admitted.sliding hlimit t
    rw [List.append_nil] at hsliding
    omega
  kept pre call post c hcalls hc hrunning := by
    subst hcalls
    obtain ⟨windows, hbefore⟩ := tracks_before hwindow hclock
    exact lookup_gcLocked_of_running hwindow (hbefore.counter c hc).1 hrunning hc
  retried pre call between again post delay hcalls _ _ hrefused hdelay := by
    subst hcalls
    have hclock' : Clocked start ((pre ++ call :: between) ++ again :: post) := by
      rwa [List.append_assoc, List.cons_append]
    exact ⟨fun _ hc => begins_after_delay hwindow hclock hrefused hdelay hc, allowed_of_few hwindow hlimit hclock'⟩

/-- A refused call that comes again after its delay is allowed, whatever other calls come in between. -/
def RetriesAllowed (rules : Text → Rule) (key : Text) (start : Int) (calls : List LimiterCall) : Prop :=
  ∀ (pre : List LimiterCall) (call : LimiterCall) (between : List LimiterCall) (again : LimiterCall) post delay,
    calls = pre ++ call :: (between ++ again :: post) →
    call.key = key → again.key = key →
    (allow call.now key (rules key) ((limiterMachine rules).run (newWithClock start) pre)).2 = (false, delay) →
    call.now + delay ≤ again.now →
    (allow again.now key (rules key) ((limiterMachine rules).run (newWithClock start) (pre ++ call :: between))).2 = (true, 0)

end Runs

/-! ## The garbage collection -/

inductive LimiterUse where
  | allow (now : Int) (key : Text)
  | reset (key : Text)

def LimiterUse.time : LimiterUse → Option Int
  | .allow now _ => some now
  | .reset _ => none

/-- The limiter with its garbage collection, or with another one. -/
def limiterWith (collect : Int → Limiter → Limiter) (rules : Text → Rule) :
    Machine Limiter LimiterUse (Option (Bool × Int)) where
  step l use :=
    match use with
    | .allow now key =>
      ((allowLocked now key (rules key) (collect now l)).1, some (allowLocked now key (rules key) (collect now l)).2)
    | .reset key => (reset key l, none)

/-- Counters are missing only if their window is over. -/
structure Hides (rules : Text → Rule) (now : Int) (l whole : Limiter) : Prop where
  begun : ∀ key c, whole.counters.lookup key = some c → c.windowStart ≤ now
  counters : ∀ key, l.counters.lookup key = whole.counters.lookup key ∨ l.counters.lookup key = none ∧
    ∀ c, whole.counters.lookup key = some c → c.windowStart + (rules key).window ≤ now

section Collection

variable {rules : Text → Rule} {start now : Int} {key : Text} {l whole : Limiter} {uses : List LimiterUse}

theorem Hides.gc (hwindow : ∀ key, (rules key).window ≤ hour) (hnow : start ≤ now) (h : Hides rules start l whole) :
    Hides rules now (gcLocked now l) whole where
  begun key c hc := (h.begun key c hc).trans hnow
  counters key := by
    have hdropped : (gcLocked now l).counters.lookup key = none → ∀ c, l.counters.lookup key = some c →
        whole.counters.lookup key = some c → c.windowStart + (rules key).window ≤ now := by
      intro hnone c hc hwhole
      by_contra hrunning
      have hbegun := (h.begun key c hwhole).trans hnow
      rw [lookup_gcLocked_of_running (hwindow key) hbegun (not_le.mp hrunning) hc] at hnone
      cases hnone
    cases hgc : (gcLocked now l).counters.lookup key with
    | some c =>
      have hc := lookup_gcLocked hgc
      obtain hsame | ⟨hnone, -⟩ := h.counters key
      · exact .inl (hc.symm.trans hsame)
      · rw [hnone] at hc
        cases hc
    | none =>
      refine .inr ⟨rfl, fun c hc => ?_⟩
      obtain hsame | ⟨-, hover⟩ := h.counters key
      · exact hdropped hgc c (hsame.trans hc) hc
      · exact (hover c hc).trans hnow

theorem Hides.allowLocked (hwindow : ∀ key, (rules key).window ≤ hour) (h : Hides rules now l whole) (key : Text) :
    (allowLocked now key (rules key) l).2 = (allowLocked now key (rules key) whole).2 ∧
      Hides rules now (allowLocked now key (rules key) l).1 (allowLocked now key (rules key) whole).1 := by
  have hhere : (Control.allowLocked now key (rules key) l).2 = (Control.allowLocked now key (rules key) whole).2 ∧
      (Control.allowLocked now key (rules key) l).1.counters.lookup key =
        (Control.allowLocked now key (rules key) whole).1.counters.lookup key ∧
      ∀ c, (Control.allowLocked now key (rules key) whole).1.counters.lookup key = some c → c.windowStart ≤ now := by
    have hopens : ∀ c, (openWindow now key whole).1.counters.lookup key = some c → c.windowStart ≤ now := by
      intro c hc
      rw [openWindow, AList.lookup_insert] at hc
      cases hc
      exact le_rfl
    have hopened : (openWindow now key l).1.counters.lookup key = (openWindow now key whole).1.counters.lookup key := by
      rw [openWindow, openWindow, AList.lookup_insert, AList.lookup_insert]
    unfold Control.allowLocked
    cases hwhole : whole.counters.lookup key with
    | none =>
      have hnone : l.counters.lookup key = none := (h.counters key).elim (·.trans hwhole) And.left
      rw [hnone]
      exact ⟨rfl, hopened, hopens⟩
    | some c =>
      have hbegun := h.begun key c hwhole
      obtain hsame | ⟨hnone, hover⟩ := h.counters key
      · rw [hsame, hwhole]
        simp only
        split_ifs
        · exact ⟨rfl, hopened, hopens⟩
        · exact ⟨rfl, hsame, fun d hd => Option.some.inj (hwhole.symm.trans hd) ▸ hbegun⟩
        · simp only [AList.lookup_insert, Option.some.injEq, true_and]
          rintro d rfl
          exact hbegun
      · have hended : (rules key).window ≤ timeSub now c.windowStart :=
          not_lt.mp fun hlt => not_le.mpr ((timeSub_lt_iff hbegun (hwindow key)).mp hlt) (hover c hwhole)
        rw [hnone]
        simp only [if_pos hended]
        exact ⟨rfl, hopened, hopens⟩
  refine ⟨hhere.1, fun other c hc => ?_, fun other => ?_⟩
  · obtain rfl | hne := eq_or_ne other key
    · exact hhere.2.2 c hc
    · rw [lookup_allowLocked_ne hne] at hc
      exact h.begun other c hc
  · obtain rfl | hne := eq_or_ne other key
    · exact .inl hhere.2.1
    · rw [lookup_allowLocked_ne hne, lookup_allowLocked_ne hne]
      exact h.counters other

theorem Hides.reset (h : Hides rules now l whole) (key : Text) : Hides rules now (reset key l) (reset key whole) := by
  constructor
  · intro other c hc
    exact h.begun other c (Table.lookup_erase_iff.mp hc).2
  · intro other
    obtain rfl | hne := eq_or_ne other key
    · simp [Control.reset]
    · simpa [Control.reset, hne] using h.counters other

/-- The answers of the limiter do not show that counters are dropped, as long as no window is longer than an hour and the
clock does not go back. -/
theorem collection_unseen (hwindow : ∀ key, (rules key).window ≤ hour)
    (hclock : (start :: uses.filterMap LimiterUse.time).Pairwise (· ≤ ·)) :
    ((limiterWith gcLocked rules).log (newWithClock start) uses).map (·.answer) =
      ((limiterWith (fun _ l => l) rules).log (newWithClock start) uses).map (·.answer) := by
  have hrun : ∀ uses start l whole, Hides rules start l whole →
      (start :: uses.filterMap LimiterUse.time).Pairwise (· ≤ ·) →
      ((limiterWith gcLocked rules).log l uses).map (·.answer) =
        ((limiterWith (fun _ l => l) rules).log whole uses).map (·.answer) := by
    intro uses
    induction uses with
    | nil => exact fun _ _ _ _ _ => rfl
    | cons use uses ih =>
      intro start l whole h hclock
      cases use with
      | allow now key =>
        obtain ⟨hhead, htail⟩ := List.pairwise_cons.mp hclock
        obtain ⟨hanswer, hnext⟩ := (h.gc hwindow (hhead now List.mem_cons_self)).allowLocked hwindow key
        exact List.cons_eq_cons.mpr ⟨congrArg some hanswer, ih now _ _ hnext htail⟩
      | reset key => exact List.cons_eq_cons.mpr ⟨rfl, ih start _ _ (h.reset key) hclock⟩
  refine hrun uses start _ _ ⟨fun key c hc => ?_, fun key => .inl rfl⟩ hclock
  cases hc

end Collection

/-- Two hours after its first call the counter of a key is dropped, before the key is used again. -/
def dropped : List LimiterUse := [.allow 0 ['k'], .allow (2 * hour) ['l'], .allow (2 * hour) ['k'], .reset ['l']]

theorem collection_unseen_dropped :
    ((limiterWith gcLocked fun _ => ⟨1, minute⟩).log (newWithClock 0) dropped).map (·.answer) =
      ((limiterWith (fun _ l => l) fun _ => ⟨1, minute⟩).log (newWithClock 0) dropped).map (·.answer) :=
  collection_unseen (fun _ => by decide) (by decide)

/-! ## Two callers with one key -/

def oncePerMinute : Text → Rule := fun _ => ⟨1, minute⟩

/-- The second call is refused for half a minute, at the end of which another caller is faster; the last call comes when
that caller's window is over too. -/
def contendedCalls : List LimiterCall :=
  [⟨0, ['k']⟩, ⟨30000000000, ['k']⟩, ⟨60000000000, ['k']⟩, ⟨60000000000, ['k']⟩, ⟨200000000000, ['k']⟩]

theorem rate_limited_contended : Clocked 0 contendedCalls ∧ RateLimited oncePerMinute ['k'] 0 contendedCalls :=
  ⟨by decide, rate_limited (by decide) (by decide) (by decide)⟩

theorem not_retriesAllowed : Clocked 0 contendedCalls ∧ 1 ≤ (oncePerMinute ['k']).limit ∧ (oncePerMinute ['k']).window ≤ hour ∧
    ¬RetriesAllowed oncePerMinute ['k'] 0 contendedCalls := by
  refine ⟨by decide, by decide, by decide, fun h => ?_⟩
  have hretry := h [⟨0, ['k']⟩] ⟨30000000000, ['k']⟩ [⟨60000000000, ['k']⟩] ⟨60000000000, ['k']⟩ [⟨200000000000, ['k']⟩]
    30000000000 rfl rfl rfl
    (by decide +kernel) (by decide)
  revert hretry
  decide +kernel

end Lumio.Control
